import Mathlib.Logic.Relation
import Prinbee.Lib.TokenStream

/-!
# Operators of one level of precedence

A parser of expressions has a function for each level of precedence: it reads an operand with the
function of the next level, then operators with an operand behind each of them, and combines from
left to right as it goes.

## Main definitions

* `TokenStream.leftAssociative` — such a function.
* `TokenStream.chain` — its loop, from an operand that was read.
* `TokenStream.Spelled`, `TokenStream.Takes` — a token, from one point to the next.
* `TokenStream.Ended` — what the last token is.

## Main results

* `TokenStream.run_leftAssociative_first`, `TokenStream.run_chain_next`,
  `TokenStream.run_chain_of_stops` — it reads what the grammar says, one operator at a time.
* `TokenStream.leftAssociative_induction` — what it returns comes from a chain of operators.
-/

namespace TokenStream

open Reader

variable {ε τ α ω : Type}

/-- The loop behind the first operand: operators, with an operand behind each of them. -/
def chain (operand : Reader ε τ α) (operator : τ → Option ω)
    (combine : ω → α → α → Reader ε τ α) : α → Reader ε τ α :=
  repeatWhile (fun _ t => (operator t).isSome)
    (fun lhs t =>
      match operator t with
      | none => pure lhs
      | some o => do
        let rhs ← operand
        combine o lhs rhs)

/-- Operators of one level: an operand, then operators with an operand behind each of them, which
are combined from left to right. -/
def leftAssociative (operand : Reader ε τ α) (operator : τ → Option ω)
    (combine : ω → α → α → Reader ε τ α) : Reader ε τ α := do
  let lhs ← operand
  chain operand operator combine lhs

/-- A token that is one of these. -/
def Spelled (p : τ → Prop) (ts rest : TokenStream ε τ) : Prop := ∃ t, ts = .cons t rest ∧ p t

theorem Spelled.length {p : τ → Prop} {ts rest : TokenStream ε τ} (h : Spelled p ts rest) :
    ts.length = rest.length + 1 := by
  obtain ⟨t, rfl, -⟩ := h
  rfl

/-- From one point to the next. -/
def Takes (ts rest : TokenStream ε τ) : Prop := ∃ t, ts = .cons t rest

/-- What the last token is. -/
def Ended (p : τ → Prop) : TokenStream ε τ → Prop
  | .stop t => p t
  | .error _ => True
  | .cons _ rest => Ended p rest

open Relation (TransGen ReflTransGen)

section

variable {p : τ → Prop} {ts rest : TokenStream ε τ}

theorem Spelled.takes (h : Spelled p ts rest) : TransGen Takes ts rest := by
  obtain ⟨t, rfl, -⟩ := h
  exact .single ⟨t, rfl⟩

theorem length_lt_of_takes (h : TransGen Takes ts rest) : rest.length < ts.length := by
  induction h with
  | single h =>
    obtain ⟨t, rfl⟩ := h
    exact Nat.lt_succ_self _
  | tail _ h ih =>
    obtain ⟨t, rfl⟩ := h
    exact Nat.lt_trans (Nat.lt_succ_self _) ih

theorem length_le_of_takes (h : ReflTransGen Takes ts rest) : rest.length ≤ ts.length := by
  induction h with
  | refl => exact Nat.le_refl _
  | tail _ h ih =>
    obtain ⟨t, rfl⟩ := h
    exact Nat.le_trans (Nat.le_succ _) ih

/-- The last token stays the last one. -/
theorem Ended.of_takes (hts : Ended p ts) (h : ReflTransGen Takes ts rest) : Ended p rest := by
  induction h with
  | refl => exact hts
  | tail _ h ih =>
    obtain ⟨t, rfl⟩ := h
    exact ih

/-- A token that is not the last one. -/
theorem Ended.eq_cons {t : τ} (hts : Ended p ts) (hnext : ts.next = .ok (t, rest)) (ht : ¬p t) :
    ts = .cons t rest := by
  cases ts with
  | stop u =>
    cases hnext
    exact absurd hts ht
  | error e => cases hnext
  | cons u left =>
    cases hnext
    rfl

end

section

variable {operand : Reader ε τ α} {operator : τ → Option ω} {combine : ω → α → α → Reader ε τ α}
  {ts ts₁ rest : TokenStream ε τ} {a b c : α}

/-- A turn of a loop that goes on. -/
theorem run_repeatWhile_turn {σ : Type} {continues : σ → τ → Bool} {body : σ → τ → Reader ε τ σ}
    {s r : σ} {t : τ} (hc : continues s t = true) (h : (body s t).run ts = .ok (r, rest)) :
    (repeatWhile continues body s).run (.cons t ts) = (repeatWhile continues body r).run rest := by
  rw [run_repeatWhile_cons, if_pos hc, run_bind, h]

/-- A loop that does not go on. -/
theorem run_repeatWhile_of_stops {σ : Type} {continues : σ → τ → Bool}
    {body : σ → τ → Reader ε τ σ} {s : σ} {t : τ} {left : TokenStream ε τ}
    (hnext : rest.next = .ok (t, left)) (hc : continues s t = false) :
    (repeatWhile continues body s).run rest = .ok (s, rest) := by
  rw [run_repeatWhile_eq_ok]
  cases rest with
  | stop u => exact .stop s u
  | error e => cases hnext
  | cons u v =>
    cases hnext
    exact .done _ hc

/-- The first operand. -/
theorem run_leftAssociative_first (h : operand.run ts = .ok (a, rest)) :
    (leftAssociative operand operator combine).run ts =
      (chain operand operator combine a).run rest := by
  rw [leftAssociative, run_bind, h]

/-- One more operator and its operand. -/
theorem run_chain_next {t : τ} {o : ω} {ts₂ : TokenStream ε τ} (ho : operator t = some o)
    (hb : operand.run ts₁ = .ok (b, ts₂)) (hc : (combine o a b).run ts₂ = .ok (c, rest)) :
    (chain operand operator combine a).run (.cons t ts₁) =
      (chain operand operator combine c).run rest := by
  rw [chain]
  apply run_repeatWhile_turn
  · simp [ho]
  · simp only [ho]
    rw [run_bind, hb]
    exact hc

/-- The end of the operators. -/
theorem run_chain_of_stops {t : τ} {left : TokenStream ε τ} (hnext : rest.next = .ok (t, left))
    (ho : operator t = none) : (chain operand operator combine a).run rest = .ok (a, rest) := by
  apply run_repeatWhile_of_stops hnext
  simp [ho]

/-- **What is returned comes from a chain of operators**: a property of the first operand that every
further operator keeps. -/
theorem leftAssociative_induction {P : α → TokenStream ε τ → Prop}
    (first : ∀ {a rest}, operand.run ts = .ok (a, rest) → P a rest)
    (next : ∀ {a t o ts₁ b ts₂ c rest}, P a (.cons t ts₁) → operator t = some o →
      operand.run ts₁ = .ok (b, ts₂) → (combine o a b).run ts₂ = .ok (c, rest) → P c rest)
    (h : (leftAssociative operand operator combine).run ts = .ok (a, rest)) : P a rest := by
  obtain ⟨lhs, left, hfirst, hloop⟩ := run_bind_eq_ok.1 h
  rw [chain, run_repeatWhile_eq_ok] at hloop
  refine hloop.preserves (first hfirst) fun hP hc hturn => ?_
  obtain ⟨o, ho⟩ := Option.isSome_iff_exists.1 hc
  simp only [ho] at hturn
  obtain ⟨rhs, ts₂, hrhs, hcombine⟩ := run_bind_eq_ok.1 hturn
  exact next hP ho hrhs hcombine

end

end TokenStream
