import Mathlib.Tactic.Common

/-!
# Reading a stream of tokens

A parser of the simple kind: it looks at the first token that is left and takes tokens off, one at
a time, until the end or an error of the lexer.  What it leaves is never longer than what it was
given, so that a loop that takes a token in each turn ends.

## Main definitions

* `TokenStream` — tokens, then the last one again and again, or an error.
* `TokenStream.Reader` — a function that takes tokens off a stream, with the bound on what is left.
* `TokenStream.Reader.Yields` — what a reader returns, whatever the tokens are.
* `TokenStream.repeatWhile` — a loop: as long as the first token is one that continues it.
* `TokenStream.Repeats` — the runs of such a loop.
* `TokenStream.Many`, `TokenStream.Separated` — any number, and a list with separators.

## Main results

* `TokenStream.run_bind_eq_ok` — a reader that returns, step by step.
* `TokenStream.run_repeatWhile_eq_ok` — a loop returns what its runs lead to.
* `TokenStream.run_repeatWhile_many` — a loop whose turns each read one of these reads any number of
  them.
-/

/-- The tokens of a text: those in front of the end, and what comes then. -/
inductive TokenStream (ε τ : Type)
  | stop (t : τ)
  | error (e : ε)
  | cons (t : τ) (rest : TokenStream ε τ)

namespace TokenStream

variable {ε τ α β σ : Type}

/-- The next token and what is left; the last token stays. -/
def next : TokenStream ε τ → Except ε (τ × TokenStream ε τ)
  | stop t => .ok (t, stop t)
  | error e => .error e
  | cons t rest => .ok (t, rest)

/-- The number of tokens in front of the end. -/
def length : TokenStream ε τ → ℕ
  | stop _ => 0
  | error _ => 0
  | cons _ rest => rest.length + 1

theorem length_next_le {ts : TokenStream ε τ} {r : τ × TokenStream ε τ} (h : ts.next = .ok r) :
    r.2.length ≤ ts.length := by
  cases ts with
  | stop t =>
    cases h
    exact Nat.le_refl _
  | error e => cases h
  | cons t rest =>
    cases h
    exact Nat.le_succ _

/-- In front of a token is a token. -/
theorem eq_cons_of_next {ts left : TokenStream ε τ} {t : τ} (h : ts.next = .ok (t, left))
    (hleft : 0 < left.length) : ts = .cons t left := by
  cases ts with
  | stop u =>
    cases h
    exact absurd hleft (Nat.lt_irrefl 0)
  | error e => cases h
  | cons u rest =>
    cases h
    rfl

/-- A token in front of another one is not the last. -/
theorem eq_cons_of_next_ne {ts left left' : TokenStream ε τ} {t u : τ} (h : ts.next = .ok (t, left))
    (hleft : left.next = .ok (u, left')) (hne : u ≠ t) : ts = .cons t left := by
  cases ts with
  | stop v =>
    cases h
    cases hleft
    exact absurd rfl hne
  | error e => cases h
  | cons v rest =>
    cases h
    rfl

/-! ### Readers -/

/-- A function that takes tokens off a stream. -/
def Reader (ε τ α : Type) : Type :=
  (ts : TokenStream ε τ) → Except ε {r : α × TokenStream ε τ // r.2.length ≤ ts.length}

namespace Reader

/-- The call, without the bound. -/
def run (x : Reader ε τ α) (ts : TokenStream ε τ) : Except ε (α × TokenStream ε τ) :=
  match x ts with
  | .error e => .error e
  | .ok r => .ok r.1

theorem length_run_le {x : Reader ε τ α} {ts : TokenStream ε τ} {r : α × TokenStream ε τ}
    (h : x.run ts = .ok r) : r.2.length ≤ ts.length := by
  unfold run at h
  split at h
  · cases h
  · next s hs =>
    cases h
    exact s.2

instance : Monad (Reader ε τ) where
  pure a := fun ts => .ok ⟨(a, ts), Nat.le_refl _⟩
  bind x f := fun ts =>
    match x ts with
    | .error e => .error e
    | .ok r =>
      match f r.1.1 r.1.2 with
      | .error e => .error e
      | .ok s => .ok ⟨s.1, Nat.le_trans s.2 r.2⟩

/-- An exception. -/
def fail (e : ε) : Reader ε τ α := fun _ => .error e

/-- A call that reads no token. -/
def lift (x : Except ε α) : Reader ε τ α := fun ts =>
  match x with
  | .error e => .error e
  | .ok a => .ok ⟨(a, ts), Nat.le_refl _⟩

/-- The first token, which is not taken. -/
def peek : Reader ε τ τ := fun ts =>
  match ts.next with
  | .error e => .error e
  | .ok r => .ok ⟨(r.1, ts), Nat.le_refl _⟩

/-- The first token, which is taken. -/
def take : Reader ε τ τ := fun ts =>
  match h : ts.next with
  | .error e => .error e
  | .ok r => .ok ⟨r, length_next_le h⟩

/-- The first token is taken when it is one of these; the result says whether it was. -/
def takeIf (p : τ → Bool) : Reader ε τ Bool := do
  let t ← peek
  if p t then do
    let _ ← take
    pure true
  else pure false

section

variable {ts : TokenStream ε τ}

@[simp] theorem run_pure (a : α) : (pure a : Reader ε τ α).run ts = .ok (a, ts) := rfl

@[simp] theorem run_fail (e : ε) : (fail e : Reader ε τ α).run ts = .error e := rfl

theorem run_lift (x : Except ε α) : (lift x : Reader ε τ α).run ts =
    match x with
    | .error e => .error e
    | .ok a => .ok (a, ts) := by
  cases x with
  | error e => rfl
  | ok a => rfl

theorem run_lift_eq_ok {x : Except ε α} {r : α × TokenStream ε τ} :
    (lift x : Reader ε τ α).run ts = .ok r ↔ ∃ a, x = .ok a ∧ r = (a, ts) := by
  cases x with
  | error e => simp [run_lift]
  | ok a => simp [run_lift, eq_comm]

/-- Two readers, one after the other. -/
theorem run_bind (x : Reader ε τ α) (f : α → Reader ε τ β) :
    (x >>= f).run ts =
      match x.run ts with
      | .error e => .error e
      | .ok r => (f r.1).run r.2 := by
  simp only [run, bind]
  cases x ts with
  | error e => rfl
  | ok r =>
    simp only
    cases f r.1.1 r.1.2 with
    | error e => rfl
    | ok s => rfl

/-- Two readers, when the first one returns. -/
theorem run_bind_of_ok {x : Reader ε τ α} {f : α → Reader ε τ β} {a : α} {rest : TokenStream ε τ}
    (h : x.run ts = .ok (a, rest)) : (x >>= f).run ts = (f a).run rest := by
  rw [run_bind, h]

/-- A reader that returns, step by step. -/
theorem run_bind_eq_ok {x : Reader ε τ α} {f : α → Reader ε τ β} {r : β × TokenStream ε τ} :
    (x >>= f).run ts = .ok r ↔ ∃ a rest, x.run ts = .ok (a, rest) ∧ (f a).run rest = .ok r := by
  rw [run_bind]
  cases x.run ts with
  | error e => simp
  | ok s =>
    obtain ⟨a, rest⟩ := s
    simp

theorem run_ite (p : Prop) [Decidable p] (x y : Reader ε τ α) :
    (if p then x else y).run ts = if p then x.run ts else y.run ts := by
  split <;> rfl

@[simp] theorem run_take : (take : Reader ε τ τ).run ts = ts.next := by
  unfold run take
  cases ts <;> rfl

theorem run_peek_eq_ok {t : τ} {rest : TokenStream ε τ} :
    (peek : Reader ε τ τ).run ts = .ok (t, rest) ↔
      (∃ left, ts.next = .ok (t, left)) ∧ rest = ts := by
  unfold run peek
  cases ts.next with
  | error e => simp
  | ok r =>
    obtain ⟨u, left⟩ := r
    simp only [Except.ok.injEq, Prod.mk.injEq]
    constructor
    · rintro ⟨rfl, rfl⟩
      exact ⟨⟨left, rfl, rfl⟩, rfl⟩
    · rintro ⟨⟨left', rfl, rfl⟩, rfl⟩
      exact ⟨rfl, rfl⟩

theorem run_peek_of_next {t : τ} {left : TokenStream ε τ} (h : ts.next = .ok (t, left)) :
    (peek : Reader ε τ τ).run ts = .ok (t, ts) := run_peek_eq_ok.2 ⟨⟨left, h⟩, rfl⟩

@[simp] theorem run_peek_cons (t : τ) (left : TokenStream ε τ) :
    (peek : Reader ε τ τ).run (.cons t left) = .ok (t, .cons t left) := rfl

@[simp] theorem run_take_cons (t : τ) (left : TokenStream ε τ) :
    (take : Reader ε τ τ).run (.cons t left) = .ok (t, left) := rfl

theorem run_takeIf {t : τ} {left : TokenStream ε τ} (h : ts.next = .ok (t, left)) (p : τ → Bool) :
    (takeIf p : Reader ε τ Bool).run ts = if p t then .ok (true, left) else .ok (false, ts) := by
  unfold takeIf
  rw [run_bind, run_peek_eq_ok.2 ⟨⟨left, h⟩, rfl⟩]
  simp only [run_ite, run_bind, run_take, h, run_pure]

/-- The first token, and what is read from there. -/
theorem run_peek_bind_eq_ok {f : τ → Reader ε τ β} {r : β × TokenStream ε τ} :
    (peek >>= f).run ts = .ok r ↔ ∃ t left, ts.next = .ok (t, left) ∧ (f t).run ts = .ok r := by
  simp only [run_bind_eq_ok, run_peek_eq_ok]
  constructor
  · rintro ⟨t, rest, ⟨⟨left, hnext⟩, rfl⟩, h⟩
    exact ⟨t, left, hnext, h⟩
  · rintro ⟨t, left, hnext, h⟩
    exact ⟨t, ts, ⟨⟨left, hnext⟩, rfl⟩, h⟩

/-- The first token, and what is read behind it. -/
theorem run_take_bind_eq_ok {f : τ → Reader ε τ β} {r : β × TokenStream ε τ} :
    (take >>= f).run ts = .ok r ↔ ∃ t left, ts.next = .ok (t, left) ∧ (f t).run left = .ok r := by
  simp only [run_bind_eq_ok, run_take]

/-- A token that is taken, and what is read behind it. -/
theorem run_take_bind_cons (t : τ) (left : TokenStream ε τ) (f : τ → Reader ε τ β) :
    (take >>= f).run (.cons t left) = (f t).run left := by
  rw [run_bind, run_take_cons]

/-- The first token when it is one of these, and what is read then. -/
theorem run_takeIf_bind_eq_ok {p : τ → Bool} {f : Bool → Reader ε τ β}
    {r : β × TokenStream ε τ} :
    (takeIf p >>= f).run ts = .ok r ↔ ∃ t left, ts.next = .ok (t, left) ∧
      (f (p t)).run (if p t = true then left else ts) = .ok r := by
  rw [run_bind]
  cases hnext : ts.next with
  | error e =>
    have herror : (takeIf p : Reader ε τ Bool).run ts = .error e := by
      unfold takeIf
      rw [run_bind]
      unfold run peek
      rw [hnext]
    simp [herror]
  | ok s =>
    obtain ⟨t, left⟩ := s
    rw [run_takeIf hnext]
    cases hp : p t with
    | false => simp [hp]
    | true => simp [hp]

end

/-! ### What a reader returns -/

/-- Whatever the tokens are, what is returned satisfies `P`. -/
def Yields (P : α → Prop) (x : Reader ε τ α) : Prop :=
  ∀ ⦃ts : TokenStream ε τ⦄ ⦃a : α⦄ ⦃rest : TokenStream ε τ⦄, x.run ts = .ok (a, rest) → P a

section

variable {P : α → Prop} {Q : β → Prop}

theorem yields_pure {a : α} (h : P a) : Yields P (pure a : Reader ε τ α) := by
  intro ts b rest hb
  cases hb
  exact h

theorem yields_fail (e : ε) : Yields P (fail e : Reader ε τ α) := by
  intro ts b rest hb
  cases hb

theorem Yields.bind {x : Reader ε τ α} {f : α → Reader ε τ β} (hx : Yields P x)
    (hf : ∀ a, P a → Yields Q (f a)) : Yields Q (x >>= f) := by
  intro ts b rest hb
  obtain ⟨a, left, ha, hb⟩ := run_bind_eq_ok.1 hb
  exact hf a (hx ha) hb

/-- The first of two readers does not matter. -/
theorem yields_bind {x : Reader ε τ α} {f : α → Reader ε τ β} (hf : ∀ a, Yields Q (f a)) :
    Yields Q (x >>= f) := by
  intro ts b rest hb
  obtain ⟨a, left, -, hb⟩ := run_bind_eq_ok.1 hb
  exact hf a hb

theorem yields_ite {p : Prop} [Decidable p] {x y : Reader ε τ α} (hx : p → Yields P x)
    (hy : ¬p → Yields P y) : Yields P (if p then x else y) := by
  split
  · next hp => exact hx hp
  · next hp => exact hy hp

end

end Reader

/-! ### Loops -/

open Reader

/-- `while`: as long as the first token is one that continues, it is taken and the body follows. -/
def repeatWhile (continues : σ → τ → Bool) (body : σ → τ → Reader ε τ σ) (s : σ) :
    Reader ε τ σ := fun ts =>
  match ts with
  | .stop t => .ok ⟨(s, .stop t), Nat.le_refl _⟩
  | .error e => .error e
  | .cons t rest =>
    if continues s t then
      match body s t rest with
      | .error e => .error e
      | .ok r =>
        match repeatWhile continues body r.1.1 r.1.2 with
        | .error e => .error e
        | .ok r' => .ok ⟨r'.1, Nat.le_trans (Nat.le_trans r'.2 r.2) (Nat.le_succ _)⟩
    else .ok ⟨(s, .cons t rest), Nat.le_refl _⟩
termination_by ts => ts.length
decreasing_by exact Nat.lt_succ_of_le r.2

/-- The runs of a loop, one turn after the other. -/
inductive Repeats (continues : σ → τ → Bool) (body : σ → τ → Reader ε τ σ) :
    σ → TokenStream ε τ → σ → TokenStream ε τ → Prop
  | stop (s : σ) (t : τ) : Repeats continues body s (.stop t) s (.stop t)
  | done {s : σ} {t : τ} (rest : TokenStream ε τ) (h : continues s t = false) :
    Repeats continues body s (.cons t rest) s (.cons t rest)
  | turn {s s' s'' : σ} {t : τ} {rest ts ts' : TokenStream ε τ} (h : continues s t = true)
    (hbody : (body s t).run rest = .ok (s', ts)) (hrest : Repeats continues body s' ts s'' ts') :
    Repeats continues body s (.cons t rest) s'' ts'

section

variable {continues : σ → τ → Bool} {body : σ → τ → Reader ε τ σ} {s s' : σ}
  {ts ts' : TokenStream ε τ}

theorem run_repeatWhile_cons (t : τ) (rest : TokenStream ε τ) :
    (repeatWhile continues body s).run (.cons t rest) =
      if continues s t = true then (body s t >>= repeatWhile continues body).run rest
      else .ok (s, .cons t rest) := by
  by_cases hc : continues s t = true
  · rw [if_pos hc, run_bind]
    unfold run
    rw [repeatWhile, if_pos hc]
    cases body s t rest with
    | error e => rfl
    | ok r =>
      simp only
      cases repeatWhile continues body r.1.1 r.1.2 with
      | error e => rfl
      | ok r' => rfl
  · rw [if_neg hc]
    unfold run
    rw [repeatWhile, if_neg hc]

theorem run_repeatWhile_stop (t : τ) :
    (repeatWhile continues body s).run (.stop t) = .ok (s, .stop t) := by
  unfold run
  rw [repeatWhile]

theorem run_repeatWhile_error (e : ε) :
    (repeatWhile continues body s).run (.error e) = .error e := by
  unfold run
  rw [repeatWhile]

/-- **A loop returns what its runs lead to.** -/
theorem run_repeatWhile_eq_ok :
    (repeatWhile continues body s).run ts = .ok (s', ts') ↔
      Repeats continues body s ts s' ts' := by
  constructor
  · intro h
    induction hn : ts.length using Nat.strongRecOn generalizing s ts with
    | ind n ih =>
      subst hn
      cases ts with
      | stop t =>
        rw [run_repeatWhile_stop] at h
        cases h
        exact .stop _ t
      | error e =>
        rw [run_repeatWhile_error] at h
        cases h
      | cons t rest =>
        rw [run_repeatWhile_cons] at h
        split at h
        · next hc =>
          obtain ⟨s₁, ts₁, hbody, h⟩ := run_bind_eq_ok.1 h
          exact .turn hc hbody (ih ts₁.length (Nat.lt_succ_of_le (length_run_le hbody)) h rfl)
        · next hc =>
          cases h
          exact .done rest (Bool.eq_false_iff.2 hc)
  · intro h
    induction h with
    | stop s t => exact run_repeatWhile_stop t
    | done rest hc =>
      rw [run_repeatWhile_cons, hc]
      rfl
    | turn hc hbody hrest ih =>
      rw [run_repeatWhile_cons, if_pos hc]
      exact run_bind_eq_ok.2 ⟨_, _, hbody, ih⟩

/-- What a turn preserves, the loop preserves. -/
theorem Repeats.invariant {P : σ → Prop} (h : Repeats continues body s ts s' ts') (hs : P s)
    (hbody : ∀ {s t rest s' ts}, P s → (body s t).run rest = .ok (s', ts) → P s') : P s' := by
  induction h with
  | stop s t => exact hs
  | done rest hc => exact hs
  | turn hc hturn hrest ih => exact ih (hbody hs hturn)

/-- What a turn preserves of the state and of the tokens, the loop preserves. -/
theorem Repeats.preserves {I : σ → TokenStream ε τ → Prop} (h : Repeats continues body s ts s' ts')
    (hs : I s ts)
    (hbody : ∀ {s t rest s' ts}, I s (.cons t rest) → continues s t = true →
      (body s t).run rest = .ok (s', ts) → I s' ts) : I s' ts' := by
  induction h with
  | stop s t => exact hs
  | done rest hc => exact hs
  | turn hc hturn hrest ih => exact ih (hbody hs hc hturn)

theorem yields_repeatWhile {P : σ → Prop} (hs : P s)
    (hbody : ∀ s t, P s → Yields P (body s t)) : Yields P (repeatWhile continues body s) := by
  intro ts s' rest h
  exact (run_repeatWhile_eq_ok.1 h).invariant hs fun hP hturn => hbody _ _ hP hturn

end

/-! ### Grammars -/

/-- What stands on the tokens from one point to another, and its meaning. -/
abbrev Grammar (ε τ α : Type) : Type := TokenStream ε τ → α → TokenStream ε τ → Prop

/-- One after the other, any number of them. -/
inductive Many (R : Grammar ε τ α) : Grammar ε τ (List α)
  | nil (ts : TokenStream ε τ) : Many R ts [] ts
  | cons {ts ts₁ rest : TokenStream ε τ} {a : α} {as : List α} (h : R ts a ts₁)
    (hrest : Many R ts₁ as rest) : Many R ts (a :: as) rest

/-- One of these tokens, and what follows. -/
def After (p : τ → Bool) (R : Grammar ε τ α) : Grammar ε τ α := fun ts a rest =>
  ∃ t left, ts.next = .ok (t, left) ∧ p t = true ∧ R left a rest

/-- One or more, with a separator between two of them. -/
def Separated (sep : τ → Bool) (R : Grammar ε τ α) : Grammar ε τ (List α) := fun ts as rest =>
  ∃ a as' ts₁, as = a :: as' ∧ R ts a ts₁ ∧ Many (After sep R) ts₁ as' rest

/-- From one point, there is at most one way to read. -/
def Deterministic (R : Grammar ε τ α) : Prop :=
  ∀ ⦃ts : TokenStream ε τ⦄ ⦃a : α⦄ ⦃rest : TokenStream ε τ⦄ ⦃a' : α⦄ ⦃rest' : TokenStream ε τ⦄,
    R ts a rest → R ts a' rest' → a = a' ∧ rest = rest'

/-- The loop does not continue here. -/
def Stops (continues : σ → τ → Bool) (s : σ) (rest : TokenStream ε τ) : Prop :=
  (∃ t, rest = .stop t) ∨ ∃ t left, rest = .cons t left ∧ continues s t = false

section

variable {R : Grammar ε τ α} {ts ts' rest rest' : TokenStream ε τ} {as as' : List α}

/-- What is read in one way only is read in one way only any number of times, when it cannot go on
at the end. -/
theorem Many.unique (hR : Deterministic R)
    (hend : ∀ a r, ¬ R rest a r) (hend' : ∀ a r, ¬ R rest' a r) (h : Many R ts as rest)
    (h' : Many R ts as' rest') : as = as' ∧ rest = rest' := by
  induction h generalizing as' with
  | nil ts =>
    cases h' with
    | nil => exact ⟨rfl, rfl⟩
    | cons hfirst _ => exact absurd hfirst (hend _ _)
  | cons hfirst hrest ih =>
    cases h' with
    | nil => exact absurd hfirst (hend' _ _)
    | cons hfirst' hrest' =>
      obtain ⟨rfl, rfl⟩ := hR hfirst hfirst'
      obtain ⟨rfl, rfl⟩ := ih hend hrest'
      exact ⟨rfl, rfl⟩

theorem Deterministic.after {p : τ → Bool} (hR : Deterministic R) : Deterministic (After p R) := by
  rintro ts a rest a' rest' ⟨t, left, hnext, -, h⟩ ⟨t', left', hnext', -, h'⟩
  rw [hnext] at hnext'
  cases hnext'
  exact hR h h'

theorem Separated.unique {sep : τ → Bool} (hR : Deterministic R)
    (hend : ∀ t left, rest.next = .ok (t, left) → sep t = false)
    (hend' : ∀ t left, rest'.next = .ok (t, left) → sep t = false)
    (h : Separated sep R ts as rest) (h' : Separated sep R ts as' rest') :
    as = as' ∧ rest = rest' := by
  obtain ⟨a, tail, ts₁, rfl, hfirst, hmany⟩ := h
  obtain ⟨a', tail', ts₁', rfl, hfirst', hmany'⟩ := h'
  obtain ⟨rfl, rfl⟩ := hR hfirst hfirst'
  have hstop : ∀ {rest : TokenStream ε τ}, (∀ t left, rest.next = .ok (t, left) → sep t = false) →
      ∀ a r, ¬ After sep R rest a r := by
    rintro rest hend a r ⟨t, left, hnext, hsep, -⟩
    rw [hend t left hnext] at hsep
    cases hsep
  obtain ⟨rfl, rfl⟩ := hmany.unique hR.after (hstop hend) (hstop hend') hmany'
  exact ⟨rfl, rfl⟩

theorem many_and {P : α → Prop} :
    Many (fun ts a rest => R ts a rest ∧ P a) ts as rest ↔ Many R ts as rest ∧ ∀ a ∈ as, P a := by
  constructor
  · intro h
    induction h with
    | nil ts => exact ⟨.nil ts, List.forall_mem_nil P⟩
    | cons hfirst hrest ih =>
      exact ⟨.cons hfirst.1 ih.1, List.forall_mem_cons.2 ⟨hfirst.2, ih.2⟩⟩
  · rintro ⟨h, hP⟩
    induction h with
    | nil ts => exact .nil ts
    | cons hfirst hrest ih =>
      obtain ⟨ha, has⟩ := List.forall_mem_cons.1 hP
      exact .cons ⟨hfirst, ha⟩ (ih has)

/-- A loop that does not continue at the next token. -/
theorem stops_of_next {continues : σ → τ → Bool} {s : σ} {t : τ} {left : TokenStream ε τ}
    (hnext : rest.next = .ok (t, left)) (hc : continues s t = false) : Stops continues s rest := by
  cases rest with
  | stop u => exact .inl ⟨u, rfl⟩
  | error e => cases hnext
  | cons u v =>
    cases hnext
    exact .inr ⟨t, left, rfl, hc⟩

/-- Behind a loop is a token at which it does not continue. -/
theorem Repeats.stops {continues : σ → τ → Bool} {body : σ → τ → Reader ε τ σ} {s s' : σ}
    (h : Repeats continues body s ts s' ts') : Stops continues s' ts' := by
  induction h with
  | stop s t => exact .inl ⟨t, rfl⟩
  | done rest hc => exact .inr ⟨_, rest, rfl, hc⟩
  | turn hc hturn hrest ih => exact ih

/-- **A loop whose turns each read one of these reads any number of them.** -/
theorem run_repeatWhile_many {continues : σ → τ → Bool} {body : σ → τ → Reader ε τ σ}
    {update : σ → α → Option σ} {I : σ → Prop} {s s' : σ}
    (hbody : ∀ {s t left s' rest}, I s → continues s t = true →
      ((body s t).run left = .ok (s', rest) ↔ ∃ a, R (.cons t left) a rest ∧ update s a = some s'))
    (hI : ∀ {s a s'}, I s → update s a = some s' → I s')
    (hR : ∀ {s ts a rest}, I s → R ts a rest → ∃ t left, ts = .cons t left ∧ continues s t = true)
    (hs : I s) :
    (repeatWhile continues body s).run ts = .ok (s', rest) ↔
      ∃ as, Many R ts as rest ∧ as.foldlM update s = some s' ∧ Stops continues s' rest := by
  rw [run_repeatWhile_eq_ok]
  constructor
  · intro h
    induction h with
    | stop s t => exact ⟨[], .nil _, rfl, .inl ⟨t, rfl⟩⟩
    | done left hc => exact ⟨[], .nil _, rfl, .inr ⟨_, left, rfl, hc⟩⟩
    | turn hc hturn hrest ih =>
      obtain ⟨a, hread, hupdate⟩ := (hbody hs hc).1 hturn
      obtain ⟨as, hmany, hfold, hstops⟩ := ih (hI hs hupdate)
      refine ⟨a :: as, .cons hread hmany, ?_, hstops⟩
      rw [List.foldlM_cons, hupdate]
      exact hfold
  · rintro ⟨as, hmany, hfold, hstops⟩
    induction hmany generalizing s with
    | nil ts =>
      cases hfold
      rcases hstops with ⟨t, rfl⟩ | ⟨t, left, rfl, hc⟩
      · exact .stop _ t
      · exact .done left hc
    | cons hread hmany ih =>
      rw [List.foldlM_cons, Option.bind_eq_bind, Option.bind_eq_some_iff] at hfold
      obtain ⟨s₁, hupdate, hfold⟩ := hfold
      obtain ⟨t, left, rfl, hc⟩ := hR hs hread
      exact .turn hc ((hbody hs hc).2 ⟨_, hread, hupdate⟩) (ih (hI hs hupdate) hfold hstops)

end

end TokenStream
