import Prinbee.Lib.TokenStream
import Prinbee.Pbql.Lexer

/-!
# The tokens of a script

The parser calls `get_next_token()` again and again.  Each token takes at least one character, so
that a script has finitely many of them, up to its end or to the exception that the lexer throws.

## Main definitions

* `Lexer.ReadsOn` — what a call returns, and that it leaves no more characters than there were.
* `Tokens`, `Lexer.tokens` — what the calls of `get_next_token()` return.

## Main results

* `Lexer.getNextToken_lt` — a token other than the end of the script takes a character.
* `Lexer.next_tokens` — the tokens are what the calls of `get_next_token()` return.
-/

namespace Prinbee

namespace Lexer

open Input

variable {F : Type}

/-- The end of the script. -/
def Token.isEof : Token F → Bool
  | .eof => true
  | _ => false

/-! ### Every token takes a character -/

/-- What the call returns satisfies `P`, and what is left is no longer than what was upcoming. -/
def ReadsOn {α : Type} (P : α → Prop) (i : Input) (x : Except Failure (α × Input)) : Prop :=
  ∀ r, x = .ok r → P r.1 ∧ r.2.upcoming.length ≤ i.upcoming.length

/-- A token that is not the end of the script. -/
def IsToken (n : TokenNode F) : Prop := n.token.isEof = false

section

variable {α : Type} {P : α → Prop} {lib : Library F} {l : Input.Location} {i i' : Input}

theorem readsOn_error (e : Failure) : ReadsOn P i (.error e) := by
  intro r h
  cases h

theorem readsOn_ok {a : α} (ha : P a) (h : i'.upcoming.length ≤ i.upcoming.length) :
    ReadsOn P i (.ok (a, i')) := by
  intro r hr
  cases hr
  exact ⟨ha, h⟩

theorem ReadsOn.mono {x : Except Failure (α × Input)} (h : ReadsOn P i' x)
    (hle : i'.upcoming.length ≤ i.upcoming.length) : ReadsOn P i x := by
  intro r hr
  exact ⟨(h r hr).1, (h r hr).2.trans hle⟩

theorem ReadsOn.getc {x : Except Failure (α × Input)} (h : ReadsOn P i.getc.2 x) :
    ReadsOn P i x :=
  h.mono (length_getc_le i)

/-- The character that was read last is given back. -/
theorem readsOn_ungetc {f : Input → Except Failure (α × Input)} (hf : ∀ j, ReadsOn P j (f j)) :
    ReadsOn P i (i.getc.2.ungetc i.getc.1 >>= f) := by
  intro r hr
  obtain ⟨j, hj, hr⟩ := bind_eq_ok.1 hr
  rw [← upcoming_of_ungetc hj]
  exact hf j r hr

theorem readsOn_return {a : α} (ha : P a) (i : Input) : ReadsOn P i (.ok (a, i)) :=
  readsOn_ok ha (Nat.le_refl _)

theorem readsOn_token {t : Token F} (ht : t.isEof = false) (l : Input.Location)
    (h : i'.upcoming.length ≤ i.upcoming.length) : ReadsOn IsToken i (.ok (⟨t, l⟩, i')) :=
  readsOn_ok (P := IsToken) ht h

/-- A token for which the character that was read last is given back. -/
theorem readsOn_ungetc_token {t : Token F} (ht : t.isEof = false) (l : Input.Location) (i : Input) :
    ReadsOn IsToken i (i.getc.2.ungetc i.getc.1 >>= fun j => .ok (⟨t, l⟩, j)) :=
  readsOn_ungetc fun _ => readsOn_token ht l (Nat.le_refl _)

/-- What `readWhile` stops at is the first character of what is left. -/
theorem readWhile_stop (p : Char → Bool) (f : α → Char → α) (a : α) (i : Input) :
    ∃ i' : Input, i'.upcoming.length ≤ i.upcoming.length ∧ (readWhile p f a i).2 = i'.getc := by
  fun_induction readWhile p f a i with
  | case1 a i hc => exact ⟨i, Nat.le_refl _, by rw [← hc]⟩
  | case2 a i c hc hp ih =>
    obtain ⟨i', hle, heq⟩ := ih
    exact ⟨i', hle.trans (length_getc_le i), heq⟩
  | case3 a i c hc hp => exact ⟨i, Nat.le_refl _, by rw [← hc]⟩

theorem exponent_stop (number : List UInt8) (i : Input) :
    ∃ i' : Input, i'.upcoming.length ≤ i.upcoming.length ∧
      (exponent number i.getc.1 i.getc.2).2 = i'.getc := by
  have hle := length_getc_le i
  have hle' := length_getc_le i.getc.2
  unfold exponent
  split
  · dsimp only
    split
    · obtain ⟨i', h, heq⟩ := readWhile_stop isDigit push (push (push number 'e') '+') i.getc.2.getc.2
      exact ⟨i', h.trans (hle'.trans hle), heq⟩
    · obtain ⟨i', h, heq⟩ := readWhile_stop isDigit push (push (push number 'e') '-') i.getc.2.getc.2
      exact ⟨i', h.trans (hle'.trans hle), heq⟩
    · obtain ⟨i', h, heq⟩ := readWhile_stop isDigit push (push number 'e') i.getc.2
      exact ⟨i', h.trans hle, heq⟩
  · exact ⟨i, Nat.le_refl _, rfl⟩

theorem readsOn_stringLoop (escapeString : Bool) (s : List UInt8) (i : Input) :
    ReadsOn (fun _ => True) i (stringLoop lib escapeString s i) := by
  fun_induction stringLoop lib escapeString s i with
  | case1 s i _ => exact readsOn_error _
  | case2 s i _ _ ih => exact ih.getc.getc
  | case3 s i _ _ => exact (readsOn_ungetc fun j => readsOn_return trivial j).getc
  | case4 s i _ _ => exact readsOn_error _
  | case5 s i c _ _ _ _ e _ => exact readsOn_error _
  | case6 s i c _ _ _ _ r hr ih => exact (ih.mono (length_escapeSequence_le hr)).getc
  | case7 s i c _ _ _ _ ih => exact ih.getc

theorem readsOn_parseString (escapeString : Bool) (l : Input.Location) (i : Input) :
    ReadsOn IsToken i (parseString lib escapeString l i) := by
  intro r hr
  obtain ⟨s, hs, hr⟩ := bind_eq_ok.1 hr
  cases hr
  exact ⟨rfl, (readsOn_stringLoop escapeString [] i s hs).2⟩

theorem length_numberEnd_le {r : Radix} {q : Bool} {j : Input} (h : numberEnd r q i = .ok j) :
    j.upcoming.length ≤ i.upcoming.length := by
  unfold numberEnd at h
  split at h
  · split at h
    · cases h
      exact length_getc_le i
    · cases h
  · exact (congrArg List.length (upcoming_of_ungetc h)).le

theorem length_numberLoop_le {r : Radix} {q found : Bool} {v : UInt512}
    {n : UInt512 × Bool × Input} (h : numberLoop r q v found i = .ok n) :
    n.2.2.upcoming.length ≤ i.upcoming.length := by
  fun_induction numberLoop r q v found i with
  | case1 v found i _ =>
    obtain ⟨j, hj, h⟩ := bind_eq_ok.1 h
    cases h
    exact length_numberEnd_le hj
  | case2 v found i c _ d _ ih => exact (ih h).trans (length_getc_le i)
  | case3 v found i c _ _ _ => cases h
  | case4 v found i c _ _ _ =>
    obtain ⟨j, hj, h⟩ := bind_eq_ok.1 h
    cases h
    exact length_numberEnd_le hj

theorem readsOn_prefixedNumber (r : Radix) (q : Bool) (l : Input.Location) (i : Input) :
    ReadsOn (IsToken (F := F)) i (prefixedNumber r q l i) := by
  intro n hn
  obtain ⟨v, hv, hn⟩ := bind_eq_ok.1 hn
  split at hn
  · cases hn
    exact ⟨rfl, length_numberLoop_le hv⟩
  · cases hn

theorem readsOn_floatingPointNumber (l : Input.Location) (v : UInt512) (i : Input) :
    ReadsOn IsToken i (floatingPointNumber lib l v i) := by
  intro r hr
  obtain ⟨number, hnumber, hr⟩ := bind_eq_ok.1 hr
  obtain ⟨i₁, hle₁, hstop₁⟩ := readWhile_stop isDigit push (push number '.') i
  obtain ⟨i₂, hle₂, hstop₂⟩ :=
    exponent_stop (readWhile isDigit push (push number '.') i).1 i₁
  dsimp only at hr
  rw [hstop₁, hstop₂] at hr
  obtain ⟨j, hj, hr⟩ := bind_eq_ok.1 hr
  have hup := congrArg List.length (upcoming_of_ungetc hj)
  split at hr
  · cases hr
  · cases hr
    exact ⟨rfl, hup.le.trans (hle₂.trans hle₁)⟩

theorem readsOn_decimalNumber (l : Input.Location) (c : Char) (i : Input) :
    ReadsOn IsToken i (decimalNumber lib l c i) := by
  obtain ⟨i', hle, hstop⟩ := readWhile_stop isDigit
    (fun (value : UInt512) c => (value.mul (.ofUInt64 10)).add (.ofUInt64 (digitValue c)))
    (.ofUInt64 (digitValue c)) i
  unfold decimalNumber
  dsimp only
  rw [hstop]
  split
  · exact (readsOn_floatingPointNumber l _ i'.getc.2).mono ((length_getc_le i').trans hle)
  · exact (readsOn_ungetc_token rfl l i').mono hle

theorem readsOn_parseNumber (l : Input.Location) (c : Char) (i : Input) :
    ReadsOn IsToken i (parseNumber lib l c i) := by
  unfold parseNumber
  split_ifs
  · exact (readsOn_prefixedNumber binaryNumber false l i.getc.2).getc
  · exact (readsOn_prefixedNumber hexadecimalNumber false l i.getc.2).getc
  · exact (readsOn_prefixedNumber octalNumber false l i.getc.2).getc
  · exact readsOn_ungetc fun j => readsOn_decimalNumber l c j
  · exact readsOn_decimalNumber l c i

theorem readsOn_identifier (l : Input.Location) (c : Char) (i : Input) :
    ReadsOn (IsToken (F := F)) i (identifier l c i) := by
  obtain ⟨i', hle, hstop⟩ :=
    readWhile_stop (fun c => isLetter c || isDigit c) push (push [] c) i
  unfold identifier
  split_ifs
  · dsimp only
    rw [hstop]
    exact (readsOn_ungetc_token rfl l i').mono hle
  · exact readsOn_error _

theorem readsOn_parseDefault (l : Input.Location) (c : Char) (i : Input) :
    ReadsOn IsToken i (parseDefault lib l c i) := by
  unfold parseDefault
  split_ifs
  · exact (readsOn_prefixedNumber binaryNumber true l i.getc.2).getc
  · exact (readsOn_parseString true l i.getc.2).getc
  · exact (readsOn_prefixedNumber octalNumber true l i.getc.2).getc
  · exact (readsOn_prefixedNumber hexadecimalNumber true l i.getc.2).getc
  · exact readsOn_ungetc fun j => readsOn_identifier l c j
  · exact readsOn_identifier l c i

theorem readsOn_operator {table : List (Char × Token F)} {single : Token F}
    (htable : ∀ e ∈ table, e.2.isEof = false) (hsingle : single.isEof = false)
    (l : Input.Location) (i : Input) : ReadsOn IsToken i (operator table single l i) := by
  unfold operator
  split
  · next t ht =>
    obtain ⟨c, -, ht⟩ := Option.bind_eq_some_iff.1 ht
    obtain ⟨before, behind, htable', -⟩ := List.lookup_eq_some_iff.1 ht
    refine readsOn_ok (htable (c, t) ?_) (length_getc_le i)
    rw [htable']
    exact List.mem_append_right _ List.mem_cons_self
  · exact readsOn_ungetc_token hsingle l i

theorem readsOn_verticalBar (l : Input.Location) (i : Input) :
    ReadsOn (IsToken (F := F)) i (verticalBar l i) := by
  unfold verticalBar
  split
  · exact (readsOn_operator (by simp [Token.isEof]) rfl l i.getc.2).getc
  · exact readsOn_operator (by simp [Token.isEof]) rfl l i

theorem isEof_of_ite {p : Prop} [Decidable p] {t t' : Token F} {x : Option (Token F)}
    (ht' : t'.isEof = false) (hx : x = some t → t.isEof = false)
    (h : (if p then some t' else x) = some t) : t.isEof = false := by
  split at h
  · cases h
    exact ht'
  · exact hx h

theorem oneCharacter_isEof {c : Char} {t : Token F} :
    oneCharacter c = some t → t.isEof = false := by
  unfold oneCharacter
  iterate 15 refine isEof_of_ite rfl ?_
  intro h
  cases h

theorem readsOn_parseToken (l : Input.Location) (c : Char) (i : Input) :
    ReadsOn IsToken i (parseToken lib l c i) := by
  unfold parseToken
  split
  · next t ht => exact readsOn_token (oneCharacter_isEof ht) l (Nat.le_refl _)
  · split_ifs
    · exact readsOn_token rfl l (length_getc_le i)
    · exact readsOn_ungetc fun j => readsOn_error _
    · exact readsOn_operator (by simp [Token.isEof]) rfl l i
    · exact readsOn_operator (by simp [Token.isEof]) rfl l i
    · exact readsOn_operator (by simp [Token.isEof]) rfl l i
    · exact readsOn_verticalBar l i
    · exact readsOn_parseString false l i
    · exact readsOn_parseNumber l c i
    · exact readsOn_parseDefault l c i

/-- A turn at a character returns a token and reads this character, or reads on. -/
theorem scan_some {n : TokenNode F} {c : Char} {j : Input} (hc : i.getc.1 = some c)
    (h : scan lib i = .ok (some n, j)) :
    IsToken n ∧ j.upcoming.length < i.upcoming.length := by
  have hlt := length_getc_lt hc
  have hread : IsToken n ∧ j.upcoming.length ≤ i.getc.2.upcoming.length := by
    simp only [scan, hc] at h
    split_ifs at h
    · cases h
    · unfold scanHash at h
      split at h
      · obtain ⟨k, -, h⟩ := bind_eq_ok.1 h
        cases h
      · cases h
        exact ⟨rfl, Nat.le_refl _⟩
    · unfold scanSlash at h
      split at h
      · obtain ⟨k, -, h⟩ := bind_eq_ok.1 h
        cases h
      · obtain ⟨k, hk, h⟩ := bind_eq_ok.1 h
        cases h
        exact ⟨rfl, (congrArg List.length (upcoming_of_ungetc hk)).le⟩
    · unfold scanMinus at h
      split at h
      · cases h
      · obtain ⟨k, hk, h⟩ := bind_eq_ok.1 h
        cases h
        exact ⟨rfl, (congrArg List.length (upcoming_of_ungetc hk)).le⟩
    · cases hp : parseToken lib i.location c i.getc.2 with
      | error e =>
        rw [hp] at h
        cases h
      | ok r =>
        rw [hp] at h
        cases h
        exact readsOn_parseToken i.location c i.getc.2 r hp
  exact ⟨hread.1, hread.2.trans_lt hlt⟩

theorem scan_eof (hc : i.getc.1 = none) :
    scan lib i = .ok (some ⟨.eof, i.location⟩, i) := by
  have hup : i.upcoming = [] := List.head?_eq_none_iff.1 (by rwa [getc_fst] at hc)
  have hget : i.getc.2 = i := by rw [getc_of_nil hup]
  simp only [scan, hc, hget]

/-- **A token other than the end of the script takes a character.** -/
theorem getNextToken_lt {n : TokenNode F} {j : Input} (h : getNextToken lib i = .ok (n, j))
    (hn : n.token.isEof = false) : j.upcoming.length < i.upcoming.length := by
  fun_induction getNextToken lib i with
  | case1 i e _ => cases h
  | case2 i m k hscan =>
    cases h
    cases hc : i.getc.1 with
    | none =>
      rw [scan_eof hc] at hscan
      cases hscan
      cases hn
    | some c => exact (scan_some hc hscan).2
  | case3 i k hscan ih => exact (ih h).trans (scan_lt hscan)

theorem getNextToken_of_some {n : TokenNode F} {j : Input} (h : scan lib i = .ok (some n, j)) :
    getNextToken lib i = .ok (n, j) := by
  rw [getNextToken]
  split
  · next heq =>
    rw [h] at heq
    cases heq
  · next heq =>
    rw [h] at heq
    cases heq
    rfl
  · next heq =>
    rw [h] at heq
    cases heq

/-- At the end of the script, `get_next_token()` stays. -/
theorem getNextToken_eof {n : TokenNode F} {j : Input} (h : getNextToken lib i = .ok (n, j))
    (hn : n.token.isEof = true) : getNextToken lib j = .ok (n, j) := by
  fun_induction getNextToken lib i with
  | case1 i e _ => cases h
  | case2 i m k hscan =>
    cases h
    cases hc : i.getc.1 with
    | none =>
      have heof : scan lib i = .ok (some ⟨.eof, i.location⟩, i) := scan_eof hc
      rw [hscan] at heof
      cases heof
      exact getNextToken_of_some hscan
    | some c =>
      rw [(scan_some hc hscan).1] at hn
      cases hn
  | case3 i k hscan ih => exact ih h

end

end Lexer

/-! ### The tokens -/

/-- What the calls of `get_next_token()` return: tokens, and then the end of the script, again and
again, or an exception. -/
abbrev Tokens (F : Type) := TokenStream Failure (Lexer.TokenNode F)

namespace Lexer

variable {F : Type} {lib : Library F} {i : Input}

/-- The tokens of a script. -/
def tokens (lib : Library F) (i : Input) : Tokens F :=
  match _h : getNextToken lib i with
  | .error e => .error e
  | .ok (n, j) => if _hn : n.token.isEof = true then .stop n else .cons n (tokens lib j)
termination_by i.upcoming.length
decreasing_by exact getNextToken_lt (by assumption) (Bool.eq_false_iff.2 (by assumption))

theorem tokens_of_error {e : Failure} (h : getNextToken lib i = .error e) :
    tokens lib i = .error e := by
  rw [tokens]
  split
  · next heq =>
    rw [h] at heq
    cases heq
    rfl
  · next heq =>
    rw [h] at heq
    cases heq

theorem tokens_of_ok {n : TokenNode F} {j : Input} (h : getNextToken lib i = .ok (n, j)) :
    tokens lib i = if n.token.isEof = true then .stop n else .cons n (tokens lib j) := by
  rw [tokens]
  split
  · next heq =>
    rw [h] at heq
    cases heq
  · next heq =>
    rw [h] at heq
    cases heq
    split <;> rfl

/-- **The calls of `get_next_token()`, one after the other, return the tokens of the script.** -/
theorem next_tokens (lib : Library F) (i : Input) :
    (tokens lib i).next = (getNextToken lib i).map fun r => (r.1, tokens lib r.2) := by
  cases h : getNextToken lib i with
  | error e =>
    rw [tokens_of_error h]
    rfl
  | ok r =>
    obtain ⟨n, j⟩ := r
    rw [tokens_of_ok h]
    split
    · next hn => rw [Except.map, tokens_of_ok (getNextToken_eof h hn), if_pos hn, TokenStream.next]
    · rfl

end Lexer

end Prinbee
