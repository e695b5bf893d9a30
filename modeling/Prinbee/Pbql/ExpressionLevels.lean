import Prinbee.Pbql.ExpressionSyntax
import Prinbee.Pbql.Grammar

/-!
# The levels of the parser of expressions

The tokens at which each level of `parse_expression.cpp` goes on, what a level does behind its first
operand, and the tokens an expression of the grammar starts with.

## Main definitions

* `Expression.tokenLevel`, `Expression.Follow` — the tokens at which a level does not go on.
* `Expression.reader`, `Expression.levelRest` — the function of a level, and what it does behind its
  first operand.
* `Expression.Library.Lawful` — what the parser relies on.
* `Expression.StartsWith` — what the first token of an expression is not.

## Main results

* `Expression.run_reader_of_next` — the next level reads the first operand of a level.
* `Expression.run_rest_of_follow` — a level does not go on at a token of a lower level.
* `Expression.startsWith_of_spells` — the first token of an expression.
-/

namespace Prinbee

namespace Expression

open TokenStream Reader
open Lexer (Token TokenNode)
open Prinbee.Parser (Parsing)

variable {F : Type} (lib : Library F)

/-! ### Tokens that go on -/

/-- The level of the words that are operators. -/
def wordLevel (k : String) : ℕ :=
  if k = "OR" then 1
  else if k = "AND" then 2
  else if k = "IS" then 4
  else if k = "NOT" ∨ k = "BETWEEN" ∨ k = "IN" ∨ k = "LIKE" ∨ k = "ILIKE" then 6
  else 0

/-- The level of the function that goes on at this token, 0 when none does. -/
def tokenLevel (n : TokenNode F) : ℕ :=
  match n.token with
  | .identifier s => wordLevel (textOf (lib.toUpper s))
  | .less | .lessEqual | .equal | .greater | .greaterEqual | .notEqual => 5
  | .bitwiseAnd | .bitwiseOr | .bitwiseXor | .shiftLeft | .shiftRight | .stringConcat
  | .regularExpression | .unmatchedRegularExpression => 7
  | .plus | .minus => 8
  | .multiply | .divide | .modulo => 9
  | .power => 10
  | .period | .scope | .openBracket | .openParenthesis => 12
  | .string _ => 13
  | _ => 0

/-- The functions from this level on do not go on. -/
def Follow (level : ℕ) (ts : Tokens F) : Prop :=
  ∃ n left, ts.next = .ok (n, left) ∧ tokenLevel lib n < level

section

variable {lib} {n : TokenNode F} {ts : Tokens F} {k : ℕ}

theorem Follow.mono {k' : ℕ} (h : Follow lib k ts) (hle : k ≤ k') : Follow lib k' ts := by
  obtain ⟨n, left, hnext, hlt⟩ := h
  exact ⟨n, left, hnext, hlt.trans_le hle⟩

theorem follow_cons {left : Tokens F} (h : tokenLevel lib n < k) : Follow lib k (.cons n left) :=
  ⟨n, left, rfl, h⟩

theorem tokenLevel_of_keyword {w : String} (h : lib.keyword n = some w) :
    tokenLevel lib n = wordLevel w := by
  obtain ⟨token, location⟩ := n
  cases token with
  | identifier s =>
    cases h
    rfl
  | _ => cases h

theorem tokenLevel_of_postfixOf (h : (postfixOf n).isSome = true) : tokenLevel lib n = 12 := by
  obtain ⟨token, location⟩ := n
  cases token <;> first | rfl | cases h

theorem tokenLevel_of_powerOf (h : (powerOf n).isSome = true) : tokenLevel lib n = 10 := by
  obtain ⟨token, location⟩ := n
  cases token <;> first | rfl | cases h

theorem tokenLevel_of_multiplicativeOf (h : (multiplicativeOf n).isSome = true) :
    tokenLevel lib n = 9 := by
  obtain ⟨token, location⟩ := n
  cases token <;> first | rfl | cases h

theorem tokenLevel_of_additiveOf (h : (additiveOf n).isSome = true) : tokenLevel lib n = 8 := by
  obtain ⟨token, location⟩ := n
  cases token <;> first | rfl | cases h

theorem tokenLevel_of_otherOf (h : (otherOf n).isSome = true) : tokenLevel lib n = 7 := by
  obtain ⟨token, location⟩ := n
  cases token <;> first | rfl | cases h

theorem tokenLevel_of_comparisonOf (h : (comparisonOf n).isSome = true) : tokenLevel lib n = 5 := by
  obtain ⟨token, location⟩ := n
  cases token <;> first | rfl | cases h

theorem tokenLevel_of_isString (h : n.isString = true) : tokenLevel lib n = 13 := by
  obtain ⟨token, location⟩ := n
  cases token <;> first | rfl | cases h

/-- A function that goes on at tokens of one level does not go on at a token of a lower one. -/
theorem eq_none_of_tokenLevel {α : Type} {f : TokenNode F → Option α}
    (hf : (f n).isSome = true → tokenLevel lib n = k) (h : tokenLevel lib n < k) : f n = none := by
  cases hfn : f n with
  | none => rfl
  | some a =>
    rw [hfn] at hf
    exact absurd (hf rfl) h.ne

theorem keyword_ne_of_tokenLevel {w : String} (h : tokenLevel lib n < wordLevel w) :
    lib.keyword n ≠ some w := by
  intro hk
  rw [tokenLevel_of_keyword hk] at h
  exact lt_irrefl _ h

/-- The token of an operator has its level. -/
theorem tokenLevel_of_isToken {o : Operator} (h : o.IsToken lib n) :
    tokenLevel lib n = o.level := by
  cases o with
  | logicalOr => exact tokenLevel_of_keyword h
  | logicalAnd => exact tokenLevel_of_keyword h
  | comparison t => exact tokenLevel_of_comparisonOf (Option.isSome_of_eq_some h)
  | integer t => exact tokenLevel_of_otherOf (Option.isSome_of_eq_some h)
  | regularExpression b => exact tokenLevel_of_otherOf (Option.isSome_of_eq_some h)
  | additive t => exact tokenLevel_of_additiveOf (Option.isSome_of_eq_some h)
  | multiplicative t => exact tokenLevel_of_multiplicativeOf (Option.isSome_of_eq_some h)
  | power => exact tokenLevel_of_powerOf (Option.isSome_of_eq_some h)

end

/-! ### The levels -/

/-- The function of a level. -/
def reader (calls : Recursion F) : ℕ → Parsing F (ExprTree F)
  | 0 | 1 => parseExprLogicalOr lib calls
  | 2 => parseExprLogicalAnd lib calls
  | 3 => parseExprLogicalNot lib calls
  | 4 => parseExprIs lib calls
  | 5 => parseExprComparison lib calls
  | 6 => parseExprMatching lib calls
  | 7 => parseExprOther lib calls
  | 8 => parseExprAdditive lib calls
  | 9 => parseExprMultiplicative lib calls
  | 10 => parseExprExponentiation lib calls
  | 11 => parseExprUnary lib calls
  | _ => parseExprPostfix lib calls

/-- The tree of `parse_expression()` is what the lowest level reads. -/
theorem run_parseTree (ts : Tokens F) :
    (parseTree lib).run ts = (reader lib (calls lib ts.length) 1).run ts := by
  simp only [Reader.run, parseTree, reader]

/-- What the function of a level does behind its first operand. -/
def levelRest (calls : Recursion F) (e : ExprTree F) : ℕ → Parsing F (ExprTree F)
  | 1 => chain (parseExprLogicalAnd lib calls) (lib.word "OR")
    (fun _ lhs rhs => lift (foldLogicalOr lib lhs rhs)) e
  | 2 => chain (parseExprLogicalNot lib calls) (lib.word "AND")
    (fun _ lhs rhs => lift (foldLogicalAnd lib lhs rhs)) e
  | 4 => repeatWhile (fun _ n => lib.keyword n = some "IS") (fun result _ => isTurn lib result) e
  | 5 => chain (parseExprMatching lib calls) comparisonOf
    (fun t lhs rhs => lift (foldComparison lib t lhs rhs)) e
  | 6 => matchingTail lib calls e
  | 7 => repeatWhile (fun _ n => (otherOf n).isSome) (otherTurn lib calls) e
  | 8 => chain (parseExprMultiplicative lib calls) additiveOf
    (fun t lhs rhs =>
      if refusedByAdditive lib lhs rhs then do
        let n ← peek
        Parser.unexpected n "the + and - binary operators expect numbers as input."
      else lift (foldAdditive lib t lhs rhs)) e
  | 9 => chain (parseExprExponentiation lib calls) multiplicativeOf
    (fun t lhs rhs => lift (foldMultiplicative lib t lhs rhs)) e
  | 10 => chain (parseExprUnary lib calls) powerOf (fun _ lhs rhs => lift (foldPower lib lhs rhs)) e
  | _ => pure e

/-- The loop of `parse_expr_postfix()`. -/
def postfixLoop (calls : Recursion F) (s : ExprTree F × Bool) : Parsing F (ExprTree F) := do
  let s ← repeatWhile (fun _ n => (postfixOf n).isSome) (postfixTurn lib calls) s
  pure s.1

/-- The first token is no operator before the operand of a level. -/
def Starts (level : ℕ) (n : TokenNode F) : Prop :=
  (level = 3 → lib.keyword n ≠ some "NOT") ∧ (level = 7 → prefixOf n = none) ∧
    (level = 11 → signOfToken n = none)

section

variable {lib} {c : Recursion F} {n : TokenNode F} {ts left : Tokens F} {e : ExprTree F} {k : ℕ}

/-- What the next level reads is the first operand of a level. -/
theorem run_reader_of_next (hk : 1 ≤ k) (hle : k ≤ 11) (hts : ts = .cons n left)
    (hstarts : Starts lib k n) {ts' : Tokens F} (h : (reader lib c (k + 1)).run ts = .ok (e, ts')) :
    (reader lib c k).run ts = (levelRest lib c e k).run ts' := by
  obtain ⟨hnot, hahead, hsign⟩ := hstarts
  obtain rfl | rfl | rfl | rfl | rfl | rfl | rfl | rfl | rfl | rfl | rfl :
      k = 1 ∨ k = 2 ∨ k = 3 ∨ k = 4 ∨ k = 5 ∨ k = 6 ∨ k = 7 ∨ k = 8 ∨ k = 9 ∨ k = 10 ∨ k = 11 := by
    omega
  · exact run_leftAssociative_first h
  · exact run_leftAssociative_first h
  · subst hts
    show (parseExprLogicalNot lib c).run _ = _
    rw [parseExprLogicalNot, run_bind, run_peek_cons]
    simp only [if_neg (hnot rfl)]
    exact h
  · show (parseExprIs lib c).run _ = _
    rw [parseExprIs, run_bind]
    exact h ▸ rfl
  · exact run_leftAssociative_first h
  · show (parseExprMatching lib c).run _ = _
    rw [parseExprMatching, run_bind]
    exact h ▸ rfl
  · subst hts
    show (parseExprOther lib c).run _ = _
    rw [parseExprOther, run_bind, run_peek_cons]
    simp only [hahead rfl]
    rw [run_bind]
    exact h ▸ rfl
  · exact run_leftAssociative_first h
  · exact run_leftAssociative_first h
  · exact run_leftAssociative_first h
  · subst hts
    show (parseExprUnary lib c).run _ = _
    rw [parseExprUnary, run_bind, run_peek_cons]
    simp only [hsign rfl]
    exact h

/-- A level does not go on at a token of a lower level. -/
theorem run_rest_of_follow (hfollow : Follow lib k ts) : (levelRest lib c e k).run ts = .ok (e, ts) := by
  obtain ⟨n, left, hnext, hlt⟩ := hfollow
  have hword : ∀ w, wordLevel w = k → lib.word w n = none := fun w hw =>
    if_neg (keyword_ne_of_tokenLevel (hw ▸ hlt))
  have hne : ∀ w, wordLevel w = k → lib.keyword n ≠ some w := fun w hw =>
    keyword_ne_of_tokenLevel (hw ▸ hlt)
  unfold levelRest
  split
  · exact run_chain_of_stops hnext (hword "OR" rfl)
  · exact run_chain_of_stops hnext (hword "AND" rfl)
  · exact run_repeatWhile_of_stops hnext (by simpa using hne "IS" rfl)
  · exact run_chain_of_stops hnext (eq_none_of_tokenLevel tokenLevel_of_comparisonOf hlt)
  · rw [matchingTail, run_bind, run_takeIf hnext, if_neg (by simpa using hne "NOT" rfl)]
    simp only
    rw [run_bind, run_peek_of_next hnext]
    simp only [if_neg (hne "BETWEEN" rfl), if_neg (hne "IN" rfl), if_neg (hne "LIKE" rfl),
      if_neg (hne "ILIKE" rfl)]
    rfl
  · refine run_repeatWhile_of_stops hnext ?_
    rw [eq_none_of_tokenLevel tokenLevel_of_otherOf hlt]
    rfl
  · exact run_chain_of_stops hnext (eq_none_of_tokenLevel tokenLevel_of_additiveOf hlt)
  · exact run_chain_of_stops hnext (eq_none_of_tokenLevel tokenLevel_of_multiplicativeOf hlt)
  · exact run_chain_of_stops hnext (eq_none_of_tokenLevel tokenLevel_of_powerOf hlt)
  · rfl

/-- The loop of the postfixes does not go on. -/
theorem run_postfixLoop_of_follow {s : ExprTree F × Bool} (hfollow : Follow lib 12 ts) :
    (postfixLoop lib c s).run ts = .ok (s.1, ts) := by
  obtain ⟨n, left, hnext, hlt⟩ := hfollow
  have hstop : (postfixOf n).isSome = false := by
    rw [eq_none_of_tokenLevel tokenLevel_of_postfixOf hlt]
    rfl
  rw [postfixLoop, run_bind, run_repeatWhile_of_stops hnext hstop]
  rfl

/-- One more postfix. -/
theorem run_postfixLoop_turn {s s' : ExprTree F × Bool} {ts' : Tokens F}
    (hp : (postfixOf n).isSome = true)
    (h : (postfixTurn lib c s n).run left = .ok (s', ts')) :
    (postfixLoop lib c s).run (.cons n left) = (postfixLoop lib c s').run ts' := by
  have hturn : (repeatWhile (fun _ n => (postfixOf n).isSome) (postfixTurn lib c) s).run
      (.cons n left) =
        (repeatWhile (fun _ n => (postfixOf n).isSome) (postfixTurn lib c) s').run ts' :=
    run_repeatWhile_turn hp h
  rw [postfixLoop, postfixLoop, run_bind, run_bind, hturn]

end

/-! ### The first token -/

/-- What the parser relies on: the two letter cases of a word tell whether it is `NOT`. -/
structure Library.Lawful : Prop where
  not_lower : ∀ s, textOf (lib.toUpper s) = "NOT" → textOf (lib.toLower s) = "not"

/-- What the first token of an expression is not: an operator before the operand of a level below the
one of the expression, a closing parenthesis, or an opening one that does not belong to it. -/
structure StartsWith (s : Syntax F) (n : TokenNode F) : Prop where
  starts : ∀ k < s.level, Starts lib k n
  not_close : n.isCloseParenthesis = false
  group : n.isOpenParenthesis = true → s.startsWithGroup = true

namespace Syntax

theorem level_le (s : Syntax F) : s.level ≤ 12 := by
  cases s with
  | binary o l r => cases o <;> simp [level, Operator.level]
  | _ => simp [level]

end Syntax

section

variable {lib} {n : TokenNode F} {ts ts' left : Tokens F} {k : ℕ}

/-- A token that is no word starts with no `NOT`. -/
theorem starts_of_token (hword : n.isIdentifier = false) (hahead : prefixOf n = none)
    (hsign : k < 11 ∨ signOfToken n = none) : Starts lib k n := by
  refine ⟨fun _ hk => ?_, fun _ => hahead, fun h11 => ?_⟩
  · rw [Library.keyword, hword] at hk
    cases hk
  · exact hsign.resolve_left (by omega)

theorem starts_of_word (hword : n.isIdentifier = true) (hnot : lib.keyword n ≠ some "NOT") :
    Starts lib k n := by
  obtain ⟨token, location⟩ := n
  cases token <;> first | exact ⟨fun _ => hnot, fun _ => rfl, fun _ => rfl⟩ | cases hword

/-- An expression that starts with another one. -/
theorem StartsWith.of_left {e s : Syntax F} (h : StartsWith lib e n) (hle : s.level ≤ e.level)
    (hgroup : s.startsWithGroup = e.startsWithGroup) : StartsWith lib s n where
  starts k hk := h.starts k (hk.trans_le hle)
  not_close := h.not_close
  group := by rw [hgroup]; exact h.group

/-- An expression that is one token, and no word. -/
theorem startsWith_of_token {s : Syntax F} (hword : n.isIdentifier = false)
    (hahead : prefixOf n = none) (hsign : signOfToken n = none) (hclose : n.isCloseParenthesis = false)
    (hopen : n.isOpenParenthesis = true → s.startsWithGroup = true) : StartsWith lib s n where
  starts _ _ := starts_of_token hword hahead (.inr hsign)
  not_close := hclose
  group := hopen

theorem startsWith_of_word {s : Syntax F} (hword : n.isIdentifier = true)
    (hnot : lib.keyword n ≠ some "NOT") : StartsWith lib s n := by
  have hparenthesis : n.isCloseParenthesis = false ∧ n.isOpenParenthesis = false := by
    obtain ⟨token, location⟩ := n
    cases token <;> first | exact ⟨rfl, rfl⟩ | cases hword
  exact ⟨fun k _ => starts_of_word hword hnot, hparenthesis.1, by simp [hparenthesis.2]⟩

/-- The name of a type is not `NOT`. -/
theorem startsWith_of_typeName (hlib : lib.Lawful) {s : Syntax F} {t : CastType}
    (h : TypeName lib t ts ts') : ∃ n left, ts = .cons n left ∧ StartsWith lib s n := by
  have hstarts : ∀ {n : TokenNode F}, n.isIdentifier = true →
      textOf (lib.toLower n.string) ≠ "not" → StartsWith lib s n := by
    intro n hword hne
    refine startsWith_of_word hword fun hk => hne (hlib.not_lower _ ?_)
    rw [Library.keyword, if_pos hword] at hk
    exact Option.some.inj hk
  rcases h with ⟨n, rfl, hword, htype⟩ | ⟨ts₁, -, h⟩
  · refine ⟨n, _, rfl, hstarts hword fun hne => ?_⟩
    rw [hne] at htype
    cases htype
  · rcases h with ⟨-, ⟨n, rfl, hword, hname⟩, -⟩ | ⟨⟨n, rfl, hword, hname⟩, -⟩
    · exact ⟨n, _, rfl, hstarts hword (by rw [hname]; decide)⟩
    · exact ⟨n, _, rfl, hstarts hword (by rw [hname]; decide)⟩

/-- **The first token of an expression.** -/
theorem startsWith_of_spells (hlib : lib.Lawful) {s : Syntax F} (hl : Leveled lib s)
    (hp : Plain lib s) (h : Spells lib s ts ts') :
    ∃ n left, ts = .cons n left ∧ StartsWith lib s n := by
  -- the expressions that start with another one have at most its level
  have hleft : ∀ {e s : Syntax F}, s.level ≤ e.level → s.startsWithGroup = e.startsWithGroup →
      (∃ n left, ts = .cons n left ∧ StartsWith lib e n) →
        ∃ n left, ts = .cons n left ∧ StartsWith lib s n := by
    rintro e s hle hgroup ⟨n, left, hts, hn⟩
    exact ⟨n, left, hts, hn.of_left hle hgroup⟩
  induction s generalizing ts' with
  | word s =>
    obtain ⟨n, rfl, hn⟩ := h
    refine ⟨n, ts', rfl, startsWith_of_word ?_ ?_⟩
    · simp [TokenNode.isIdentifier, hn]
    · simpa [Library.keyword, TokenNode.isIdentifier, TokenNode.string, hn, Plain] using hp
  | string s more =>
    obtain ⟨ts₁, ⟨⟨token, location⟩, rfl, rfl⟩, -⟩ := h
    exact ⟨_, _, rfl, startsWith_of_token rfl rfl rfl rfl fun h => by cases h⟩
  | integer m | floatingPoint m | allFields =>
    obtain ⟨⟨token, location⟩, rfl, rfl⟩ := h
    exact ⟨_, _, rfl, startsWith_of_token rfl rfl rfl rfl fun h => by cases h⟩
  | group e _ =>
    obtain ⟨ts₁, ts₂, ⟨⟨token, location⟩, rfl, rfl⟩, -⟩ := h
    exact ⟨_, _, rfl, startsWith_of_token rfl rfl rfl rfl fun _ => rfl⟩
  | castGroup t e _ =>
    obtain ⟨ts₁, ts₂, ts₃, htype, -⟩ := h
    exact startsWith_of_typeName hlib htype
  | castBare t e _ =>
    obtain ⟨ts₁, htype, -⟩ := h
    exact startsWith_of_typeName hlib htype
  | field e name ih =>
    obtain ⟨ts₁, ts₂, he, -⟩ := h
    exact hleft hl.2.1 rfl (ih hl.1 hp.1 he)
  | fieldsOf e ih =>
    obtain ⟨ts₁, ts₂, he, -⟩ := h
    exact hleft hl.2.1 rfl (ih hl.1 hp.1 he)
  | scope e t ih =>
    obtain ⟨ts₁, ts₂, he, -⟩ := h
    exact hleft hl.2 rfl (ih hl.1 hp.1 he)
  | element e i ih _ =>
    obtain ⟨ts₁, ts₂, ts₃, he, -⟩ := h
    exact hleft hl.2.2.1 rfl (ih hl.1 hp.1 he)
  | callNone e ih =>
    obtain ⟨ts₁, ts₂, he, -⟩ := h
    exact hleft hl.2 rfl (ih hl.1 hp.1 he)
  | call e params ih _ =>
    obtain ⟨ts₁, ts₂, ts₃, he, -⟩ := h
    exact hleft hl.2.2 rfl (ih hl.1 hp.1 he)
  | sign minus more e _ =>
    obtain ⟨ts₁, ⟨ts₂, ⟨n, rfl, hn⟩, -⟩, -⟩ := h
    have hparenthesis : n.isCloseParenthesis = false ∧ n.isOpenParenthesis = false := by
      obtain ⟨token, location⟩ := n
      cases token <;> first | exact ⟨rfl, rfl⟩ | cases hn
    refine ⟨n, ts₂, rfl, fun k hk => ?_, hparenthesis.1, by simp [hparenthesis.2]⟩
    obtain ⟨token, location⟩ := n
    cases token <;> first | exact starts_of_token rfl rfl (.inl hk) | cases hn
  | binary o l r ih _ =>
    obtain ⟨ts₁, ts₂, he, -⟩ := h
    exact hleft hl.2.2.1 rfl (ih hl.1 hp.1 he)
  | concat l r ih _ =>
    obtain ⟨ts₁, ts₂, he, -⟩ := h
    exact hleft hl.2.2.1 rfl (ih hl.1 hp.1 he)
  | ahead func e _ =>
    obtain ⟨ts₁, ⟨n, rfl, hn⟩, -⟩ := h
    have htoken : lib.keyword n = none ∧ n.isCloseParenthesis = false ∧
        n.isOpenParenthesis = false := by
      obtain ⟨token, location⟩ := n
      cases token <;> first | exact ⟨rfl, rfl, rfl⟩ | cases hn
    obtain ⟨hkeyword, hclose, hopen⟩ := htoken
    refine ⟨n, ts₁, rfl, fun k hk => ⟨fun _ => by simp [hkeyword], fun h7 => ?_, fun h11 => ?_⟩,
      hclose, by simp [hopen]⟩
    · subst h7
      exact absurd hk (lt_irrefl 7)
    · subst h11
      exact absurd hk (Nat.not_lt.2 (Nat.le_of_ble_eq_true rfl))
  | between negate e low high ih _ _ =>
    obtain ⟨ts₁, ts₂, ts₃, ts₄, ts₅, he, -⟩ := h
    have hle := hl.2.2.2.1
    exact hleft (Nat.le_of_succ_le hle) rfl (ih hl.1 hp.1 he)
  | like insensitive negate e pattern ih _ =>
    obtain ⟨ts₁, ts₂, ts₃, he, -⟩ := h
    have hle := hl.2.2.1
    exact hleft (Nat.le_of_succ_le hle) rfl (ih hl.1 hp.1 he)
  | is negate q e ih =>
    obtain ⟨ts₁, ts₂, ts₃, he, -⟩ := h
    exact hleft hl.2 rfl (ih hl.1 hp.1 he)
  | not more e _ =>
    obtain ⟨ts₁, ⟨ts₂, ⟨n, rfl, hn⟩, -⟩, -⟩ := h
    have hparenthesis : n.isCloseParenthesis = false ∧ n.isOpenParenthesis = false := by
      obtain ⟨token, location⟩ := n
      cases token <;> first | exact ⟨rfl, rfl⟩ | cases hn
    refine ⟨n, ts₂, rfl, fun k hk => ⟨fun h3 => ?_, fun h7 => ?_, fun h11 => ?_⟩, hparenthesis.1,
      by simp [hparenthesis.2]⟩
    · subst h3
      exact absurd hk (lt_irrefl 3)
    · subst h7
      exact absurd hk (Nat.not_lt.2 (Nat.le_of_ble_eq_true rfl))
    · subst h11
      exact absurd hk (Nat.not_lt.2 (Nat.le_of_ble_eq_true rfl))
  | comma l r ih _ =>
    obtain ⟨ts₁, ts₂, he, -⟩ := h
    obtain ⟨n, left, hts, hn⟩ := ih hl.1 hp.1 he
    exact ⟨n, left, hts, hn.of_left (Nat.zero_le _) rfl⟩

end

/-! ### A plain library -/

/-- ASCII letter case, and no floating point numbers. -/
def plainLibrary : Library Unit where
  toUpper s := s.map fun c => if 97 ≤ c ∧ c ≤ 122 then c - 32 else c
  toLower s := s.map fun c => if 65 ≤ c ∧ c ≤ 90 then c + 32 else c
  trimString s := ((s.dropWhile (· = 32)).reverse.dropWhile (· = 32)).reverse
  hex := asciiHexDigits
  strtold _ := none
  digits _ := (false, "0")
  toFloatingPoint _ := ()
  toInt64 _ := 0
  zero := ()
  infinity := ()
  less _ _ := false
  lessEqual _ _ := true
  equal _ _ := true
  neg _ := ()
  add _ _ := ()
  sub _ _ := ()
  mul _ _ := ()
  div _ _ := ()
  fmod _ _ := ()
  pow _ _ := ()
  atan2 _ _ := ()
  math _ _ := ()
  pow64 a b := (a : ℤ) ^ b
  regexMatch _ regex value := .ok (regex = value)
  escape c := String.singleton c

theorem lower_of_upper {c d : UInt8} (hd : 65 ≤ d ∧ d ≤ 90)
    (h : (if 97 ≤ c ∧ c ≤ 122 then c - 32 else c) = d) :
    (if 65 ≤ c ∧ c ≤ 90 then c + 32 else c) = d + 32 := by
  split at h
  · next hc =>
    have hnot : ¬ (65 ≤ c ∧ c ≤ 90) := fun hle => absurd (UInt8.le_trans hc.1 hle.2) (by decide)
    rw [if_neg hnot, ← h, sub_add_cancel]
  · rw [h, if_pos hd]

theorem charOfByte_inj {b d : UInt8} (h : Char.ofNat b.toNat = Char.ofNat d.toNat) : b = d := by
  have hvalid : ∀ x : UInt8, x.toNat.isValidChar := fun x => .inl (x.toNat_lt.trans (by decide))
  have hchar : ∀ x : UInt8, (Char.ofNat x.toNat).toNat = x.toNat := by
    intro x
    rw [Char.ofNat, dif_pos (hvalid x)]
    rfl
  exact UInt8.toNat.inj (by rw [← hchar, h, hchar])

theorem plainLibrary_lawful : plainLibrary.Lawful where
  not_lower s h := by
    have hupper : (plainLibrary.toUpper s).map (fun b => Char.ofNat b.toNat) =
        [(78 : UInt8), 79, 84].map fun b => Char.ofNat b.toNat := String.ofList_injective h
    have hword := List.map_injective_iff.2 (fun _ _ => charOfByte_inj) hupper
    obtain ⟨a, b, c, rfl⟩ : ∃ a b c, s = [a, b, c] := by
      rw [← List.length_eq_three]
      simpa [plainLibrary] using congrArg List.length hword
    simp only [plainLibrary, List.map_cons, List.map_nil, List.cons.injEq, and_true] at hword ⊢
    rw [lower_of_upper (by decide) hword.1, lower_of_upper (by decide) hword.2.1,
      lower_of_upper (by decide) hword.2.2]
    rfl

end Expression

end Prinbee
