import Prinbee.Pbql.ExpressionLevels

/-!
# Reading primary expressions and postfixes

That each expression of the grammar is read by the parser is proved by induction on the expression;
here is what is to be proved, and the expressions of the highest level.  For an operator that goes from left to right, the statement
to prove by induction is about the loop: reading an operand comes to the same as going on with the
loop behind it.

## Main definitions

* `Expression.Reads`, `Expression.Loops` — an expression is read by the function of a level; it is
  read up to the loop of the level.
* `Expression.ReadsPostfix`, `Expression.ReadsOperands`, `Expression.ReadsItems` — the same for the
  loops of the postfixes, of `||` and of the lists.

## Main results

* `Expression.spells_takes` — an expression has a token.
* `Expression.Reads.loops`, `Expression.Loops.reads` — from a level to the one below.
* `Expression.readsPostfix_call` and the others — the expressions of the highest level.
-/

namespace Prinbee

namespace Expression

open TokenStream Reader
open Relation (TransGen ReflTransGen)
open Lexer (Token TokenNode)
open Prinbee.Parser (Parsing)

variable {F : Type} (lib : Library F)

/-! ### The tokens of an expression -/

section

variable {lib} {ts rest : Tokens F}

theorem TypeName.takes {t : CastType} (h : TypeName lib t ts rest) : TransGen Takes ts rest := by
  rcases h with h | ⟨ts₁, h, ⟨-, -, h'⟩ | ⟨-, h'⟩⟩
  · exact h.takes
  · exact h.takes.trans h'.takes
  · exact h.takes.trans h'.takes

theorem strings_takes {more : List Bytes} (h : Strings more ts rest) : ReflTransGen Takes ts rest := by
  induction more generalizing ts with
  | nil => exact h ▸ .refl
  | cons s more ih =>
    obtain ⟨ts₁, hs, h⟩ := h
    exact hs.takes.to_reflTransGen.trans (ih h)

theorem signs_takes {more : List Bool} (h : Signs more ts rest) : ReflTransGen Takes ts rest := by
  induction more generalizing ts with
  | nil => exact h ▸ .refl
  | cons s more ih =>
    obtain ⟨ts₁, hs, h⟩ := h
    exact hs.takes.to_reflTransGen.trans (ih h)

theorem nots_takes {k : ℕ} (h : Nots lib k ts rest) : ReflTransGen Takes ts rest := by
  induction k generalizing ts with
  | zero => exact h ▸ .refl
  | succ k ih =>
    obtain ⟨ts₁, hs, h⟩ := h
    exact hs.takes.to_reflTransGen.trans (ih h)

theorem negated_takes {negate : Bool} (h : Negated lib negate ts rest) :
    ReflTransGen Takes ts rest := by
  cases negate with
  | false => exact h ▸ .refl
  | true => exact (Spelled.takes h).to_reflTransGen

/-- **An expression has a token.** -/
theorem spells_takes {s : Syntax F} (h : Spells lib s ts rest) : TransGen Takes ts rest := by
  induction s generalizing ts rest with
  | word s | integer m | floatingPoint m | allFields => exact Spelled.takes h
  | string s more =>
    obtain ⟨ts₁, hs, hmore⟩ := h
    exact hs.takes.trans_left (strings_takes hmore)
  | group e ih =>
    obtain ⟨ts₁, ts₂, hopen, he, hclose⟩ := h
    exact hopen.takes.trans ((ih he).trans hclose.takes)
  | castGroup t e ih =>
    obtain ⟨ts₁, ts₂, ts₃, ht, hopen, he, hclose⟩ := h
    exact ht.takes.trans (hopen.takes.trans ((ih he).trans hclose.takes))
  | castBare t e ih =>
    obtain ⟨ts₁, ht, he⟩ := h
    exact ht.takes.trans (ih he)
  | field e name ih | fieldsOf e ih | callNone e ih =>
    obtain ⟨ts₁, ts₂, he, hs, hn⟩ := h
    exact (ih he).trans (hs.takes.trans hn.takes)
  | scope e t ih =>
    obtain ⟨ts₁, ts₂, he, hs, ht⟩ := h
    exact (ih he).trans (hs.takes.trans ht.takes)
  | element e i ih ihi | call e i ih ihi =>
    obtain ⟨ts₁, ts₂, ts₃, he, hopen, hi, hclose⟩ := h
    exact (ih he).trans (hopen.takes.trans ((ihi hi).trans hclose.takes))
  | sign minus more e ih =>
    obtain ⟨ts₁, hs, he⟩ := h
    exact (ih he).trans_right (signs_takes hs)
  | binary o l r ih ihr | concat l r ih ihr | comma l r ih ihr =>
    obtain ⟨ts₁, ts₂, hl, ho, hr⟩ := h
    exact (ih hl).trans ((Spelled.takes ho).trans (ihr hr))
  | ahead func e ih =>
    obtain ⟨ts₁, hs, he⟩ := h
    exact hs.takes.trans (ih he)
  | between negate e low high ih ihl ihh =>
    obtain ⟨ts₁, ts₂, ts₃, ts₄, ts₅, he, hn, hw, hl, ha, hh⟩ := h
    have htail := hw.takes.trans ((ihl hl).trans (ha.takes.trans (ihh hh)))
    exact (ih he).trans (htail.trans_right (negated_takes hn))
  | like insensitive negate e pattern ih ihp =>
    obtain ⟨ts₁, ts₂, ts₃, he, hn, hw, hp⟩ := h
    exact (ih he).trans ((hw.takes.trans (ihp hp)).trans_right (negated_takes hn))
  | is negate k e ih =>
    obtain ⟨ts₁, ts₂, ts₃, he, hw, hn, hk⟩ := h
    exact (ih he).trans (hw.takes.trans (hk.takes.trans_right (negated_takes hn)))
  | not more e ih =>
    obtain ⟨ts₁, hn, he⟩ := h
    exact (ih he).trans_right (nots_takes hn)

theorem spells_length {s : Syntax F} (h : Spells lib s ts rest) : rest.length < ts.length :=
  length_lt_of_takes (spells_takes h)

theorem TypeName.length {t : CastType} (h : TypeName lib t ts rest) : rest.length < ts.length :=
  length_lt_of_takes h.takes

theorem signs_length {more : List Bool} (h : Signs more ts rest) : rest.length ≤ ts.length :=
  length_le_of_takes (signs_takes h)

theorem nots_length {k : ℕ} (h : Nots lib k ts rest) : rest.length ≤ ts.length :=
  length_le_of_takes (nots_takes h)

theorem negated_length {negate : Bool} (h : Negated lib negate ts rest) :
    rest.length ≤ ts.length :=
  length_le_of_takes (negated_takes h)

end

/-! ### What is to be proved -/

namespace Syntax

/-- The level of the tokens that are not behind an expression that a level reads: a cast without
parentheses would go on with any operator. -/
def bound (s : Syntax F) (level : ℕ) : ℕ := if s.isOpen then 1 else level

theorem bound_of_closed {s : Syntax F} (h : s.isOpen = false) (level : ℕ) : s.bound level = level := by
  simp [bound, h]

theorem bound_one (s : Syntax F) : s.bound 1 = 1 := by simp [bound]

theorem bound_mono (s : Syntax F) {k k' : ℕ} (h : k ≤ k') : s.bound k ≤ s.bound k' := by
  unfold bound
  split
  · exact le_rfl
  · exact h

theorem bound_le (s : Syntax F) {k : ℕ} (h : 1 ≤ k) : s.bound k ≤ k := by
  unfold bound
  split
  · exact h
  · exact le_rfl

/-- An expression that ends with another one. -/
theorem bound_congr {s e : Syntax F} (h : s.isOpen = e.isOpen) (level : ℕ) :
    s.bound level = e.bound level := by
  simp [bound, h]

end Syntax

/-- An expression is read by the function of a level. -/
def Reads (s : Syntax F) (level : ℕ) : Prop :=
  ∀ ⦃d : ℕ⦄ ⦃ts rest : Tokens F⦄ ⦃e : ExprTree F⦄, ts.length ≤ d → Spells lib s ts rest →
    s.fold lib = some e → Follow lib (s.bound level) rest →
      (reader lib (calls lib d) level).run ts = .ok (e, rest)

/-- To read an expression with the function of a level is to go on with the loop of the level behind
it.  The loop of `||` would have gone on before. -/
def Loops (s : Syntax F) (level : ℕ) : Prop :=
  ∀ ⦃d : ℕ⦄ ⦃ts rest : Tokens F⦄ ⦃e : ExprTree F⦄, ts.length ≤ d → Spells lib s ts rest →
    s.fold lib = some e → Follow lib (s.bound (level + 1)) rest →
      (level = 7 → s.isConcat = true →
        ∀ n left, rest.next = .ok (n, left) → otherOf n ≠ some .concat) →
        (reader lib (calls lib d) level).run ts = (levelRest lib (calls lib d) e level).run rest

/-- The same for the loop of the postfixes. -/
def ReadsPostfix (s : Syntax F) : Prop :=
  ∀ ⦃d : ℕ⦄ ⦃ts rest : Tokens F⦄ ⦃e : ExprTree F⦄, ts.length ≤ d → Spells lib s ts rest →
    s.fold lib = some e → Follow lib (s.bound 13) rest →
      (reader lib (calls lib d) 12).run ts =
        (postfixLoop lib (calls lib d) (e, s.foundAllFields)).run rest

/-- The loop of `||` from the operands that were read. -/
def concatRest (c : Recursion F) (params : List (ExprTree F)) : Parsing F (ExprTree F) := do
  let params ← repeatWhile (fun _ n => otherOf n = some .concat)
    (fun params _ => do
      let n ← parseExprAdditive lib c
      lift (concatParam lib params n)) params
  let e ← lift (concatCall lib params)
  levelRest lib c e 7

/-- The same for the loop of `||`. -/
def ReadsOperands (s : Syntax F) : Prop :=
  ∀ ⦃d : ℕ⦄ ⦃ts rest : Tokens F⦄ ⦃n : TokenNode F⦄ ⦃params : List (ExprTree F)⦄, s.isOpen = false →
    ts.length ≤ d → Spells lib s ts (.cons n rest) → s.operands lib = some params →
    otherOf n = some .concat →
      (reader lib (calls lib d) 7).run ts = (concatRest lib (calls lib d) params).run (.cons n rest)

/-- The loop of a list from the expressions that were read. -/
def listRest (c : Recursion F) (params : List (ExprTree F)) : Parsing F (List (ExprTree F)) :=
  repeatWhile (fun _ n => n.isComma)
    (fun params _ => do
      let n ← c.logicalOr
      pure (params ++ [n])) params

/-- The same for the loop of a list, which stands behind a parenthesis. -/
def ReadsItems (s : Syntax F) : Prop :=
  ∀ ⦃d : ℕ⦄ ⦃ts rest : Tokens F⦄ ⦃params : List (ExprTree F)⦄, ts.length < d →
    Spells lib s ts rest → s.items lib = some params → Follow lib 1 rest →
      (parseExprList (calls lib d)).run ts = (listRest (calls lib d) params).run rest

section

variable {lib} {s e l r : Syntax F} {d k : ℕ} {ts ts₁ rest left : Tokens F} {n : TokenNode F}
  {v w x : ExprTree F} {c : Recursion F}

/-! ### From a level to the one below -/

/-- The expression starts with no operator of the levels below its own. -/
theorem starts_of_spells (hlib : lib.Lawful) (hl : Leveled lib s) (hp : Plain lib s)
    (h : Spells lib s ts rest) (hk : k < s.level) : ∃ n left, ts = .cons n left ∧ Starts lib k n := by
  obtain ⟨n, left, hts, hn⟩ := startsWith_of_spells hlib hl hp h
  exact ⟨n, left, hts, hn.starts k hk⟩

theorem Reads.loops (hlib : lib.Lawful) (hl : Leveled lib s) (hp : Plain lib s)
    (h : Reads lib s (k + 1)) (h1 : 1 ≤ k) (hk : k < s.level) : Loops lib s k := by
  intro d ts rest e hd hs he hfollow _
  obtain ⟨n, left, hts, hstarts⟩ := starts_of_spells hlib hl hp hs hk
  have hle := s.level_le
  exact run_reader_of_next h1 (by omega) hts hstarts (h hd hs he hfollow)

theorem Loops.reads (h : Loops lib s k) (h1 : 1 ≤ k) : Reads lib s k := by
  intro d ts rest e hd hs he hfollow
  have hrest := hfollow.mono (s.bound_le h1)
  rw [h hd hs he (hfollow.mono (s.bound_mono (Nat.le_succ k)))]
  · exact run_rest_of_follow hrest
  · rintro rfl - n left hnext hconcat
    obtain ⟨n', left', hnext', hlt⟩ := hrest
    rw [hnext] at hnext'
    cases hnext'
    rw [tokenLevel_of_otherOf (Option.isSome_of_eq_some hconcat)] at hlt
    exact lt_irrefl 7 hlt

/-- An expression that a level reads is read by the levels below it. -/
theorem Reads.below (hlib : lib.Lawful) (hl : Leveled lib s) (hp : Plain lib s) {j : ℕ}
    (h : Reads lib s j) (hj : j ≤ s.level) (h1 : 1 ≤ k) (hk : k ≤ j) : Reads lib s k := by
  induction hk using Nat.decreasingInduction with
  | self => exact h
  | of_succ m hm ih => exact ((ih (Nat.le_succ_of_le h1)).loops hlib hl hp h1 (by omega)).reads h1

/-! ### Calls inside of one another -/

variable (lib) in
/-- Behind a token that was taken, one more call is possible. -/
theorem exists_calls (h : ts.length < d) :
    ∃ d', ts.length ≤ d' ∧ calls lib d = ⟨reader lib (calls lib d') 1, reader lib (calls lib d') 7⟩ := by
  cases d with
  | zero => cases h
  | succ d' => exact ⟨d', Nat.le_of_lt_succ h, rfl⟩

theorem Reads.call (h : Reads lib s 1) (hlt : ts.length < d) (hs : Spells lib s ts rest)
    (he : s.fold lib = some v) (hfollow : Follow lib 1 rest) :
    (calls lib d).logicalOr.run ts = .ok (v, rest) := by
  obtain ⟨d', hd, hcalls⟩ := exists_calls lib hlt
  rw [hcalls]
  exact h hd hs he (by rwa [Syntax.bound_one])

theorem Reads.callOther (h : Reads lib s 7) (hlt : ts.length < d) (hs : Spells lib s ts rest)
    (he : s.fold lib = some v) (hfollow : Follow lib (s.bound 7) rest) :
    (calls lib d).other.run ts = .ok (v, rest) := by
  obtain ⟨d', hd, hcalls⟩ := exists_calls lib hlt
  rw [hcalls]
  exact h hd hs he hfollow

theorem run_expectClosing {closes : TokenNode F → Bool} {error : TokenNode F → Parsing F Unit}
    (h : closes n = true) : (expectClosing closes error).run (.cons n left) = .ok ((), left) := by
  rw [expectClosing, run_bind, run_peek_cons]
  simp only [h, if_true, run_bind, run_take_cons, run_pure]

theorem follow_of_spelled {p : TokenNode F → Prop} (h : Spelled p ts rest)
    (hp : ∀ n, p n → tokenLevel lib n < k) : Follow lib k ts := by
  obtain ⟨n, rfl, hn⟩ := h
  exact follow_cons (hp n hn)

theorem follow_of_word {word : String} (h : Word lib word ts rest) (hk : wordLevel word < k) :
    Follow lib k ts :=
  follow_of_spelled h fun n hn => by rwa [tokenLevel_of_keyword hn]

theorem follow_of_closeParenthesis (h : Is .closeParenthesis ts rest) : Follow lib 1 ts :=
  follow_of_spelled h fun n hn => by simp [tokenLevel, hn]

theorem follow_of_closeBracket (h : Is .closeBracket ts rest) : Follow lib 1 ts :=
  follow_of_spelled h fun n hn => by simp [tokenLevel, hn]

theorem follow_of_comma (h : Is .comma ts rest) : Follow lib 1 ts :=
  follow_of_spelled h fun n hn => by simp [tokenLevel, hn]

/-! ### Primary expressions and casts -/

/-- The name of a type. -/
theorem run_parseExprPrimary_of_typeName {t : CastType} (h : TypeName lib t ts rest) :
    (parseExprPrimary lib c).run ts = .ok (.type t, rest) := by
  have hword : ∀ {n : TokenNode F} {left : Tokens F}, n.isIdentifier = true →
      (parseExprPrimary lib c).run (.cons n left) = (identifierPrimary lib n).run left := by
    intro n left hn
    obtain ⟨token, location⟩ := n
    cases token with
    | identifier s =>
      rw [parseExprPrimary, run_bind, run_peek_cons]
      simp only [run_bind, run_take_cons]
    | _ => cases hn
  rcases h with ⟨n, rfl, hn, htype⟩ | ⟨ts₁, ⟨n, rfl, hn, hnone⟩, h⟩
  · rw [hword hn, identifierPrimary]
    simp only [htype, run_pure]
  · rw [hword hn, identifierPrimary]
    rcases h with ⟨rfl, ⟨n', hn', -, hdouble⟩, m, rfl, hm⟩ | ⟨⟨n', hn', -, hunsigned⟩, m, rfl, k, hm, ht⟩
    · cases hn'
      simp only [hnone, if_pos hdouble]
      rw [doublePrecision, run_bind, run_peek_cons]
      simp only [if_pos hm, run_bind, run_take_cons, run_pure]
    · cases hn'
      have hdouble : ¬textOf (lib.toLower n.string) = "double" := by
        rw [hunsigned]
        decide
      simp only [hnone, if_neg hdouble, if_pos hunsigned]
      rw [unsignedType, run_bind, run_peek_cons]
      simp only [hm, ht, run_bind, run_take_cons, run_pure]

/-- A primary expression, and its postfixes. -/
theorem run_parseExprPostfix_of_tree (h : (parseExprPrimary lib c).run ts = .ok (.tree v, rest)) :
    (parseExprPostfix lib c).run ts = (postfixLoop lib c (v, false)).run rest := by
  rw [parseExprPostfix, run_bind, h]
  simp only [run_bind, run_pure]
  rw [postfixLoop, run_bind]
  rfl

theorem run_parseExprPostfix_of_type {t : CastType}
    (h : (parseExprPrimary lib c).run ts = .ok (.type t, ts₁))
    (hcast : (parseExprCastValue c t).run ts₁ = .ok (v, rest)) :
    (parseExprPostfix lib c).run ts = (postfixLoop lib c (v, false)).run rest := by
  rw [parseExprPostfix, run_bind, h]
  simp only [run_bind, hcast]
  rw [postfixLoop, run_bind]

/-- A word that is no type. -/
theorem identifierPrimary_of_none (hnone : types.lookup (textOf (lib.toLower n.string)) = none)
    (hdouble : textOf (lib.toLower n.string) ≠ "double")
    (hunsigned : textOf (lib.toLower n.string) ≠ "unsigned") :
    identifierPrimary lib n = pure (.tree (wordTree (lib.toLower n.string))) := by
  simp only [identifierPrimary, hnone, if_neg hdouble, if_neg hunsigned]

theorem readsPostfix_word {s : Bytes} (hl : Leveled lib (.word s : Syntax F)) :
    ReadsPostfix lib (.word s : Syntax F) := by
  rintro d ts rest e - ⟨⟨token, location⟩, rfl, rfl⟩ he -
  obtain ⟨hnone, hdouble, hunsigned⟩ := hl
  cases he
  apply run_parseExprPostfix_of_tree
  rw [parseExprPrimary, run_bind, run_peek_cons]
  simp only [run_bind, run_take_cons]
  rw [identifierPrimary_of_none hnone hdouble hunsigned]
  rfl

/-- Strings that follow each other. -/
theorem run_strings {more : List Bytes} (h : Strings more ts rest) (hfollow : Follow lib 13 rest)
    (s : Bytes) :
    (repeatWhile (fun _ n => n.isString) (fun s (n : TokenNode F) => pure (s ++ n.string)) s).run ts =
      .ok (s ++ more.flatten, rest) := by
  induction more generalizing ts s with
  | nil =>
    obtain ⟨n, left, hnext, hlt⟩ := hfollow
    have hstop : n.isString = false := by
      cases hn : n.isString with
      | false => rfl
      | true => exact absurd (tokenLevel_of_isString hn) hlt.ne
    cases h
    rw [run_repeatWhile_of_stops hnext hstop]
    simp
  | cons s' more ih =>
    obtain ⟨ts₁, ⟨⟨token, location⟩, rfl, rfl⟩, h⟩ := h
    rw [run_repeatWhile_turn (r := s ++ s') rfl rfl, ih h]
    simp

theorem readsPostfix_string {s : Bytes} {more : List Bytes} :
    ReadsPostfix lib (.string s more : Syntax F) := by
  rintro d ts rest e - ⟨ts₁, ⟨⟨token, location⟩, rfl, rfl⟩, hmore⟩ he hfollow
  cases he
  apply run_parseExprPostfix_of_tree
  rw [parseExprPrimary, run_bind, run_peek_cons]
  simp only [run_bind, run_take_cons, run_strings hmore hfollow, run_pure]

theorem readsPostfix_integer {m : Int512} : ReadsPostfix lib (.integer m : Syntax F) := by
  rintro d ts rest e - ⟨⟨token, location⟩, rfl, rfl⟩ he -
  cases he
  exact run_parseExprPostfix_of_tree rfl

theorem readsPostfix_floatingPoint {f : F} : ReadsPostfix lib (.floatingPoint f) := by
  rintro d ts rest e - ⟨⟨token, location⟩, rfl, rfl⟩ he -
  cases he
  exact run_parseExprPostfix_of_tree rfl

theorem readsPostfix_allFields : ReadsPostfix lib (.allFields : Syntax F) := by
  rintro d ts rest e - ⟨⟨token, location⟩, rfl, rfl⟩ he -
  cases he
  exact run_parseExprPostfix_of_tree rfl

theorem readsPostfix_group (h : Reads lib e 1) : ReadsPostfix lib e.group := by
  rintro d ts rest v hd ⟨ts₁, ts₂, ⟨⟨token, location⟩, rfl, rfl⟩, hs, hclose⟩ he -
  rw [Syntax.fold_group] at he
  have hcall := h.call (d := d) hd hs he (follow_of_closeParenthesis hclose)
  obtain ⟨⟨token, location⟩, rfl, rfl⟩ := hclose
  apply run_parseExprPostfix_of_tree
  rw [parseExprPrimary, run_bind, run_peek_cons]
  simp only [run_bind, run_take_cons, hcall]
  rw [run_expectClosing rfl]
  rfl

theorem readsPostfix_castGroup {t : CastType} (h : Reads lib e 1) :
    ReadsPostfix lib (.castGroup t e) := by
  rintro d ts rest v hd ⟨ts₁, ts₂, ts₃, ht, ⟨⟨token, location⟩, rfl, rfl⟩, hs, hclose⟩ he -
  rw [Syntax.fold_castGroup, Option.map_eq_some_iff] at he
  obtain ⟨w, he, rfl⟩ := he
  have hlt := ht.length
  rw [length] at hlt
  have hcall := h.call (d := d) (by omega) hs he (follow_of_closeParenthesis hclose)
  obtain ⟨⟨token, location⟩, rfl, rfl⟩ := hclose
  apply run_parseExprPostfix_of_type (run_parseExprPrimary_of_typeName ht)
  rw [parseExprCastValue, run_bind, run_takeIf rfl]
  simp only [TokenNode.isOpenParenthesis, if_true, run_bind, hcall]
  rw [run_expectClosing rfl]
  rfl

theorem readsPostfix_castBare (hlib : lib.Lawful) {t : CastType} (hl : Leveled lib e)
    (hp : Plain lib (.castBare t e)) (h : Reads lib e 1) : ReadsPostfix lib (.castBare t e) := by
  rintro d ts rest v hd ⟨ts₁, ht, hs⟩ he hfollow
  rw [Syntax.fold_castBare, Option.map_eq_some_iff] at he
  obtain ⟨w, he, rfl⟩ := he
  have hlt := ht.length
  have hcall := h.call (d := d) (by omega) hs he hfollow
  obtain ⟨n, left, rfl, hn⟩ := startsWith_of_spells hlib hl hp.1 hs
  have hopen : n.isOpenParenthesis = false := by
    cases hno : n.isOpenParenthesis with
    | false => rfl
    | true => exact absurd (hn.group hno) (by simp [hp.2])
  apply run_parseExprPostfix_of_type (run_parseExprPrimary_of_typeName ht)
  rw [parseExprCastValue, run_bind, run_takeIf rfl, hopen]
  simp only [Bool.false_eq_true, if_false, run_bind, hcall, run_pure]

/-! ### Postfixes -/

theorem ReadsPostfix.reads (h : ReadsPostfix lib s) : Reads lib s 12 := by
  intro d ts rest e hd hs he hfollow
  rw [h hd hs he (hfollow.mono (s.bound_mono (Nat.le_succ 12)))]
  exact run_postfixLoop_of_follow (hfollow.mono (s.bound_le (Nat.le_of_ble_eq_true rfl)))

/-- One more postfix behind an expression. -/
theorem ReadsPostfix.turn (h : ReadsPostfix lib e) (hclosed : e.isOpen = false) (hd : ts.length ≤ d)
    (hs : Spells lib e ts (.cons n left)) (he : e.fold lib = some v)
    (hn : (postfixOf n).isSome = true) {b : Bool}
    (hturn : (postfixTurn lib (calls lib d) (v, e.foundAllFields) n).run left = .ok ((x, b), rest)) :
    (reader lib (calls lib d) 12).run ts = (postfixLoop lib (calls lib d) (x, b)).run rest := by
  have hlt : tokenLevel lib n < e.bound 13 := by
    rw [Syntax.bound_of_closed hclosed, tokenLevel_of_postfixOf hn]
    exact Nat.lt_succ_self 12
  rw [h hd hs he (follow_cons hlt)]
  exact run_postfixLoop_turn hn hturn

theorem readsPostfix_field {name : Bytes} (hl : Leveled lib (.field e name))
    (hp : Plain lib (.field e name)) (h : ReadsPostfix lib e) : ReadsPostfix lib (.field e name) := by
  rintro d ts rest v hd ⟨ts₁, ts₂, hs, ⟨⟨token, location⟩, rfl, rfl⟩, ⟨⟨token, location⟩, rfl, rfl⟩⟩
    he -
  rw [Syntax.fold_field, Option.map_eq_some_iff] at he
  obtain ⟨w, he, rfl⟩ := he
  refine h.turn hp.2 hd hs he rfl ?_
  have hsame : (Syntax.field e name).foundAllFields = false := hl.2.2
  rw [hl.2.2, hsame]
  rfl

theorem readsPostfix_fieldsOf (hl : Leveled lib (.fieldsOf e)) (hp : Plain lib (.fieldsOf e))
    (h : ReadsPostfix lib e) : ReadsPostfix lib (.fieldsOf e) := by
  rintro d ts rest v hd ⟨ts₁, ts₂, hs, ⟨⟨token, location⟩, rfl, rfl⟩, ⟨⟨token, location⟩, rfl, rfl⟩⟩
    he -
  rw [Syntax.fold_fieldsOf, Option.map_eq_some_iff] at he
  obtain ⟨w, he, rfl⟩ := he
  refine h.turn hp.2 hd hs he rfl ?_
  rw [hl.2.2]
  rfl

theorem run_scopeType {t : CastType} (h : TypeName lib t ts rest) :
    (scopeType lib c).run ts = .ok (t, rest) := by
  have hword : ∃ n left, ts = .cons n left ∧ n.isIdentifier = true := by
    rcases h with ⟨n, rfl, hn, -⟩ | ⟨ts₁, ⟨n, rfl, hn, -⟩, -⟩
    · exact ⟨n, _, rfl, hn⟩
    · exact ⟨n, _, rfl, hn⟩
  obtain ⟨n, left, rfl, hn⟩ := hword
  rw [scopeType, run_bind, run_peek_cons]
  simp only [hn, if_true, run_bind, run_parseExprPrimary_of_typeName h, run_pure]

theorem readsPostfix_scope {t : CastType} (hp : Plain lib (.scope e t)) (h : ReadsPostfix lib e) :
    ReadsPostfix lib (.scope e t) := by
  rintro d ts rest v hd ⟨ts₁, ts₂, hs, ⟨⟨token, location⟩, rfl, rfl⟩, ht⟩ he -
  rw [Syntax.fold_scope, Option.map_eq_some_iff] at he
  obtain ⟨w, he, rfl⟩ := he
  refine h.turn hp.2 hd hs he rfl ?_
  exact run_bind_of_ok (run_scopeType ht)

theorem readsPostfix_element {i : Syntax F} (hp : Plain lib (.element e i)) (h : ReadsPostfix lib e)
    (hi : Reads lib i 1) : ReadsPostfix lib (.element e i) := by
  rintro d ts rest v hd ⟨ts₁, ts₂, ts₃, hs, ⟨⟨token, location⟩, rfl, rfl⟩, hsi, hclose⟩ he -
  rw [Syntax.fold_element_eq_some] at he
  obtain ⟨w, y, he, hiy, rfl⟩ := he
  have hlt := spells_length hs
  rw [length] at hlt
  have hcall := hi.call (d := d) (by omega) hsi hiy (follow_of_closeBracket hclose)
  obtain ⟨⟨token, location⟩, rfl, rfl⟩ := hclose
  refine h.turn hp.2.2 hd hs he rfl ?_
  exact (run_bind_of_ok hcall).trans (run_bind_of_ok (run_expectClosing rfl))

/-- The parameters of a call, and what it is folded to. -/
theorem run_callFunction {name : Bytes} {ps : List (ExprTree F)} {n₁ : TokenNode F}
    (hparams : ∀ {keyword : String} {count : Option ℕ}, count.getD ps.length = ps.length →
      (parseExprFunctionParameters c keyword count).run ts = .ok (ps, rest))
    (hfold : foldCall lib (.identifier name) ps = some x) :
    (callFunction lib c n₁ name).run ts = .ok (x, rest) := by
  simp only [foldCall, Option.bind_eq_bind, Option.bind_eq_some_iff] at hfold
  obtain ⟨⟨func, count⟩, hnamed, hfold⟩ := hfold
  simp only at hfold
  split at hfold
  · cases hfold
  · next hcount =>
    rw [callFunction]
    simp only [hnamed]
    rw [run_bind, hparams (not_not.1 hcount)]
    split at hfold
    · next hatan =>
      simp only [if_pos hatan]
      rw [Option.bind_eq_some_iff] at hfold
      obtain ⟨func', hfunc, hcall⟩ := hfold
      simp only [hfunc]
      exact run_lift_eq_ok.2 ⟨x, Syntax.toOption_eq_some.1 hcall, rfl⟩
    · next hatan =>
      simp only [if_neg hatan]
      exact run_lift_eq_ok.2 ⟨x, Syntax.toOption_eq_some.1 hfold, rfl⟩

/-- The token that closes a call. -/
theorem run_parseExprFunctionParameters {ps : List (ExprTree F)} {keyword : String}
    {count : Option ℕ} (hclose : Is .closeParenthesis ts₁ rest)
    (hcount : count.getD ps.length = ps.length)
    (hparams : (parameterList c).run ts = .ok (ps, ts₁)) :
    (parseExprFunctionParameters c keyword count).run ts = .ok (ps, rest) := by
  obtain ⟨⟨token, location⟩, rfl, rfl⟩ := hclose
  rw [parseExprFunctionParameters, run_bind, hparams]
  simp only
  rw [parametersEnd, run_bind, run_peek_cons]
  simp only [TokenNode.isCloseParenthesis, Bool.true_eq_false, if_false, hcount, ne_eq,
    not_true_eq_false]
  rw [run_bind, run_take_cons]
  rfl

/-- The tree that is called is an identifier. -/
theorem exists_of_foldCall {ps : List (ExprTree F)} (h : foldCall lib v ps = some x) :
    ∃ name, v = .identifier name := by
  cases v with
  | identifier name => exact ⟨name, rfl⟩
  | _ => cases h

theorem readsPostfix_callNone (hp : Plain lib (.callNone e)) (h : ReadsPostfix lib e) :
    ReadsPostfix lib (.callNone e) := by
  rintro d ts rest x hd ⟨ts₁, ts₂, hs, ⟨⟨token, location⟩, rfl, rfl⟩, hclose⟩ he -
  rw [Syntax.fold_callNone_eq_some] at he
  obtain ⟨v, he, hfold⟩ := he
  obtain ⟨name, rfl⟩ := exists_of_foldCall hfold
  refine h.turn hp.2 hd hs he rfl ?_
  have hcall : (callFunction lib (calls lib d) ⟨.openParenthesis, location⟩ name).run ts₂ =
      .ok (x, rest) := by
    have hclose' := hclose
    obtain ⟨⟨token, location⟩, rfl, rfl⟩ := hclose'
    exact run_callFunction (fun hcount => run_parseExprFunctionParameters hclose hcount rfl) hfold
  exact run_bind_of_ok hcall

theorem readsPostfix_call (hlib : lib.Lawful) {params : Syntax F} (hl : Leveled lib (.call e params))
    (hp : Plain lib (.call e params)) (h : ReadsPostfix lib e) (hi : ReadsItems lib params) :
    ReadsPostfix lib (.call e params) := by
  rintro d ts rest x hd ⟨ts₁, ts₂, ts₃, hs, ⟨⟨token, location⟩, rfl, rfl⟩, hsi, hclose⟩ he -
  rw [Syntax.fold_call_eq_some] at he
  obtain ⟨v, ps, he, hps, hfold⟩ := he
  obtain ⟨name, rfl⟩ := exists_of_foldCall hfold
  have hlt := spells_length hs
  rw [length] at hlt
  have hlist := hi (d := d) (by omega) hsi hps (follow_of_closeParenthesis hclose)
  have hstop : (listRest (calls lib d) ps).run ts₃ = .ok (ps, ts₃) := by
    obtain ⟨⟨token, location⟩, rfl, rfl⟩ := hclose
    exact run_repeatWhile_of_stops rfl rfl
  refine h.turn hp.2.2 hd hs he rfl ?_
  have hcall : (callFunction lib (calls lib d) ⟨.openParenthesis, location⟩ name).run ts₂ =
      .ok (x, rest) := by
    obtain ⟨n, left, rfl, hn⟩ := startsWith_of_spells hlib hl.2.1 hp.2.1 hsi
    refine run_callFunction (fun hcount => run_parseExprFunctionParameters hclose hcount ?_) hfold
    rw [parameterList, run_bind, run_peek_cons]
    simp only [hn.not_close, Bool.false_eq_true, if_false]
    rw [hlist, hstop]
  exact run_bind_of_ok hcall

end

end Expression

end Prinbee
