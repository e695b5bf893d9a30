import Prinbee.Pbql.ExpressionComplete

/-!
# The parser reads nothing but the grammar of expressions

Whenever the parser of `parse_expression.cpp` returns, the tokens it took spell an expression of the
grammar, and what it returns is the tree of this expression.  Each level is a lemma about its
function, from the ones about the functions it calls.

## Main definitions

* `Expression.Derives` — the tokens from one point to another spell an expression with this tree.
* `Expression.AtEnd` — the last token is the end of the script.
* `Expression.Sound` — a function returns trees of expressions that its tokens spell.

## Main results

* `Expression.sound_calls` — the levels, from the calls inside of one another.
* `Expression.derives_of_parseTree` — **the parser reads nothing but the grammar**.
-/

namespace Prinbee

namespace Expression

open TokenStream Reader
open Relation (TransGen ReflTransGen)
open Lexer (Token TokenNode)
open Prinbee.Parser (Parsing)

variable {F : Type} (lib : Library F)

/-- The last token is the end of the script. -/
def AtEnd (ts : Tokens F) : Prop := Ended (fun n => n.token = .eof) ts

/-- The tokens from one point to another spell an expression of at least this level, with this
tree. -/
def Derives (level : ℕ) (ts rest : Tokens F) (e : ExprTree F) : Prop :=
  ∃ s : Syntax F, level ≤ s.level ∧ Leveled lib s ∧ Spells lib s ts rest ∧ s.fold lib = some e

/-- The same for the expressions of the highest level, with `found_all_fields`. -/
def DerivesPostfix (ts rest : Tokens F) (s : ExprTree F × Bool) : Prop :=
  ∃ e : Syntax F, 12 ≤ e.level ∧ Leveled lib e ∧ Spells lib e ts rest ∧ e.fold lib = some s.1 ∧
    e.foundAllFields = s.2

/-- The same for what `parse_expr_primary()` returns. -/
def DerivesPrimary (ts rest : Tokens F) : Primary F → Prop
  | .type t => TypeName lib t ts rest
  | .tree e => DerivesPostfix lib ts rest (e, false)

/-- The same for lists. -/
def DerivesItems (ts rest : Tokens F) (params : List (ExprTree F)) : Prop :=
  ∃ s : Syntax F, Leveled lib s ∧ Spells lib s ts rest ∧ s.items lib = some params

/-- A function returns trees of expressions of at least this level. -/
def Sound (level : ℕ) (x : Parsing F (ExprTree F)) : Prop :=
  ∀ ⦃ts rest : Tokens F⦄ ⦃e : ExprTree F⦄, AtEnd ts → x.run ts = .ok (e, rest) →
    Derives lib level ts rest e

/-- The calls inside of one another do. -/
structure Recursion.Sound (c : Recursion F) : Prop where
  logicalOr : Expression.Sound lib 1 c.logicalOr
  other : Expression.Sound lib 7 c.other

section

variable {lib} {k : ℕ} {ts ts₁ rest left : Tokens F} {n : TokenNode F} {e v w x : ExprTree F}
  {c : Recursion F}

theorem AtEnd.eq_cons (hts : AtEnd ts) (hnext : ts.next = .ok (n, left)) (hn : n.token ≠ .eof) :
    ts = .cons n left := Ended.eq_cons hts hnext hn

theorem AtEnd.of_takes (hts : AtEnd ts) (h : TransGen Takes ts rest) : AtEnd rest :=
  Ended.of_takes hts h.to_reflTransGen

/-- A keyword is not the end of the script. -/
theorem ne_eof_of_keyword {word : String} (h : lib.keyword n = some word) : n.token ≠ .eof := by
  intro heof
  rw [Library.keyword, TokenNode.isIdentifier, heof] at h
  cases h

theorem Derives.mono {j : ℕ} (h : Derives lib k ts rest e) (hle : j ≤ k) : Derives lib j ts rest e := by
  obtain ⟨s, hs, hrest⟩ := h
  exact ⟨s, hle.trans hs, hrest⟩

theorem Derives.takes (h : Derives lib k ts rest e) : TransGen Takes ts rest := by
  obtain ⟨s, -, -, hs, -⟩ := h
  exact spells_takes hs

theorem Sound.mono {j : ℕ} {f : Parsing F (ExprTree F)} (h : Sound lib k f) (hle : j ≤ k) :
    Sound lib j f := fun _ _ _ hts hrun => (h hts hrun).mono hle

/-- The token that closes. -/
theorem spelled_of_expectClosing {closes : TokenNode F → Bool} {kind : ErrorKind}
    {error : TokenNode F → Parsing F Unit} {u : Unit} (hts : AtEnd ts)
    (herror : ∀ n, ∃ n' message, error n = Parser.thrownAt kind n' message)
    (heof : ∀ n, closes n = true → n.token ≠ .eof)
    (h : (expectClosing closes error).run ts = .ok (u, rest)) :
    Spelled (fun n => closes n = true) ts rest := by
  obtain ⟨n, left, hnext, h⟩ := run_peek_bind_eq_ok.1 h
  split at h
  · next hn =>
    obtain rfl := hts.eq_cons hnext (heof n hn)
    cases h
    exact ⟨n, rfl, hn⟩
  · obtain ⟨n', message, hthrown⟩ := herror n
    rw [hthrown] at h
    cases h

/-- A closing parenthesis. -/
theorem is_of_expectClosing {kind : ErrorKind} {message : String} {u : Unit} (hts : AtEnd ts)
    (h : (expectClosing (fun n => n.isCloseParenthesis)
      (fun n => Parser.thrownAt kind n message)).run ts = .ok (u, rest)) :
    Is .closeParenthesis ts rest := by
  have htoken : ∀ n : TokenNode F, n.isCloseParenthesis = true → n.token = .closeParenthesis := by
    rintro ⟨token, location⟩ hn
    cases token <;> first | rfl | cases hn
  obtain ⟨n, rfl, hn⟩ := spelled_of_expectClosing hts (fun _ => ⟨_, _, rfl⟩)
    (fun n hn => by simp [htoken n hn]) h
  exact ⟨n, rfl, htoken n hn⟩

/-! ### Primary expressions -/

/-- Strings that follow each other. -/
theorem strings_of_run {s s' : Bytes}
    (h : (repeatWhile (fun _ n => n.isString) (fun s (n : TokenNode F) => pure (s ++ n.string)) s).run
      ts = .ok (s', rest)) : ∃ more, Strings more ts rest ∧ s' = s ++ more.flatten := by
  rw [run_repeatWhile_eq_ok] at h
  induction h with
  | stop s t => exact ⟨[], rfl, by simp⟩
  | done rest hc => exact ⟨[], rfl, by simp⟩
  | @turn s s' s'' n rest ts ts' hc hturn hrest ih =>
    cases hturn
    obtain ⟨more, hmore, rfl⟩ := ih
    obtain ⟨token, location⟩ := n
    cases token with
    | string a => exact ⟨a :: more, ⟨rest, ⟨_, rfl, rfl⟩, hmore⟩, by simp [TokenNode.string]⟩
    | _ => cases hc

/-- Behind an identifier. -/
theorem derives_of_identifierPrimary {p : Primary F} (hleft : AtEnd left) (hn : n.isIdentifier = true)
    (h : (identifierPrimary lib n).run left = .ok (p, rest)) :
    DerivesPrimary lib (.cons n left) rest p := by
  rw [identifierPrimary] at h
  split at h
  · next t ht =>
    cases h
    exact .inl ⟨n, rfl, hn, ht⟩
  · next hnone =>
    have hword : Spelled (fun n : TokenNode F => n.isIdentifier = true ∧
        types.lookup (textOf (lib.toLower n.string)) = none) (.cons n left) left :=
      ⟨n, rfl, hn, hnone⟩
    split at h
    · next hdouble =>
      obtain ⟨m, left', hnext, h⟩ := run_peek_bind_eq_ok.1 h
      split at h
      · next hm =>
        obtain rfl := hleft.eq_cons hnext (ne_eof_of_keyword hm)
        cases h
        exact .inr ⟨_, hword, .inl ⟨rfl, ⟨n, rfl, hn, hdouble⟩, m, rfl, hm⟩⟩
      · cases h
    · next hdouble =>
      split at h
      · next hunsigned =>
        obtain ⟨m, left', hnext, h⟩ := run_peek_bind_eq_ok.1 h
        split at h
        · cases h
        · next word hm =>
          split at h
          · next t ht =>
            obtain rfl := hleft.eq_cons hnext (ne_eof_of_keyword hm)
            cases h
            exact .inr ⟨_, hword, .inr ⟨⟨n, rfl, hn, hunsigned⟩, m, rfl, word, hm, ht⟩⟩
          · cases h
      · next hunsigned =>
        cases h
        obtain ⟨token, location⟩ := n
        cases token with
        | identifier s =>
          exact ⟨.word s, le_rfl, ⟨hnone, hdouble, hunsigned⟩, ⟨_, rfl, rfl⟩, rfl, rfl⟩
        | _ => cases hn

theorem derives_of_parseExprPrimary (hc : c.Sound lib) {p : Primary F} (hts : AtEnd ts)
    (h : (parseExprPrimary lib c).run ts = .ok (p, rest)) : DerivesPrimary lib ts rest p := by
  obtain ⟨n, left, hnext, h⟩ := run_peek_bind_eq_ok.1 h
  have hcons := hts.eq_cons hnext
  obtain ⟨token, location⟩ := n
  cases token with
  | string s =>
    obtain rfl := hcons (by simp)
    simp only [run_take_bind_cons] at h
    obtain ⟨s', left', hloop, h⟩ := run_bind_eq_ok.1 h
    cases h
    obtain ⟨more, hmore, rfl⟩ := strings_of_run hloop
    exact ⟨.string s more, le_rfl, trivial, ⟨left, ⟨_, rfl, rfl⟩, hmore⟩, rfl, rfl⟩
  | identifier s =>
    obtain rfl := hcons (by simp)
    simp only [run_take_bind_cons] at h
    exact derives_of_identifierPrimary hts rfl h
  | floatingPoint f =>
    obtain rfl := hcons (by simp)
    cases h
    exact ⟨.floatingPoint f, le_rfl, trivial, ⟨_, rfl, rfl⟩, rfl, rfl⟩
  | integer m =>
    obtain rfl := hcons (by simp)
    cases h
    exact ⟨.integer m, le_rfl, trivial, ⟨_, rfl, rfl⟩, rfl, rfl⟩
  | multiply =>
    obtain rfl := hcons (by simp)
    cases h
    exact ⟨.allFields, le_rfl, trivial, ⟨_, rfl, rfl⟩, rfl, rfl⟩
  | openParenthesis =>
    obtain rfl := hcons (by simp)
    simp only [run_take_bind_cons] at h
    obtain ⟨v, ts₁, hcall, h⟩ := run_bind_eq_ok.1 h
    obtain ⟨u, ts₂, hclose, h⟩ := run_bind_eq_ok.1 h
    cases h
    have hleft : AtEnd left := hts
    obtain ⟨s, hlevel, hl, hs, he⟩ := hc.logicalOr hleft hcall
    have hclosed := is_of_expectClosing (hleft.of_takes (spells_takes hs)) hclose
    exact ⟨.group s, le_rfl, ⟨hl, hlevel⟩, ⟨left, ts₁, ⟨_, rfl, rfl⟩, hs, hclosed⟩,
      by simp [he], rfl⟩
  | _ => cases h

/-! ### Behind a primary expression -/

theorem derives_of_parseExprCastValue (hc : c.Sound lib) {t : CastType} (hts : AtEnd ts)
    (ht : TypeName lib t ts ts₁) (h : (parseExprCastValue c t).run ts₁ = .ok (e, rest)) :
    DerivesPostfix lib ts rest (e, false) := by
  have hts₁ := hts.of_takes ht.takes
  obtain ⟨n, left, hnext, h⟩ := run_takeIf_bind_eq_ok.1 h
  cases hn : n.isOpenParenthesis with
  | false =>
    simp only [hn, Bool.false_eq_true, if_false] at h
    obtain ⟨v, ts₂, hcall, h⟩ := run_bind_eq_ok.1 h
    cases h
    obtain ⟨s, hlevel, hl, hs, he⟩ := hc.logicalOr hts₁ hcall
    exact ⟨.castBare t s, le_rfl, ⟨hl, hlevel⟩, ⟨ts₁, ht, hs⟩, by simp [he], rfl⟩
  | true =>
    simp only [hn, if_true] at h
    obtain ⟨v, ts₂, hcall, h⟩ := run_bind_eq_ok.1 h
    obtain ⟨u, ts₃, hclose, h⟩ := run_bind_eq_ok.1 h
    cases h
    have htoken : n.token = .openParenthesis := by
      obtain ⟨token, location⟩ := n
      cases token <;> first | rfl | cases hn
    obtain rfl := hts₁.eq_cons hnext (by simp [htoken])
    have hleft : AtEnd left := hts₁
    obtain ⟨s, hlevel, hl, hs, he⟩ := hc.logicalOr hleft hcall
    have hclosed := is_of_expectClosing (hleft.of_takes (spells_takes hs)) hclose
    exact ⟨.castGroup t s, le_rfl, ⟨hl, hlevel⟩, ⟨_, left, ts₂, ht, ⟨n, rfl, htoken⟩, hs, hclosed⟩,
      by simp [he], rfl⟩

theorem derivesItems_of_parseExprList (hc : c.Sound lib) {params : List (ExprTree F)}
    (hts : AtEnd ts) (h : (parseExprList c).run ts = .ok (params, rest)) :
    DerivesItems lib ts rest params := by
  obtain ⟨v, ts₁, hfirst, h⟩ := run_bind_eq_ok.1 h
  obtain ⟨s, hlevel, hl, hs, he⟩ := hc.logicalOr hts hfirst
  have hstart : DerivesItems lib ts ts₁ [v] :=
    ⟨s, hl, hs, by rw [Syntax.items_of_level hlevel, he]; rfl⟩
  refine (run_repeatWhile_eq_ok.1 h).preserves
    (I := fun ps ts₂ => DerivesItems lib ts ts₂ ps) hstart ?_
  rintro ps n left ps' ts₂ ⟨l, hll, hsl, hel⟩ hn hturn
  obtain ⟨w, ts₃, hcall, hturn⟩ := run_bind_eq_ok.1 hturn
  cases hturn
  have hcons : AtEnd (.cons n left) := hts.of_takes (spells_takes hsl)
  have hleft : AtEnd left := hcons
  obtain ⟨r, hlevel, hlr, hsr, her⟩ := hc.logicalOr hleft hcall
  have htoken : n.token = .comma := by
    obtain ⟨token, location⟩ := n
    cases token <;> first | rfl | cases hn
  exact ⟨.comma l r, ⟨hll, hlr, hlevel⟩, ⟨_, _, hsl, ⟨n, rfl, htoken⟩, hsr⟩,
    Syntax.items_comma_eq_some.2 ⟨ps, w, hel, her, rfl⟩⟩

/-- The parameters of a call: none, or a list. -/
theorem derives_of_parseExprFunctionParameters (hc : c.Sound lib) {params : List (ExprTree F)}
    {keyword : String} {count : Option ℕ} (hts : AtEnd ts)
    (h : (parseExprFunctionParameters c keyword count).run ts = .ok (params, rest)) :
    count.getD params.length = params.length ∧ ∃ ts₁, Is .closeParenthesis ts₁ rest ∧
      ((params = [] ∧ ts₁ = ts) ∨ DerivesItems lib ts ts₁ params) := by
  obtain ⟨ps, ts₁, hlist, h⟩ := run_bind_eq_ok.1 h
  -- the list is none, or there are items
  have hparams : (ps = [] ∧ ts₁ = ts) ∨ DerivesItems lib ts ts₁ ps := by
    obtain ⟨n, left, hnext, hlist⟩ := run_peek_bind_eq_ok.1 hlist
    split at hlist
    · cases hlist
      exact .inl ⟨rfl, rfl⟩
    · exact .inr (derivesItems_of_parseExprList hc hts hlist)
  have hts₁ : AtEnd ts₁ := by
    rcases hparams with ⟨-, rfl⟩ | ⟨s, -, hs, -⟩
    · exact hts
    · exact hts.of_takes (spells_takes hs)
  obtain ⟨n, left, hnext, h⟩ := run_peek_bind_eq_ok.1 h
  split at h
  · cases h
  · next hn =>
    split at h
    · cases h
    · next hcount =>
      have htoken : n.token = .closeParenthesis := by
        obtain ⟨token, location⟩ := n
        cases token <;> first | rfl | exact absurd rfl hn
      obtain rfl := hts₁.eq_cons hnext (by simp [htoken])
      cases h
      exact ⟨not_not.1 hcount, _, ⟨n, rfl, htoken⟩, hparams⟩

/-- A call. -/
theorem derives_of_callFunction (hc : c.Sound lib) {name : Bytes} (hts : AtEnd ts)
    (h : (callFunction lib c n name).run ts = .ok (x, rest)) :
    ∃ params ts₁, Is .closeParenthesis ts₁ rest ∧
      ((params = [] ∧ ts₁ = ts) ∨ DerivesItems lib ts ts₁ params) ∧
        foldCall lib (.identifier name) params = some x := by
  rw [callFunction] at h
  split at h
  · cases h
  · next func count hnamed =>
    obtain ⟨params, ts', hparams, h⟩ := run_bind_eq_ok.1 h
    obtain ⟨hcount, ts₁, hclose, hlist⟩ := derives_of_parseExprFunctionParameters hc hts hparams
    -- what is left behind the call is behind the parenthesis
    have hfold : rest = ts' ∧ foldCall lib (.identifier name) params = some x := by
      simp only [foldCall, hnamed, Option.bind_eq_bind, Option.bind_some, hcount, ne_eq,
        not_true_eq_false, if_false]
      split at h
      · next hatan =>
        rw [if_pos hatan]
        split at h
        · next func' hfunc =>
          obtain ⟨y, hy, hr⟩ := run_lift_eq_ok.1 h
          cases hr
          exact ⟨rfl, by rw [hfunc, Option.bind_some, hy]; rfl⟩
        · obtain ⟨m, left, hnext, h⟩ := run_peek_bind_eq_ok.1 h
          cases h
      · next hatan =>
        rw [if_neg hatan]
        obtain ⟨y, hy, hr⟩ := run_lift_eq_ok.1 h
        cases hr
        exact ⟨rfl, by rw [hy]; rfl⟩
    obtain ⟨rfl, hfold⟩ := hfold
    exact ⟨params, ts₁, hclose, hlist, hfold⟩

/-- The type behind `::`. -/
theorem typeName_of_scopeType (hc : c.Sound lib) {t : CastType} (hts : AtEnd ts)
    (h : (scopeType lib c).run ts = .ok (t, rest)) : TypeName lib t ts rest := by
  obtain ⟨n, left, hnext, h⟩ := run_peek_bind_eq_ok.1 h
  split at h
  · obtain ⟨p, ts₁, hp, h⟩ := run_bind_eq_ok.1 h
    have hderives := derives_of_parseExprPrimary hc hts hp
    split at h
    · cases h
      exact hderives
    · cases h
    · obtain ⟨m, left', hnext', h⟩ := run_peek_bind_eq_ok.1 h
      cases h
  · cases h

theorem token_of_isCloseBracket (h : isCloseBracket n = true) : n.token = .closeBracket := by
  obtain ⟨token, location⟩ := n
  cases token <;> first | rfl | cases h

/-- One more postfix. -/
theorem derives_of_postfixTurn (hc : c.Sound lib) {s s' : ExprTree F × Bool} (hts : AtEnd ts)
    (hfirst : DerivesPostfix lib ts (.cons n left) s) (hn : (postfixOf n).isSome = true)
    (h : (postfixTurn lib c s n).run left = .ok (s', rest)) : DerivesPostfix lib ts rest s' := by
  obtain ⟨e, hlevel, hl, hs, he, hall⟩ := hfirst
  have hcons : AtEnd (.cons n left) := hts.of_takes (spells_takes hs)
  have hleft : AtEnd left := hcons
  obtain ⟨token, location⟩ := n
  cases token with
  | period =>
    simp only [postfixTurn, postfixOf] at h
    split at h
    · cases h
    · next hnot =>
      rw [Bool.not_eq_true] at hnot
      obtain ⟨m, left', hnext, h⟩ := run_peek_bind_eq_ok.1 h
      split at h
      · next hm =>
        obtain rfl := hleft.eq_cons hnext (by simp [hm])
        cases h
        exact ⟨.fieldsOf e, le_rfl, ⟨hl, hlevel, hall.trans hnot⟩,
          ⟨_, _, hs, ⟨_, rfl, rfl⟩, ⟨m, rfl, hm⟩⟩, by simp [he], rfl⟩
      · next name hm =>
        obtain rfl := hleft.eq_cons hnext (by simp [hm])
        cases h
        exact ⟨.field e name, le_rfl, ⟨hl, hlevel, hall.trans hnot⟩,
          ⟨_, _, hs, ⟨_, rfl, rfl⟩, ⟨m, rfl, hm⟩⟩, by simp [he], hall⟩
      · cases h
  | scope =>
    obtain ⟨t, ts₁, ht, h⟩ := run_bind_eq_ok.1 h
    cases h
    exact ⟨.scope e t, le_rfl, ⟨hl, hlevel⟩,
      ⟨_, _, hs, ⟨_, rfl, rfl⟩, typeName_of_scopeType hc hleft ht⟩, by simp [he], hall⟩
  | openBracket =>
    obtain ⟨i, ts₁, hcall, h⟩ := run_bind_eq_ok.1 h
    obtain ⟨u, ts₂, hclose, h⟩ := run_bind_eq_ok.1 h
    cases h
    obtain ⟨j, hlevel', hl', hs', he'⟩ := hc.logicalOr hleft hcall
    obtain ⟨m, rfl, hm⟩ := spelled_of_expectClosing (hleft.of_takes (spells_takes hs'))
      (fun _ => ⟨_, _, rfl⟩) (fun m hm => by simp [token_of_isCloseBracket hm]) hclose
    exact ⟨.element e j, le_rfl, ⟨hl, hl', hlevel, hlevel'⟩,
      ⟨_, _, _, hs, ⟨_, rfl, rfl⟩, hs', ⟨m, rfl, token_of_isCloseBracket hm⟩⟩,
      Syntax.fold_element_eq_some.2 ⟨s.1, i, he, he', rfl⟩, hall⟩
  | openParenthesis =>
    obtain ⟨result, found⟩ := s
    simp only [postfixTurn, postfixOf] at h
    split at h
    · next name =>
      obtain ⟨x, ts₁, hcall, h⟩ := run_bind_eq_ok.1 h
      cases h
      obtain ⟨params, ts₂, hclose, hlist, hfold⟩ := derives_of_callFunction hc hleft hcall
      rcases hlist with ⟨rfl, rfl⟩ | ⟨s, hl', hs', he'⟩
      · exact ⟨.callNone e, le_rfl, ⟨hl, hlevel⟩, ⟨_, _, hs, ⟨_, rfl, rfl⟩, hclose⟩,
          Syntax.fold_callNone_eq_some.2 ⟨_, he, hfold⟩, hall⟩
      · exact ⟨.call e s, le_rfl, ⟨hl, hl', hlevel⟩, ⟨_, _, _, hs, ⟨_, rfl, rfl⟩, hs', hclose⟩,
          Syntax.fold_call_eq_some.2 ⟨_, params, he, he', hfold⟩, hall⟩
    · cases h
  | _ => cases hn

theorem sound_parseExprPostfix (hc : c.Sound lib) : Sound lib 12 (parseExprPostfix lib c) := by
  intro ts rest e hts h
  obtain ⟨p, ts₁, hp, h⟩ := run_bind_eq_ok.1 h
  have hprimary := derives_of_parseExprPrimary hc hts hp
  have hloop : ∀ {v : ExprTree F} {ts₂ : Tokens F}, DerivesPostfix lib ts ts₂ (v, false) →
      (postfixLoop lib c (v, false)).run ts₂ = .ok (e, rest) → Derives lib 12 ts rest e := by
    intro v ts₂ hv h
    obtain ⟨s, ts₃, hrun, h⟩ := run_bind_eq_ok.1 h
    cases h
    obtain ⟨s, hlevel, hl, hs, he, -⟩ := (run_repeatWhile_eq_ok.1 hrun).preserves
      (I := fun s ts₃ => DerivesPostfix lib ts ts₃ s) hv
      fun hI hn hturn => derives_of_postfixTurn hc hts hI hn hturn
    exact ⟨s, hlevel, hl, hs, he⟩
  cases p with
  | type t =>
    obtain ⟨v, ts₂, hcast, h⟩ := run_bind_eq_ok.1 h
    exact hloop (derives_of_parseExprCastValue hc hts hprimary hcast) h
  | tree v =>
    obtain ⟨v', ts₂, hv, h⟩ := run_bind_eq_ok.1 h
    cases hv
    exact hloop hprimary h

/-! ### The levels -/

/-- Signs that follow each other. -/
theorem signs_of_run {b b' : Bool}
    (h : (repeatWhile (fun _ n => (signOfToken n).isSome)
      (fun negate (n : TokenNode F) => pure (negate ^^ (signOfToken n).getD false)) b).run ts =
        .ok (b', rest)) :
    ∃ more, Signs more ts rest ∧ b' = more.foldl (fun negate m => negate ^^ m) b := by
  rw [run_repeatWhile_eq_ok] at h
  induction h with
  | stop s t => exact ⟨[], rfl, rfl⟩
  | done rest hc => exact ⟨[], rfl, rfl⟩
  | @turn s s' s'' n rest ts ts' hc hturn hrest ih =>
    cases hturn
    obtain ⟨more, hmore, rfl⟩ := ih
    obtain ⟨m, hm⟩ := Option.isSome_iff_exists.1 hc
    exact ⟨m :: more, ⟨rest, ⟨n, rfl, hm⟩, hmore⟩, by rw [hm]; rfl⟩

theorem sound_parseExprUnary (hc : c.Sound lib) : Sound lib 11 (parseExprUnary lib c) := by
  intro ts rest e hts h
  have hafter := sound_parseExprPostfix hc
  obtain ⟨n, left, hnext, h⟩ := run_peek_bind_eq_ok.1 h
  split at h
  · next hn =>
    obtain ⟨negate, ts₁, hloop, h⟩ := run_bind_eq_ok.1 h
    obtain ⟨v, ts₂, hv, h⟩ := run_bind_eq_ok.1 h
    -- the first token is a sign, so that there is a first turn
    have hsigns : ∃ m more, Signs (m :: more) ts ts₁ ∧
        negate = more.foldl (fun negate m => negate ^^ m) m := by
      have heof : n.token ≠ .eof := by
        intro heof
        rw [signOfToken, heof] at hn
        cases hn
      obtain rfl := hts.eq_cons hnext heof
      rw [run_repeatWhile_eq_ok] at hloop
      cases hloop with
      | done rest hc => exact absurd hn (Bool.eq_false_iff.1 hc)
      | turn hc hturn hrest =>
        cases hturn
        obtain ⟨m, hm⟩ := Option.isSome_iff_exists.1 hc
        obtain ⟨more, hmore, rfl⟩ := signs_of_run (run_repeatWhile_eq_ok.2 hrest)
        exact ⟨m, more, ⟨left, ⟨n, rfl, hm⟩, hmore⟩, by rw [hm]; simp⟩
    obtain ⟨m, more, hsigns, rfl⟩ := hsigns
    have hts₁ : AtEnd ts₁ := Ended.of_takes hts (signs_takes hsigns)
    obtain ⟨s, hlevel, hl, hs, he⟩ := hafter hts₁ hv
    split at h
    · obtain ⟨m, left', hnext', h⟩ := run_peek_bind_eq_ok.1 h
      cases h
    · next hrefused =>
      obtain ⟨y, hy, hr⟩ := run_lift_eq_ok.1 h
      cases hr
      refine ⟨.sign m more s, le_rfl, ⟨hl, hlevel⟩, ⟨ts₁, hsigns, hs⟩,
        Syntax.fold_sign_eq_some.2 ⟨v, he, ?_⟩⟩
      rw [foldSign, hrefused, hy]
      rfl
  · exact (hafter hts h).mono (Nat.le_succ 11)

/-- The operators of a level. -/
theorem sound_leftAssociative {ω : Type} {operand : Parsing F (ExprTree F)}
    {operator : TokenNode F → Option ω} {combine : ω → ExprTree F → ExprTree F → Parsing F (ExprTree F)}
    (o : ω → Operator) (hlevel : ∀ y, (o y).level = k) (h7 : k ≠ 7)
    (htoken : ∀ {n y}, operator n = some y → (o y).IsToken lib n)
    (hcombine : ∀ {y a b ts x rest}, (combine y a b).run ts = .ok (x, rest) →
      rest = ts ∧ (o y).fold lib a b = some x)
    (hoperand : Sound lib (k + 1) operand) :
    Sound lib k (leftAssociative operand operator combine) := by
  intro ts rest e hts h
  refine leftAssociative_induction (P := fun e rest => Derives lib k ts rest e) ?_ ?_ h
  · intro a rest ha
    exact (hoperand hts ha).mono (Nat.le_succ k)
  · rintro a n y ts₁ b ts₂ x rest ⟨l, hle, hl, hs, he⟩ hy hb hx
    have hcons : AtEnd (.cons n ts₁) := hts.of_takes (spells_takes hs)
    have hleft : AtEnd ts₁ := hcons
    obtain ⟨r, hlt, hlr, hsr, her⟩ := hoperand hleft hb
    obtain ⟨rfl, hfold⟩ := hcombine hx
    refine ⟨.binary (o y) l r, (hlevel y).ge, ⟨hl, hlr, ?_, ?_, ?_⟩,
      ⟨_, _, hs, ⟨n, rfl, htoken hy⟩, hsr⟩, Syntax.fold_binary_eq_some.2 ⟨a, b, he, her, hfold⟩⟩
    · exact (hlevel y).trans_le hle
    · exact ((hlevel y).trans_lt (Nat.lt_succ_self k)).trans_le hlt
    · intro h
      exact absurd ((hlevel y).symm.trans h) h7

/-- An operator that is folded at once. -/
theorem eq_of_run_lift {y : Except Failure (ExprTree F)}
    (h : (lift y : Parsing F (ExprTree F)).run ts = .ok (x, rest)) :
    rest = ts ∧ y.toOption = some x := by
  obtain ⟨a, rfl, hr⟩ := run_lift_eq_ok.1 h
  cases hr
  exact ⟨rfl, rfl⟩

theorem sound_parseExprExponentiation (hc : c.Sound lib) :
    Sound lib 10 (parseExprExponentiation lib c) :=
  sound_leftAssociative (fun _ => .power) (fun _ => rfl) (by decide) (fun h => h) eq_of_run_lift
    (sound_parseExprUnary hc)

theorem sound_parseExprMultiplicative (hc : c.Sound lib) :
    Sound lib 9 (parseExprMultiplicative lib c) :=
  sound_leftAssociative .multiplicative (fun _ => rfl) (by decide) (fun h => h) eq_of_run_lift
    (sound_parseExprExponentiation hc)

theorem sound_parseExprAdditive (hc : c.Sound lib) : Sound lib 8 (parseExprAdditive lib c) := by
  refine sound_leftAssociative .additive (fun _ => rfl) (by decide) (fun h => h) ?_
    (sound_parseExprMultiplicative hc)
  intro t a b ts x rest h
  split at h
  · obtain ⟨n, left, hnext, h⟩ := run_peek_bind_eq_ok.1 h
    cases h
  · next hrefused =>
    obtain ⟨rfl, hfold⟩ := eq_of_run_lift h
    exact ⟨rfl, by rw [Operator.fold, if_neg hrefused, hfold]⟩

/-- What the loop of `parse_expr_other()` has read: behind an operator `||` is no further one. -/
def DerivesOther (lib : Library F) (ts rest : Tokens F) (e : ExprTree F) : Prop :=
  ∃ s : Syntax F, 7 ≤ s.level ∧ s.isAhead = false ∧ Leveled lib s ∧ Spells lib s ts rest ∧
    s.fold lib = some e ∧ (s.isConcat = true → ∀ n left, rest = .cons n left →
      otherOf n ≠ some .concat)

/-- The operands of `||`. -/
def DerivesOperands (lib : Library F) (ts rest : Tokens F) (params : List (ExprTree F)) : Prop :=
  ∃ s : Syntax F, s.isConcat = true ∧ Leveled lib s ∧ Spells lib s ts rest ∧
    s.operands lib = some params

theorem Syntax.level_of_isConcat {s : Syntax F} (h : s.isConcat = true) :
    s.level = 7 ∧ s.isAhead = false := by
  cases s with
  | concat l r => exact ⟨rfl, rfl⟩
  | _ => cases h

/-- An operator and its right operand. -/
theorem derivesOther_of_binary (hc : c.Sound lib) (hts : AtEnd ts) {o : Operator}
    (h7 : o.level = 7) (hfirst : DerivesOther lib ts (.cons n left) v) (hn : o.IsToken lib n)
    (hb : (parseExprAdditive lib c).run left = .ok (w, rest)) (hfold : o.fold lib v w = some x) :
    DerivesOther lib ts rest x := by
  obtain ⟨l, hlevel, hahead, hl, hs, he, -⟩ := hfirst
  have hcons : AtEnd (.cons n left) := hts.of_takes (spells_takes hs)
  have hleft : AtEnd left := hcons
  obtain ⟨r, hlt, hlr, hsr, her⟩ := sound_parseExprAdditive hc hleft hb
  refine ⟨.binary o l r, h7.ge, rfl, ⟨hl, hlr, h7.trans_le hlevel, ?_, fun _ => hahead⟩,
    ⟨_, _, hs, ⟨n, rfl, hn⟩, hsr⟩, Syntax.fold_binary_eq_some.2 ⟨v, w, he, her, hfold⟩,
    fun h => by cases h⟩
  rw [h7]
  exact hlt

/-- One more operand of `||`. -/
theorem derivesOperands_of_concat (hc : c.Sound lib) (hts : AtEnd ts) {l : Syntax F}
    {params params' : List (ExprTree F)} (hlevel : 7 ≤ l.level) (hahead : l.isAhead = false)
    (hl : Leveled lib l) (hs : Spells lib l ts (.cons n left)) (he : l.operands lib = some params)
    (hn : otherOf n = some .concat) (hb : (parseExprAdditive lib c).run left = .ok (w, rest))
    (hparams : concatParam lib params w = .ok params') : DerivesOperands lib ts rest params' := by
  have hcons : AtEnd (.cons n left) := hts.of_takes (spells_takes hs)
  have hleft : AtEnd left := hcons
  obtain ⟨r, hlt, hlr, hsr, her⟩ := sound_parseExprAdditive hc hleft hb
  have htoken : n.token = .stringConcat := by
    obtain ⟨token, location⟩ := n
    cases token <;> first | rfl | cases hn
  exact ⟨.concat l r, rfl, ⟨hl, hlr, hlevel, hlt, hahead⟩, ⟨_, _, hs, ⟨n, rfl, htoken⟩, hsr⟩,
    Syntax.operands_concat_eq_some.2 ⟨params, w, he, her, hparams⟩⟩

theorem derivesOther_of_otherTurn (hc : c.Sound lib) (hts : AtEnd ts)
    (hfirst : DerivesOther lib ts (.cons n left) v) (hn : (otherOf n).isSome = true)
    (h : (otherTurn lib c v n).run left = .ok (x, rest)) : DerivesOther lib ts rest x := by
  obtain ⟨o, ho⟩ := Option.isSome_iff_exists.1 hn
  simp only [otherTurn, ho] at h
  cases o with
  | integer t =>
    obtain ⟨w, ts₁, hb, h⟩ := run_bind_eq_ok.1 h
    obtain ⟨rfl, hfold⟩ := eq_of_run_lift h
    exact derivesOther_of_binary hc hts (o := .integer t) rfl hfirst ho hb hfold
  | regularExpression b =>
    obtain ⟨w, ts₁, hb, h⟩ := run_bind_eq_ok.1 h
    obtain ⟨rfl, hfold⟩ := eq_of_run_lift h
    exact derivesOther_of_binary hc hts (o := .regularExpression b) rfl hfirst ho hb hfold
  | concat =>
    obtain ⟨w, ts₁, hb, h⟩ := run_bind_eq_ok.1 h
    obtain ⟨params, ts₂, hlift, h⟩ := run_bind_eq_ok.1 h
    obtain ⟨_, hparams, hr⟩ := run_lift_eq_ok.1 hlift
    cases hr
    obtain ⟨params', ts₃, hloop, h⟩ := run_bind_eq_ok.1 h
    obtain ⟨rfl, hcall⟩ := eq_of_run_lift h
    obtain ⟨l, hlevel, hahead, hl, hs, he, hnot⟩ := hfirst
    have hconcat : l.isConcat = false := Bool.eq_false_iff.2 fun h => hnot h n left rfl ho
    have hsingle : l.operands lib = some [v] := by
      rw [Syntax.operands_of_not_concat hconcat, he]
      rfl
    have hstart := derivesOperands_of_concat hc hts hlevel hahead hl hs hsingle ho hb hparams
    rw [run_repeatWhile_eq_ok] at hloop
    obtain ⟨s, hsc, hls, hss, hes⟩ := hloop.preserves
      (I := fun params ts' => DerivesOperands lib ts ts' params) hstart (by
        rintro ps m left' ps' ts' ⟨s, hsc, hls, hss, hes⟩ hm hturn
        obtain ⟨y, ts'', hy, hturn⟩ := run_bind_eq_ok.1 hturn
        obtain ⟨_, hps, hr⟩ := run_lift_eq_ok.1 hturn
        cases hr
        obtain ⟨hs7, hsa⟩ := Syntax.level_of_isConcat hsc
        exact derivesOperands_of_concat hc hts hs7.ge hsa hls hss hes (of_decide_eq_true hm) hy hps)
    obtain ⟨hs7, hsa⟩ := Syntax.level_of_isConcat hsc
    refine ⟨s, hs7.ge, hsa, hls, hss, ?_, ?_⟩
    · rw [Syntax.fold_of_isConcat hsc, hes]
      exact hcall
    · rintro - m left' rfl
      rcases hloop.stops with ⟨t, ht⟩ | ⟨t, left'', ht, hcontinues⟩
      · cases ht
      · cases ht
        exact of_decide_eq_false hcontinues

theorem sound_parseExprOther (hc : c.Sound lib) : Sound lib 7 (parseExprOther lib c) := by
  intro ts rest e hts h
  obtain ⟨n, left, hnext, h⟩ := run_peek_bind_eq_ok.1 h
  split at h
  · next func hfunc =>
    have htoken : n.token ≠ .eof ∧ func ∈ [Function.abs, .sqrt, .cbrt] := by
      obtain ⟨token, location⟩ := n
      cases token <;> first | (cases hfunc; simp) | cases hfunc
    obtain rfl := hts.eq_cons hnext htoken.1
    rw [run_take_bind_cons] at h
    obtain ⟨v, ts₁, hcall, h⟩ := run_bind_eq_ok.1 h
    obtain ⟨_, hx, hr⟩ := run_lift_eq_ok.1 h
    cases hr
    have hleft : AtEnd left := hts
    obtain ⟨s, hlevel, hl, hs, he⟩ := hc.other hleft hcall
    exact ⟨.ahead func s, le_rfl, ⟨hl, hlevel, htoken.2⟩, ⟨left, ⟨n, rfl, hfunc⟩, hs⟩,
      Syntax.fold_ahead_eq_some.2 ⟨v, he, hx⟩⟩
  · obtain ⟨v, ts₁, hv, h⟩ := run_bind_eq_ok.1 h
    obtain ⟨l, hlevel, hl, hs, he⟩ := sound_parseExprAdditive hc hts hv
    -- the first operand is no operator of this level
    have hfirst : DerivesOther lib ts ts₁ v := by
      refine ⟨l, Nat.le_of_succ_le hlevel, ?_, hl, hs, he, ?_⟩
      · cases l with
        | ahead func e => exact absurd hlevel (Nat.not_succ_le_self 7)
        | _ => rfl
      · intro hconcat
        cases l with
        | concat l r => exact absurd hlevel (Nat.not_succ_le_self 7)
        | _ => cases hconcat
    obtain ⟨s, hlevel, -, hl, hs, he, -⟩ := (run_repeatWhile_eq_ok.1 h).preserves
      (I := fun e ts' => DerivesOther lib ts ts' e) hfirst
      fun hI hn hturn => derivesOther_of_otherTurn hc hts hI hn hturn
    exact ⟨s, hlevel, hl, hs, he⟩

/-! ### Conditions -/

/-- An optional `NOT`. -/
theorem negated_of_takeIf {α : Type} {f : Bool → Parsing F α} {r : α × Tokens F} (hts : AtEnd ts)
    (h : (takeIf (fun n => lib.keyword n = some "NOT") >>= f).run ts = .ok r) :
    ∃ negate ts₁, Negated lib negate ts ts₁ ∧ (f negate).run ts₁ = .ok r := by
  obtain ⟨n, left, hnext, h⟩ := run_takeIf_bind_eq_ok.1 h
  by_cases hn : lib.keyword n = some "NOT"
  · obtain rfl := hts.eq_cons hnext (ne_eof_of_keyword hn)
    simp only [hn, decide_true, if_true] at h
    exact ⟨true, left, ⟨n, rfl, hn⟩, h⟩
  · simp only [hn, decide_false, Bool.false_eq_true, if_false] at h
    exact ⟨false, ts, rfl, h⟩

/-- A word that is taken. -/
theorem word_of_take {α : Type} {f : TokenNode F → Parsing F α} {r : α × Tokens F} {word : String}
    (hts : AtEnd ts) (hnext : ts.next = .ok (n, left)) (hn : lib.keyword n = some word)
    (h : (take >>= f).run ts = .ok r) : Word lib word ts left ∧ (f n).run left = .ok r := by
  obtain rfl := hts.eq_cons hnext (ne_eof_of_keyword hn)
  rw [run_take_bind_cons] at h
  exact ⟨⟨n, rfl, hn⟩, h⟩

theorem sound_parseExprMatching (hc : c.Sound lib) : Sound lib 6 (parseExprMatching lib c) := by
  intro ts rest x hts h
  have hother := sound_parseExprOther hc
  obtain ⟨v, ts₁, hv, h⟩ := run_bind_eq_ok.1 h
  obtain ⟨e, hle, hl, hs, he⟩ := hother hts hv
  have hts₁ : AtEnd ts₁ := hts.of_takes (spells_takes hs)
  obtain ⟨negate, ts₂, hnot, h⟩ := negated_of_takeIf hts₁ h
  have hts₂ : AtEnd ts₂ := Ended.of_takes hts₁ (negated_takes hnot)
  obtain ⟨n, left, hnext, h⟩ := run_peek_bind_eq_ok.1 h
  -- LIKE and ILIKE
  have hlike : ∀ insensitive : Bool,
      Word lib (if insensitive then "ILIKE" else "LIKE") ts₂ left →
      (likeTail lib c insensitive negate v).run left = .ok (x, rest) → Derives lib 6 ts rest x := by
    intro insensitive hword h
    obtain ⟨w, ts₃, hw, h⟩ := run_bind_eq_ok.1 h
    obtain ⟨_, hx, hr⟩ := run_lift_eq_ok.1 h
    cases hr
    obtain ⟨p, hlp, hl', hs', he'⟩ := hother (hts₂.of_takes hword.takes) hw
    exact ⟨.like insensitive negate e p, le_rfl, ⟨hl, hl', hle, hlp⟩,
      ⟨_, _, _, hs, hnot, hword, hs'⟩, Syntax.fold_like_eq_some.2 ⟨v, w, he, he', hx⟩⟩
  split at h
  · next hn =>
    obtain ⟨hword, h⟩ := word_of_take hts₂ hnext hn h
    obtain ⟨b1, ts₃, hb1, h⟩ := run_bind_eq_ok.1 h
    have hleft := hts₂.of_takes hword.takes
    obtain ⟨low, hll, hl1, hs1, he1⟩ := hother hleft hb1
    have hts₃ := hleft.of_takes (spells_takes hs1)
    obtain ⟨m, left', hnext', h⟩ := run_peek_bind_eq_ok.1 h
    split at h
    · next hm =>
      obtain ⟨hand, h⟩ := word_of_take hts₃ hnext' hm h
      obtain ⟨b2, ts₄, hb2, h⟩ := run_bind_eq_ok.1 h
      obtain ⟨_, hx, hr⟩ := run_lift_eq_ok.1 h
      cases hr
      obtain ⟨high, hlh, hl2, hs2, he2⟩ := hother (hts₃.of_takes hand.takes) hb2
      exact ⟨.between negate e low high, le_rfl, ⟨hl, hl1, hl2, hle, hll, hlh⟩,
        ⟨_, _, _, _, _, hs, hnot, hword, hs1, hand, hs2⟩,
        Syntax.fold_between_eq_some.2 ⟨v, b1, b2, he, he1, he2, hx⟩⟩
    · cases h
  · split at h
    · cases h
    · split at h
      · next hn =>
        obtain ⟨hword, h⟩ := word_of_take hts₂ hnext hn h
        exact hlike false hword h
      · split at h
        · next hn =>
          obtain ⟨hword, h⟩ := word_of_take hts₂ hnext hn h
          exact hlike true hword h
        · split at h
          · cases h
          · next hnegate =>
            cases h
            rw [Bool.not_eq_true] at hnegate
            subst hnegate
            cases hnot
            exact ⟨e, Nat.le_of_succ_le hle, hl, hs, he⟩

theorem sound_parseExprComparison (hc : c.Sound lib) : Sound lib 5 (parseExprComparison lib c) :=
  sound_leftAssociative .comparison (fun _ => rfl) (by decide) (fun h => h) eq_of_run_lift
    (sound_parseExprMatching hc)

theorem sound_parseExprIs (hc : c.Sound lib) : Sound lib 4 (parseExprIs lib c) := by
  intro ts rest x hts h
  obtain ⟨v, ts₁, hv, h⟩ := run_bind_eq_ok.1 h
  have hfirst := (sound_parseExprComparison hc hts hv).mono (Nat.le_succ 4)
  refine (run_repeatWhile_eq_ok.1 h).preserves (I := fun e ts' => Derives lib 4 ts ts' e) hfirst ?_
  rintro v n left w ts' ⟨e, hle, hl, hs, he⟩ hn hturn
  have hcons : AtEnd (.cons n left) := hts.of_takes (spells_takes hs)
  have hleft : AtEnd left := hcons
  obtain ⟨negate, ts₂, hnot, hturn⟩ := negated_of_takeIf hleft hturn
  have hts₂ : AtEnd ts₂ := Ended.of_takes hleft (negated_takes hnot)
  obtain ⟨m, left', hnext, hturn⟩ := run_peek_bind_eq_ok.1 hturn
  split at hturn
  · cases hturn
  · next word hm =>
    split at hturn
    · next q hq =>
      obtain ⟨⟨m', hts', hm'⟩, hturn⟩ := word_of_take hts₂ hnext hm hturn
      cases hturn
      exact ⟨.is negate q e, le_rfl, ⟨hl, hle⟩,
        ⟨_, _, ts₂, hs, ⟨n, rfl, of_decide_eq_true hn⟩, hnot, m', hts', word, hm', hq⟩, by simp [he]⟩
    · split at hturn
      · obtain ⟨hword, hturn⟩ := word_of_take hts₂ hnext hm hturn
        obtain ⟨m', left', hnext', hturn⟩ := run_peek_bind_eq_ok.1 hturn
        split at hturn
        · next hfrom =>
          obtain ⟨-, hturn⟩ := word_of_take (hts₂.of_takes hword.takes) hnext' hfrom hturn
          obtain ⟨_, _, _, hturn⟩ := run_peek_bind_eq_ok.1 hturn
          cases hturn
        · cases hturn
      · cases hturn

/-- `NOT` again and again. -/
theorem nots_of_run {b b' : Bool}
    (h : (repeatWhile (fun _ n => lib.keyword n = some "NOT")
      (fun logical_not (_ : TokenNode F) => pure !logical_not) b).run ts = .ok (b', rest)) :
    ∃ m, Nots lib m ts rest ∧ b' = (b ^^ decide (m % 2 = 1)) := by
  rw [run_repeatWhile_eq_ok] at h
  induction h with
  | stop s t => exact ⟨0, rfl, by simp⟩
  | done rest hc => exact ⟨0, rfl, by simp⟩
  | @turn s s' s'' n rest ts ts' hc hturn hrest ih =>
    cases hturn
    obtain ⟨m, hm, rfl⟩ := ih
    refine ⟨m + 1, ⟨rest, ⟨n, rfl, of_decide_eq_true hc⟩, hm⟩, ?_⟩
    have hparity : ((m + 1) % 2 = 1) ↔ ¬(m % 2 = 1) := by omega
    rw [decide_eq_decide.2 hparity, decide_not]
    cases s <;> cases decide (m % 2 = 1) <;> rfl

theorem sound_parseExprLogicalNot (hc : c.Sound lib) : Sound lib 3 (parseExprLogicalNot lib c) := by
  intro ts rest x hts h
  have his := sound_parseExprIs hc
  obtain ⟨n, left, hnext, h⟩ := run_peek_bind_eq_ok.1 h
  split at h
  · next hn =>
    obtain ⟨b, ts₁, hloop, h⟩ := run_bind_eq_ok.1 h
    obtain ⟨v, ts₂, hv, h⟩ := run_bind_eq_ok.1 h
    obtain ⟨_, hx, hr⟩ := run_lift_eq_ok.1 h
    cases hr
    -- the first token is NOT, so that there is a first turn
    have hnots : ∃ more, Nots lib (more + 1) ts ts₁ ∧ b = decide (more % 2 = 0) := by
      obtain rfl := hts.eq_cons hnext (ne_eof_of_keyword hn)
      rw [run_repeatWhile_eq_ok] at hloop
      cases hloop with
      | done rest hc => exact absurd hn (of_decide_eq_false hc)
      | turn hc hturn hrest =>
        cases hturn
        obtain ⟨m, hm, rfl⟩ := nots_of_run (run_repeatWhile_eq_ok.2 hrest)
        have hparity : (m % 2 = 0) ↔ ¬(m % 2 = 1) := by omega
        refine ⟨m, ⟨left, ⟨n, rfl, hn⟩, hm⟩, ?_⟩
        rw [decide_eq_decide.2 hparity, decide_not, Bool.not_false, Bool.true_xor]
    obtain ⟨more, hnots, rfl⟩ := hnots
    obtain ⟨s, hle, hl, hs, he⟩ := his (Ended.of_takes hts (nots_takes hnots)) hv
    exact ⟨.not more s, le_rfl, ⟨hl, hle⟩, ⟨ts₁, hnots, hs⟩,
      Syntax.fold_not_eq_some.2 ⟨v, he, hx⟩⟩
  · exact (his hts h).mono (Nat.le_succ 3)

theorem keyword_of_word {word : String} {u : Unit} (h : lib.word word n = some u) :
    lib.keyword n = some word := by
  rw [Library.word] at h
  split at h
  · next hn => exact hn
  · cases h

theorem sound_parseExprLogicalAnd (hc : c.Sound lib) : Sound lib 2 (parseExprLogicalAnd lib c) :=
  sound_leftAssociative (fun _ => .logicalAnd) (fun _ => rfl) (by decide) keyword_of_word
    eq_of_run_lift (sound_parseExprLogicalNot hc)

theorem sound_parseExprLogicalOr (hc : c.Sound lib) : Sound lib 1 (parseExprLogicalOr lib c) :=
  sound_leftAssociative (fun _ => .logicalOr) (fun _ => rfl) (by decide) keyword_of_word
    eq_of_run_lift (sound_parseExprLogicalAnd hc)

/-! ### The whole -/

/-- The calls inside of one another, however many. -/
theorem sound_calls (lib : Library F) (d : ℕ) : (calls lib d).Sound lib := by
  induction d with
  | zero =>
    refine ⟨?_, ?_⟩
    all_goals
      intro ts rest e hts h
      cases h
  | succ d ih => exact ⟨sound_parseExprLogicalOr ih, sound_parseExprOther ih⟩

/-- **Whatever the parser returns is the tree of an expression of the grammar**, which the tokens it
took spell. -/
theorem derives_of_parseTree (hts : AtEnd ts) (h : (parseTree lib).run ts = .ok (e, rest)) :
    ∃ s : Syntax F, 1 ≤ s.level ∧ Leveled lib s ∧ Spells lib s ts rest ∧ s.fold lib = some e := by
  have hsound : Sound lib 1 (reader lib (calls lib ts.length) 1) :=
    sound_parseExprLogicalOr (sound_calls lib ts.length)
  rw [run_parseTree] at h
  exact hsound hts h

end

/-- The tokens of a script end with the end of the script. -/
theorem atEnd_tokens (lexer : Lexer.Library F) (i : Input) : AtEnd (Lexer.tokens lexer i) := by
  induction i using Lexer.tokens.induct lexer with
  | case1 i e h =>
    rw [Lexer.tokens_of_error h]
    trivial
  | case2 i n j h hn =>
    rw [Lexer.tokens_of_ok h, if_pos hn]
    obtain ⟨token, location⟩ := n
    cases token with
    | eof => rfl
    | _ => cases hn
  | case3 i n j h hn ih =>
    rw [Lexer.tokens_of_ok h, if_neg hn]
    exact ih

theorem derives_of_parseTree_notOrFalse : ∃ s : Syntax Unit, 1 ≤ s.level ∧ Leveled plainLibrary s ∧
    Spells plainLibrary s notOrFalseTokens (.stop (Parser.symbol .eof)) ∧
    s.fold plainLibrary = some notOrFalseTree :=
  derives_of_parseTree (by trivial) <|
    (read_of_leveled plainLibrary_lawful leveled_notOrFalse plain_notOrFalse).run (by decide)
      spells_notOrFalse rfl ⟨_, _, rfl, by decide⟩

end Expression

end Prinbee
