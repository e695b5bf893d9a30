import Prinbee.Pbql.Parser

/-!
# Words of the grammar

What the statements of the language are made of, as relations between the tokens in front of it and
those behind it, and the functions of the parser that read them.

## Main definitions

* `Parser.Keyword`, `Parser.Identifier`, `Parser.SemiColon` — one token.
* `Parser.Library.Lawful` — what the parser relies on.
* `Parser.plainLibrary` — a library for examples.

## Main results

* `Parser.run_expectSemiColon_eq_ok`, `Parser.run_keywordString_eq_ok`,
  `Parser.run_ifKeywords_eq_ok` — what these functions read.
-/

namespace Prinbee

namespace Parser

open TokenStream Reader
open Lexer (TokenNode)

variable {F : Type}

section

variable (lib : Library F)

/-- A keyword. -/
def Keyword (k : String) (ts rest : Tokens F) : Prop :=
  ∃ n, ts.next = .ok (n, rest) ∧ lib.keyword n = some k

/-- Keywords, one after the other. -/
inductive Keywords : List String → Tokens F → Tokens F → Prop
  | nil (ts : Tokens F) : Keywords [] ts ts
  | cons {k : String} {ks : List String} {ts ts₁ rest : Tokens F} (h : Keyword lib k ts ts₁)
    (hrest : Keywords ks ts₁ rest) : Keywords (k :: ks) ts rest

/-- An expression, with its text. -/
def Expression (ts : Tokens F) (e : Bytes) (rest : Tokens F) : Prop :=
  lib.parseExpression.run ts = .ok (e, rest)

/-- What the parser relies on: no text is empty in upper or in lower case only, and an expression
is not empty. -/
structure Library.Lawful : Prop where
  toUpper_eq_nil : ∀ s, lib.toUpper s = [] ↔ s = []
  toLower_eq_nil : ∀ s, lib.toLower s = [] ↔ s = []
  length_expression : ∀ {ts e rest}, Expression lib ts e rest → rest.length < ts.length
  expression_ne_nil : ∀ {ts e rest}, Expression lib ts e rest → e ≠ []

end

/-- An identifier. -/
def Identifier (ts : Tokens F) (n : TokenNode F) (rest : Tokens F) : Prop :=
  ts.next = .ok (n, rest) ∧ n.isIdentifier = true

/-- The end of a statement. -/
def SemiColon (ts rest : Tokens F) : Prop :=
  ∃ n, ts.next = .ok (n, rest) ∧ n.isSemiColon = true

section

variable {lib : Library F} {ts rest rest' : Tokens F} {n m : TokenNode F} {k : String}

theorem keyword_eq_none : lib.keyword n = none ↔ n.isIdentifier = false := by
  simp [Library.keyword]

theorem isIdentifier_of_keyword (h : lib.keyword n = some k) : n.isIdentifier = true := by
  by_contra hn
  rw [keyword_eq_none.2 (Bool.eq_false_iff.2 hn)] at h
  cases h

theorem exists_keyword (h : n.isIdentifier = true) : ∃ k, lib.keyword n = some k :=
  ⟨_, if_pos h⟩

/-- A token that is an identifier is nothing else. -/
theorem kind_of_isIdentifier (h : n.isIdentifier = true) :
    n.isSemiColon = false ∧ n.isComma = false ∧ n.isString = false ∧ n.isCloseParenthesis = false ∧
      n.isEqual = false ∧ n.integer = none := by
  obtain ⟨token, location⟩ := n
  cases token <;> first | exact ⟨rfl, rfl, rfl, rfl, rfl, rfl⟩ | cases h

theorem kind_of_isSemiColon (h : n.isSemiColon = true) :
    n.isIdentifier = false ∧ n.isComma = false ∧ n.integer = none := by
  obtain ⟨token, location⟩ := n
  cases token <;> first | exact ⟨rfl, rfl, rfl⟩ | cases h

theorem Keyword.next_eq (h : Keyword lib k ts rest) (hnext : ts.next = .ok (m, rest')) :
    lib.keyword m = some k ∧ rest' = rest := by
  obtain ⟨n, hn, hk⟩ := h
  rw [hnext] at hn
  cases hn
  exact ⟨hk, rfl⟩

theorem SemiColon.next_eq (h : SemiColon ts rest) (hnext : ts.next = .ok (m, rest')) :
    m.isSemiColon = true ∧ rest' = rest := by
  obtain ⟨n, hn, hs⟩ := h
  rw [hnext] at hn
  cases hn
  exact ⟨hs, rfl⟩

theorem Keyword.unique (h : Keyword lib k ts rest) {k' : String} (h' : Keyword lib k' ts rest') :
    k = k' ∧ rest = rest' := by
  obtain ⟨n, hn, hk⟩ := h'
  obtain ⟨hk', hrest⟩ := h.next_eq hn
  rw [hk] at hk'
  exact ⟨(Option.some.inj hk').symm, hrest.symm⟩

theorem Keywords.first {ks : List String} (h : Keywords lib (k :: ks) ts rest) :
    ∃ ts₁, Keyword lib k ts ts₁ ∧ Keywords lib ks ts₁ rest := by
  cases h with
  | cons hfirst hrest => exact ⟨_, hfirst, hrest⟩

theorem Keywords.unique {ks : List String} (h : Keywords lib ks ts rest)
    (h' : Keywords lib ks ts rest') : rest = rest' := by
  induction h with
  | nil ts =>
    cases h'
    rfl
  | cons hfirst hrest ih =>
    obtain ⟨ts₁, hfirst', hrest'⟩ := h'.first
    obtain ⟨-, rfl⟩ := hfirst.unique hfirst'
    exact ih hrest'

theorem SemiColon.not_keyword (h : SemiColon ts rest) : ¬ Keyword lib k ts rest' := by
  rintro ⟨n, hn, hk⟩
  have hi := (kind_of_isSemiColon (h.next_eq hn).1).1
  rw [isIdentifier_of_keyword hk] at hi
  cases hi

theorem SemiColon.unique (h : SemiColon ts rest) (h' : SemiColon ts rest') : rest = rest' := by
  obtain ⟨n, hn, -⟩ := h
  exact (h'.next_eq hn).2

/-- The next token is not a comma. -/
def NotComma (ts : Tokens F) : Prop :=
  ∃ n left, ts.next = .ok (n, left) ∧ n.isComma = false

theorem Keyword.notComma (h : Keyword lib k ts rest) : NotComma ts := by
  obtain ⟨n, hnext, hn⟩ := h
  exact ⟨n, rest, hnext, (kind_of_isIdentifier (isIdentifier_of_keyword hn)).2.1⟩

theorem SemiColon.notComma (h : SemiColon ts rest) : NotComma ts := by
  obtain ⟨n, hnext, hn⟩ := h
  exact ⟨n, rest, hnext, (kind_of_isSemiColon hn).2.1⟩

theorem NotComma.isComma (h : NotComma ts) (n : TokenNode F) (left : Tokens F)
    (hnext : ts.next = .ok (n, left)) : n.isComma = false := by
  obtain ⟨m, left', hnext', hm⟩ := h
  rw [hnext] at hnext'
  cases hnext'
  exact hm

/-! ### The functions of the parser -/

theorem run_unexpected {α : Type} (n : TokenNode F) (message : String) (r : α × Tokens F) :
    (unexpected n message : Parsing F α).run ts ≠ .ok r := by
  intro h
  cases h

theorem run_expectSemiColon_eq_ok {command : String} {u : Unit} :
    (expectSemiColon command : Parsing F Unit).run ts = .ok (u, rest) ↔ SemiColon ts rest := by
  unfold expectSemiColon
  rw [run_peek_bind_eq_ok]
  constructor
  · rintro ⟨n, left, hnext, h⟩
    rw [run_ite] at h
    split at h
    · next hn =>
      obtain ⟨m, left', hnext', h⟩ := run_take_bind_eq_ok.1 h
      cases h
      rw [hnext] at hnext'
      cases hnext'
      exact ⟨n, hnext, hn⟩
    · exact absurd h (run_unexpected _ _ _)
  · rintro ⟨n, hnext, hn⟩
    refine ⟨n, rest, hnext, ?_⟩
    rw [run_ite, if_pos hn]
    exact run_take_bind_eq_ok.2 ⟨n, rest, hnext, rfl⟩

/-- The keywords are taken, and an identifier is behind them. -/
theorem run_keywordString_eq_ok {commands : String} {ks : List String} {u : Unit} :
    (keywordString lib commands ks).run ts = .ok (u, rest) ↔
      Keywords lib ks ts rest ∧ ∃ n left, Identifier rest n left := by
  induction ks generalizing commands ts with
  | nil =>
    unfold keywordString
    rw [run_peek_bind_eq_ok]
    constructor
    · rintro ⟨n, left, hnext, h⟩
      rw [run_ite] at h
      split at h
      · next hn =>
        cases h
        exact ⟨.nil _, n, left, hnext, hn⟩
      · exact absurd h (run_unexpected _ _ _)
    · rintro ⟨hnil, n, left, hnext, hn⟩
      cases hnil
      refine ⟨n, left, hnext, ?_⟩
      rw [run_ite, if_pos hn]
      rfl
  | cons k ks ih =>
    unfold keywordString
    rw [run_peek_bind_eq_ok]
    constructor
    · rintro ⟨n, left, hnext, h⟩
      cases hk : lib.keyword n with
      | none =>
        rw [hk] at h
        exact absurd h (run_unexpected _ _ _)
      | some cmd =>
        rw [hk] at h
        dsimp only at h
        rw [run_ite] at h
        split at h
        · exact absurd h (run_unexpected _ _ _)
        · next hcmd =>
          obtain ⟨m, left', hnext', h⟩ := run_take_bind_eq_ok.1 h
          obtain ⟨hrest, hid⟩ := ih.1 h
          rw [not_not.1 hcmd] at hk
          exact ⟨.cons ⟨m, hnext', by
            rw [hnext] at hnext'
            cases hnext'
            exact hk⟩ hrest, hid⟩
    · rintro ⟨hks, hid⟩
      cases hks with
      | cons hfirst hrest =>
        obtain ⟨n, hnext, hk⟩ := hfirst
        refine ⟨n, _, hnext, ?_⟩
        rw [hk]
        dsimp only
        rw [run_ite, if_neg (not_not.2 rfl)]
        exact run_take_bind_eq_ok.2 ⟨n, _, hnext, ih.2 ⟨hrest, hid⟩⟩

theorem run_ifKeywords_eq_ok {commands : String} {ks : List String} {b : Bool} :
    (ifKeywords lib commands ks).run ts = .ok (b, rest) ↔
      (b = true ∧ Keywords lib ("IF" :: ks) ts rest ∧ ∃ n left, Identifier rest n left) ∨
        (b = false ∧ rest = ts ∧ ∃ n left, ts.next = .ok (n, left) ∧ lib.keyword n ≠ some "IF") := by
  unfold ifKeywords
  rw [run_takeIf_bind_eq_ok]
  constructor
  · rintro ⟨n, left, hnext, h⟩
    by_cases hif : lib.keyword n = some "IF"
    · rw [decide_eq_true hif, if_pos rfl, if_pos rfl] at h
      obtain ⟨u, left', hks, h⟩ := run_bind_eq_ok.1 h
      cases h
      obtain ⟨hks, hid⟩ := run_keywordString_eq_ok.1 hks
      exact .inl ⟨rfl, .cons ⟨n, hnext, hif⟩ hks, hid⟩
    · rw [decide_eq_false hif, if_neg Bool.false_ne_true, if_neg Bool.false_ne_true] at h
      cases h
      exact .inr ⟨rfl, rfl, n, left, hnext, hif⟩
  · rintro (⟨rfl, hks, hid⟩ | ⟨rfl, rfl, n, left, hnext, hif⟩)
    · cases hks with
      | cons hfirst hrest =>
        obtain ⟨n, hnext, hif⟩ := hfirst
        refine ⟨n, _, hnext, ?_⟩
        rw [decide_eq_true hif, if_pos rfl, if_pos rfl]
        exact run_bind_eq_ok.2 ⟨(), rest, run_keywordString_eq_ok.2 ⟨hrest, hid⟩, rfl⟩
    · refine ⟨n, left, hnext, ?_⟩
      rw [decide_eq_false hif, if_neg Bool.false_ne_true, if_neg Bool.false_ne_true]
      rfl

end

/-! ### A plain library -/

/-- ASCII letter case, and expressions that are one identifier. -/
def plainLibrary : Library Unit where
  toUpper s := s.map fun c => if 97 ≤ c ∧ c ≤ 122 then c - 32 else c
  toLower s := s.map fun c => if 65 ≤ c ∧ c ≤ 90 then c + 32 else c
  quote s := 47 :: s ++ [47]
  parseExpression ts :=
    match ts with
    | .cons n rest =>
      if n.isIdentifier ∧ n.string ≠ [] then .ok ⟨(n.string, rest), Nat.le_succ _⟩
      else .error (.thrown .invalidToken "expected an expression.")
    | _ => .error (.thrown .invalidToken "expected an expression.")

theorem expression_plainLibrary {ts rest : Tokens Unit} {e : Bytes}
    (h : Expression plainLibrary ts e rest) : ∃ n, ts = .cons n rest ∧ e = n.string ∧ e ≠ [] := by
  unfold Expression Reader.run at h
  cases ts with
  | stop t => cases h
  | error f => cases h
  | cons n left =>
    by_cases hn : n.isIdentifier ∧ n.string ≠ []
    · have hparse : plainLibrary.parseExpression (.cons n left) =
          .ok ⟨(n.string, left), Nat.le_succ _⟩ := if_pos hn
      rw [hparse] at h
      cases h
      exact ⟨n, rfl, rfl, hn.2⟩
    · have hparse : plainLibrary.parseExpression (.cons n left) =
          .error (.thrown .invalidToken "expected an expression.") := if_neg hn
      rw [hparse] at h
      cases h

theorem plainLibrary_lawful : plainLibrary.Lawful where
  toUpper_eq_nil _ := List.map_eq_nil_iff
  toLower_eq_nil _ := List.map_eq_nil_iff
  length_expression h := by
    obtain ⟨n, rfl, -⟩ := expression_plainLibrary h
    exact Nat.lt_succ_self _
  expression_ne_nil h := by
    obtain ⟨-, -, -, he⟩ := expression_plainLibrary h
    exact he

/-- An identifier, at the beginning of a script. -/
def word (s : String) : TokenNode Unit :=
  ⟨.identifier (s.toList.map fun c => UInt8.ofNat c.toNat), ⟨"", 1, 1⟩⟩

/-- A token, at the beginning of a script. -/
def symbol (t : Lexer.Token Unit) : TokenNode Unit := ⟨t, ⟨"", 1, 1⟩⟩

/-- These tokens, and then the end of the script. -/
def tokensOf (ns : List (TokenNode Unit)) : Tokens Unit := ns.foldr .cons (.stop (symbol .eof))

end Parser

end Prinbee
