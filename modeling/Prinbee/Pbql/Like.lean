import Prinbee.Lib.StringLiteral
import Prinbee.Pbql.Node

/-!
# LIKE and ILIKE

`parse_expr_matching()` of `parse_expression.cpp` turns the pattern of a `LIKE` into a regular
expression.  When both operands are literals it runs it at once; otherwise it builds a node, for
which `recursive_to_as2js()` of `node.cpp` emits a test of a `RegExp`.

Both ways go through `convert_like_pattern()`, but the emitted one has the regular expression in a
JavaScript string literal, between plain quotes, and the reading of the literal takes the
backslashes off that escape the special characters.

## Main definitions

* `Node.matchLike` — the end of `parse_expr_matching()` for these two operators.
* `runTest` — the value of the emitted test.
* `Node.LikeAgrees` — the folded result of a pattern is the one of the emitted test.

## Main results

* `Node.likeAgrees_iff` — the two agree exactly for the patterns in which nothing is escaped and
  nothing would have to be.
-/

namespace Prinbee

open JavaScript

/-- What `convert_like_pattern()` gets from `snapdev::escape_special_regex_characters()` for one
character: nothing for the NUL, which ends the C string, and a backslash before each special
character. -/
structure EscapesSpecial (escape : Char → String) (special : Char → Prop) : Prop where
  nul : escape '\x00' = ""
  escaped : ∀ c, c ≠ '\x00' → special c → escape c = "\\" ++ c.toString
  copied : ∀ c, c ≠ '\x00' → ¬ special c → escape c = c.toString

/-- The value of a test as emitted: `new RegExp("…").test(…)`, with or without the flag `"i"`, and
with or without a `!` before it.  `engine` matches a value with the text of a regular expression,
given the flag; `value` is the value of what stands in the last parentheses.  When the literal
does not end where the pattern does, the text is not such a test, and there is no value. -/
def runTest (strict : Bool) (engine : Bool → List ℕ → String → Bool) (value : String) :
    List Lexeme → Option Bool
  | .bang :: ts => (runTest strict engine value ts).map Bool.not
  | .new :: .word "RegExp" :: .lparen :: .string pattern :: ts =>
    let insensitive := decide (ts.take 2 = [.comma, .string "i"])
    let call := if insensitive then ts.drop 2 else ts
    if call.take 4 = [.rparen, .dot, .word "test", .lparen] then
      (unescape strict (Lexeme.string pattern).text.toList).map fun us => engine insensitive us value
    else none
  | _ => none

namespace Node

variable (engine : Bool → List ℕ → String → Bool) (escape : Char → String)

/-- `parse_expr_matching()` for `[NOT] LIKE` and `[NOT] ILIKE`. -/
def matchLike (insensitive negate : Bool) (lhs rhs : Node) : Node :=
  if lhs.isLiteral && rhs.isLiteral then
    let value := lhs.getStringAutoConvert
    let regex := convertLikePattern escape rhs.getStringAutoConvert
    .boolean (engine insensitive (units regex.toList) value ^^ negate)
  else
    let n := .like insensitive lhs rhs
    if negate then .logicalNot n else n

/-- The folded result for the pattern `rhs` is the value of the test that is emitted when the
other operand is not a literal, but has the same value. -/
def LikeAgrees (rhs : Node) : Prop :=
  ∀ (engine : Bool → List ℕ → String → Bool) (strict insensitive negate : Bool)
    (lhs operand : Node), lhs.isLiteral = true → operand.isLiteral = false →
      ∃ b, matchLike engine escape insensitive negate lhs rhs = .boolean b ∧
        runTest strict engine lhs.getStringAutoConvert
          ((matchLike engine escape insensitive negate operand rhs).recursiveToAs2js escape) = some b

/-- The character stands for itself in the regular expression, and in the literal around it. -/
def Unescaped (special : Char → Prop) (c : Char) : Prop :=
  c = '%' ∨ c = '\x00' ∨ (¬ special c ∧ Verbatim c)

/-! ### The two results -/

theorem matchLike_literal {insensitive negate : Bool} {lhs rhs : Node} (hl : lhs.isLiteral = true)
    (hr : rhs.isLiteral = true) :
    matchLike engine escape insensitive negate lhs rhs =
      .boolean (engine insensitive
        (units (convertLikePattern escape rhs.getStringAutoConvert).toList)
        lhs.getStringAutoConvert ^^ negate) := by
  simp [matchLike, hl, hr]

theorem runTest_like {strict insensitive : Bool} {operand rhs : Node} (value : String)
    (hr : rhs.isLiteral = true) :
    runTest strict engine value ((Node.like insensitive operand rhs).recursiveToAs2js escape) =
      (unescape strict ("\"" ++ convertLikePattern escape rhs.getStringAutoConvert ++
        "\"").toList).map fun us => engine insensitive us value := by
  cases insensitive <;> simp [recursiveToAs2js, hr, runTest, Lexeme.text]

theorem runTest_matchLike {strict insensitive negate : Bool} {operand rhs : Node} (value : String)
    (ho : operand.isLiteral = false) (hr : rhs.isLiteral = true) :
    runTest strict engine value
        ((matchLike engine escape insensitive negate operand rhs).recursiveToAs2js escape) =
      (unescape strict ("\"" ++ convertLikePattern escape rhs.getStringAutoConvert ++
        "\"").toList).map fun us => engine insensitive us value ^^ negate := by
  have htest : runTest strict engine value
        ((Node.like insensitive operand rhs).recursiveToAs2js escape) = _ :=
    runTest_like engine escape value hr
  cases negate with
  | false => simpa [matchLike, ho] using htest
  | true =>
    have hnot : matchLike engine escape insensitive true operand rhs =
        .logicalNot (.like insensitive operand rhs) := by
      simp [matchLike, ho]
    rw [hnot, recursiveToAs2js, runTest, htest, Option.map_map]
    congr 1
    funext us
    simp

/-- The two results agree exactly when the literal around the regular expression reads as the
regular expression. -/
theorem likeAgrees_iff_unescape {rhs : Node} (hr : rhs.isLiteral = true) :
    LikeAgrees escape rhs ↔ ∀ strict,
      unescape strict
          ("\"" ++ convertLikePattern escape rhs.getStringAutoConvert ++ "\"").toList =
        some (units (convertLikePattern escape rhs.getStringAutoConvert).toList) := by
  constructor
  · -- an engine that knows the right regular expression only
    intro h strict
    obtain ⟨b, hb, htest⟩ := h (fun _ us _ => decide (us =
      units (convertLikePattern escape rhs.getStringAutoConvert).toList)) strict false false
      (.string "") (.identifier "") rfl rfl
    rw [matchLike_literal _ _ rfl hr] at hb
    rw [runTest_matchLike _ _ _ rfl hr] at htest
    cases hb
    obtain ⟨us, hus, hdec⟩ := Option.map_eq_some_iff.1 htest
    rw [hus]
    simpa using hdec
  · intro h engine strict insensitive negate lhs operand hl ho
    refine ⟨_, matchLike_literal engine escape hl hr, ?_⟩
    rw [runTest_matchLike engine escape _ ho hr, h strict]
    rfl

/-- A text between plain quotes reads as itself. -/
theorem unescape_quoted_iff (strict : Bool) (text : String) :
    unescape strict ("\"" ++ text ++ "\"").toList = some (units text.toList) ↔
      ∀ c ∈ text.toList, Verbatim c := by
  have hiff := unescape_written_iff (fun _ => false) strict text.toList
  rw [written_none] at hiff
  simp only [kept_none] at hiff
  rw [String.toList_append, String.toList_append]
  exact hiff

/-- The characters of the regular expression. -/
theorem convertLikePattern_toList (pattern : String) :
    (convertLikePattern escape pattern).toList =
      '^' :: (pattern.toList.flatMap fun c => (if c = '%' then ".*" else escape c).toList) ++
        ['$'] := by
  simp [convertLikePattern, String.toList_join, List.flatMap_map]

theorem forall_verbatim_iff {escape : Char → String} {special : Char → Prop}
    (h : EscapesSpecial escape special) (c : Char) :
    (∀ d ∈ (if c = '%' then ".*" else escape c).toList, Verbatim d) ↔ Unescaped special c := by
  unfold Unescaped
  by_cases hp : c = '%'
  · subst hp
    have htext : ".*".toList = ['.', '*'] := rfl
    simp [htext, Verbatim]
  by_cases hn : c = '\x00'
  · subst hn
    simp [h.nul]
  by_cases hs : special c
  · rw [if_neg hp, h.escaped c hn hs]
    simp [hp, hn, hs, Verbatim]
  · rw [if_neg hp, h.copied c hn hs]
    simp [hp, hn, hs]

/-- **The folded result of a `LIKE` is the one of the emitted test exactly for the patterns that
have no special character but `%`, no quote, no backslash and no line terminator.** -/
theorem likeAgrees_iff {escape : Char → String} {special : Char → Prop}
    (h : EscapesSpecial escape special) {rhs : Node} (hr : rhs.isLiteral = true) :
    LikeAgrees escape rhs ↔ ∀ c ∈ rhs.getStringAutoConvert.toList, Unescaped special c := by
  rw [likeAgrees_iff_unescape escape hr]
  simp only [unescape_quoted_iff, forall_const]
  simp only [convertLikePattern_toList, ← forall_verbatim_iff h, List.mem_append, List.mem_cons,
    List.mem_flatMap]
  constructor
  · intro hverb c hc d hd
    exact hverb d (Or.inl (Or.inr ⟨c, hc, hd⟩))
  · rintro hverb d ((rfl | ⟨c, hc, hd⟩) | hd)
    · decide
    · exact hverb c hc d hd
    · rcases hd with rfl | hd
      · decide
      · cases hd

/-- `snapdev::escape_special_regex_characters()` of one character. -/
def escapeSpecialRegexCharacter (c : Char) : String :=
  if c = '\x00' then "" else if c ∈ "$()*+./?[\\]^\x7b|\x7d".toList then "\\" ++ c.toString
  else c.toString

theorem escapeSpecialRegexCharacter_escapes :
    EscapesSpecial escapeSpecialRegexCharacter (· ∈ "$()*+./?[\\]^\x7b|\x7d".toList) where
  nul := rfl
  escaped c hn hs := by rw [escapeSpecialRegexCharacter, if_neg hn, if_pos hs]
  copied c hn hs := by rw [escapeSpecialRegexCharacter, if_neg hn, if_neg hs]

theorem likeAgrees_word : LikeAgrees escapeSpecialRegexCharacter (.string "%word%") :=
  (likeAgrees_iff escapeSpecialRegexCharacter_escapes rfl).2 (by
    have htext : (Node.string "%word%").getStringAutoConvert.toList =
        ['%', 'w', 'o', 'r', 'd', '%'] := rfl
    rw [htext]
    simp [Unescaped, Verbatim])

end Node

/-! ### A pattern for which they differ -/

/-- An element of a regular expression without alternatives and groups. -/
inductive RegexItem where
  /-- A period. -/
  | any
  /-- A period and a star. -/
  | anything
  /-- A character that stands for itself. -/
  | unit (n : ℕ)
  deriving DecidableEq, Repr

/-- The elements of a regular expression behind its `^`, up to the `$`, with periods and escaped
special characters only. -/
def regexItems : List ℕ → Option (List RegexItem)
  | [] => none
  | [36] => some []
  | 46 :: 42 :: us => (regexItems us).map (.anything :: ·)
  | 46 :: us => (regexItems us).map (.any :: ·)
  | 92 :: n :: us => (regexItems us).map (.unit n :: ·)
  | n :: us => (regexItems us).map (.unit n :: ·)

/-- A whole value matches the elements; a period stands for any unit but a line terminator. -/
def regexMatches : List RegexItem → List ℕ → Bool
  | [], vs => vs.isEmpty
  | .any :: is, vs =>
    match vs with
    | [] => false
    | v :: vs => v ∉ [0xa, 0xd, 0x2028, 0x2029] && regexMatches is vs
  | .anything :: is, vs =>
    (List.range (vs.length + 1)).any fun i =>
      (vs.take i).all (· ∉ [0xa, 0xd, 0x2028, 0x2029]) && regexMatches is (vs.drop i)
  | .unit n :: is, vs =>
    match vs with
    | [] => false
    | v :: vs => v = n && regexMatches is vs

/-- Matching with a regular expression made of these elements. -/
def regexMatch (us : List ℕ) (value : String) : Bool :=
  match us with
  | 94 :: us => ((regexItems us).map fun is => regexMatches is (units value.toList)).getD false
  | _ => false

/-- `'a' LIKE '.'` is false, but the test emitted for `x LIKE '.'` is true when `x` is `a`. -/
theorem like_period_not_agrees :
    Node.matchLike (fun _ => regexMatch) Node.escapeSpecialRegexCharacter false false
        (.string "a") (.string ".") = .boolean false ∧
    runTest true (fun _ => regexMatch) "a" ((Node.matchLike (fun _ => regexMatch)
        Node.escapeSpecialRegexCharacter false false (.identifier "x")
        (.string ".")).recursiveToAs2js Node.escapeSpecialRegexCharacter) = some true ∧
    ¬ Node.LikeAgrees Node.escapeSpecialRegexCharacter (.string ".") := by
  have hfolded : Node.matchLike (fun _ => regexMatch) Node.escapeSpecialRegexCharacter false false
      (.string "a") (.string ".") = .boolean false := by
    rw [Node.matchLike_literal _ _ rfl rfl]
    exact congrArg Node.boolean (by decide)
  have htested : runTest true (fun _ => regexMatch) "a" ((Node.matchLike (fun _ => regexMatch)
        Node.escapeSpecialRegexCharacter false false (.identifier "x")
        (.string ".")).recursiveToAs2js Node.escapeSpecialRegexCharacter) = some true := by
    rw [Node.runTest_matchLike _ _ _ rfl rfl]
    decide
  refine ⟨hfolded, htested, fun h => ?_⟩
  obtain ⟨b, hb, htest⟩ := h (fun _ => regexMatch) true false false (.string "a") (.identifier "x")
    rfl rfl
  rw [hfolded] at hb
  cases hb
  exact absurd (htested.symm.trans htest) (by decide)

end Prinbee
