import Prinbee.Lib.StringLiteral
import Prinbee.Pbql.Node

/-!
# String literals in as2js

`node.cpp`: the text of a `TOKEN_STRING` node is a JavaScript string literal.  The emitter gives
`snapdev::string_replace_many()` a table of escapes, one for the double quote and one for each
control character that has a letter.  There is none for the backslash, which is copied, so that
JavaScript takes it for the start of an escape sequence.

## Main definitions

* `ReplacesCharacters` — what `string_replace_many()` does with a table of characters.
* `stringEscapes`, `stringLiteral` — the table, and the text of a string node.

## Main results

* `stringLiteral_survives_iff` — the literal reads as the string exactly when the string has no
  backslash.
-/

namespace Prinbee

open JavaScript

/-! ### The literal -/

/-- `snapdev::string_replace_many()` given a table that replaces single characters: each character
of the text is replaced once, by the first row that has it. -/
def ReplacesCharacters (stringReplaceMany : String → List (String × String) → String) : Prop :=
  ∀ (table : List (Char × String)) (s : String),
    stringReplaceMany s (table.map fun e => (e.1.toString, e.2)) =
      String.join (s.toList.map fun c => (table.lookup c).getD c.toString)

/-- The escapes of `recursive_to_as2js()`. -/
def stringEscapes : List (Char × String) :=
  [('"', "\\\""), ('\x08', "\\b"), ('\x0c', "\\f"), ('\n', "\\n"), ('\r', "\\r"), ('\t', "\\t"),
    ('\x0b', "\\v")]

/-- The text that `recursive_to_as2js()` returns for a `TOKEN_STRING`. -/
def stringLiteral (stringReplaceMany : String → List (String × String) → String) (s : String) :
    String :=
  "\"" ++ stringReplaceMany s (stringEscapes.map fun e => (e.1.toString, e.2)) ++ "\""

/-- A row of the table is a backslash and the letter of the character. -/
theorem stringEscapes_toList (c : Char) :
    ((stringEscapes.lookup c).getD c.toString).toList = writtenChar (fun _ => true) c := by
  unfold writtenChar escapeLetter stringEscapes
  simp only [List.lookup_cons, List.lookup_nil, beq_eq_decide]
  split_ifs <;> simp_all

/-- The text between the quotes is the one of a writer that escapes all it can. -/
theorem stringLiteral_toList {stringReplaceMany : String → List (String × String) → String}
    (h : ReplacesCharacters stringReplaceMany) (s : String) :
    (stringLiteral stringReplaceMany s).toList =
      '"' :: (written (fun _ => true) s.toList ++ ['"']) := by
  simp only [stringLiteral, h stringEscapes s, String.toList_append, String.toList_join, written,
    List.flatMap_map, stringEscapes_toList]
  rfl

/-- `escapeString` is what `string_replace_many()` returns for the table. -/
theorem escapeString_eq {stringReplaceMany : String → List (String × String) → String}
    (h : ReplacesCharacters stringReplaceMany) (s : String) :
    escapeString s = stringReplaceMany s (stringEscapes.map fun e => (e.1.toString, e.2)) := by
  rw [h, escapeString]
  congr 2
  funext c
  unfold stringEscapes
  split
  case h_8 =>
    simp only [List.lookup_cons, List.lookup_nil]
    grind
  all_goals rfl

/-- The text of a string node. -/
theorem toAs2js_string {stringReplaceMany : String → List (String × String) → String}
    (h : ReplacesCharacters stringReplaceMany) (escape : Char → String) (s : String) :
    (Node.string s).toAs2js escape = stringLiteral stringReplaceMany s := by
  rw [stringLiteral, ← escapeString_eq h]
  simp [Node.toAs2js, Node.toAs2jsLexemes, Node.resetCounter, Node.recursiveToAs2js, Lexeme.text]

/-- **The text of a string node reads as the string exactly when the string has no backslash.** -/
theorem stringLiteral_survives_iff {stringReplaceMany : String → List (String × String) → String}
    (h : ReplacesCharacters stringReplaceMany) (strict : Bool) (s : String) :
    unescape strict (stringLiteral stringReplaceMany s).toList = some (units s.toList) ↔
      '\\' ∉ s.toList := by
  rw [stringLiteral_toList h, unescape_written_iff]
  constructor
  · intro hkept hmem
    exact kept_all.1 (hkept _ hmem) rfl
  · intro hmem c hc
    exact kept_all.2 fun heq => hmem (heq ▸ hc)

/-- `string_replace_many()` for a table whose search strings are single characters. -/
def replaceCharacters (s : String) (table : List (String × String)) : String :=
  String.join (s.toList.map fun c => (table.lookup c.toString).getD c.toString)

theorem replaceCharacters_replaces : ReplacesCharacters replaceCharacters := by
  intro table s
  have hlookup : ∀ c : Char,
      (table.map fun e => (e.1.toString, e.2)).lookup c.toString = table.lookup c := by
    intro c
    induction table with
    | nil => rfl
    | cons e table ih =>
      obtain ⟨k, v⟩ := e
      have hbeq : (c.toString == k.toString) = (c == k) := by
        rw [Bool.eq_iff_iff, beq_iff_eq, beq_iff_eq]
        exact ⟨fun heq => by simpa [Char.toString] using heq, congrArg Char.toString⟩
      simp only [List.map_cons, List.lookup_cons, hbeq, ih]
  simp only [replaceCharacters, hlookup]

theorem stringLiteral_survives_quoted :
    unescape true (stringLiteral replaceCharacters "say \"hi\"\n").toList =
      some (units "say \"hi\"\n".toList) :=
  (stringLiteral_survives_iff replaceCharacters_replaces true _).2 (by decide)

/-- The path `C:\new` becomes `C:`, a new line and `ew`. -/
theorem stringLiteral_backslash_not_survives :
    stringLiteral replaceCharacters "C:\\new" = "\"C:\\new\"" ∧
    unescape true (stringLiteral replaceCharacters "C:\\new").toList =
      some (units "C:\new".toList) ∧
    unescape true (stringLiteral replaceCharacters "C:\\new").toList ≠
      some (units "C:\\new".toList) := by
  decide

end Prinbee
