import Prinbee.BigInt.Int512
import Prinbee.BigInt.UInt512Arithmetic
import Prinbee.Pbql.Comment

/-!
# The lexer

`lexer.cpp`: `get_next_token()` skips white space and comments and returns the next token of a
script with its location.

## Main definitions

* `Lexer.Token`, `Lexer.TokenNode` — the tokens, with their values.
* `Lexer.scan` — one turn of the loop of `get_next_token()`.
* `Lexer.getNextToken` — `get_next_token()`.
* `Lexer.SkipsComment` — a turn of the loop skips a comment to its end.

## Main results

* `Lexer.skipsComment_iff` — it does so exactly when the comment does not hold an empty comment,
  or does not end at all.
-/

namespace Prinbee

namespace Lexer

open Input

/-- The tokens of `get_next_token()`, with the value of the node; `F` is `long double`. -/
inductive Token (F : Type)
  | eof
  | bitwiseXor | modulo | bitwiseAnd | openParenthesis | closeParenthesis | multiply | plus | comma
  | minus | period | divide | colon | semiColon | less | equal | greater | absoluteValue
  | openBracket | closeBracket | power | bitwiseOr | regularExpression
  | identifier (s : List UInt8)
  | string (s : List UInt8)
  | integer (n : Int512)
  | floatingPoint (f : F)
  | notEqual | lessEqual | greaterEqual | squareRoot | cubeRoot | scope | shiftLeft | shiftRight
  | unmatchedRegularExpression | stringConcat

/-- The node that `get_next_token()` returns. -/
structure TokenNode (F : Type) where
  token : Token F
  location : Input.Location

/-- What the lexer takes from elsewhere. -/
structure Library (F : Type) where
  /-- `strtold()`, when it takes the whole text and reports no error. -/
  strtold : List UInt8 → Option F
  /-- `libutf8::to_u8string()` of a character. -/
  toU8string : ℕ → Except Failure (List UInt8)

variable {F : Type}

/-! ### Characters -/

/-- `c >= '0' && c <= '9'`. -/
def isDigit (c : Char) : Bool := '0' ≤ c && c ≤ '9'

/-- The first character of an identifier. -/
def isLetter (c : Char) : Bool := ('a' ≤ c && c ≤ 'z') || ('A' ≤ c && c ≤ 'Z') || c = '_'

/-- `c - '0'`. -/
def digitValue (c : Char) : ℕ := c.toNat - '0'.toNat

/-- `snapdev::hexdigit_to_number()`, for a character that `snapdev::is_hexdigit()` accepts. -/
def hexdigitToNumber (c : Char) : Option ℕ :=
  if isDigit c then some (digitValue c)
  else if 'a' ≤ c && c ≤ 'f' then some (c.toNat - 'a'.toNat + 10)
  else if 'A' ≤ c && c ≤ 'F' then some (c.toNat - 'A'.toNat + 10)
  else none

/-- An octal digit. -/
def octalDigit (c : Char) : Option ℕ := if '0' ≤ c && c ≤ '7' then some (digitValue c) else none

/-- `s += c`: the character becomes a byte; the end of the script is the largest `char32_t`. -/
def byteOf : Option Char → UInt8
  | none => 255
  | some c => UInt8.ofNat c.toNat

theorem length_getc_lt {i : Input} {c : Char} (h : i.getc.1 = some c) :
    i.getc.2.upcoming.length < i.upcoming.length := by
  rw [getc_fst] at h
  obtain ⟨cs, hcs⟩ := List.head?_eq_some_iff.1 h
  rw [upcoming_getc, hcs]
  exact Nat.lt_succ_self _

theorem length_getc_le (i : Input) : i.getc.2.upcoming.length ≤ i.upcoming.length := by
  simp

/-- Giving back the character that was just read. -/
theorem upcoming_of_ungetc {i i' : Input} (h : i.getc.2.ungetc i.getc.1 = .ok i') :
    i'.upcoming = i.upcoming := by
  obtain ⟨j, hj, hup⟩ := i.ungetc_getc
  rw [h] at hj
  cases hj
  exact hup

/-- Reads characters as long as they satisfy `p`; the first one that does not is read as well. -/
def readWhile {α : Type} (p : Char → Bool) (f : α → Char → α) (a : α) (i : Input) :
    α × Option Char × Input :=
  match _hc : i.getc.1 with
  | none => (a, none, i.getc.2)
  | some c => if p c then readWhile p f (f a c) i.getc.2 else (a, some c, i.getc.2)
termination_by i.upcoming.length
decreasing_by exact length_getc_lt (by assumption)

/-- Adds a character to a string. -/
def push (s : List UInt8) (c : Char) : List UInt8 := s ++ [byteOf (some c)]

/-! ### Lines -/

/-- Reads up to the end of the line. -/
def skipLine (i : Input) : Input :=
  match _hc : i.getc.1 with
  | none => i.getc.2
  | some c => if c = '\n' then i.getc.2 else skipLine i.getc.2
termination_by i.upcoming.length
decreasing_by exact length_getc_lt (by assumption)

theorem length_skipLine_le (i : Input) : (skipLine i).upcoming.length ≤ i.upcoming.length := by
  fun_induction skipLine i with
  | case1 i _ => exact length_getc_le i
  | case2 i _ => exact length_getc_le i
  | case3 i c hc _ ih => exact ih.trans (length_getc_le i)

/-- The lines that start with a `#`, from behind the first `#`. -/
def skipHashLines (i : Input) : Except Failure Input :=
  if (skipLine i).getc.1 = some '#' then skipHashLines (skipLine i).getc.2
  else (skipLine i).getc.2.ungetc (skipLine i).getc.1
termination_by i.upcoming.length
decreasing_by exact (length_getc_lt (by assumption)).trans_le (length_skipLine_le i)

/-! ### Strings -/

/-- `append_unicode`. -/
def appendUnicode (lib : Library F) (c : ℕ) (i : Input) : Except Failure (List UInt8 × Input) :=
  if c = 0 then
    .error (.thrown .unexpectedToken
      "lexer::get_next_token() -- the NULL character is not allowed in strings.")
  else do
    let s ← lib.toU8string c
    .ok (s, i)

/-- An octal escape, from behind its first digit. -/
def octalEscape (lib : Library F) (c : ℕ) (i : Input) : Except Failure (List UInt8 × Input) :=
  match i.getc.1.bind octalDigit with
  | none => do
    let i ← i.getc.2.ungetc i.getc.1
    appendUnicode lib c i
  | some d =>
    let i := i.getc.2
    let c := 8 * c + d
    match i.getc.1.bind octalDigit with
    | none => do
      let i ← i.getc.2.ungetc i.getc.1
      appendUnicode lib c i
    | some d => appendUnicode lib (8 * c + d) i.getc.2

/-- The digits of a hexadecimal escape: `idx` are read, and `left` can follow. -/
def hexDigits : ℕ → ℕ → ℕ → Input → Except Failure (ℕ × ℕ × Input)
  | idx, 0, c, i => .ok (idx, c, i)
  | idx, left + 1, c, i =>
    match i.getc.1.bind hexdigitToNumber with
    | none => do
      let i ← i.getc.2.ungetc i.getc.1
      .ok (idx, c, i)
    | some d => hexDigits (idx + 1) left (16 * c + d) i.getc.2

/-- `parse_hex_char`. -/
def hexEscape (lib : Library F) (count : ℕ) (i : Input) : Except Failure (List UInt8 × Input) := do
  let r ← hexDigits 0 count 0 i
  if r.1 ≠ count ∧ (r.1 ≠ 1 ∨ count ≠ 2) then
    .error (.thrown .invalidToken ("lexer::get_next_token() -- escape sequence needed " ++
      toString count ++ " digits; found " ++ toString r.1 ++ " instead."))
  else appendUnicode lib r.2.1 r.2.2

/-- An escape sequence, from behind the backslash: what it adds to the string. -/
def escapeSequence (lib : Library F) (i : Input) : Except Failure (List UInt8 × Input) :=
  let c := i.getc.1
  let i := i.getc.2
  if c = some 'b' then .ok ([8], i)
  else if c = some 'f' then .ok ([12], i)
  else if c = some 'n' then .ok ([10], i)
  else if c = some 'r' then .ok ([13], i)
  else if c = some 't' then .ok ([9], i)
  else if c = some 'x' ∨ c = some 'X' then hexEscape lib 2 i
  else if c = some 'u' then hexEscape lib 4 i
  else if c = some 'U' then hexEscape lib 8 i
  else
    match c.bind octalDigit with
    | some d => octalEscape lib d i
    | none => .ok ([byteOf c], i)

section

variable {lib : Library F} {i : Input} {r : List UInt8 × Input}

theorem appendUnicode_input {c : ℕ} (h : appendUnicode lib c i = .ok r) : r.2 = i := by
  unfold appendUnicode at h
  split at h
  · cases h
  · obtain ⟨s, -, hs⟩ := bind_eq_ok.1 h
    cases hs
    rfl

/-- Giving back a character, then going on. -/
theorem length_ungetc_bind {α : Type} {f : Input → Except Failure α} {a : α} {g : α → Input}
    (hf : ∀ j, f j = .ok a → g a = j)
    (h : (i.getc.2.ungetc i.getc.1 >>= f) = .ok a) : (g a).upcoming = i.upcoming := by
  obtain ⟨j, hj, hfj⟩ := bind_eq_ok.1 h
  rw [hf j hfj, upcoming_of_ungetc hj]

theorem length_octalEscape_le {c : ℕ} (h : octalEscape lib c i = .ok r) :
    r.2.upcoming.length ≤ i.upcoming.length := by
  have hle := length_getc_le i
  have hle' := length_getc_le i.getc.2
  unfold octalEscape at h
  split at h
  · exact (congrArg List.length (length_ungetc_bind (g := Prod.snd)
      (fun j hj => appendUnicode_input hj) h)).le
  · dsimp only at h
    split at h
    · exact (congrArg List.length (length_ungetc_bind (g := Prod.snd)
        (fun j hj => appendUnicode_input hj) h)).le.trans hle
    · rw [appendUnicode_input h]
      exact hle'.trans hle

theorem length_hexDigits_le {idx left c : ℕ} {i : Input} {r : ℕ × ℕ × Input}
    (h : hexDigits idx left c i = .ok r) : r.2.2.upcoming.length ≤ i.upcoming.length := by
  induction left generalizing idx c i with
  | zero =>
    cases h
    exact Nat.le_refl _
  | succ left ih =>
    simp only [hexDigits] at h
    split at h
    · exact (congrArg List.length (length_ungetc_bind (g := fun r : ℕ × ℕ × Input => r.2.2)
        (fun j hj => by cases hj; rfl) h)).le
    · exact (ih h).trans (length_getc_le i)

theorem length_hexEscape_le {count : ℕ} (h : hexEscape lib count i = .ok r) :
    r.2.upcoming.length ≤ i.upcoming.length := by
  obtain ⟨q, hq, h⟩ := bind_eq_ok.1 h
  split at h
  · cases h
  · rw [appendUnicode_input h]
    exact length_hexDigits_le hq

/-- An escape sequence reads on. -/
theorem length_escapeSequence_le (h : escapeSequence lib i = .ok r) :
    r.2.upcoming.length ≤ i.upcoming.length := by
  have hle := length_getc_le i
  unfold escapeSequence at h
  dsimp only at h
  repeat' split at h
  all_goals first
    | exact (length_hexEscape_le h).trans hle
    | exact (length_octalEscape_le h).trans hle
    | cases h; exact hle

end

/-- `parse_string`, from behind the opening quote. -/
def stringLoop (lib : Library F) (escapeString : Bool) (s : List UInt8) (i : Input) :
    Except Failure (List UInt8 × Input) :=
  match _hc : i.getc.1 with
  | none => .error (.thrown .invalidToken "unclosed string.")
  | some c =>
    if c = '\'' then
      if i.getc.2.getc.1 = some '\'' then stringLoop lib escapeString (push s c) i.getc.2.getc.2
      else do
        let i ← i.getc.2.getc.2.ungetc i.getc.2.getc.1
        .ok (s, i)
    else if c = '\n' then
      .error (.thrown .invalidToken "string cannot include a newline or carriage return character.")
    else if escapeString && c = '\\' then
      match _hr : escapeSequence lib i.getc.2 with
      | .error e => .error e
      | .ok r => stringLoop lib escapeString (s ++ r.1) r.2
    else stringLoop lib escapeString (push s c) i.getc.2
termination_by i.upcoming.length
decreasing_by
  · exact (length_getc_le i.getc.2).trans_lt (length_getc_lt (by assumption))
  · exact (length_escapeSequence_le (by assumption)).trans_lt (length_getc_lt (by assumption))
  · exact length_getc_lt (by assumption)

/-- A string; with `escapeString`, after an `E`. -/
def parseString (lib : Library F) (escapeString : Bool) (l : Input.Location) (i : Input) :
    Except Failure (TokenNode F × Input) := do
  let r ← stringLoop lib escapeString [] i
  .ok (⟨.string r.1, l⟩, r.2)

/-! ### Numbers -/

/-- A base of an integer: its digits, the characters that are refused behind them, and the
errors. -/
structure Radix where
  base : ℕ
  digit : Char → Option ℕ
  refused : Char → Bool
  refusal : String
  unquoted : String
  missing : String

/-- `parse_binary_number`. -/
def binaryNumber : Radix where
  base := 2
  digit c := if c = '0' then some 0 else if c = '1' then some 1 else none
  refused c := '2' ≤ c && c ≤ '9'
  refusal := "a binary number only supports binary digits (0 and 1)."
  unquoted := "a binary string needs to end with a quote (')."
  missing := "a binary number needs at least one digit."

/-- `parse_hexadecimal_number`. -/
def hexadecimalNumber : Radix where
  base := 16
  digit := hexdigitToNumber
  refused _ := false
  refusal := ""
  unquoted := "a hexadecimal string needs to end with a quote (')."
  missing := "a hexadecimal number needs at least one digit after the \"0x\"."

/-- `parse_octal_number`. -/
def octalNumber : Radix where
  base := 8
  digit := octalDigit
  refused c := c = '8' || c = '9'
  refusal := "an octal number cannot include digits 8 or 9."
  unquoted := "an octal string needs to end with a quote (')."
  missing := "an octal number needs at least one digit after the \"0o\"."

/-- The character behind the digits: the quote of a string, or one that is given back. -/
def numberEnd (r : Radix) (numberString : Bool) (i : Input) : Except Failure Input :=
  if numberString then
    if i.getc.1 = some '\'' then .ok i.getc.2 else .error (.thrown .invalidNumber r.unquoted)
  else i.getc.2.ungetc i.getc.1

/-- The digits: the value, whether there are any, and the input behind the number. -/
def numberLoop (r : Radix) (numberString : Bool) (value : UInt512) (found : Bool) (i : Input) :
    Except Failure (UInt512 × Bool × Input) :=
  match _hc : i.getc.1 with
  | none => do
    let i ← numberEnd r numberString i
    .ok (value, found, i)
  | some c =>
    match r.digit c with
    | some d =>
      numberLoop r numberString ((value.mul (.ofUInt64 r.base)).add (.ofUInt64 d)) true i.getc.2
    | none =>
      if r.refused c then .error (.thrown .invalidNumber r.refusal)
      else do
        let i ← numberEnd r numberString i
        .ok (value, found, i)
termination_by i.upcoming.length
decreasing_by exact length_getc_lt (by assumption)

/-- A number in one of these bases, from behind its prefix; with `numberString`, in quotes. -/
def prefixedNumber (r : Radix) (numberString : Bool) (l : Input.Location) (i : Input) :
    Except Failure (TokenNode F × Input) := do
  let n ← numberLoop r numberString .zero false i
  if n.2.1 then .ok (⟨.integer ⟨n.1⟩, l⟩, n.2.2)
  else .error (.thrown .invalidNumber r.missing)

/-- The exponent of a floating point number, when `c` starts one. -/
def exponent (number : List UInt8) (c : Option Char) (i : Input) :
    List UInt8 × Option Char × Input :=
  if c = some 'e' ∨ c = some 'E' then
    let number := push number 'e'
    match i.getc.1 with
    | some '+' => readWhile isDigit push (push number '+') i.getc.2
    | some '-' => readWhile isDigit push (push number '-') i.getc.2
    | _ => readWhile isDigit push number i
  else (number, c, i)

/-- A floating point number, from behind its period. -/
def floatingPointNumber (lib : Library F) (l : Input.Location) (value : UInt512) (i : Input) :
    Except Failure (TokenNode F × Input) := do
  let number ← value.toText 10 false false
  let r := readWhile isDigit push (push number '.') i
  let r := exponent r.1 r.2.1 r.2.2
  let i ← r.2.2.ungetc r.2.1
  match lib.strtold r.1 with
  | none =>
    .error (.thrown .invalidNumber ("invalid floating point number (" ++ textOf r.1 ++ ")."))
  | some fp => .ok (⟨.floatingPoint fp, l⟩, i)

/-- A number that starts with the decimal digit `c`. -/
def decimalNumber (lib : Library F) (l : Input.Location) (c : Char) (i : Input) :
    Except Failure (TokenNode F × Input) :=
  let r := readWhile isDigit
    (fun value c => (value.mul (.ofUInt64 10)).add (.ofUInt64 (digitValue c)))
    (.ofUInt64 (digitValue c)) i
  if r.2.1 = some '.' then floatingPointNumber lib l r.1 r.2.2
  else do
    -- whatever stands behind a number is accepted
    let i ← r.2.2.ungetc r.2.1
    .ok (⟨.integer ⟨r.1⟩, l⟩, i)

/-- A number that starts with the digit `c`. -/
def parseNumber (lib : Library F) (l : Input.Location) (c : Char) (i : Input) :
    Except Failure (TokenNode F × Input) :=
  if c = '0' then
    if i.getc.1 = some 'b' ∨ i.getc.1 = some 'B' then prefixedNumber binaryNumber false l i.getc.2
    else if i.getc.1 = some 'x' ∨ i.getc.1 = some 'X' then
      prefixedNumber hexadecimalNumber false l i.getc.2
    else if i.getc.1 = some 'o' ∨ i.getc.1 = some 'O' then
      prefixedNumber octalNumber false l i.getc.2
    else do
      let i ← i.getc.2.ungetc i.getc.1
      decimalNumber lib l c i
  else decimalNumber lib l c i

/-! ### Words and operators -/

/-- An identifier that starts with `c`, or the error for `c`. -/
def identifier (l : Input.Location) (c : Char) (i : Input) : Except Failure (TokenNode F × Input) :=
  if isLetter c then do
    let r := readWhile (fun c => isLetter c || isDigit c) push (push [] c) i
    let i ← r.2.2.ungetc r.2.1
    .ok (⟨.identifier r.1, l⟩, i)
  else .error (.thrown .unexpectedToken ("unexpected token (" ++ c.toString ++ ")."))

/-- The `default` of `get_next_token()`: some letters start a string or a number in quotes. -/
def parseDefault (lib : Library F) (l : Input.Location) (c : Char) (i : Input) :
    Except Failure (TokenNode F × Input) :=
  if c ∈ ['b', 'B', 'e', 'E', 'o', 'O', 'x', 'X'] then
    if i.getc.1 = some '\'' then
      if c = 'b' ∨ c = 'B' then prefixedNumber binaryNumber true l i.getc.2
      else if c = 'e' ∨ c = 'E' then parseString lib true l i.getc.2
      else if c = 'o' ∨ c = 'O' then prefixedNumber octalNumber true l i.getc.2
      else prefixedNumber hexadecimalNumber true l i.getc.2
    else do
      let i ← i.getc.2.ungetc i.getc.1
      identifier l c i
  else identifier l c i

/-- The tokens of one character that no other token starts with. -/
def oneCharacter (c : Char) : Option (Token F) :=
  if c = '%' then some .modulo
  else if c = '&' then some .bitwiseAnd
  else if c = '(' then some .openParenthesis
  else if c = ')' then some .closeParenthesis
  else if c = '[' then some .openBracket
  else if c = ']' then some .closeBracket
  else if c = '*' then some .multiply
  else if c = '+' then some .plus
  else if c = ',' then some .comma
  else if c = '.' then some .period
  else if c = ';' then some .semiColon
  else if c = '@' then some .absoluteValue
  else if c = '^' then some .power
  else if c = '=' then some .equal
  else if c = '~' then some .regularExpression
  else none

/-- A token of two characters, when the second one is in `table`, or else one of one character. -/
def operator (table : List (Char × Token F)) (single : Token F) (l : Input.Location) (i : Input) :
    Except Failure (TokenNode F × Input) :=
  match i.getc.1.bind fun c => table.lookup c with
  | some t => .ok (⟨t, l⟩, i.getc.2)
  | none => do
    let i ← i.getc.2.ungetc i.getc.1
    .ok (⟨single, l⟩, i)

/-- The tokens that start with a vertical bar. -/
def verticalBar (l : Input.Location) (i : Input) : Except Failure (TokenNode F × Input) :=
  if i.getc.1 = some '|' then operator [('/', .cubeRoot)] .stringConcat l i.getc.2
  else operator [('/', .squareRoot)] .bitwiseOr l i

/-- The token that starts with `c`, for a character that starts no comment. -/
def parseToken (lib : Library F) (l : Input.Location) (c : Char) (i : Input) :
    Except Failure (TokenNode F × Input) :=
  match oneCharacter c with
  | some t => .ok (⟨t, l⟩, i)
  | none =>
    if c = '!' then
      if i.getc.1 = some '~' then .ok (⟨.unmatchedRegularExpression, l⟩, i.getc.2)
      else do
        let _ ← i.getc.2.ungetc i.getc.1
        .error (.thrown .unexpectedToken "unexpected token (!).")
    else if c = ':' then operator [(':', .scope)] .colon l i
    else if c = '<' then
      operator [('=', .lessEqual), ('<', .shiftLeft), ('>', .notEqual)] .less l i
    else if c = '>' then operator [('=', .greaterEqual), ('>', .shiftRight)] .greater l i
    else if c = '|' then verticalBar l i
    else if c = '\'' then parseString lib false l i
    else if isDigit c then parseNumber lib l c i
    else parseDefault lib l c i

/-! ### The loop of the lexer -/

/-- A `#`: at the very start of a script, it starts a comment, and so does every `#` that starts
one of the lines behind it. -/
def scanHash (l : Input.Location) (i : Input) : Except Failure (Option (TokenNode F) × Input) :=
  if l.line = 1 ∧ l.column = 1 then do
    let i ← skipHashLines i
    .ok (none, i)
  else .ok (some ⟨.bitwiseXor, l⟩, i)

/-- A slash: a comment, or the operator. -/
def scanSlash (l : Input.Location) (i : Input) : Except Failure (Option (TokenNode F) × Input) :=
  if i.getc.1 = some '*' then do
    let i ← Comment.skipComment 1 i.getc.2
    .ok (none, i)
  else do
    let i ← i.getc.2.ungetc i.getc.1
    .ok (some ⟨.divide, l⟩, i)

/-- A minus: a comment up to the end of the line, or the operator. -/
def scanMinus (l : Input.Location) (i : Input) : Except Failure (Option (TokenNode F) × Input) :=
  if i.getc.1 = some '-' then .ok (none, skipLine i.getc.2)
  else do
    let i ← i.getc.2.ungetc i.getc.1
    .ok (some ⟨.minus, l⟩, i)

/-- One turn of the loop of `get_next_token()`: a token, or nothing when it skipped white space or
a comment. -/
def scan (lib : Library F) (i : Input) : Except Failure (Option (TokenNode F) × Input) :=
  let l := i.location
  match i.getc.1 with
  | none => .ok (some ⟨.eof, l⟩, i.getc.2)
  | some c =>
    if c ∈ [' ', '\n', '\t', '\x0c', '\x0b'] then .ok (none, i.getc.2)
    else if c = '#' then scanHash l i.getc.2
    else if c = '/' then scanSlash l i.getc.2
    else if c = '-' then scanMinus l i.getc.2
    else (parseToken lib l c i.getc.2).map fun r => (some r.1, r.2)

theorem length_skipHashLines_le {i i' : Input} (h : skipHashLines i = .ok i') :
    i'.upcoming.length ≤ i.upcoming.length := by
  fun_induction skipHashLines i with
  | case1 i _ ih =>
    exact (ih h).trans ((length_getc_le (skipLine i)).trans (length_skipLine_le i))
  | case2 i _ =>
    rw [upcoming_of_ungetc h]
    exact length_skipLine_le i

theorem length_skipComment_le {count : ℕ} {i i' : Input}
    (h : Comment.skipComment count i = .ok i') : i'.upcoming.length ≤ i.upcoming.length := by
  rw [Comment.skipComment_eq_run] at h
  cases hr : Comment.run .text count i.upcoming with
  | error d =>
    rw [hr] at h
    cases h
  | ok rest =>
    rw [hr] at h
    cases h
    have hrest := (Comment.run_suffix hr).1
    rw [upcoming_skipTo hrest]
    exact hrest.length_le

theorem bind_none {x : Except Failure Input} {j : Input}
    (h : (do let i ← x; .ok ((none : Option (TokenNode F)), i)) = .ok (none, j)) : x = .ok j := by
  obtain ⟨i, hi, heq⟩ := bind_eq_ok.1 h
  cases heq
  exact hi

theorem bind_some {x : Except Failure Input} {n : TokenNode F} {j : Input}
    (h : (do let i ← x; .ok (some n, i)) = .ok (none, j)) : False := by
  obtain ⟨i, -, heq⟩ := bind_eq_ok.1 h
  cases heq

/-- A turn that returns no token reads on. -/
theorem scan_lt {lib : Library F} {i j : Input} (h : scan lib i = .ok (none, j)) :
    j.upcoming.length < i.upcoming.length := by
  unfold scan at h
  dsimp only at h
  split at h
  · cases h
  · rename_i c hc
    refine lt_of_le_of_lt ?_ (length_getc_lt hc)
    split at h
    · cases h
      exact Nat.le_refl _
    · split at h
      · unfold scanHash at h
        split at h
        · exact length_skipHashLines_le (bind_none h)
        · cases h
      · split at h
        · unfold scanSlash at h
          split at h
          · exact (length_skipComment_le (bind_none h)).trans (length_getc_le _)
          · exact (bind_some h).elim
        · split at h
          · unfold scanMinus at h
            split at h
            · cases h
              exact (length_skipLine_le _).trans (length_getc_le _)
            · exact (bind_some h).elim
          · cases hp : parseToken lib i.location c i.getc.2 with
            | error e =>
              rw [hp] at h
              cases h
            | ok r =>
              rw [hp] at h
              cases h

/-- `get_next_token()`. -/
def getNextToken (lib : Library F) (i : Input) : Except Failure (TokenNode F × Input) :=
  match _h : scan lib i with
  | .error e => .error e
  | .ok (some n, j) => .ok (n, j)
  | .ok (none, j) => getNextToken lib j
termination_by i.upcoming.length
decreasing_by exact scan_lt (by assumption)

/-- What a turn skips makes no difference to the token. -/
theorem getNextToken_of_skip {lib : Library F} {i j : Input} (h : scan lib i = .ok (none, j)) :
    getNextToken lib i = getNextToken lib j := by
  rw [getNextToken]
  split
  · rename_i heq
    rw [h] at heq
    cases heq
  · rename_i heq
    rw [h] at heq
    cases heq
  · rename_i heq
    rw [h] at heq
    cases heq
    rfl

theorem getNextToken_of_error {lib : Library F} {i : Input} {e : Failure}
    (h : scan lib i = .error e) : getNextToken lib i = .error e := by
  rw [getNextToken]
  split
  · rename_i heq
    rw [h] at heq
    cases heq
    rfl
  · rename_i heq
    rw [h] at heq
    cases heq
  · rename_i heq
    rw [h] at heq
    cases heq

/-! ### Comments -/

open NestedComment

/-- A turn at a comment is the loops of the comment. -/
theorem scan_comment (lib : Library F) {i : Input} {body : List Char}
    (h : i.upcoming = '/' :: '*' :: body) :
    scan lib i = (Comment.toInput i (Comment.run .text 1 body)).map fun j => (none, j) := by
  have hup : i.getc.2.upcoming = '*' :: body := by rw [upcoming_getc, h, List.tail_cons]
  have hup' : i.getc.2.getc.2.upcoming = body := by rw [upcoming_getc, hup, List.tail_cons]
  have hstar : i.getc.2.getc.1 = some '*' := by rw [getc_fst, hup, List.head?_cons]
  have hscan : scan lib i = scanSlash i.location i.getc.2 := by
    simp [scan, h]
  have hbody : ∀ rest, Comment.run .text 1 body = .ok rest → rest <:+ body := fun _ hr =>
    (Comment.run_suffix hr).1
  rw [hscan, scanSlash, if_pos hstar, Comment.skipComment_eq_run, hup',
    Comment.toInput_of_suffix hup hbody,
    Comment.toInput_of_suffix h fun rest hr => (hbody rest hr).trans (List.suffix_cons '*' body)]
  rfl

/-- At a comment, `get_next_token()` goes on behind the end of it, and throws when it has none. -/
def SkipsComment (lib : Library F) (i : Input) (body : List Char) : Prop :=
  (∀ rest, after '/' '*' 1 body = some rest →
    scan lib i = .ok (none, i.skipTo rest) ∧
      getNextToken lib i = getNextToken lib (i.skipTo rest)) ∧
  ((∃ count, scan lib i = .error (Comment.unterminated count)) ↔ after '/' '*' 1 body = none)

/-- The rest of a comment is one of the rests of the input. -/
theorem suffix_upcoming {i : Input} {body rest : List Char}
    (h : i.upcoming = '/' :: '*' :: body) (hrest : rest <:+ body) : rest <:+ i.upcoming := by
  rw [h]
  exact (hrest.trans (List.suffix_cons '*' body)).trans (List.suffix_cons '/' _)

/-- The comment for which no end is found. -/
theorem skipsComment_of_error (lib : Library F) {i : Input} {body : List Char} {depth : ℕ}
    (h : i.upcoming = '/' :: '*' :: body) (hrun : Comment.run .text 1 body = .error depth) :
    SkipsComment lib i body ↔
      after '/' '*' 1 body = none ∨ holdsEmpty '/' '*' 1 body = false := by
  have hthrows : scan lib i = .error (Comment.unterminated depth) := by
    have hscan := scan_comment lib h
    rw [hrun] at hscan
    exact hscan
  cases hafter : after '/' '*' 1 body with
  | none =>
    refine iff_of_true ⟨fun rest hrest => ?_, fun _ => hafter, fun _ => ⟨depth, hthrows⟩⟩ (Or.inl rfl)
    rw [hafter] at hrest
    cases hrest
  | some rest =>
    refine iff_of_false (fun hs => ?_) ?_
    · have hok := (hs.1 rest hafter).1
      rw [hthrows] at hok
      cases hok
    · rintro (hnone | hempty)
      · cases hnone
      · have heq := Comment.run_eq_after (Nat.le_refl 1) hempty
        rw [hrun, hafter] at heq
        cases heq

/-- The comment for which an end is found: it is too late if there is an empty one inside. -/
theorem skipsComment_of_ok (lib : Library F) {i : Input} {body r : List Char}
    (h : i.upcoming = '/' :: '*' :: body) (hrun : Comment.run .text 1 body = .ok r) :
    SkipsComment lib i body ↔
      after '/' '*' 1 body = none ∨ holdsEmpty '/' '*' 1 body = false := by
  have hskips : scan lib i = .ok (none, i.skipTo r) := by
    have hscan := scan_comment lib h
    rw [hrun] at hscan
    exact hscan
  obtain ⟨rest, hrest, hlate⟩ := Comment.run_overshoots (Nat.le_refl 1) hrun
  cases hempty : holdsEmpty '/' '*' 1 body with
  | false =>
    have heq := Comment.run_eq_after (Nat.le_refl 1) hempty
    rw [hrun] at heq
    refine iff_of_true ⟨fun rest' hrest' => ?_, ?_⟩ (Or.inr rfl)
    · rw [← heq] at hrest'
      cases hrest'
      exact ⟨hskips, getNextToken_of_skip hskips⟩
    · rw [hskips, ← heq]
      simp [Except.toOption]
  | true =>
    refine iff_of_false (fun hs => ?_) ?_
    · have hok := (hs.1 rest hrest).1
      rw [hskips] at hok
      have hinput : i.skipTo r = i.skipTo rest := congrArg Prod.snd (Except.ok.inj hok)
      have hup := congrArg upcoming hinput
      rw [upcoming_skipTo (suffix_upcoming h (Comment.run_suffix hrun).1),
        upcoming_skipTo (suffix_upcoming h (after_suffix hrest))] at hup
      exact absurd (congrArg List.length hup) (hlate hempty).ne
    · rintro (hnone | hfalse)
      · rw [hrest] at hnone
        cases hnone
      · cases hfalse

/-- **At a comment, `get_next_token()` does so exactly when the comment does not end, or holds no
empty comment.** -/
theorem skipsComment_iff (lib : Library F) {i : Input} {body : List Char}
    (h : i.upcoming = '/' :: '*' :: body) :
    SkipsComment lib i body ↔
      after '/' '*' 1 body = none ∨ holdsEmpty '/' '*' 1 body = false := by
  cases hrun : Comment.run .text 1 body with
  | error depth => exact skipsComment_of_error lib h hrun
  | ok r => exact skipsComment_of_ok lib h hrun

/-- A library without floating point numbers. -/
def plainLibrary : Library Unit where
  strtold _ := none
  toU8string c := .ok (String.utf8EncodeChar (Char.ofNat c))

theorem skipsComment_nested :
    SkipsComment plainLibrary (.ofScript "/* a /* b */ c */ d".toList "")
      " a /* b */ c */ d".toList :=
  (skipsComment_iff plainLibrary (by decide)).2 (Or.inr (by decide))

/-- In `/* /**/ */ d` the comment ends before the `d`, but `get_next_token()` finds no end. -/
theorem emptyComment_not_skipped :
    NestedComment.after '/' '*' 1 " /**/ */ d".toList = some " d".toList ∧
    getNextToken plainLibrary (.ofScript "/* /**/ */ d".toList "") =
      .error (Comment.unterminated 1) ∧
    ¬ SkipsComment plainLibrary (.ofScript "/* /**/ */ d".toList "") " /**/ */ d".toList := by
  have hup : (Input.ofScript "/* /**/ */ d".toList "").upcoming =
      '/' :: '*' :: " /**/ */ d".toList := by decide
  have hthrows : scan plainLibrary (.ofScript "/* /**/ */ d".toList "") =
      .error (Comment.unterminated 1) := scan_comment plainLibrary hup
  refine ⟨by decide, getNextToken_of_error hthrows, ?_⟩
  rintro ⟨hskips, -⟩
  have hok := (hskips " d".toList (by decide)).1
  rw [hthrows] at hok
  cases hok

end Lexer

end Prinbee
