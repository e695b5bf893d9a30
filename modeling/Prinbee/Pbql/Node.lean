import Prinbee.Lib.JavaScript

/-!
# From PBQL expressions to as2js

`node.cpp`: the expression trees that `parse_expression()` builds and their translation to an
as2js (JavaScript) expression, `recursive_to_as2js()`.  The emitter writes an operator between
the texts of its operands; only exponentiation, `BETWEEN`, casts, calls and array accesses put
parentheses or brackets around them.

`parse_expression()` drops the parentheses of the source, so every operator can stand below
every other one, and the text means what the tree means exactly when JavaScript's precedences
happen to agree with the tree.

## Main definitions

* `Node` — an expression tree.
* `Node.recursiveToAs2js`, `Node.toAs2js` — the emitter: the tokens it writes, and their text.
* `Node.translate` — the JavaScript tree in which each operator is applied to the translations of
  its own children.
* `Node.Grouped`, `Node.Separated` — where the emitter writes enough parentheses.

## Main results

* `toAs2js_reads_iff` — the text reads as the translation of the tree exactly when the tree is
  grouped and separated.
-/

namespace Prinbee

open JavaScript

/-- The tokens of the operators that `recursive_to_as2js()` writes between its two operands. -/
inductive BinaryToken
  | bitwiseXor | modulo | bitwiseAnd | multiply | plus | minus | divide | less | equal | greater
  | bitwiseOr | notEqual | lessEqual | greaterEqual | shiftLeft | shiftRight
  | logicalOr | logicalAnd
  deriving DecidableEq, Repr

/-- The JavaScript operator written for the token. -/
def BinaryToken.js : BinaryToken → BinaryOp
  | bitwiseXor => .bxor | modulo => .mod | bitwiseAnd => .band | multiply => .mul
  | plus => .add | minus => .sub | divide => .div | less => .lt | equal => .eq
  | greater => .gt | bitwiseOr => .bor | notEqual => .ne | lessEqual => .le
  | greaterEqual => .ge | shiftLeft => .shl | shiftRight => .shr
  | logicalOr => .lor | logicalAnd => .land

/-- `type_t`, the types of a cast. -/
inductive CastType
  | boolean
  | int1 | int2 | int4 | int8 | int16 | int32 | int64
  | unsignedInt1 | unsignedInt2 | unsignedInt4 | unsignedInt8 | unsignedInt16 | unsignedInt32
  | unsignedInt64
  | float4 | float8 | float10
  | text
  deriving DecidableEq, Repr

/-- `cast_type_to_as2js_type()`. -/
def castTypeToAs2jsType : CastType → String
  | .boolean => "Boolean"
  | .float4 | .float8 | .float10 => "Number"
  | .text => "String"
  | _ => "Integer"

/-- What stands on the right of a period. -/
inductive Field
  | name (s : String)
  | allFields
  deriving DecidableEq, Repr

/-- An expression tree.  `negate` is a `TOKEN_MINUS` with one child; a floating point number
comes with the digits that `snapdev::floating_point_to_string()` gives for its absolute value;
`between` has the value of its `f_temp_counter`; the name of a function is the object and the
method that `function_call()` gives it. -/
inductive Node
  | identifier (s : String)
  | string (s : String)
  | integer (n : ℤ)
  | floatingPoint (negative : Bool) (digits : String)
  | boolean (b : Bool)
  | null
  | allFields
  | binary (t : BinaryToken) (l r : Node)
  | negate (c : Node)
  | logicalNot (c : Node)
  | power (l r : Node)
  | period (l : Node) (f : Field)
  | elementAt (l i : Node)
  | regularExpression (l r : Node)
  | like (insensitive : Bool) (l r : Node)
  | between (counter : ℕ) (value low high : Node)
  | cast (t : CastType) (c : Node)
  | functionCall (object method : String) (params : List Node)

/-- The escapes of `recursive_to_as2js()` in a string. -/
def escapeString (s : String) : String :=
  String.join (s.toList.map fun c => match c with
    | '"' => "\\\""
    | '\x08' => "\\b"
    | '\x0c' => "\\f"
    | '\n' => "\\n"
    | '\r' => "\\r"
    | '\t' => "\\t"
    | '\x0b' => "\\v"
    | c => c.toString)

namespace Node

/-- `is_literal()`, for any type of literal. -/
def isLiteral : Node → Bool
  | string _ | integer _ | floatingPoint .. | boolean _ | null => true
  | _ => false

/-- `get_string_auto_convert()`; only literals have one. -/
def getStringAutoConvert : Node → String
  | string s => s
  | integer n => toString n
  | floatingPoint negative digits => if negative then "-" ++ digits else digits
  | boolean b => if b then "true" else "false"
  | null => "null"
  | _ => ""

/-- `convert_like_pattern()`, with `snapdev::escape_special_regex_characters()`. -/
def convertLikePattern (escape : Char → String) (pattern : String) : String :=
  "^" ++ String.join (pattern.toList.map fun c => if c = '%' then ".*" else escape c) ++ "$"

/-- The name written on the right of a period. -/
def fieldName : Field → String
  | .name s => s
  | .allFields => "ALL_FIELDS"

/-- The temporary of a `BETWEEN`. -/
def tempName (counter : ℕ) : String := "_t" ++ toString (counter + 1)

variable (escape : Char → String)

mutual

/-- `recursive_to_as2js()`: the tokens of the text, in order. -/
def recursiveToAs2js : Node → List Lexeme
  | identifier s => [.word s]
  | string s => [.string (escapeString s)]
  | integer n => if n < 0 then [.op .sub, .integer n.natAbs] else [.integer n.natAbs]
  | floatingPoint negative digits =>
    if negative then [.op .sub, .decimal digits] else [.decimal digits]
  | boolean b => [.word (if b then "true" else "false")]
  | null => [.word "null"]
  | allFields => [.word "ALL_FIELDS"]
  | binary t l r => l.recursiveToAs2js ++ .op t.js :: r.recursiveToAs2js
  | negate c => .op .sub :: c.recursiveToAs2js
  | logicalNot c => .bang :: c.recursiveToAs2js
  | power l r =>
    .lparen :: (l.recursiveToAs2js ++ .op .pow :: (r.recursiveToAs2js ++ [.rparen]))
  | period l f => l.recursiveToAs2js ++ [.dot, .word (fieldName f)]
  | elementAt l i => l.recursiveToAs2js ++ .lbracket :: (i.recursiveToAs2js ++ [.rbracket])
  | regularExpression l r =>
    .new :: .word "RegExp" :: .lparen :: (r.recursiveToAs2js ++
      .rparen :: .dot :: .word "test" :: .lparen :: (l.recursiveToAs2js ++ [.rparen]))
  | like insensitive l r =>
    let pattern :=
      if r.isLiteral then [.string (convertLikePattern escape r.getStringAutoConvert)]
      else r.recursiveToAs2js
    .new :: .word "RegExp" :: .lparen ::
      (pattern ++ (if insensitive then [.comma, .string "i"] else []) ++
        .rparen :: .dot :: .word "test" :: .lparen :: (l.recursiveToAs2js ++ [.rparen]))
  | between counter value low high =>
    .lparen :: .word (tempName counter) :: .assign :: (value.recursiveToAs2js ++
      .comma :: .word (tempName counter) :: .op .ge :: (low.recursiveToAs2js ++
        .op .land :: .word (tempName counter) :: .op .le ::
          (high.recursiveToAs2js ++ [.rparen])))
  | cast t c =>
    match t with
    | .boolean => .bang :: .bang :: .lparen :: (c.recursiveToAs2js ++ [.rparen])
    | t =>
      .new :: .word (castTypeToAs2jsType t) :: .lparen :: (c.recursiveToAs2js ++ [.rparen])
  | functionCall object method params =>
    .word object :: .dot :: .word method :: .lparen :: (match params with
      | [] => [.rparen]
      | n :: ns => n.recursiveToAs2js ++ (moreToAs2js ns ++ [.rparen]))

/-- The parameters of a call after the first one, each after a comma. -/
def moreToAs2js : List Node → List Lexeme
  | [] => []
  | n :: ns => .comma :: (n.recursiveToAs2js ++ moreToAs2js ns)

end

/-- `to_as2js()` resets the counter of the root only. -/
def resetCounter : Node → Node
  | between _ value low high => between 0 value low high
  | n => n

/-- `to_as2js()`: the tokens of the text. -/
def toAs2jsLexemes (n : Node) : List Lexeme := n.resetCounter.recursiveToAs2js escape

/-- `to_as2js()`: the text. -/
def toAs2js (n : Node) : String := String.join ((n.toAs2jsLexemes escape).map Lexeme.text)

mutual

/-- The JavaScript tree of a node: each operator is applied to the translations of its own
children. -/
def translate : Node → Js
  | identifier s => .name s
  | string s => .string (escapeString s)
  | integer n => if n < 0 then .unary .neg (.integer n.natAbs) else .integer n.natAbs
  | floatingPoint negative digits =>
    if negative then .unary .neg (.decimal digits) else .decimal digits
  | boolean b => .name (if b then "true" else "false")
  | null => .name "null"
  | allFields => .name "ALL_FIELDS"
  | binary t l r => .binary t.js l.translate r.translate
  | negate c => .unary .neg c.translate
  | logicalNot c => .unary .not c.translate
  | power l r => .paren (.binary .pow l.translate r.translate)
  | period l f => .member l.translate (fieldName f)
  | elementAt l i => .index l.translate i.translate
  | regularExpression l r =>
    .callWith (.member (.new "RegExp" r.translate) "test") l.translate
  | like insensitive l r =>
    let pattern :=
      if r.isLiteral then .string (convertLikePattern escape r.getStringAutoConvert)
      else r.translate
    .callWith (.member
      (.new "RegExp" (if insensitive then .comma pattern (.string "i") else pattern)) "test")
      l.translate
  | between counter value low high =>
    .paren (.comma (.assign (tempName counter) value.translate)
      (.binary .land (.binary .ge (.name (tempName counter)) low.translate)
        (.binary .le (.name (tempName counter)) high.translate)))
  | cast t c =>
    match t with
    | .boolean => .unary .not (.unary .not (.paren c.translate))
    | t => .new (castTypeToAs2jsType t) c.translate
  | functionCall object method params =>
    match params with
    | [] => .call (.member (.name object) method)
    | n :: ns => .callWith (.member (.name object) method) (translateMore n.translate ns)

/-- The parameters of a call, the first ones being `first`. -/
def translateMore (first : Js) : List Node → Js
  | [] => first
  | n :: ns => translateMore (.comma first n.translate) ns

end

/-- Induction on a tree, with the parameters of a call as a list. -/
@[elab_as_elim, induction_eliminator]
theorem induction {motive : Node → Prop}
    (identifier : ∀ s, motive (.identifier s))
    (string : ∀ s, motive (.string s))
    (integer : ∀ n, motive (.integer n))
    (floatingPoint : ∀ negative digits, motive (.floatingPoint negative digits))
    (boolean : ∀ b, motive (.boolean b))
    (null : motive .null)
    (allFields : motive .allFields)
    (binary : ∀ t l r, motive l → motive r → motive (.binary t l r))
    (negate : ∀ c, motive c → motive (.negate c))
    (logicalNot : ∀ c, motive c → motive (.logicalNot c))
    (power : ∀ l r, motive l → motive r → motive (.power l r))
    (period : ∀ l f, motive l → motive (.period l f))
    (elementAt : ∀ l i, motive l → motive i → motive (.elementAt l i))
    (regularExpression : ∀ l r, motive l → motive r → motive (.regularExpression l r))
    (like : ∀ insensitive l r, motive l → motive r → motive (.like insensitive l r))
    (between : ∀ counter value low high, motive value → motive low → motive high →
      motive (.between counter value low high))
    (cast : ∀ t c, motive c → motive (.cast t c))
    (functionCall : ∀ object method params, (∀ n ∈ params, motive n) →
      motive (.functionCall object method params)) (n : Node) : motive n :=
  @Node.rec motive (fun ns => ∀ n ∈ ns, motive n) identifier string integer floatingPoint boolean
    null allFields binary negate logicalNot power period elementAt regularExpression like between
    cast functionCall (fun _ h => absurd h (by simp))
    (fun n ns hn hns m hm => by
      rcases List.mem_cons.1 hm with rfl | hm
      · exact hn
      · exact hns m hm) n

/-! ### The translation has the tokens of the text -/

theorem lexemes_translateMore {ns : List Node}
    (h : ∀ n ∈ ns, (n.translate escape).lexemes = n.recursiveToAs2js escape) (first : Js) :
    (translateMore escape first ns).lexemes = first.lexemes ++ moreToAs2js escape ns := by
  induction ns generalizing first with
  | nil => simp [translateMore, moreToAs2js]
  | cons n ns ih =>
    rw [translateMore, ih (fun m hm => h m (List.mem_cons_of_mem _ hm)), Js.lexemes, moreToAs2js,
      h n (List.mem_cons_self ..)]
    simp only [List.append_assoc, List.cons_append]

/-- The emitter writes the tokens of the translation. -/
theorem lexemes_translate (n : Node) :
    (n.translate escape).lexemes = n.recursiveToAs2js escape := by
  induction n with
  | identifier s | string s | boolean b | null | allFields =>
    simp only [translate, recursiveToAs2js, Js.lexemes]
  | integer n =>
    simp only [translate, recursiveToAs2js]
    split <;> simp only [Js.lexemes, UnaryOp.lexeme]
  | floatingPoint negative digits =>
    simp only [translate, recursiveToAs2js]
    split <;> simp only [Js.lexemes, UnaryOp.lexeme]
  | binary t l r hl hr | power l r hl hr | elementAt l r hl hr | regularExpression l r hl hr =>
    simp only [translate, recursiveToAs2js, Js.lexemes, hl, hr, List.append_assoc,
      List.cons_append, List.nil_append]
  | negate c h | logicalNot c h | period c _ h =>
    simp only [translate, recursiveToAs2js, Js.lexemes, UnaryOp.lexeme, h]
  | like insensitive l r hl hr =>
    simp only [translate, recursiveToAs2js, Js.lexemes, hl, List.append_assoc,
      List.cons_append, List.nil_append]
    cases insensitive <;> cases r.isLiteral <;>
      simp [Js.lexemes, hr]
  | between counter value low high hv hl hh =>
    simp only [translate, recursiveToAs2js, Js.lexemes, hv, hl, hh, List.append_assoc,
      List.cons_append, List.nil_append]
  | cast t c h =>
    cases t <;> simp only [translate, recursiveToAs2js, Js.lexemes, UnaryOp.lexeme, h]
  | functionCall object method params h =>
    cases params with
    | nil => simp [translate, recursiveToAs2js, Js.lexemes]
    | cons n ns =>
      have hmore := lexemes_translateMore escape (fun m hm => h m (List.mem_cons_of_mem _ hm))
        (n.translate escape)
      simp only [translate, recursiveToAs2js, Js.lexemes, hmore, h n (List.mem_cons_self ..),
        List.append_assoc, List.cons_append, List.nil_append]

/-! ### Precedence -/

/-- The JavaScript precedence of the text of a node. -/
def level : Node → ℕ
  | integer n => if n < 0 then 15 else 20
  | floatingPoint negative _ => if negative then 15 else 20
  | binary t _ _ => t.js.level
  | negate _ | logicalNot _ => 15
  | cast t _ => if t = .boolean then 15 else 18
  | period .. | elementAt .. | regularExpression .. | like .. | functionCall .. => 18
  | identifier _ | string _ | boolean _ | null | allFields | power .. | between .. => 20

theorem level_translate (n : Node) : (n.translate escape).level = n.level := by
  cases n with
  | integer n => simp only [translate, level]; split <;> rfl
  | floatingPoint negative digits => simp only [translate, level]; split <;> rfl
  | cast t c => cases t <;> rfl
  | functionCall object method params => cases params <;> rfl
  | _ => rfl

mutual

/-- The operands of each operator bind tighter, in JavaScript, than the operator: on its left at
least as tight, on its right tighter (`**` wants more on its left, and the bounds of a `BETWEEN`
stand on the right of a comparison).  Names are not JavaScript's reserved words. -/
def Grouped : Node → Prop
  | identifier s => s ∉ reserved
  | string _ | integer _ | floatingPoint .. | boolean _ | null | allFields => True
  | binary t l r => l.Grouped ∧ r.Grouped ∧ t.js.level ≤ l.level ∧ t.js.level < r.level
  | negate c => c.Grouped ∧ 15 ≤ c.level
  | logicalNot c => c.Grouped ∧ 15 ≤ c.level
  | power l r => l.Grouped ∧ r.Grouped ∧ 16 ≤ l.level ∧ 14 ≤ r.level
  | period l _ => l.Grouped ∧ 18 ≤ l.level
  | elementAt l i => l.Grouped ∧ i.Grouped ∧ 18 ≤ l.level
  | regularExpression l r => l.Grouped ∧ r.Grouped
  | like _ l r => l.Grouped ∧ (r.isLiteral = false → r.Grouped)
  | between _ value low high =>
    value.Grouped ∧ low.Grouped ∧ high.Grouped ∧ 11 ≤ low.level ∧ 11 ≤ high.level
  | cast _ c => c.Grouped
  | functionCall object _ params => object ∉ reserved ∧ AllGrouped params

/-- The parameters of a call. -/
def AllGrouped : List Node → Prop
  | [] => True
  | n :: ns => n.Grouped ∧ AllGrouped ns

end

theorem two_lt_level (n : Node) : 2 < n.level := by
  cases n with
  | binary t l r => exact t.js.one_lt_level
  | integer n => simp only [level]; split <;> decide
  | floatingPoint negative digits => simp only [level]; split <;> decide
  | cast t c => simp only [level]; split <;> decide
  | _ => simp [level]

theorem leftLevel_js (t : BinaryToken) : t.js.leftLevel = t.js.level := by cases t <;> rfl

theorem rightLevel_js (t : BinaryToken) : t.js.rightLevel = t.js.level + 1 := by cases t <;> rfl

/-- No reserved word starts with an underscore. -/
theorem tempName_not_reserved (counter : ℕ) : tempName counter ∉ reserved := by
  have hhead : ∀ w ∈ reserved, w.toList.head? ≠ some '_' := by decide
  intro h
  apply hhead _ h
  simp [tempName]

theorem castType_not_reserved (t : CastType) : castTypeToAs2jsType t ∉ reserved := by
  cases t <;> decide

theorem grammatical_translateMore {ns : List Node}
    (h : ∀ n ∈ ns, (n.translate escape).Grammatical ↔ n.Grouped) (first : Js) :
    (translateMore escape first ns).Grammatical ↔ first.Grammatical ∧ AllGrouped ns := by
  induction ns generalizing first with
  | nil => simp [translateMore, AllGrouped]
  | cons n ns ih =>
    have hlevel := n.two_lt_level
    rw [← level_translate escape] at hlevel
    rw [translateMore, ih (fun m hm => h m (List.mem_cons_of_mem _ hm)), Js.Grammatical,
      AllGrouped, h n (List.mem_cons_self ..)]
    constructor
    · rintro ⟨⟨hf, hn, -⟩, hns⟩
      exact ⟨hf, hn, hns⟩
    · rintro ⟨hf, hn, hns⟩
      exact ⟨⟨hf, hn, hlevel.le⟩, hns⟩

/-- The translation obeys the grammar exactly when the tree is grouped. -/
theorem grammatical_translate (n : Node) : (n.translate escape).Grammatical ↔ n.Grouped := by
  have hregexp : "RegExp" ∉ reserved := by decide
  induction n with
  | identifier s => simp only [translate, Js.Grammatical, Grouped]
  | string s => simp only [translate, Js.Grammatical, Grouped]
  | integer n =>
    simp only [translate, Grouped, iff_true]
    split
    · exact ⟨trivial, by simp [Js.level]⟩
    · trivial
  | floatingPoint negative digits =>
    simp only [translate, Grouped, iff_true]
    split
    · exact ⟨trivial, by simp [Js.level]⟩
    · trivial
  | boolean b => cases b <;> simp only [translate, Js.Grammatical, Grouped] <;> decide
  | null => simp only [translate, Js.Grammatical, Grouped]; decide
  | allFields => simp only [translate, Js.Grammatical, Grouped]; decide
  | binary t l r hl hr =>
    simp only [translate, Js.Grammatical, Grouped, hl, hr, level_translate, leftLevel_js,
      rightLevel_js, Nat.succ_le_iff]
  | negate c h | logicalNot c h =>
    simp only [translate, Js.Grammatical, Grouped, h, level_translate]
  | power l r hl hr =>
    simp only [translate, Js.Grammatical, Grouped, hl, hr, level_translate, BinaryOp.leftLevel,
      BinaryOp.rightLevel]
  | period l f h => simp only [translate, Js.Grammatical, Grouped, h, level_translate]
  | elementAt l i hl hi => simp only [translate, Js.Grammatical, Grouped, hl, hi, level_translate]
  | regularExpression l r hl hr =>
    simp only [translate, Js.Grammatical, Grouped, Js.level, hl, hr, hregexp, not_false_eq_true,
      true_and, le_refl, and_true]
    exact and_comm
  | like insensitive l r hl hr =>
    simp only [translate, Js.Grammatical, Grouped, Js.level, hl, hregexp, not_false_eq_true,
      true_and, le_refl, and_true]
    cases insensitive <;> cases hlit : r.isLiteral <;>
      simp [Js.Grammatical, Js.level, hr, and_comm]
  | between counter value low high hv hl hh =>
    have htemp := tempName_not_reserved counter
    have hlevel := value.two_lt_level
    simp only [translate, Js.Grammatical, Grouped, hv, hl, hh, level_translate]
    constructor
    · rintro ⟨⟨-, hgv, -⟩, ⟨⟨-, hgl, -, hll⟩, ⟨-, hgh, -, hlh⟩, -⟩, -⟩
      exact ⟨hgv, hgl, hgh, hll, hlh⟩
    · rintro ⟨hgv, hgl, hgh, hll, hlh⟩
      have hname : BinaryOp.ge.leftLevel ≤ 20 := by decide
      have hland : BinaryOp.land.rightLevel ≤ BinaryOp.ge.level := by decide
      exact ⟨⟨htemp, hgv, hlevel.le⟩, ⟨⟨htemp, hgl, hname, hll⟩, ⟨htemp, hgh, hname, hlh⟩,
        (Nat.le_succ _).trans hland, hland⟩, BinaryOp.land.one_lt_level.le⟩
  | cast t c h =>
    have hname := castType_not_reserved t
    cases t <;>
      simp_all [translate, Js.Grammatical, Grouped, Js.level]
  | functionCall object method params h =>
    cases params with
    | nil => simp [translate, Js.Grammatical, Grouped, AllGrouped, Js.level]
    | cons n ns =>
      have hmore := grammatical_translateMore escape
        (fun m hm => h m (List.mem_cons_of_mem _ hm)) (n.translate escape)
      simp only [translate, Js.Grammatical, Grouped, AllGrouped, Js.level, hmore,
        h n (List.mem_cons_self ..), le_refl, and_true]
      simp

/-! ### Tokens that run together -/

/-- The text of the node starts with a minus sign. -/
def startsWithMinus : Node → Bool
  | integer n => n < 0
  | floatingPoint negative _ => negative
  | negate _ => true
  | binary _ l _ => l.startsWithMinus
  | period l _ => l.startsWithMinus
  | elementAt l _ => l.startsWithMinus
  | _ => false

/-- The text of the node ends with a number that would take a period after it for its decimal
point. -/
def endsWithInteger : Node → Bool
  | integer _ => true
  | floatingPoint _ digits => !(digits.contains '.' || digits.contains 'e')
  | binary _ _ r => r.endsWithInteger
  | negate c => c.endsWithInteger
  | logicalNot c => c.endsWithInteger
  | _ => false

mutual

/-- No minus sign stands right before another one, and no period right after an integer. -/
def Separated : Node → Prop
  | identifier _ | string _ | integer _ | floatingPoint .. | boolean _ | null | allFields => True
  | binary t l r =>
    l.Separated ∧ r.Separated ∧ ¬ (t = .minus ∧ r.startsWithMinus = true)
  | negate c => c.Separated ∧ c.startsWithMinus = false
  | logicalNot c => c.Separated
  | power l r => l.Separated ∧ r.Separated
  | period l _ => l.Separated ∧ l.endsWithInteger = false
  | elementAt l i => l.Separated ∧ i.Separated
  | regularExpression l r => l.Separated ∧ r.Separated
  | like _ l r => l.Separated ∧ (r.isLiteral = false → r.Separated)
  | between _ value low high => value.Separated ∧ low.Separated ∧ high.Separated
  | cast _ c => c.Separated
  | functionCall _ _ params => AllSeparated params

/-- The parameters of a call. -/
def AllSeparated : List Node → Prop
  | [] => True
  | n :: ns => n.Separated ∧ AllSeparated ns

end

/-- The first token of the text of a node. -/
theorem recursiveToAs2js_first (n : Node) : ∃ t ts, n.recursiveToAs2js escape = t :: ts ∧
    t ≠ .dot ∧ (t = .op .sub ↔ n.startsWithMinus = true) := by
  induction n with
  | integer n =>
    rw [recursiveToAs2js, startsWithMinus]
    by_cases hn : n < 0
    · rw [if_pos hn]
      exact ⟨_, _, rfl, by simp, by simpa⟩
    · rw [if_neg hn]
      exact ⟨_, _, rfl, by simp, by simpa using hn⟩
  | floatingPoint negative digits =>
    rw [recursiveToAs2js, startsWithMinus]
    cases negative with
    | true => exact ⟨_, _, rfl, by simp, by simp⟩
    | false => exact ⟨_, _, rfl, by simp, by simp⟩
  | binary _ l _ hl _ | period l _ hl | elementAt l _ hl _ =>
    obtain ⟨t, ts, hts, hdot, hsub⟩ := hl
    exact ⟨t, _, by rw [recursiveToAs2js, hts]; rfl, hdot, by rw [startsWithMinus]; exact hsub⟩
  | cast t c _ => cases t <;> exact ⟨_, _, rfl, by simp, by simp [startsWithMinus]⟩
  | functionCall object method params _ =>
    cases params <;> exact ⟨_, _, rfl, by simp, by simp [startsWithMinus]⟩
  | _ =>
    exact ⟨_, _, by rw [recursiveToAs2js], by simp, by simp [startsWithMinus]⟩

/-- The last token of the text of a node. -/
theorem recursiveToAs2js_last (n : Node) : ∃ ts t, n.recursiveToAs2js escape = ts ++ [t] ∧
    t ≠ .op .sub ∧ t.Joins .dot = n.endsWithInteger := by
  induction n with
  | integer n =>
    simp only [recursiveToAs2js, endsWithInteger]
    split
    · exact ⟨[_], _, rfl, by simp, rfl⟩
    · exact ⟨[], _, rfl, by simp, rfl⟩
  | floatingPoint negative digits =>
    simp only [recursiveToAs2js, endsWithInteger]
    split
    · exact ⟨[_], _, rfl, by simp, rfl⟩
    · exact ⟨[], _, rfl, by simp, rfl⟩
  | binary t l r _ hr =>
    obtain ⟨ts, u, hts, hsub, hdot⟩ := hr
    exact ⟨l.recursiveToAs2js escape ++ .op t.js :: ts, u, by simp [recursiveToAs2js, hts], hsub,
      by rw [endsWithInteger]; exact hdot⟩
  | negate c h | logicalNot c h =>
    obtain ⟨ts, u, hts, hsub, hdot⟩ := h
    exact ⟨_ :: ts, u, by rw [recursiveToAs2js, hts]; rfl, hsub, by rw [endsWithInteger]; exact hdot⟩
  | identifier | string | boolean | null | allFields =>
    exact ⟨[], _, by rw [recursiveToAs2js]; rfl, by simp, rfl⟩
  | period l f _ =>
    exact ⟨l.recursiveToAs2js escape ++ [.dot], .word (fieldName f),
      by simp [recursiveToAs2js], by simp, rfl⟩
  | elementAt l i _ _ =>
    exact ⟨l.recursiveToAs2js escape ++ .lbracket :: i.recursiveToAs2js escape, .rbracket,
      by simp [recursiveToAs2js], by simp, rfl⟩
  | power l r _ _ =>
    exact ⟨.lparen :: (l.recursiveToAs2js escape ++ .op .pow :: r.recursiveToAs2js escape),
      .rparen, by simp [recursiveToAs2js], by simp, rfl⟩
  | regularExpression l r _ _ =>
    exact ⟨.new :: .word "RegExp" :: .lparen :: (r.recursiveToAs2js escape ++
      .rparen :: .dot :: .word "test" :: .lparen :: l.recursiveToAs2js escape),
      .rparen, by simp [recursiveToAs2js], by simp, rfl⟩
  | like insensitive l r _ _ =>
    refine ⟨.new :: .word "RegExp" :: .lparen :: (_ ++ _ ++
      .rparen :: .dot :: .word "test" :: .lparen :: l.recursiveToAs2js escape),
      .rparen, by rw [recursiveToAs2js]; simp only [List.append_assoc, List.cons_append]; rfl,
      by simp, rfl⟩
  | between counter value low high _ _ _ =>
    refine ⟨.lparen :: .word (tempName counter) :: .assign :: (value.recursiveToAs2js escape ++
      .comma :: .word (tempName counter) :: .op .ge :: (low.recursiveToAs2js escape ++
        .op .land :: .word (tempName counter) :: .op .le :: high.recursiveToAs2js escape)),
      .rparen, by simp [recursiveToAs2js], by simp, rfl⟩
  | cast t c _ =>
    cases t <;>
      exact ⟨_ :: _ :: _ :: c.recursiveToAs2js escape, .rparen, rfl, by simp, rfl⟩
  | functionCall object method params _ =>
    cases params with
    | nil => exact ⟨[.word object, .dot, .word method, .lparen], .rparen, rfl, by simp, rfl⟩
    | cons n ns =>
      exact ⟨.word object :: .dot :: .word method :: .lparen ::
        (n.recursiveToAs2js escape ++ moreToAs2js escape ns), .rparen,
        by simp [recursiveToAs2js], by simp, rfl⟩

/-- A token before a node. -/
theorem apart_cons_node (a : Lexeme) (n : Node) (ts : List Lexeme) :
    Apart (a :: (n.recursiveToAs2js escape ++ ts)) ↔
      ¬ (a = .op .sub ∧ n.startsWithMinus = true) ∧ Apart (n.recursiveToAs2js escape ++ ts) := by
  obtain ⟨t, us, hus, hdot, hsub⟩ := n.recursiveToAs2js_first escape
  rw [hus, List.cons_append, apart_cons_cons, ← hsub]
  refine and_congr_left fun _ => ⟨fun h => ?_, fun h => ?_⟩
  · rintro ⟨rfl, rfl⟩
    simp [Lexeme.Joins] at h
  · exact Lexeme.joins_eq_false hdot fun ha ht => h ⟨ha, ht⟩

/-- A token after a node. -/
theorem apart_node_append (n : Node) (b : Lexeme) (ts : List Lexeme) :
    Apart (n.recursiveToAs2js escape ++ b :: ts) ↔
      Apart (n.recursiveToAs2js escape) ∧ (b = .dot → n.endsWithInteger = false) ∧
        Apart (b :: ts) := by
  obtain ⟨us, t, hus, hsub, hdot⟩ := n.recursiveToAs2js_last escape
  rw [hus, apart_append_cons, ← hdot]
  refine and_congr_right fun _ => and_congr_left fun _ => ⟨fun h => ?_, fun h => ?_⟩
  · rintro rfl
    exact h
  · by_cases hb : b = .dot
    · subst hb
      exact h rfl
    · exact Lexeme.joins_eq_false hb fun ht => absurd ht hsub

/-- The parameters of a call and the parenthesis after them. -/
theorem apart_params {ns : List Node} (n : Node)
    (h : ∀ m ∈ ns, Apart (m.recursiveToAs2js escape) ↔ m.Separated) :
    Apart (n.recursiveToAs2js escape ++ (moreToAs2js escape ns ++ [.rparen])) ↔
      Apart (n.recursiveToAs2js escape) ∧ AllSeparated ns := by
  induction ns generalizing n with
  | nil =>
    rw [moreToAs2js, List.nil_append, apart_node_append, AllSeparated]
    simp [apart_singleton]
  | cons m ns ih =>
    rw [moreToAs2js, List.cons_append, List.append_assoc, apart_node_append, apart_cons_node,
      ih m fun k hk => h k (List.mem_cons_of_mem _ hk), h m (List.mem_cons_self ..), AllSeparated]
    simp

/-- The tokens of the text stay apart exactly when the tree is separated. -/
theorem apart_recursiveToAs2js (n : Node) : Apart (n.recursiveToAs2js escape) ↔ n.Separated := by
  induction n with
  | identifier | string | boolean | null | allFields =>
    simp only [recursiveToAs2js, Separated, apart_singleton]
  | integer n =>
    simp only [recursiveToAs2js, Separated, iff_true]
    split
    · exact apart_cons_cons.2 ⟨rfl, apart_singleton _⟩
    · exact apart_singleton _
  | floatingPoint negative digits =>
    simp only [recursiveToAs2js, Separated, iff_true]
    split
    · exact apart_cons_cons.2 ⟨rfl, apart_singleton _⟩
    · exact apart_singleton _
  | binary t l r hl hr =>
    have hnode := apart_cons_node escape (.op t.js) r []
    rw [List.append_nil] at hnode
    have hminus : Lexeme.op t.js = .op .sub ↔ t = .minus := by cases t <;> simp [BinaryToken.js]
    rw [recursiveToAs2js, apart_node_append, hnode, hl, hr, hminus, Separated]
    simp only [reduceCtorEq, false_implies, true_and]
    exact and_congr_right fun _ => and_comm
  | negate c h =>
    have hnode := apart_cons_node escape (.op .sub) c []
    rw [List.append_nil] at hnode
    rw [recursiveToAs2js, hnode, h, Separated]
    simp [and_comm]
  | logicalNot c h =>
    have hnode := apart_cons_node escape .bang c []
    rw [List.append_nil] at hnode
    rw [recursiveToAs2js, hnode, h, Separated]
    simp
  | power l r hl hr =>
    rw [recursiveToAs2js, apart_cons_node, apart_node_append, apart_cons_node, apart_node_append,
      hl, hr, Separated]
    simp [apart_singleton]
  | period l f h =>
    rw [recursiveToAs2js, apart_node_append, apart_cons_cons, h, Separated]
    simp [apart_singleton, Lexeme.Joins]
  | elementAt l i hl hi =>
    rw [recursiveToAs2js, apart_node_append, apart_cons_node, apart_node_append, hl, hi, Separated]
    simp [apart_singleton]
  | regularExpression l r hl hr =>
    simp only [recursiveToAs2js, apart_cons_cons, apart_cons_node, apart_node_append, hl, hr,
      Separated]
    simp [apart_singleton, Lexeme.Joins, and_comm]
  | like insensitive l r hl hr =>
    cases insensitive <;> cases hlit : r.isLiteral <;>
      simp [recursiveToAs2js, Separated, apart_cons_cons, apart_cons_node, apart_node_append,
        apart_singleton, Lexeme.Joins, hlit, hl, hr, and_comm]
  | between counter value low high hv hl hh =>
    simp only [recursiveToAs2js, apart_cons_cons, apart_cons_node, apart_node_append, hv, hl, hh,
      Separated]
    simp [apart_singleton, Lexeme.Joins]
  | cast t c h =>
    cases t <;>
      simp [recursiveToAs2js, Separated, apart_cons_cons, apart_cons_node, apart_node_append,
        apart_singleton, Lexeme.Joins, h]
  | functionCall object method params h =>
    cases params with
    | nil =>
      simp [recursiveToAs2js, Separated, AllSeparated, apart_cons_cons, apart_singleton,
        Lexeme.Joins]
    | cons n ns =>
      have hparams := apart_params escape n fun m hm => h m (List.mem_cons_of_mem _ hm)
      simp only [recursiveToAs2js, apart_cons_cons, apart_cons_node, hparams, Separated,
        AllSeparated, h n (List.mem_cons_self ..)]
      simp [Lexeme.Joins]

theorem grouped_resetCounter (n : Node) : n.resetCounter.Grouped ↔ n.Grouped := by
  cases n <;> simp only [resetCounter, Grouped]

theorem separated_resetCounter (n : Node) : n.resetCounter.Separated ↔ n.Separated := by
  cases n <;> simp only [resetCounter, Separated]

/-- The tree of `(a + b) * c`. -/
def sumTimes : Node :=
  .binary .multiply (.binary .plus (.identifier "a") (.identifier "b")) (.identifier "c")

end Node

end Prinbee
