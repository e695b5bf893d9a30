import Prinbee.BigInt.Int512Bits
import Prinbee.BigInt.Text
import Prinbee.Pbql.Node
import Prinbee.Pbql.Parser

/-!
# Folding expressions

`parse_expression.cpp` builds the tree of an expression bottom up, and computes at once what it can:
each operator first looks at whether its operands are literals.  This module has the trees, the
conversions of a literal (`node.cpp`), and for each operator what it makes of its operands.

## Main definitions

* `Expression.Library` — what expressions take from elsewhere: letter case, `long double`, regular
  expressions.
* `Expression.ExprTree` — the trees that the `parse_expr_...()` functions build.
* `Expression.ExprTree.isLiteral`, `Expression.ExprTree.getIntegerAutoConvert` and the like — literals.
* `Expression.foldLogicalOr`, `Expression.foldComparison`, `Expression.foldAdditive` and the like —
  the operators.

## Main results

* `Expression.ExprTree.getBooleanAutoConvert_of_isLiteral` — a Boolean literal converts to a Boolean.
-/

namespace Prinbee

namespace Expression

/-- `function_t`. -/
inductive Function
  | abs | acos | acosh | asin | asinh | atan | atan2 | atanh | cbrt | ceil | concat | cos | cosh
  | exp | expm1 | floor | hypot | imul | length | log | log1p | log10 | log2 | max | min | pow
  | rand | round | sign | sin | sinh | sqrt | tan | tanh | trunc
  deriving DecidableEq, Repr

/-- What expressions take from elsewhere; `F` is `long double`. -/
structure Library (F : Type) where
  /-- `snapdev::to_upper()`. -/
  toUpper : Bytes → Bytes
  /-- `snapdev::to_lower()`. -/
  toLower : Bytes → Bytes
  /-- `snapdev::trim_string()`. -/
  trimString : Bytes → Bytes
  /-- The hexadecimal digits of `from_string()`. -/
  hex : HexDigits
  /-- `strtold()`, when it takes the whole text and reports no error. -/
  strtold : Bytes → Option F
  /-- `snapdev::floating_point_to_string()`: whether there is a minus sign, and what follows. -/
  digits : F → Bool × String
  /-- `int512_t::to_floating_point()`. -/
  toFloatingPoint : Int512 → F
  /-- A floating point as a `std::int64_t`. -/
  toInt64 : F → ℤ
  zero : F
  infinity : F
  less : F → F → Bool
  lessEqual : F → F → Bool
  equal : F → F → Bool
  neg : F → F
  add : F → F → F
  sub : F → F → F
  mul : F → F → F
  div : F → F → F
  /-- `fmodl()`. -/
  fmod : F → F → F
  /-- `powl()`. -/
  pow : F → F → F
  /-- `atan2()`. -/
  atan2 : F → F → F
  /-- The function of the C library behind a function of one number. -/
  math : Function → F → F
  /-- `snapdev::pow()` of two 64-bit numbers. -/
  pow64 : ℕ → ℕ → ℤ
  /-- `std::regex` and `std::regex_match()`: whether the letter case is ignored, the regular
  expression, and the value. -/
  regexMatch : Bool → String → String → Except Failure Bool
  /-- `snapdev::escape_special_regex_characters()` of a character. -/
  escape : Char → String

/-- What stands on the right of a period. -/
inductive FieldName
  | name (s : Bytes)
  | allFields
  deriving DecidableEq, Repr

/-- A tree.  A function call comes with the object and the method that `function_call()` gives
it. -/
inductive ExprTree (F : Type)
  | identifier (s : Bytes)
  | string (s : Bytes)
  | integer (n : Int512)
  | floatingPoint (f : F)
  | boolean (b : Bool)
  | null
  | allFields
  | binary (t : BinaryToken) (l r : ExprTree F)
  | negate (c : ExprTree F)
  | logicalNot (c : ExprTree F)
  | power (l r : ExprTree F)
  | period (l : ExprTree F) (f : FieldName)
  | elementAt (l i : ExprTree F)
  | regularExpression (l r : ExprTree F)
  | like (insensitive : Bool) (l r : ExprTree F)
  | between (value low high : ExprTree F)
  | cast (t : CastType) (c : ExprTree F)
  | functionCall (object method : String) (params : List (ExprTree F))

variable {F : Type} (lib : Library F)

/-! ### Literals -/

/-- The token that `is_literal()` is asked for; `TOKEN_UNKNOWN` stands for any literal. -/
inductive MatchType
  | unknown
  | number
  | floatingPoint
  | integer
  | boolean
  deriving DecidableEq, Repr

/-- The text of a string that reads as an integer. -/
def isIntegerText (s : Bytes) : Bool :=
  let digits := if s.headD 0 = 43 ∨ s.headD 0 = 45 then s.drop 1 else s
  !digits.isEmpty && digits.all fun c => 48 ≤ c && c ≤ 57

/-- The letters of TRUE. -/
def trueWord : Bytes := [84, 82, 85, 69]

/-- The letters of FALSE. -/
def falseWord : Bytes := [70, 65, 76, 83, 69]

/-- The keyword of a string that may read as a Boolean. -/
def Library.booleanKeyword (s : Bytes) : Bytes := lib.trimString (lib.toUpper s)

namespace ExprTree

/-- `is_literal()`. -/
def isLiteral (match_type : MatchType) : ExprTree F → Bool
  | string s =>
    match match_type with
    | .number | .floatingPoint => (lib.strtold s).isSome
    | .integer => isIntegerText s
    | .boolean =>
      let keyword := lib.booleanKeyword s
      !keyword.isEmpty && (keyword.isPrefixOf trueWord || keyword.isPrefixOf falseWord)
    | .unknown => true
  | integer _ =>
    match match_type with
    | .unknown | .integer | .number | .boolean => true
    | .floatingPoint => false
  | floatingPoint _ =>
    match match_type with
    | .unknown | .floatingPoint | .number | .boolean => true
    | .integer => false
  | null => match_type = .unknown
  | boolean _ => match_type = .unknown || match_type = .boolean
  | _ => false

/-- `get_string_auto_convert()`. -/
def getStringAutoConvert : ExprTree F → Except Failure Bytes
  | string s => .ok s
  | integer n => n.toText 10 false false
  | floatingPoint f =>
    let digits := lib.digits f
    .ok ((if digits.1 then [45] else []) ++ digits.2.toList.map fun c => UInt8.ofNat c.toNat)
  | null => .ok [110, 117, 108, 108]
  | boolean b => .ok (if b then [116, 114, 117, 101] else [102, 97, 108, 115, 101])
  | _ =>
    .error (.thrown .logicError "node is not a literal and it cannot be converted to a string.")

/-- What `get_boolean_auto_convert()` throws. -/
def notBoolean : Failure :=
  .thrown .logicError ("node is not a literal representing a Boolean and as a result it cannot be " ++
    "converted to a Boolean.")

/-- `get_boolean_auto_convert()`. -/
def getBooleanAutoConvert : ExprTree F → Except Failure Bool
  | string s =>
    let keyword := lib.booleanKeyword s
    if keyword.isEmpty then .error notBoolean
    else if keyword.isPrefixOf trueWord then .ok true
    else if keyword.isPrefixOf falseWord then .ok false
    else .error notBoolean
  | integer n => .ok (!n.isZero)
  | floatingPoint f => .ok (!lib.equal f lib.zero)
  | boolean b => .ok b
  | _ => .error notBoolean

/-- `get_integer_auto_convert()`. -/
def getIntegerAutoConvert : ExprTree F → Except Failure Int512
  | string s =>
    if s.isEmpty then
      .error (.thrown .invalidNumber ("string \"" ++ textOf s ++ "\" does not represent a valid integer."))
    else Int512.fromText lib.hex s
  | integer n => .ok n
  | floatingPoint f => .ok (.ofInt64 (lib.toInt64 f))
  | _ =>
    .error (.thrown .logicError ("node is not a literal representing a number and it cannot be " ++
      "converted to an integer."))

/-- `get_floating_point_auto_convert()`. -/
def getFloatingPointAutoConvert : ExprTree F → Except Failure F
  | string s =>
    match lib.strtold s with
    | some f => .ok f
    | none =>
      .error (.thrown .invalidNumber
        ("string \"" ++ textOf s ++ "\" does not represent a valid floating point number."))
  | floatingPoint f => .ok f
  | integer n => .ok (lib.toFloatingPoint n)
  | _ =>
    .error (.thrown .logicError ("node is not a literal representing a number and it cannot be " ++
      "converted to a floating point."))

/-- A Boolean literal converts to a Boolean. -/
theorem getBooleanAutoConvert_of_isLiteral {lib : Library F} {e : ExprTree F}
    (h : e.isLiteral lib .boolean = true) : ∃ b, e.getBooleanAutoConvert lib = .ok b := by
  cases e with
  | string s =>
    simp only [isLiteral, Bool.and_eq_true, Bool.not_eq_true', Bool.or_eq_true] at h
    simp only [getBooleanAutoConvert, h.1, Bool.false_eq_true, if_false]
    rcases h.2 with htrue | hfalse
    · exact ⟨true, if_pos htrue⟩
    · by_cases htrue : (lib.booleanKeyword s).isPrefixOf trueWord = true
      · exact ⟨true, if_pos htrue⟩
      · exact ⟨false, by rw [if_neg htrue, if_pos hfalse]⟩
  | integer n => exact ⟨_, rfl⟩
  | floatingPoint f => exact ⟨_, rfl⟩
  | boolean b => exact ⟨b, rfl⟩
  | _ => cases h

/-- `get_token() == TOKEN_TRUE`. -/
def isTrue : ExprTree F → Bool
  | boolean b => b
  | _ => false

/-- `get_token() == TOKEN_FALSE`. -/
def isFalse : ExprTree F → Bool
  | boolean b => !b
  | _ => false

/-- `get_token() == TOKEN_NULL`. -/
def isNull : ExprTree F → Bool
  | null => true
  | _ => false

end ExprTree

open ExprTree

/-! ### Logic -/

/-- The value of an operand that is a Boolean literal, and `default` for the others. -/
def booleanOr (default : Bool) (e : ExprTree F) : Except Failure Bool :=
  if e.isLiteral lib .boolean then e.getBooleanAutoConvert lib else .ok default

/-- `OR` of `parse_expr_logical_or()`. -/
def foldLogicalOr (lhs rhs : ExprTree F) : Except Failure (ExprTree F) := do
  let lliteral := lhs.isLiteral lib .boolean
  let rliteral := rhs.isLiteral lib .boolean
  let lvalue ← booleanOr lib false lhs
  let rvalue ← booleanOr lib false rhs
  let value := lvalue || rvalue
  if value || (lliteral && rliteral) then .ok (.boolean value)
  else if lliteral then .ok rhs
  else if !rliteral then .ok (.binary .logicalOr lhs rhs)
  else .ok lhs

/-- `AND` of `parse_expr_logical_and()`. -/
def foldLogicalAnd (lhs rhs : ExprTree F) : Except Failure (ExprTree F) := do
  let lliteral := lhs.isLiteral lib .boolean
  let rliteral := rhs.isLiteral lib .boolean
  let lvalue ← booleanOr lib true lhs
  let rvalue ← booleanOr lib true rhs
  let value := lvalue && rvalue
  if !value || (lliteral && rliteral) then .ok (.boolean value)
  else if lliteral then .ok rhs
  else if !rliteral then .ok (.binary .logicalAnd lhs rhs)
  else .ok lhs

/-- One or more `NOT` of `parse_expr_logical_not()`; `logical_not` is the parity of their number. -/
def foldLogicalNot (logical_not : Bool) (result : ExprTree F) : Except Failure (ExprTree F) :=
  if result.isNull then .ok result
  else if result.isLiteral lib .boolean then do
    let value ← result.getBooleanAutoConvert lib
    .ok (.boolean (value ^^ logical_not))
  else if logical_not then .ok (.logicalNot result)
  else .ok (.logicalNot (.logicalNot result))

/-- What stands behind `IS`. -/
inductive IsKeyword
  | true
  | false
  | null
  deriving DecidableEq, Repr

/-- `IS` of `parse_expr_is()`. -/
def foldIs (negate : Bool) (keyword : IsKeyword) (result : ExprTree F) : ExprTree F :=
  match keyword with
  | .true =>
    if result.isLiteral lib .unknown then .boolean (result.isTrue ^^ negate)
    else if negate then .logicalNot result
    else result
  | .false =>
    if result.isLiteral lib .unknown then .boolean (result.isFalse ^^ negate)
    else if !negate then .logicalNot result
    else result
  | .null =>
    if result.isLiteral lib .unknown then .boolean (result.isNull ^^ negate)
    else .binary (if negate then .notEqual else .equal) result .null

/-! ### Comparisons -/

/-- The operators `<`, `<=` and `==` of a type. -/
structure Order (α : Type) where
  less : α → α → Bool
  lessEqual : α → α → Bool
  equal : α → α → Bool

/-- The comparison of two values with an operator. -/
def Order.test {α : Type} (o : Order α) (t : BinaryToken) (l r : α) : Bool :=
  match t with
  | .less => o.less l r
  | .lessEqual => o.lessEqual l r
  | .equal => o.equal l r
  | .greater => o.less r l
  | .greaterEqual => o.lessEqual r l
  | .notEqual => !o.equal l r
  | _ => false

/-- Integers, with `compare()`. -/
def integerOrder : Order Int512 where
  less l r := l.compare r = .lt
  lessEqual l r := l.compare r ≠ .gt
  equal l r := l.words.limbs = r.words.limbs

/-- Floating points. -/
def Library.floatingPointOrder : Order F where
  less := lib.less
  lessEqual := lib.lessEqual
  equal := lib.equal

/-- `bool`. -/
def booleanOrder : Order Bool where
  less l r := !l && r
  lessEqual l r := !l || r
  equal l r := l == r

/-- `std::string`. -/
def stringOrder : Order Bytes where
  less l r := decide (l < r)
  lessEqual l r := !decide (r < l)
  equal l r := decide (l = r)

/-- The comparison of two literals of `parse_expr_comparison()`, none of them NULL. -/
def compareLiterals (t : BinaryToken) (lhs rhs : ExprTree F) : Except Failure Bool :=
  if lhs.isLiteral lib .integer && rhs.isLiteral lib .integer then do
    let l ← lhs.getIntegerAutoConvert lib
    let r ← rhs.getIntegerAutoConvert lib
    .ok (integerOrder.test t l r)
  else if lhs.isLiteral lib .number && rhs.isLiteral lib .number then do
    let l ← lhs.getFloatingPointAutoConvert lib
    let r ← rhs.getFloatingPointAutoConvert lib
    .ok (lib.floatingPointOrder.test t l r)
  else if lhs.isLiteral lib .boolean && rhs.isLiteral lib .boolean then
    -- what is no Boolean is converted with `get_token() == TOKEN_TRUE`
    .ok (booleanOrder.test t lhs.isTrue rhs.isTrue)
  else do
    let l ← lhs.getStringAutoConvert lib
    let r ← rhs.getStringAutoConvert lib
    .ok (stringOrder.test t l r)

/-- `parse_expr_comparison()`. -/
def foldComparison (t : BinaryToken) (lhs rhs : ExprTree F) : Except Failure (ExprTree F) :=
  if lhs.isLiteral lib .unknown && rhs.isLiteral lib .unknown then
    if lhs.isNull then .ok lhs
    else if rhs.isNull then .ok rhs
    else do
      let result ← compareLiterals lib t lhs rhs
      .ok (.boolean result)
  else .ok (.binary t lhs rhs)

/-- The test of `BETWEEN` on a value and two bounds. -/
def Order.within {α : Type} (o : Order α) (v b1 b2 : α) : Bool := o.lessEqual b1 v && o.lessEqual v b2

/-- `BETWEEN` on three literals: nothing is NULL. -/
def betweenLiterals (value low high : ExprTree F) : Except Failure (Option Bool) :=
  match value with
  | .string v => do
    let b1 ← low.getStringAutoConvert lib
    let b2 ← high.getStringAutoConvert lib
    .ok (some (stringOrder.within v b1 b2))
  | .integer v => do
    let b1 ← low.getIntegerAutoConvert lib
    let b2 ← high.getIntegerAutoConvert lib
    .ok (some (integerOrder.within v b1 b2))
  | .floatingPoint v => do
    let b1 ← low.getFloatingPointAutoConvert lib
    let b2 ← high.getFloatingPointAutoConvert lib
    .ok (some (lib.floatingPointOrder.within v b1 b2))
  | .null => .ok none
  | .boolean v => .ok (some (booleanOrder.within v low.isTrue high.isTrue))
  | _ => .error (.thrown .logicError "literal handling not properly implemented.")

/-- `[NOT] BETWEEN` of `parse_expr_matching()`. -/
def foldBetween (negate : Bool) (value low high : ExprTree F) : Except Failure (ExprTree F) :=
  if value.isLiteral lib .unknown && low.isLiteral lib .unknown && high.isLiteral lib .unknown then do
    let r ← betweenLiterals lib value low high
    .ok (match r with
      | some b => .boolean (b ^^ negate)
      | none => .null)
  else if negate then .ok (.logicalNot (.between value low high))
  else .ok (.between value low high)

/-- `[NOT] LIKE` and `[NOT] ILIKE` of `parse_expr_matching()`. -/
def foldLike (insensitive negate : Bool) (lhs rhs : ExprTree F) : Except Failure (ExprTree F) :=
  if lhs.isLiteral lib .unknown && rhs.isLiteral lib .unknown then do
    let value ← lhs.getStringAutoConvert lib
    let pattern ← rhs.getStringAutoConvert lib
    let found ← lib.regexMatch insensitive (Node.convertLikePattern lib.escape (textOf pattern))
      (textOf value)
    .ok (.boolean (found ^^ negate))
  else if negate then .ok (.logicalNot (.like insensitive lhs rhs))
  else .ok (.like insensitive lhs rhs)

/-! ### Numbers -/

/-- `a / b`. -/
def quotient (a b : Int512) : Except Failure Int512 := do
  let r ← a.div b
  .ok r.1

/-- `a % b`. -/
def remainder (a b : Int512) : Except Failure Int512 := do
  let r ← a.div b
  .ok r.2

/-- `snapdev::pow()` of the low words. -/
def Library.integerPower (a b : Int512) : Except Failure Int512 :=
  .ok (.ofInt64 (lib.pow64 a.words.low b.words.low))

/-- Two literals that are numbers: they are computed with as integers when both of them are
integers, and as floating points otherwise. -/
def computeNumbers (integers : Int512 → Int512 → Except Failure Int512) (floats : F → F → F)
    (lhs rhs : ExprTree F) : Except Failure (ExprTree F) :=
  if lhs.isLiteral lib .integer && rhs.isLiteral lib .integer then do
    let a ← lhs.getIntegerAutoConvert lib
    let b ← rhs.getIntegerAutoConvert lib
    let r ← integers a b
    .ok (.integer r)
  else do
    let a ← lhs.getFloatingPointAutoConvert lib
    let b ← rhs.getFloatingPointAutoConvert lib
    .ok (.floatingPoint (floats a b))

/-- An operator on two numbers that folds when both operands are numbers, and builds a node
otherwise. -/
def foldNumbers (integers : Int512 → Int512 → Except Failure Int512) (floats : F → F → F)
    (node : ExprTree F → ExprTree F → ExprTree F) (lhs rhs : ExprTree F) : Except Failure (ExprTree F) :=
  if lhs.isLiteral lib .number && rhs.isLiteral lib .number then
    computeNumbers lib integers floats lhs rhs
  else .ok (node lhs rhs)

/-- `^` of `parse_expr_exponentiation()`. -/
def foldPower : ExprTree F → ExprTree F → Except Failure (ExprTree F) :=
  foldNumbers lib lib.integerPower lib.pow .power

/-- `*`, `/` and `%` of `parse_expr_multiplicative()`. -/
def foldMultiplicative (t : BinaryToken) : ExprTree F → ExprTree F → Except Failure (ExprTree F) :=
  match t with
  | .multiply => foldNumbers lib (fun a b => .ok (a.mul b)) lib.mul (.binary .multiply)
  | .divide => foldNumbers lib quotient lib.div (.binary .divide)
  | .modulo => foldNumbers lib remainder lib.fmod (.binary .modulo)
  | _ => fun _ _ =>
    .error (.thrown .logicError "unsupported token in sub-switch (integer).")

/-- An operand of `+` or `-` is a literal that is no number. -/
def refusedByAdditive (lhs rhs : ExprTree F) : Bool :=
  (lhs.isLiteral lib .unknown && !lhs.isLiteral lib .number) ||
    (rhs.isLiteral lib .unknown && !rhs.isLiteral lib .number)

/-- `+` and `-` of `parse_expr_additive()`, for operands that are not refused. -/
def foldAdditive (t : BinaryToken) : ExprTree F → ExprTree F → Except Failure (ExprTree F) :=
  match t with
  | .plus => foldNumbers lib (fun a b => .ok (a.add b)) lib.add (.binary .plus)
  | .minus => foldNumbers lib (fun a b => .ok (a.sub b)) lib.sub (.binary .minus)
  | _ => fun _ _ =>
    .error (.thrown .logicError "unsupported token in sub-switch (integer).")

/-- The integer operators of `parse_expr_other()`; the count of a shift is an `int`. -/
def integerOther (t : BinaryToken) (a b : Int512) : Except Failure Int512 :=
  match t with
  | .bitwiseAnd => .ok (a.and b)
  | .bitwiseOr => .ok (a.or b)
  | .bitwiseXor => .ok (a.xor b)
  | .shiftLeft => a.checkedLsl (toInt b.words.low)
  | .shiftRight => a.checkedAsr (toInt b.words.low)
  | _ => .error (.thrown .logicError "unsupported token in sub-switch (other integer).")

/-- `&`, `|`, `#`, `<<` and `>>` of `parse_expr_other()`: all numbers become integers. -/
def foldOther (t : BinaryToken) (lhs rhs : ExprTree F) : Except Failure (ExprTree F) :=
  if lhs.isLiteral lib .number && rhs.isLiteral lib .number then do
    let a ← lhs.getIntegerAutoConvert lib
    let b ← rhs.getIntegerAutoConvert lib
    let r ← integerOther t a b
    .ok (.integer r)
  else .ok (.binary t lhs rhs)

/-- One more operand of `||`: a literal behind a literal is merged with it. -/
def concatParam (params : List (ExprTree F)) (n : ExprTree F) : Except Failure (List (ExprTree F)) :=
  match params.getLast? with
  | none => .ok [n]
  | some p =>
    if n.isLiteral lib .unknown && p.isLiteral lib .unknown then do
      let s ← p.getStringAutoConvert lib
      let t ← n.getStringAutoConvert lib
      .ok (params.dropLast ++ [.string (s ++ t)])
    else .ok (params ++ [n])

/-- `~` and `!~` of `parse_expr_other()`. -/
def foldRegularExpression (logical_not : Bool) (lhs rhs : ExprTree F) : Except Failure (ExprTree F) :=
  if lhs.isLiteral lib .unknown && rhs.isLiteral lib .unknown then do
    let value ← lhs.getStringAutoConvert lib
    let regex ← rhs.getStringAutoConvert lib
    let found ← lib.regexMatch false (textOf regex) (textOf value)
    .ok (.boolean (found ^^ logical_not))
  else if logical_not then .ok (.logicalNot (.regularExpression lhs rhs))
  else .ok (.regularExpression lhs rhs)

/-- A string that is no number. -/
def refusedByUnary (n : ExprTree F) : Option Bytes :=
  match n with
  | .string s => if isIntegerText s || (lib.strtold s).isSome then none else some s
  | _ => none

/-- One or more signs of `parse_expr_unary()`, for an operand that is not refused; `negate` is the
parity of the number of minus signs. -/
def foldUnary (negate : Bool) (n : ExprTree F) : Except Failure (ExprTree F) :=
  if n.isLiteral lib .integer then do
    let v ← n.getIntegerAutoConvert lib
    .ok (.integer (if negate then v.neg else v))
  else if n.isLiteral lib .floatingPoint then do
    let v ← n.getFloatingPointAutoConvert lib
    .ok (.floatingPoint (if negate then lib.neg v else v))
  else if negate then .ok (.negate n)
  else .ok (.cast .float8 n)

end Expression

end Prinbee
