import Prinbee.Pbql.Expression

/-!
# Functions in expressions

`function_call()` of `parse_expression.cpp`: a call of which the parameters are literals is computed
at once, the others become a node with the name of the function in as2js.

## Main definitions

* `Expression.functionCall` — `function_call()`.
* `Expression.functionNamed` — the functions by name, with the number of their parameters.
* `Expression.ExprTree.toNode` — the tree as `to_as2js()` sees it.
-/

namespace Prinbee

namespace Expression

open ExprTree

variable {F : Type} (lib : Library F)

/-- The method of `Math` in as2js. -/
def Function.method : Function → String
  | .abs => "abs" | .acos => "acos" | .acosh => "acosh" | .asin => "asin" | .asinh => "asinh"
  | .atan => "atan" | .atan2 => "atan2" | .atanh => "atanh" | .cbrt => "cbrt" | .ceil => "ceil"
  | .concat => "concat" | .cos => "cos" | .cosh => "cosh" | .exp => "exp" | .expm1 => "expm1"
  | .floor => "floor" | .hypot => "hypot" | .imul => "imul" | .length => "length" | .log => "log"
  | .log1p => "log1p" | .log10 => "log10" | .log2 => "log2" | .max => "max" | .min => "min"
  | .pow => "pow" | .rand => "rand" | .round => "round" | .sign => "sign" | .sin => "sin"
  | .sinh => "sinh" | .sqrt => "sqrt" | .tan => "tan" | .tanh => "tanh" | .trunc => "trunc"

/-- The node of a call that is not computed. -/
def mathCall (func : Function) (params : List (ExprTree F)) : ExprTree F :=
  .functionCall "Math" func.method params

/-- A function of one number, which is computed as a floating point. -/
def realFunction (func : Function) (n : ExprTree F) : Except Failure (ExprTree F) :=
  if n.isLiteral lib .number then do
    let v ← n.getFloatingPointAutoConvert lib
    .ok (.floatingPoint (lib.math func v))
  else .ok (mathCall func [n])

/-- A function of one number that has an integer version, and a floating point one. -/
def numberFunction (func : Function) (integers : Int512 → Int512) (floats : F → ExprTree F)
    (otherwise : ExprTree F) (n : ExprTree F) : Except Failure (ExprTree F) :=
  if n.isLiteral lib .integer then do
    let v ← n.getIntegerAutoConvert lib
    .ok (.integer (integers v))
  else if n.isLiteral lib .floatingPoint then do
    let v ← n.getFloatingPointAutoConvert lib
    .ok (floats v)
  else .ok (mathCall func [otherwise])

/-- `FUNCTION_SIGN` of an integer. -/
def signOf (number : Int512) : Int512 :=
  if number.isZero then number else if number.isNegative then .ofInt64 (-1) else .ofInt64 1

/-- `FUNCTION_SIGN` of a floating point, which is rounded down first. -/
def Library.signOf (f : F) : Int512 :=
  let a := lib.math .floor f
  if lib.less a lib.zero then .ofInt64 (-1) else if lib.less lib.zero a then .ofInt64 1 else .ofInt64 0

/-- The loop of `FUNCTION_MAX` and `FUNCTION_MIN`: `better` decides for the new value. -/
def extremum {α : Type} (better : α → α → Bool) (start : α) (values : List α) : α :=
  values.foldl (fun best value => if better value best then value else best) start

/-- `FUNCTION_MAX` and `FUNCTION_MIN`. -/
def extremumCall (func : Function) (integers : Int512 → Int512 → Bool) (start : Int512)
    (floats : F → F → Bool) (infinity : F) (params : List (ExprTree F)) : Except Failure (ExprTree F) :=
  if params.isEmpty then .ok (.floatingPoint infinity)
  else if params.all fun p => p.isLiteral lib .number then
    if params.all fun p => p.isLiteral lib .integer then do
      let values ← params.mapM (getIntegerAutoConvert lib)
      .ok (.integer (extremum integers start values))
    else do
      let values ← params.mapM (getFloatingPointAutoConvert lib)
      .ok (.floatingPoint (extremum floats infinity values))
  else .ok (mathCall func params)

/-- `FUNCTION_HYPOT`. -/
def hypotCall (params : List (ExprTree F)) : Except Failure (ExprTree F) :=
  if params.isEmpty then .ok (.floatingPoint lib.zero)
  else if params.all fun p => p.isLiteral lib .number then do
    let values ← params.mapM (getFloatingPointAutoConvert lib)
    let sum := values.foldl (fun sum value => lib.add sum (lib.mul value value)) lib.zero
    .ok (.floatingPoint (lib.math .sqrt sum))
  else if params.length = 1 then .ok (mathCall .abs params)
  else .ok (mathCall .hypot params)

/-- The operand of `FUNCTION_ABS`, without the minus sign before it. -/
def withoutNegate : ExprTree F → ExprTree F
  | .negate c => c
  | n => n

/-- A parameter that is not there. -/
def missingChild (position : ℕ) : Failure :=
  .thrown .outOfRange ("child " ++ toString position ++ " does not exist.")

/-- A function of one parameter; the others are not read. -/
def onFirst (f : ExprTree F → Except Failure (ExprTree F)) (params : List (ExprTree F)) :
    Except Failure (ExprTree F) :=
  match params with
  | [] => .error (missingChild 0)
  | n :: _ => f n

/-- A function of two parameters. -/
def onFirstTwo (f : ExprTree F → ExprTree F → Except Failure (ExprTree F)) (params : List (ExprTree F)) :
    Except Failure (ExprTree F) :=
  match params with
  | [] => .error (missingChild 0)
  | [_] => .error (missingChild 1)
  | n :: m :: _ => f n m

/-- A `std::size_t` as an `int512_t`. -/
def ofSize (n : ℕ) : Int512 := .ofInt64 (if n % 2 ^ 64 < 2 ^ 63 then n % 2 ^ 64 else n % 2 ^ 64 - 2 ^ 64)

/-- `function_call()`. -/
def functionCall (func : Function) (params : List (ExprTree F)) : Except Failure (ExprTree F) :=
  match func with
  | .abs =>
    onFirst (fun n => numberFunction lib .abs Int512.abs (fun v => .floatingPoint (lib.math .abs v))
      (withoutNegate n) n) params
  | .atan2 =>
    onFirstTwo (fun n m =>
      if n.isLiteral lib .number && m.isLiteral lib .number then do
        let a ← n.getFloatingPointAutoConvert lib
        let b ← m.getFloatingPointAutoConvert lib
        .ok (.floatingPoint (lib.atan2 a b))
      else .ok (mathCall .atan2 params)) params
  | .ceil | .floor | .trunc =>
    onFirst (fun n => numberFunction lib func id (fun v => .floatingPoint (lib.math func v)) n n)
      params
  | .concat => .ok (.functionCall "String" "concat" params)
  | .hypot => hypotCall lib params
  | .imul =>
    onFirstTwo (fun n m =>
      if n.isLiteral lib .number && m.isLiteral lib .number then do
        let a ← n.getIntegerAutoConvert lib
        let b ← m.getIntegerAutoConvert lib
        .ok (.integer (a.mul b))
      else .ok (mathCall .imul params)) params
  | .length =>
    onFirst (fun n =>
      if n.isLiteral lib .unknown then do
        let s ← n.getStringAutoConvert lib
        .ok (.integer (ofSize s.length))
      else
        -- in as2js, the length is a field
        .ok (.period n (.name [108, 101, 110, 103, 116, 104]))) params
  | .max =>
    extremumCall lib .max (fun value max => value.compare max = .gt) .minimum
      (fun value max => lib.less max value) (lib.neg lib.infinity) params
  | .min =>
    extremumCall lib .min (fun value min => value.compare min = .lt) .maximum lib.less lib.infinity
      params
  | .pow =>
    -- the operator `**` of as2js stands for a call that is not computed
    onFirstTwo (foldNumbers lib lib.integerPower lib.pow .power) params
  | .rand => .ok (mathCall .rand params)
  | .round =>
    onFirst (fun n => numberFunction lib .round id
      (fun v => .integer (.ofInt64 (lib.toInt64 (lib.math .round v)))) n n) params
  | .sign =>
    onFirst (fun n => numberFunction lib .sign signOf (fun v => .integer (lib.signOf v)) n n) params
  | .acos | .acosh | .asin | .asinh | .atan | .atanh | .cbrt | .cos | .cosh | .exp | .expm1 | .log
  | .log1p | .log10 | .log2 | .sin | .sinh | .sqrt | .tan | .tanh =>
    onFirst (realFunction lib func) params

/-- The functions by name, with the number of their parameters when it is checked at once. -/
def functions : List (String × Function × Option ℕ) :=
  [("ABS", .abs, some 1), ("ACOS", .acos, some 1), ("ACOSH", .acosh, some 1),
   ("ASIN", .asin, some 1), ("ASINH", .asinh, some 1), ("ATAN", .atan, none),
   ("ATANH", .atanh, some 1), ("CBRT", .cbrt, some 1), ("CEIL", .ceil, some 1),
   ("COS", .cos, some 1), ("COSH", .cosh, some 1), ("EXP", .exp, some 1),
   ("EXPM1", .expm1, some 1), ("FLOOR", .floor, some 1), ("HYPOT", .hypot, none),
   ("IMUL", .imul, some 2), ("LENGTH", .length, some 1), ("LOG", .log, some 1),
   ("LOG1P", .log1p, some 1), ("LOG10", .log10, some 1), ("LOG2", .log2, some 1),
   ("MAX", .max, none), ("MIN", .min, none), ("POW", .pow, some 2), ("RAND", .rand, some 0),
   ("ROUND", .round, some 1), ("SIGN", .sign, some 1), ("SIN", .sin, some 1),
   ("SINH", .sinh, some 1), ("SQRT", .sqrt, some 1), ("TAN", .tan, some 1),
   ("TANH", .tanh, some 1), ("TRUNC", .trunc, some 1)]

/-- The function of a keyword. -/
def functionNamed (keyword : String) : Option (Function × Option ℕ) := functions.lookup keyword

/-- `ATAN()` with one or two parameters; any other number of them is refused. -/
def atanCall (params : List (ExprTree F)) : Option Function :=
  if params.length = 1 then some .atan else if params.length = 2 then some .atan2 else none

/-! ### The tree as it is emitted -/

/-- What stands on the right of a period, as it is emitted. -/
def FieldName.toField : FieldName → Field
  | .name s => .name (textOf s)
  | .allFields => .allFields

mutual

/-- The tree as `to_as2js()` sees it; the counter of a new `BETWEEN` is zero. -/
def ExprTree.toNode : ExprTree F → Node
  | .identifier s => .identifier (textOf s)
  | .string s => .string (textOf s)
  | .integer n => .integer n.toInt
  | .floatingPoint f => .floatingPoint (lib.digits f).1 (lib.digits f).2
  | .boolean b => .boolean b
  | .null => .null
  | .allFields => .allFields
  | .binary t l r => .binary t l.toNode r.toNode
  | .negate c => .negate c.toNode
  | .logicalNot c => .logicalNot c.toNode
  | .power l r => .power l.toNode r.toNode
  | .period l f => .period l.toNode f.toField
  | .elementAt l i => .elementAt l.toNode i.toNode
  | .regularExpression l r => .regularExpression l.toNode r.toNode
  | .like insensitive l r => .like insensitive l.toNode r.toNode
  | .between value low high => .between 0 value.toNode low.toNode high.toNode
  | .cast t c => .cast t c.toNode
  | .functionCall object method params => .functionCall object method (toNodes params)

/-- The parameters of a call. -/
def ExprTree.toNodes : List (ExprTree F) → List Node
  | [] => []
  | n :: ns => n.toNode :: toNodes ns

end

end Expression

end Prinbee
