import Prinbee.Lib.Precedence
import Prinbee.Pbql.ExpressionFunctions

/-!
# The parser of expressions

`parse_expression.cpp`: one function for each level of precedence, each of which reads operands with
the function of the next level and folds as it goes.  As in the other parts of the parser, the
current token of the source, `f_node`, is the first token that is left.

An expression inside of another one is read with the function of the lowest level again, so that
the functions take it as a parameter here, and `Expression.calls` puts them together.  A call inside
of another one comes behind a token that was taken, so that as many calls inside of one another as
there are tokens are enough.

## Main definitions

* `Expression.parseExprPrimary` to `Expression.parseExprLogicalOr` — the levels.
* `Expression.calls` — the calls inside of one another.
* `Expression.parseTree`, `Expression.parseExpression` — `parse_expression()`.
-/

namespace Prinbee

namespace Expression

open TokenStream Reader
open Lexer (Token TokenNode)
open Prinbee.Parser (Parsing thrown thrownAt unexpected)

variable {F : Type} (lib : Library F)

/-- `get_string_upper()` of an identifier. -/
def Library.keyword (n : TokenNode F) : Option String :=
  if n.isIdentifier then some (textOf (lib.toUpper n.string)) else none

/-- The name of the token of a tree. -/
def ExprTree.tokenName : ExprTree F → String
  | .identifier _ => "IDENTIFIER"
  | .string _ => "STRING"
  | .integer _ => "INTEGER"
  | .floatingPoint _ => "FLOATING_POINT"
  | .boolean b => if b then "TRUE" else "FALSE"
  | .null => "NULL"
  | .allFields => "ALL_FIELDS"
  | .binary t _ _ =>
    match t with
    | .bitwiseXor => "'#'"
    | .modulo => "'%'"
    | .bitwiseAnd => "'&'"
    | .multiply => "'*'"
    | .plus => "'+'"
    | .minus => "'-'"
    | .divide => "'/'"
    | .less => "'<'"
    | .equal => "'='"
    | .greater => "'>'"
    | .bitwiseOr => "'|'"
    | .notEqual => "NOT_EQUAL"
    | .lessEqual => "LESS_EQUAL"
    | .greaterEqual => "GREATER_EQUAL"
    | .shiftLeft => "SHIFT_LEFT"
    | .shiftRight => "SHIFT_RIGHT"
    | .logicalOr => "LOGICAL_OR"
    | .logicalAnd => "LOGICAL_AND"
  | .negate _ => "'-'"
  | .logicalNot _ => "LOGICAL_NOT"
  | .power _ _ => "'^'"
  | .period _ _ => "'.'"
  | .elementAt _ _ => "AT"
  | .regularExpression _ _ => "'~'"
  | .like insensitive _ _ => if insensitive then "ILIKE" else "LIKE"
  | .between _ _ _ => "BETWEEN"
  | .cast _ _ => "CAST"
  | .functionCall _ _ _ => "FUNCTION_CALL"

/-- The functions that are called for what stands inside of an expression. -/
structure Recursion (F : Type) where
  logicalOr : Parsing F (ExprTree F)
  other : Parsing F (ExprTree F)

/-! ### Primary expressions -/

/-- The types that are one word, in lower case. -/
def types : List (String × CastType) :=
  [("bigint", .int8), ("boolean", .boolean), ("char", .text),
   -- `int1` is a type of four bytes
   ("int1", .int4), ("int2", .int2), ("int", .int4), ("int4", .int4), ("integer", .int4),
   ("int8", .int8), ("int16", .int16), ("int32", .int32), ("int64", .int64), ("float4", .float4),
   ("float8", .float8), ("float10", .float10), ("real", .float4), ("smallint", .int2),
   ("text", .text)]

/-- The types behind UNSIGNED, in upper case. -/
def unsignedTypes : List (String × CastType) :=
  [("INT1", .unsignedInt1), ("SMALLINT", .unsignedInt2), ("INT2", .unsignedInt2),
   -- these are types of eight bytes
   ("INT", .unsignedInt8), ("INTEGER", .unsignedInt8), ("INT4", .unsignedInt8),
   ("BIGINT", .unsignedInt8), ("INT8", .unsignedInt8), ("INT16", .unsignedInt16),
   ("INT32", .unsignedInt32), ("INT64", .unsignedInt64)]

/-- What `parse_expr_primary()` returns: a `TOKEN_TYPE`, or a tree. -/
inductive Primary (F : Type)
  | type (t : CastType)
  | tree (e : ExprTree F)

/-- The word PRECISION, behind the word DOUBLE. -/
def doublePrecision (n : TokenNode F) : Parsing F (Primary F) := do
  let m ← peek
  if lib.keyword m = some "PRECISION" then do
    let _ ← take
    pure (.type .float8)
  else unexpected n "expected DOUBLE to be followed by the word PRECISION."

/-- The type behind the word UNSIGNED. -/
def unsignedType : Parsing F (Primary F) := do
  let m ← peek
  match lib.keyword m with
  | none =>
    unexpected m ("expected an integer name to follow the UNSIGNED word (not a " ++ m.token.name ++
      ").")
  | some keyword =>
    match unsignedTypes.lookup keyword with
    | some t => do
      let _ ← take
      pure (.type t)
    | none =>
      unexpected m ("expected an integer name to follow the UNSIGNED word (not '" ++ keyword ++ "').")

/-- An identifier that is no type, in lower case. -/
def wordTree (s : Bytes) : ExprTree F :=
  if textOf s = "false" then .boolean false
  else if textOf s = "null" then .null
  else if textOf s = "true" then .boolean true
  else .identifier s

/-- `parse_expr_primary()` from behind the identifier `n`. -/
def identifierPrimary (n : TokenNode F) : Parsing F (Primary F) :=
  let s := lib.toLower n.string
  match types.lookup (textOf s) with
  | some t => pure (.type t)
  | none =>
    if textOf s = "double" then doublePrecision lib n
    else if textOf s = "unsigned" then unsignedType lib
    else pure (.tree (wordTree s))

/-- A closing token. -/
def expectClosing (closes : TokenNode F → Bool) (error : TokenNode F → Parsing F Unit) :
    Parsing F Unit := do
  let n ← peek
  if closes n then do
    let _ ← take
    pure ()
  else error n

/-- `parse_expr_primary()`. -/
def parseExprPrimary (calls : Recursion F) : Parsing F (Primary F) := do
  let n ← peek
  match n.token with
  | .string s => do
    let _ ← take
    -- strings that follow each other are one string
    let s ← repeatWhile (fun _ n => n.isString) (fun s n => pure (s ++ n.string)) s
    pure (.tree (.string s))
  | .identifier _ => do
    let _ ← take
    identifierPrimary lib n
  | .floatingPoint f => do
    let _ ← take
    pure (.tree (.floatingPoint f))
  | .integer v => do
    let _ ← take
    pure (.tree (.integer v))
  | .multiply => do
    let _ ← take
    pure (.tree .allFields)
  | .openParenthesis => do
    let _ ← take
    let result ← calls.logicalOr
    expectClosing (fun n => n.isCloseParenthesis)
      (fun n => unexpected n "expected ')' to close the grouped expressions.")
    pure (.tree result)
  | _ =>
    unexpected n ("expected a primary token not " ++ n.token.name ++ " (primary tokens are: string, " ++
      "number, true, false, identifier, '*', or an expression between parenthesis).")

/-! ### Behind a primary expression -/

/-- `parse_expr_cast_value()`. -/
def parseExprCastValue (calls : Recursion F) (cast_to : CastType) : Parsing F (ExprTree F) := do
  let has_parenthesis ← takeIf fun n => n.isOpenParenthesis
  let value ← calls.logicalOr
  if has_parenthesis then do
    expectClosing (fun n => n.isCloseParenthesis)
      (fun n => thrownAt .invalidParameter n
        "type casting used '(' so a ')' was expected to end the casting expression.")
    pure (.cast cast_to value)
  else pure (.cast cast_to value)

/-- `parse_expr_list()`. -/
def parseExprList (calls : Recursion F) : Parsing F (List (ExprTree F)) := do
  let first ← calls.logicalOr
  repeatWhile (fun _ n => n.isComma)
    (fun params _ => do
      let n ← calls.logicalOr
      pure (params ++ [n])) [first]

/-- The parameters in front of the closing parenthesis. -/
def parameterList (calls : Recursion F) : Parsing F (List (ExprTree F)) := do
  let n ← peek
  if n.isCloseParenthesis then pure [] else parseExprList calls

/-- The closing parenthesis, and the number of parameters; a `count` that is not there stands
for -1. -/
def parametersEnd (keyword : String) (count : Option ℕ) (result : List (ExprTree F)) :
    Parsing F (List (ExprTree F)) := do
  let n ← peek
  if n.isCloseParenthesis = false then
    unexpected n ("expected ')' to end the list of parameters in a function call; not " ++
      n.token.name ++ ".")
  else if count.getD result.length ≠ result.length then
    thrownAt .invalidParameter n (keyword ++ "() expected " ++ toString (count.getD 0) ++ " parameter" ++
      (if count.getD 0 ≠ 1 then "s" else "") ++ ", found " ++ toString result.length ++ " instead.")
  else do
    let _ ← take
    pure result

/-- `parse_expr_function_parameters()`, from behind the opening parenthesis. -/
def parseExprFunctionParameters (calls : Recursion F) (keyword : String) (count : Option ℕ) :
    Parsing F (List (ExprTree F)) := do
  let result ← parameterList calls
  parametersEnd keyword count result

/-- A call of a function, from behind the opening parenthesis `n`. -/
def callFunction (calls : Recursion F) (n : TokenNode F) (name : Bytes) : Parsing F (ExprTree F) :=
  let keyword := textOf (lib.toUpper name)
  match functionNamed keyword with
  | none => thrownAt .typeNotFound n ("unknown function " ++ keyword ++ "().")
  | some (func, count) => do
    let params ← parseExprFunctionParameters calls keyword count
    if func = .atan then
      match atanCall params with
      | some func => lift (functionCall lib func params)
      | none => do
        let n ← peek
        thrownAt .invalidParameter n ("expected 1 or 2 parameters to ATAN(), found " ++
          toString params.length ++ " instead.")
    else lift (functionCall lib func params)

/-- The type behind `::`. -/
def scopeType (calls : Recursion F) : Parsing F CastType := do
  let n ← peek
  let expected := "a type name was expected after the '::' operator, not "
  if n.isIdentifier then do
    let t ← parseExprPrimary lib calls
    match t with
    | .type t => pure t
    | .tree (.identifier s) =>
      unexpected n (expected ++ "IDENTIFIER \"" ++ textOf s ++ "\".")
    | .tree e => do
      let m ← peek
      unexpected n (expected ++ e.tokenName ++
        (if m.isIdentifier then " \"" ++ textOf m.string ++ "\"" else "") ++ ".")
  else unexpected n (expected ++ n.token.name ++ ".")

/-- The tokens of the loop of `parse_expr_postfix()`. -/
inductive Postfix
  | period
  | scope
  | bracket
  | parenthesis
  deriving DecidableEq, Repr

/-- The token of a postfix. -/
def postfixOf (n : TokenNode F) : Option Postfix :=
  match n.token with
  | .period => some .period
  | .scope => some .scope
  | .openBracket => some .bracket
  | .openParenthesis => some .parenthesis
  | _ => none

/-- A closing square bracket. -/
def isCloseBracket (n : TokenNode F) : Bool :=
  match n.token with
  | .closeBracket => true
  | _ => false

/-- A turn of the loop of `parse_expr_postfix()`, behind the token `n`; the Boolean is
`found_all_fields`. -/
def postfixTurn (calls : Recursion F) (s : ExprTree F × Bool) (n : TokenNode F) :
    Parsing F (ExprTree F × Bool) :=
  match postfixOf n with
  | none => pure s
  | some .period =>
    if s.2 then unexpected n "no more '.' can be used after '.*'."
    else do
      let m ← peek
      match m.token with
      | .multiply => do
        let _ ← take
        pure (.period s.1 .allFields, true)
      | .identifier name => do
        let _ ← take
        pure (.period s.1 (.name (lib.toLower name)), s.2)
      | _ => unexpected m "expected '*' or a field name after '.'."
  | some .scope => do
    let t ← scopeType lib calls
    pure (.cast t s.1, s.2)
  | some .bracket => do
    let i ← calls.logicalOr
    expectClosing isCloseBracket
      (fun n => unexpected n ("expected a closing square bracket (]), not " ++ n.token.name ++ "."))
    pure (.elementAt s.1 i, s.2)
  | some .parenthesis =>
    match s.1 with
    | .identifier name => do
      let result ← callFunction lib calls n name
      pure (result, s.2)
    | result =>
      unexpected n ("unexpected opening parenthesis ('(') after token " ++ result.tokenName ++ ".")

/-- `parse_expr_postfix()`. -/
def parseExprPostfix (calls : Recursion F) : Parsing F (ExprTree F) := do
  let first ← parseExprPrimary lib calls
  let result ← match first with
    | .type t => parseExprCastValue calls t
    | .tree e => pure e
  let s ← repeatWhile (fun _ n => (postfixOf n).isSome) (postfixTurn lib calls) (result, false)
  pure s.1

/-! ### Numbers -/

/-- A sign: whether it is a minus. -/
def signOfToken (n : TokenNode F) : Option Bool :=
  match n.token with
  | .plus => some false
  | .minus => some true
  | _ => none

/-- `parse_expr_unary()`. -/
def parseExprUnary (calls : Recursion F) : Parsing F (ExprTree F) := do
  let n ← peek
  if (signOfToken n).isSome then do
    let negate ← repeatWhile (fun _ n => (signOfToken n).isSome)
      (fun negate n => pure (negate ^^ (signOfToken n).getD false)) false
    let n ← parseExprPostfix lib calls
    match refusedByUnary lib n with
    | some s => do
      let m ← peek
      unexpected m ("string \"" ++ textOf s ++ "\" cannot be converted to a number.")
    | none => lift (foldUnary lib negate n)
  else parseExprPostfix lib calls

/-- The operator of `parse_expr_exponentiation()`. -/
def powerOf (n : TokenNode F) : Option Unit :=
  match n.token with
  | .power => some ()
  | _ => none

/-- `parse_expr_exponentiation()`. -/
def parseExprExponentiation (calls : Recursion F) : Parsing F (ExprTree F) :=
  leftAssociative (parseExprUnary lib calls) powerOf fun _ lhs rhs => lift (foldPower lib lhs rhs)

/-- The operators of `parse_expr_multiplicative()`. -/
def multiplicativeOf (n : TokenNode F) : Option BinaryToken :=
  match n.token with
  | .multiply => some .multiply
  | .divide => some .divide
  | .modulo => some .modulo
  | _ => none

/-- `parse_expr_multiplicative()`. -/
def parseExprMultiplicative (calls : Recursion F) : Parsing F (ExprTree F) :=
  leftAssociative (parseExprExponentiation lib calls) multiplicativeOf fun t lhs rhs =>
    lift (foldMultiplicative lib t lhs rhs)

/-- The operators of `parse_expr_additive()`. -/
def additiveOf (n : TokenNode F) : Option BinaryToken :=
  match n.token with
  | .plus => some .plus
  | .minus => some .minus
  | _ => none

/-- `parse_expr_additive()`. -/
def parseExprAdditive (calls : Recursion F) : Parsing F (ExprTree F) :=
  leftAssociative (parseExprMultiplicative lib calls) additiveOf fun t lhs rhs =>
    if refusedByAdditive lib lhs rhs then do
      let n ← peek
      unexpected n "the + and - binary operators expect numbers as input."
    else lift (foldAdditive lib t lhs rhs)

/-! ### The other operators -/

/-- The operators of the loop of `parse_expr_other()`. -/
inductive OtherOperator
  | integer (t : BinaryToken)
  | concat
  | regularExpression (logical_not : Bool)
  deriving DecidableEq, Repr

/-- The operator of a token. -/
def otherOf (n : TokenNode F) : Option OtherOperator :=
  match n.token with
  | .bitwiseAnd => some (.integer .bitwiseAnd)
  | .bitwiseOr => some (.integer .bitwiseOr)
  | .bitwiseXor => some (.integer .bitwiseXor)
  | .shiftLeft => some (.integer .shiftLeft)
  | .shiftRight => some (.integer .shiftRight)
  | .stringConcat => some .concat
  | .regularExpression => some (.regularExpression false)
  | .unmatchedRegularExpression => some (.regularExpression true)
  | _ => none

/-- The result of operands of `||`, where the literals that follow each other are merged. -/
def concatCall (params : List (ExprTree F)) : Except Failure (ExprTree F) :=
  match params with
  | [p] => .ok p
  | params => functionCall lib .concat params

/-- A turn of the loop of `parse_expr_other()`, behind the operator `n`. -/
def otherTurn (calls : Recursion F) (lhs : ExprTree F) (n : TokenNode F) : Parsing F (ExprTree F) :=
  match otherOf n with
  | none => pure lhs
  | some (.integer t) => do
    let rhs ← parseExprAdditive lib calls
    lift (foldOther lib t lhs rhs)
  | some .concat => do
    let first ← parseExprAdditive lib calls
    let params ← lift (concatParam lib [lhs] first)
    let params ← repeatWhile (fun _ n => otherOf n = some .concat)
      (fun params _ => do
        let n ← parseExprAdditive lib calls
        lift (concatParam lib params n)) params
    lift (concatCall lib params)
  | some (.regularExpression logical_not) => do
    let rhs ← parseExprAdditive lib calls
    lift (foldRegularExpression lib logical_not lhs rhs)

/-- The operators before an operand of `parse_expr_other()`. -/
def prefixOf (n : TokenNode F) : Option Function :=
  match n.token with
  | .absoluteValue => some .abs
  | .squareRoot => some .sqrt
  | .cubeRoot => some .cbrt
  | _ => none

/-- `parse_expr_other()`. -/
def parseExprOther (calls : Recursion F) : Parsing F (ExprTree F) := do
  let n ← peek
  match prefixOf n with
  | some func => do
    let _ ← take
    let e ← calls.other
    lift (functionCall lib func [e])
  | none => do
    let lhs ← parseExprAdditive lib calls
    repeatWhile (fun _ n => (otherOf n).isSome) (otherTurn lib calls) lhs

/-! ### Conditions -/

/-- `BETWEEN` from behind this word. -/
def betweenTail (calls : Recursion F) (negate : Bool) (value : ExprTree F) :
    Parsing F (ExprTree F) := do
  let low ← parseExprOther lib calls
  let n ← peek
  if lib.keyword n = some "AND" then do
    let _ ← take
    let high ← parseExprOther lib calls
    lift (foldBetween lib negate value low high)
  else
    unexpected n "expected AND between the lower and higher bounds of [NOT] BETWEEN operator."

/-- `LIKE` or `ILIKE` from behind this word. -/
def likeTail (calls : Recursion F) (insensitive negate : Bool) (lhs : ExprTree F) :
    Parsing F (ExprTree F) := do
  let rhs ← parseExprOther lib calls
  lift (foldLike lib insensitive negate lhs rhs)

/-- `parse_expr_matching()` from behind the first operand. -/
def matchingTail (calls : Recursion F) (result : ExprTree F) : Parsing F (ExprTree F) := do
  let negate ← takeIf fun n => lib.keyword n = some "NOT"
  let n ← peek
  if lib.keyword n = some "BETWEEN" then do
    let _ ← take
    betweenTail lib calls negate result
  else if lib.keyword n = some "IN" then
    thrown .notYetImplemented "[NOT] IN is not yet implemented."
  else if lib.keyword n = some "LIKE" then do
    let _ ← take
    likeTail lib calls false negate result
  else if lib.keyword n = some "ILIKE" then do
    let _ ← take
    likeTail lib calls true negate result
  else if negate then
    unexpected n "expected NOT to be followed by BETWEEN, IN, LIKE, ILIKE, or SIMILAR TO."
  else pure result

/-- `parse_expr_matching()`. -/
def parseExprMatching (calls : Recursion F) : Parsing F (ExprTree F) := do
  let result ← parseExprOther lib calls
  matchingTail lib calls result

/-- The operators of `parse_expr_comparison()`. -/
def comparisonOf (n : TokenNode F) : Option BinaryToken :=
  match n.token with
  | .less => some .less
  | .lessEqual => some .lessEqual
  | .equal => some .equal
  | .greater => some .greater
  | .greaterEqual => some .greaterEqual
  | .notEqual => some .notEqual
  | _ => none

/-- `parse_expr_comparison()`. -/
def parseExprComparison (calls : Recursion F) : Parsing F (ExprTree F) :=
  leftAssociative (parseExprMatching lib calls) comparisonOf fun t lhs rhs =>
    lift (foldComparison lib t lhs rhs)

/-- The keywords behind `IS` and `IS NOT` that are implemented. -/
def isKeywords : List (String × IsKeyword) := [("TRUE", .true), ("FALSE", .false), ("NULL", .null)]

/-- A turn of the loop of `parse_expr_is()`, behind the word `IS`. -/
def isTurn (result : ExprTree F) : Parsing F (ExprTree F) := do
  let negate ← takeIf fun n => lib.keyword n = some "NOT"
  let n ← peek
  let expected := "expected one of TRUE, FALSE, NULL or DISTINCT after IS, not "
  match lib.keyword n with
  | none => unexpected n (expected ++ n.token.name ++ ".")
  | some keyword =>
    match isKeywords.lookup keyword with
    | some k => do
      let _ ← take
      pure (foldIs lib negate k result)
    | none =>
      if keyword = "DISTINCT" then do
        let _ ← take
        let n ← peek
        if lib.keyword n = some "FROM" then do
          let _ ← take
          let _ ← peek
          thrown .notYetImplemented "IS [NOT] DISTINCT FROM is not yet implemented."
        else unexpected n "expected FROM after IS [NOT] DISTINCT."
      else unexpected n (expected ++ keyword ++ ".")

/-- `parse_expr_is()`. -/
def parseExprIs (calls : Recursion F) : Parsing F (ExprTree F) := do
  let result ← parseExprComparison lib calls
  repeatWhile (fun _ n => lib.keyword n = some "IS") (fun result _ => isTurn lib result) result

/-- `parse_expr_logical_not()`. -/
def parseExprLogicalNot (calls : Recursion F) : Parsing F (ExprTree F) := do
  let n ← peek
  if lib.keyword n = some "NOT" then do
    let logical_not ← repeatWhile (fun _ n => lib.keyword n = some "NOT")
      (fun logical_not _ => pure !logical_not) false
    let result ← parseExprIs lib calls
    lift (foldLogicalNot lib logical_not result)
  else parseExprIs lib calls

/-- A keyword that is an operator. -/
def Library.word (k : String) (n : TokenNode F) : Option Unit :=
  if lib.keyword n = some k then some () else none

/-- `parse_expr_logical_and()`. -/
def parseExprLogicalAnd (calls : Recursion F) : Parsing F (ExprTree F) :=
  leftAssociative (parseExprLogicalNot lib calls) (lib.word "AND") fun _ lhs rhs =>
    lift (foldLogicalAnd lib lhs rhs)

/-- `parse_expr_logical_or()`. -/
def parseExprLogicalOr (calls : Recursion F) : Parsing F (ExprTree F) :=
  leftAssociative (parseExprLogicalAnd lib calls) (lib.word "OR") fun _ lhs rhs =>
    lift (foldLogicalOr lib lhs rhs)

/-! ### The whole -/

/-- The functions, with that many calls inside of one another; more of them would overflow the
stack. -/
def calls : ℕ → Recursion F
  | 0 => ⟨fail .undefinedBehavior, fail .undefinedBehavior⟩
  | depth + 1 => ⟨parseExprLogicalOr lib (calls depth), parseExprOther lib (calls depth)⟩

/-- The tree of `parse_expression()`. -/
def parseTree : Parsing F (ExprTree F) := fun ts => parseExprLogicalOr lib (calls lib ts.length) ts

/-- The bytes of a text. -/
def bytesOf (s : String) : Bytes := s.toList.map fun c => UInt8.ofNat c.toNat

/-- `parse_expression()`. -/
def parseExpression : Parsing F Bytes := do
  let tree ← parseTree lib
  pure (bytesOf ((tree.toNode lib).toAs2js lib.escape))

end Expression

end Prinbee
