import Prinbee.BigInt.Text
import Prinbee.Data.TableModel
import Prinbee.Database.Context
import Prinbee.Pbql.Command
import Prinbee.Pbql.Tokens

/-!
# The parser

`parser.cpp`: a script is a list of statements, and each of them becomes a command.

The current token of the source, `n`, is the first token that is left.  Where the source calls
`get_next_token()` to replace it, it is taken; where the source does not, it is still there for what
comes next.

## Main definitions

* `Parser.Library` — what the parser takes from elsewhere: letter case, and expressions.
* `Parser.parseTransactionCommand`, `Parser.parseAlterIndex`, `Parser.parseCreateContext`,
  `Parser.parseSelect`, `Parser.parseConfig` — the statements.
* `Parser.parse` — the whole script.
-/

namespace Prinbee

open TokenStream Reader

namespace Lexer

variable {F : Type}

/-- `to_string()` of a token, with the quotes of a token that is one character. -/
def Token.name : Token F → String
  | .eof => "EOF"
  | .bitwiseXor => "'#'"
  | .modulo => "'%'"
  | .bitwiseAnd => "'&'"
  | .openParenthesis => "'('"
  | .closeParenthesis => "')'"
  | .multiply => "'*'"
  | .plus => "'+'"
  | .comma => "','"
  | .minus => "'-'"
  | .period => "'.'"
  | .divide => "'/'"
  | .colon => "':'"
  | .semiColon => "';'"
  | .less => "'<'"
  | .equal => "'='"
  | .greater => "'>'"
  | .absoluteValue => "'@'"
  | .openBracket => "'['"
  | .closeBracket => "']'"
  | .power => "'^'"
  | .bitwiseOr => "'|'"
  | .regularExpression => "'~'"
  | .identifier _ => "IDENTIFIER"
  | .string _ => "STRING"
  | .integer _ => "INTEGER"
  | .floatingPoint _ => "FLOATING_POINT"
  | .notEqual => "NOT_EQUAL"
  | .lessEqual => "LESS_EQUAL"
  | .greaterEqual => "GREATER_EQUAL"
  | .squareRoot => "SQUARE_ROOT"
  | .cubeRoot => "CUBE_ROOT"
  | .scope => "SCOPE"
  | .shiftLeft => "SHIFT_LEFT"
  | .shiftRight => "SHIFT_RIGHT"
  | .unmatchedRegularExpression => "UNMATCHED_REGULAR_EXPRESSION"
  | .stringConcat => "STRING_CONCAT"

namespace TokenNode

/-- `get_string()`; only identifiers and strings have one. -/
def string (n : TokenNode F) : Bytes :=
  match n.token with
  | .identifier s => s
  | .string s => s
  | _ => []

def isIdentifier (n : TokenNode F) : Bool :=
  match n.token with
  | .identifier _ => true
  | _ => false

def isString (n : TokenNode F) : Bool :=
  match n.token with
  | .string _ => true
  | _ => false

/-- `get_integer()` of a `TOKEN_INTEGER`. -/
def integer (n : TokenNode F) : Option Int512 :=
  match n.token with
  | .integer v => some v
  | _ => none

def isComma (n : TokenNode F) : Bool :=
  match n.token with
  | .comma => true
  | _ => false

def isSemiColon (n : TokenNode F) : Bool :=
  match n.token with
  | .semiColon => true
  | _ => false

def isColon (n : TokenNode F) : Bool :=
  match n.token with
  | .colon => true
  | _ => false

def isScope (n : TokenNode F) : Bool :=
  match n.token with
  | .scope => true
  | _ => false

def isEqual (n : TokenNode F) : Bool :=
  match n.token with
  | .equal => true
  | _ => false

def isOpenParenthesis (n : TokenNode F) : Bool :=
  match n.token with
  | .openParenthesis => true
  | _ => false

def isCloseParenthesis (n : TokenNode F) : Bool :=
  match n.token with
  | .closeParenthesis => true
  | _ => false

end TokenNode

end Lexer

/-- `get_location()`, in the text of an error. -/
def Input.Location.text (l : Input.Location) : String :=
  (if l.filename = "" then "" else l.filename ++ ":") ++ toString l.line ++ ":" ++
    toString l.column ++ ": "

namespace Parser

open Lexer (TokenNode)

variable {F : Type}

/-- A function of the parser. -/
abbrev Parsing (F α : Type) := Reader Failure (TokenNode F) α

/-- What the parser takes from elsewhere: `snapdev::to_upper()` and `snapdev::to_lower()`,
`advgetopt::quote()` with slashes, and `parse_expression()`, which reads one expression and returns
its text. -/
structure Library (F : Type) where
  toUpper : Bytes → Bytes
  toLower : Bytes → Bytes
  quote : Bytes → Bytes
  parseExpression : Parsing F Bytes

/-- An exception without a location. -/
def thrown {α : Type} (kind : ErrorKind) (message : String) : Parsing F α :=
  fail (.thrown kind message)

/-- An exception at a token. -/
def thrownAt {α : Type} (kind : ErrorKind) (n : TokenNode F) (message : String) : Parsing F α :=
  thrown kind (n.location.text ++ message)

/-- `invalid_token`, at a token. -/
def unexpected {α : Type} (n : TokenNode F) (message : String) : Parsing F α :=
  thrownAt .invalidToken n message

variable (lib : Library F)

/-- An identifier in upper case, to be compared with keywords. -/
def Library.keyword (n : TokenNode F) : Option String :=
  if n.isIdentifier then some (textOf (lib.toUpper n.string)) else none

/-- `expect_semi_colon()`. -/
def expectSemiColon (command : String) : Parsing F Unit := do
  let n ← peek
  if n.isSemiColon then do
    let _ ← take
    pure ()
  else
    unexpected n ("expected ';' at the end of '" ++ command ++ "' command; not " ++ n.token.name ++
      (if n.isIdentifier then " " ++ textOf n.string else "") ++ ".")

/-- `keyword_string()`, for keywords that are not optional: they are taken, and an identifier is
expected behind them. -/
def keywordString : String → List String → Parsing F Unit
  | commands, [] => do
    let n ← peek
    if n.isIdentifier then pure ()
    else unexpected n ("expected a IDENTIFIER after " ++ commands ++ ", not a " ++ n.token.name ++ ".")
  | commands, k :: keywords => do
    let n ← peek
    match lib.keyword n with
    | none =>
      unexpected n ("expected " ++ k ++ " identifier after " ++ commands ++ " not token '" ++
        n.token.name ++ "'.")
    | some cmd =>
      if cmd ≠ k then
        unexpected n ("expected the " ++ k ++ " identifier after " ++ commands ++ ", not \"" ++ cmd ++
          "\".")
      else do
        let _ ← take
        keywordString (commands ++ " " ++ cmd) keywords

/-- `IF` and the keywords behind it, when it is there: the result says whether it was. -/
def ifKeywords (commands : String) (keywords : List String) : Parsing F Bool := do
  let found ← takeIf fun n => lib.keyword n = some "IF"
  if found then do
    keywordString lib commands keywords
    pure true
  else pure false

/-! ### Transactions -/

/-- `transaction_t`. -/
inductive TransactionType
  | undefined
  | schema
  | data
  deriving DecidableEq, Repr

def TransactionType.toInt : TransactionType → ℤ
  | undefined => 0
  | schema => 1
  | data => 2

/-- `[ON] SCHEMA` or `[ON] DATA`. -/
def transactionType : Parsing F TransactionType := do
  let n ← peek
  if lib.keyword n = some "ON" then do
    let _ ← take
    let n ← peek
    if lib.keyword n = some "SCHEMA" then do
      let _ ← take
      pure .schema
    else if lib.keyword n = some "DATA" then do
      let _ ← take
      pure .data
    else unexpected n "expected identifier SCHEMA or DATA after BEGIN ON."
  else if lib.keyword n = some "SCHEMA" then do
    let _ ← take
    pure .schema
  else if lib.keyword n = some "DATA" then do
    let _ ← take
    pure .data
  else pure .undefined

/-- `IF expression [OTHERWISE ...]`, behind a COMMIT or a ROLLBACK. -/
def transactionCondition (cmdName : String) (cmd : CommandType) : Parsing F Bytes := do
  let n ← peek
  if cmd ≠ .begin ∧ n.isIdentifier = true then
    if lib.keyword n ≠ some "IF" then
      unexpected n "expected IF clause or ';' at the end of a COMMIT or ROLLBACK."
    else do
      let _ ← take
      let expr ← lib.parseExpression
      let n ← peek
      if n.isIdentifier then
        if lib.keyword n ≠ some "OTHERWISE" then
          unexpected n "expected OTHERWISE after the IF expression of COMMIT or ROLLBACK."
        else do
          let _ ← take
          let n ← peek
          let expects := if cmd = .commit then "ROLLBACK" else "COMMIT"
          if lib.keyword n ≠ some expects then
            unexpected n ("expected " ++ expects ++ " after OTHERWISE for command " ++ cmdName ++ ".")
          else do
            let _ ← take
            pure expr
      else pure expr
  else pure []

/-- `COMMAND_BEGIN`, `COMMAND_COMMIT` or `COMMAND_ROLLBACK`. -/
def isTransaction (c : Command) : Bool :=
  c.command = .begin || c.command = .commit || c.command = .rollback

/-- The loop over the earlier commands, from the last one on: what is found is the BEGIN of the
transaction that is open. -/
def openTransaction (commands : List Command) : Option Command :=
  match commands.reverse.find? isTransaction with
  | some c => if c.command = .begin then some c else none
  | none => none

/-- The command of a transaction, with the type and the condition that are given. -/
def transactionCommand (cmd : CommandType) (type : TransactionType) (expr : Bytes) : Command :=
  let command := (Command.ofType cmd).set .type type.toInt
  if expr ≠ [] then command.set .condition expr else command

/-- `parse_transaction_command()`, from behind the keyword. -/
def parseTransactionCommand (cmdName : String) (cmd : CommandType) (commands : List Command) :
    Parsing F (List Command) := do
  let _ ← takeIf fun n => lib.keyword n = some "WORK" ∨ lib.keyword n = some "TRANSACTION"
  let type ← transactionType lib
  let expr ← transactionCondition lib cmdName cmd
  let n ← peek
  expectSemiColon cmdName
  let command := transactionCommand cmd type expr
  if cmd = .begin then
    match openTransaction commands with
    | some _ =>
      thrownAt .invalidEntity n ("work transactions cannot be nested (a BEGIN must first end with a "
        ++ "COMMIT or ROLLBACK before another BEGIN is used).")
    | none => pure (commands ++ [command])
  else
    match openTransaction commands with
    | none =>
      thrownAt .invalidEntity n ("found a dangling " ++ cmdName ++ " (i.e. without a prior BEGIN).")
    | some begin =>
      if type = .undefined then
        -- the COMMIT or ROLLBACK is marked with the type of the BEGIN
        pure (commands ++ [command.set .type begin.getType])
      else if type.toInt ≠ begin.getType % 256 then
        thrownAt .invalidType n
          ("transaction type mismatch between BEGIN and " ++ cmdName ++ ".")
      else pure (commands ++ [command])

/-! ### ALTER INDEX -/

/-- `SET` in `parse_alter_index()`. -/
def alterIndexSet : Parsing F Unit := do
  let n ← peek
  if n.isIdentifier then do
    let negate ← takeIf fun n => lib.keyword n = some "NOT"
    let n ← peek
    match lib.keyword n with
    | none =>
      unexpected n ("expected an identifier after the SET NOT action of an ALTER INDEX [IF EXISTS] "
        ++ "name SET NOT <sub-action>.")
    | some command =>
      if command = "SECURE" ∨ command = "SPARSE" then do
        let _ ← take
        expectSemiColon "ALTER INDEX ...;"
      else if negate then
        unexpected n ("unexpected NOT with the ALTER INDEX [IF EXISTS] name SET " ++ command ++
          " action.")
      else if command = "MODEL" then do
        let _ ← take
        let _ ← takeIf TokenNode.isEqual
        let m ← peek
        if m.isIdentifier then
          match nameToModel lib.toUpper m.string with
          | .error e => fail e
          | .ok _ => do
            let _ ← take
            expectSemiColon "ALTER INDEX ...;"
        else
          unexpected m ("expected an identifier with the model name after the SET MODEL action of an "
            ++ "ALTER INDEX [IF EXISTS] name SET MODEL [=] <model>.")
      else if command = "COMMENT" then do
        let _ ← take
        let _ ← takeIf TokenNode.isEqual
        let m ← peek
        if m.isString then do
          let _ ← take
          expectSemiColon "ALTER INDEX ...;"
        else
          unexpected m ("expected a string to set the index comment: ALTER INDEX [IF EXISTS] name SET "
            ++ "COMMENT [=] <comment>.")
      else
        unexpected n ("unknown index action \"" ++ command ++
          "\" after ALTER INDEX [IF EXISTS] name <action>.")
  else
    unexpected n ("expected an identifier after the SET of an ALTER INDEX [IF EXISTS] name SET "
      ++ "<sub-action>.")

/-- `ADD`, or `DROP`, in `parse_alter_index()`: nothing behind it is read. -/
def alterIndexColumn (drop : Bool) : Parsing F Unit := do
  let n ← peek
  if lib.keyword n = some "COLUMN" then do
    let _ ← take
    let n ← peek
    if n.isIdentifier ∨ (n.integer.isSome ∧ drop = true) then do
      let _ ← take
      pure ()
    else
      unexpected n (if drop then
        "expected the name or position of a column after the DROP COLUMN of an ALTER INDEX " ++
          "[IF EXISTS] name DROP COLUMN <column-name>."
      else "expected the name of a column after the ADD COLUMN of an ALTER INDEX [IF EXISTS] name " ++
        "ADD COLUMN <column-name>.")
  else if n.isIdentifier ∧ lib.keyword n ≠ some "EXPRESSION" then do
    let _ ← take
    pure ()
  else if (n.isOpenParenthesis ∧ drop = false) ∨ (n.integer.isSome ∧ drop = true) then do
    let _ ← take
    pure ()
  else unexpected n "unexpected token after ALTER INDEX [IF EXISTS] name ADD/DROP ...."

/-- `parse_alter_index()`, which makes no command. -/
def parseAlterIndex : Parsing F Unit := do
  let n ← peek
  if n.isIdentifier then do
    let _ ← ifKeywords lib "ALTER INDEX IF" ["EXISTS"]
    let _ ← take
    let n ← peek
    match lib.keyword n with
    | none =>
      unexpected n "expected an index action after ALTER INDEX [IF EXISTS] name <action>."
    | some command =>
      if command = "ADD" then do
        let _ ← take
        alterIndexColumn lib false
      else if command = "DROP" then do
        let _ ← take
        alterIndexColumn lib true
      else if command = "SET" then do
        let _ ← take
        alterIndexSet lib
      else
        unexpected n ("unknown index action \"" ++ command ++
          "\" after ALTER INDEX [IF EXISTS] name <action>.")
  else unexpected n "expected an identifier after ALTER INDEX."

/-! ### CREATE CONTEXT -/

/-- The variables of `parse_create_context()`. -/
@[ext]
structure ContextOptions where
  contextPath : Bytes := []
  owner : Bytes := []
  group : Bytes := []
  description : Bytes := []
  deriving DecidableEq, Repr

/-- The segments of a path, without empty ones. -/
def pathSegments (path : Bytes) : List Bytes := (path.splitOn 47).filter (· ≠ [])

/-- `validate_name()` of a string, up to its first zero, and with the default maximum. -/
def validName (name : Bytes) : Bool :=
  ContextSetup.validateName ((name.takeWhile (· ≠ 0)).map fun c => Char.ofNat c.toNat) 255

/-- An owner or a group that is an identifier or an integer. -/
def userName (n : TokenNode F) : Option (Except Failure Bytes) :=
  if n.isIdentifier then some (.ok n.string)
  else n.integer.map fun v => v.toText 10 false false

/-- `USING`. -/
def contextUsing (s : ContextOptions) (keyword : TokenNode F) : Parsing F ContextOptions := do
  if s.contextPath ≠ [] then unexpected keyword "USING keyword found twice after CREATE CONTEXT."
  else do
    let n ← peek
    if n.isString then
      let path := lib.toLower n.string
      if path = [] then
        unexpected n "expected a non-empty path after the USING keyword of CREATE CONTEXT."
      else if ContextSetup.maxSegments ≤ (pathSegments path).length then
        unexpected n ("expected a maximum number of " ++ toString (ContextSetup.maxSegments - 1) ++
          " segments in the context path defined by the USING keyword of CREATE CONTEXT.")
      else do
        let _ ← take
        pure { s with contextPath := path }
    else unexpected n "expected a path after the USING keyword of CREATE CONTEXT."

/-- A group, behind the colon of an owner. -/
def contextGroup (s : ContextOptions) : Parsing F ContextOptions := do
  let n ← peek
  match userName n with
  | some (.ok group) => do
    let _ ← take
    pure { s with group := group }
  | some (.error e) => fail e
  | none =>
    unexpected n ("expected a group name after ':' in CREATE CONTEXT ... WITH ( OWNER "
      ++ "<user>:<group> ), not a " ++ n.token.name ++ ".")

/-- `OWNER`, from behind the optional equal sign. -/
def contextOwner (s : ContextOptions) : Parsing F ContextOptions := do
  let n ← peek
  if s.owner ≠ [] then unexpected n "WITH OWNER found twice after CREATE CONTEXT."
  else if n.isString then do
    let _ ← take
    match n.string.idxOf? 58 with
    | some pos => pure { s with owner := n.string.take pos, group := n.string.drop (pos + 1) }
    | none => pure { s with owner := n.string }
  else
    match userName n with
    | some (.ok owner) => do
      let _ ← take
      let s := { s with owner := owner }
      let n ← peek
      if n.isColon then do
        let _ ← take
        contextGroup s
      else pure s
    | some (.error e) => fail e
    | none =>
      unexpected n "expected a string or an identifier after WITH ( OWNER <owner>[:<group>] )."

/-- `COMMENT`, from behind the optional equal sign. -/
def contextComment (s : ContextOptions) : Parsing F ContextOptions := do
  let n ← peek
  if s.description ≠ [] then unexpected n "WITH COMMENT found twice after CREATE CONTEXT."
  else if n.isString then do
    let _ ← take
    pure { s with description := n.string }
  else
    unexpected n ("expected a string for <description> in CREATE CONTEXT ... WITH ( COMMENT "
      ++ "<description> ) got a " ++ n.token.name ++ " instead.")

/-- A feature; one with another name than these two is skipped. -/
def contextFeature (s : ContextOptions) : Parsing F ContextOptions := do
  let n ← peek
  match lib.keyword n with
  | none =>
    unexpected n "WITH feature definitions must be named using an identifier in CREATE CONTEXT."
  | some keyword => do
    let _ ← take
    let _ ← takeIf TokenNode.isEqual
    if keyword = "OWNER" then contextOwner s
    else if keyword = "COMMENT" then contextComment s
    else pure s

/-- `WITH`: features, with commas between them. -/
def contextWith (s : ContextOptions) : Parsing F ContextOptions := do
  let n ← peek
  if n.isOpenParenthesis then do
    let _ ← take
    let s ← contextFeature lib s
    let s ← repeatWhile (fun _ n => n.isComma) (fun s _ => contextFeature lib s) s
    let n ← peek
    if n.isCloseParenthesis then do
      let _ ← take
      pure s
    else unexpected n "expected a comma to separate feature definitions in CREATE CONTEXT."
  else
    unexpected n ("WITH feature definitions must be defined between parenthesis, '(' missing in "
      ++ "CREATE CONTEXT.")

/-- An option, from behind its keyword; one with another keyword than these two is skipped. -/
def contextOption (s : ContextOptions) (n : TokenNode F) : Parsing F ContextOptions :=
  if lib.keyword n = some "USING" then contextUsing lib s n
  else if lib.keyword n = some "WITH" then contextWith lib s
  else pure s

/-- The command of `parse_create_context()`. -/
def contextCommand (ifNotExists : Bool) (name : Bytes) (s : ContextOptions) : Command :=
  ((((((Command.ofType .createContext).set .ifExists (!ifNotExists)).set .name name).set .path
    s.contextPath).set .user s.owner).set .group s.group).set .description s.description

/-- `parse_create_context()`, from the name on. -/
def contextNamed (ifNotExists : Bool) : Parsing F Command := do
  let n ← peek
  let contextName := lib.toLower n.string
  if validName contextName then do
    let _ ← take
    let s ← repeatWhile (fun _ n => n.isIdentifier) (contextOption lib) {}
    expectSemiColon "CREATE CONTEXT"
    pure (contextCommand ifNotExists contextName s)
  else
    unexpected n ("context name \"" ++ textOf contextName ++ "\" is not considered valid.")

/-- `parse_create_context()`. -/
def parseCreateContext : Parsing F Command := do
  let n ← peek
  if n.isIdentifier then do
    let ifNotExists ← ifKeywords lib "CREATE CONTEXT IF" ["NOT", "EXISTS"]
    contextNamed lib ifNotExists
  else unexpected n "expected an identifier after CREATE CONTEXT."

/-! ### SELECT -/

/-- The name of a column that has none. -/
def columnName (count : ℕ) : Bytes :=
  ("__col" ++ toString (count + 1)).toList.map fun c => UInt8.ofNat c.toNat

/-- The state of the loop over the expressions: the command, their number, and whether it was left
for `DEFAULT VALUES`. -/
structure SelectFields where
  command : Command
  count : ℕ
  ended : Bool

/-- A turn of the loop over the expressions. -/
def selectField (command : Command) (count : ℕ) : Parsing F SelectFields := do
  let n ← peek
  if lib.keyword n = some "DEFAULT" then
    if (command.params (.expression 0)).isSome then
      unexpected n "SELECT DEFAULT VALUES cannot be used with other fields."
    else do
      let _ ← take
      let n ← peek
      if n.isIdentifier = false ∧ textOf (lib.toUpper n.string) ≠ "VALUES" then
        unexpected n "SELECT DEFAULT is expected to be followed by VALUES."
      else do
        let _ ← take
        pure ⟨command, count, true⟩
  else if maxExpressions ≤ count then
    unexpected n ("SELECT can be followed by at most " ++ toString maxExpressions ++ " expressions.")
  else do
    let expr ← lib.parseExpression
    let command := command.set (.expression count) expr
    let n ← peek
    if lib.keyword n = some "AS" then do
      let _ ← take
      let n ← peek
      if n.isIdentifier then do
        let _ ← take
        pure ⟨command.set (.columnName count) (lib.toLower n.string), count, false⟩
      else
        unexpected n ("SELECT <expression> AS ... is expected to be followed by a name (an "
          ++ "identifier).")
    else pure ⟨command.set (.columnName count) (columnName count), count, false⟩

/-- The expressions. -/
def selectFields : Parsing F Command := do
  let s ← selectField lib (.ofType .select) 0
  let s ← repeatWhile (fun s n => !s.ended && n.isComma)
    (fun s _ => selectField lib s.command (s.count + 1)) s
  pure s.command

/-- `AS` and the name of a table, when it is there. -/
def selectTableName (count : ℕ) (command : Command) : Parsing F Command := do
  let found ← takeIf fun n => lib.keyword n = some "AS"
  if found then do
    let n ← peek
    if n.isIdentifier then do
      let _ ← take
      pure (command.set (.tableName count) n.string)
    else
      unexpected n ("SELECT ... FROM <table-name> AS ... is expected to be followed by a name (an "
        ++ "identifier).")
  else pure command

/-- The loop over the tables, when `left` more are accepted.  The comma between two tables is not
taken. -/
def selectTables : (left count : ℕ) → Command → Parsing F Command
  | 0, _, _ => do
    let n ← peek
    unexpected n ("SELECT ... FROM can be followed by at most " ++ toString maxTables ++
      " table names.")
  | left + 1, count, command => do
    let n ← peek
    if n.isIdentifier then do
      let _ ← take
      let command ← selectTableName lib count (command.set (.table count) n.string)
      let n ← peek
      if n.isComma then selectTables left (count + 1) command else pure command
    else
      unexpected n ("SELECT ... FROM <table-name> is expected to be the name of a table (an "
        ++ "identifier).")

/-- `primary_key`, the name for `PRIMARY KEY`. -/
def primaryKeyName : Bytes := [112, 114, 105, 109, 97, 114, 121, 95, 107, 101, 121]

/-- The state of the loop over WHERE, ORDER BY and LIMIT. -/
structure SelectClauses where
  command : Command
  whereExpression : Bytes := []
  orderBy : Bytes := []
  limit : ℤ := 0

/-- `ORDER`: the name, and the `KEY` of `PRIMARY KEY`, are not taken. -/
def selectOrder (s : SelectClauses) (keyword : TokenNode F) : Parsing F SelectClauses := do
  if s.orderBy ≠ [] then unexpected keyword "SELECT ... ORDER BY ... found twice."
  else do
    let n ← peek
    if lib.keyword n = some "BY" then do
      let _ ← take
      let n ← peek
      match lib.keyword n with
      | none =>
        unexpected n ("SELECT ... ORDER BY ... is expected to be the name of an index or "
          ++ "'PRIMARY KEY'.")
      | some name =>
        if name = "PRIMARY" then do
          let _ ← take
          let n ← peek
          if lib.keyword n = some "KEY" then
            pure { s with
              orderBy := primaryKeyName, command := s.command.set .orderBy primaryKeyName }
          else
            unexpected n ("SELECT ... ORDER BY PRIMARY ... is expected to be followed by the 'KEY' "
              ++ "keyword.")
        else
          let orderBy := lib.toLower n.string
          pure { s with orderBy := orderBy, command := s.command.set .orderBy orderBy }
    else unexpected n "SELECT ... ORDER ... is expected to be followed by the 'BY' keyword."

/-- `LIMIT`: the integer is not taken; its low word is the limit. -/
def selectLimit (s : SelectClauses) (keyword : TokenNode F) : Parsing F SelectClauses := do
  if s.limit ≠ 0 then unexpected keyword "SELECT ... LIMIT ... found twice."
  else do
    let n ← peek
    match n.integer with
    | none => unexpected n "SELECT ... LIMIT ... is expected to be followed by an integer."
    | some v =>
      let limit := (v.words.low : ℤ).bmod (2 ^ 64)
      if limit ≤ 0 ∨ maxLimit < limit then
        unexpected n ("SELECT ... LIMIT " ++ toString limit ++ " is out of range: (0, " ++
          toString maxLimit ++ "].")
      else pure { s with limit := limit, command := s.command.set .limit limit }

/-- A turn of the loop over WHERE, ORDER BY and LIMIT, from behind the keyword. -/
def selectClause (s : SelectClauses) (n : TokenNode F) : Parsing F SelectClauses := do
  if lib.keyword n = some "WHERE" then
    if s.whereExpression ≠ [] then unexpected n "SELECT ... WHERE ... found twice."
    else do
      let expr ← lib.parseExpression
      pure { s with whereExpression := expr, command := s.command.set .where_ expr }
  else if lib.keyword n = some "ORDER" then selectOrder lib s n
  else selectLimit s n

/-- The keywords of the clauses. -/
def isClause (n : TokenNode F) : Bool :=
  lib.keyword n ∈ [some "WHERE", some "ORDER", some "LIMIT"]

/-- `FROM`, when it is there. -/
def selectFrom (command : Command) : Parsing F Command := do
  let n ← peek
  if lib.keyword n = some "FROM" then do
    let _ ← take
    let command ← selectTables lib maxTables 0 command
    let s ← repeatWhile (fun _ n => isClause lib n) (selectClause lib) { command := command }
    pure s.command
  else pure command

/-- `OUTPUT`, when it is there: the mode is not taken. -/
def selectOutput (command : Command) : Parsing F Command := do
  let n ← peek
  if lib.keyword n = some "OUTPUT" then do
    let _ ← take
    let n ← peek
    match lib.keyword n with
    | none =>
      unexpected n ("SELECT ... OUTPUT ... is expected to be followed by a mode ('TABLE', 'PRINT', or "
        ++ "'JSON').")
    | some mode =>
      if mode = "TABLE" then pure (command.set .mode ParamMode.table.toInt)
      else if mode = "PRINT" then pure (command.set .mode ParamMode.print.toInt)
      else if mode = "JSON" then pure (command.set .mode ParamMode.json.toInt)
      else
        unexpected n ("SELECT ... OUTPUT " ++ mode ++ " is not a known mode (try with 'TABLE', "
          ++ "'PRINT', or 'JSON' instead).")
  else pure command

/-- `parse_select()`. -/
def parseSelect : Parsing F Command := do
  let command ← selectFields lib
  let command ← selectFrom lib command
  let command ← selectOutput lib command
  expectSemiColon "SELECT"
  pure command

/-! ### CONFIG -/

/-- A regular expression between slashes. -/
def configPattern (name : Bytes) : Bytes :=
  if name.head? ≠ some 47 ∨ name.getLast? ≠ some 47 then lib.quote name else name

/-- A name of `parse_config()`, which may have a path in front of it. -/
def configName (name : Bytes) (command : Command) : Parsing F Command := do
  let found ← takeIf TokenNode.isScope
  if found then do
    let n ← peek
    if n.isIdentifier then do
      let _ ← take
      pure ((command.set .path name).set .name n.string)
    else
      unexpected n ("expected a configuration parameter name after the scope (::), not token '" ++
        n.token.name ++ "'.")
  else pure (command.set .name name)

/-- The parameters of `parse_config()`. -/
def configParameters (command : Command) : Parsing F Command := do
  let n ← peek
  if n.isString then do
    let _ ← take
    pure (if n.string = [] then command else command.set .name (configPattern lib n.string))
  else if n.isIdentifier then do
    let _ ← take
    let command ← configName n.string command
    let found ← takeIf TokenNode.isEqual
    if found then do
      let expr ← lib.parseExpression
      pure (command.set (.expression 0) expr)
    else pure command
  else unexpected n ("expected a parameter name after CONFIG, not token '" ++ n.token.name ++ "'.")

/-- `parse_config()`. -/
def parseConfig : Parsing F Command := do
  let n ← peek
  if n.isSemiColon then do
    let _ ← take
    pure (Command.ofType .config)
  else do
    let command ← configParameters lib (Command.ofType .config)
    expectSemiColon "CONFIG"
    pure command

/-! ### The script -/

/-- `f_commands` and `f_quit`, and whether `parse()` returns before the end of the script. -/
structure Script where
  commands : List Command := []
  quit : Bool := false
  returned : Bool := false

/-- `not_yet_implemented`. -/
def notYetImplemented {α : Type} (function : String) : Parsing F α :=
  thrown .notYetImplemented function

/-- `ALTER`, which makes no command. -/
def parseAlter : Parsing F Unit := do
  let n ← take
  match lib.keyword n with
  | none =>
    unexpected n "ALTER is expected to be followed by an identifier: CONTEXT, INDEX, TABLE, or TYPE."
  | some command =>
    if command = "CONTEXT" then notYetImplemented "parser::alter_context()"
    else if command = "INDEX" then parseAlterIndex lib
    else if command = "TABLE" then notYetImplemented "parser::parse_alter_table()"
    else if command = "TYPE" then notYetImplemented "parser::parse_alter_type()"
    else
      unexpected n ("ALTER is expected to be followed by CONTEXT, INDEX, TABLE, or TYPE, not \"" ++
        command ++ "\".")

/-- `CREATE`. -/
def parseCreate : Parsing F Command := do
  let n ← take
  match lib.keyword n with
  | none =>
    unexpected n "CREATE is expected to be followed by an identifier: CONTEXT, INDEX, TABLE, TYPE."
  | some command =>
    if command = "CONTEXT" then parseCreateContext lib
    else if command = "INDEX" then notYetImplemented "parser::parse_create_index()"
    else if command = "TABLE" then notYetImplemented "parser::parse_create_table()"
    else if command = "TYPE" then notYetImplemented "parser::parse_create_type()"
    else
      unexpected n ("CREATE is expected to be followed by: CONTEXT, INDEX, TABLE, TYPE, not \"" ++
        command ++ "\".")

/-- `BYE`, `EXIT` or `QUIT`. -/
def parseQuit (command : String) (s : Script) : Parsing F Script := do
  expectSemiColon command
  pure { s with quit := true, returned := true }

/-- A statement that makes one command. -/
def pushCommand (s : Script) (x : Parsing F Command) : Parsing F Script := do
  let command ← x
  pure { s with commands := s.commands ++ [command] }

/-- BEGIN, COMMIT or ROLLBACK. -/
def pushTransaction (s : Script) (cmdName : String) (cmd : CommandType) : Parsing F Script := do
  let commands ← parseTransactionCommand lib cmdName cmd s.commands
  pure { s with commands := commands }

/-- A command that is not known, which the user may capture. -/
def unknownCommand (capture : Option (String → Bool)) (s : Script) (n : TokenNode F)
    (command : String) : Parsing F Script :=
  match capture with
  | some f =>
    if f command then pure { s with returned := true }
    else unexpected n ("found unknown command \"" ++ command ++ "\".")
  | none => unexpected n ("found unknown command \"" ++ command ++ "\".")

/-- A statement, from behind its first token. -/
def statement (capture : Option (String → Bool)) (s : Script) (n : TokenNode F) :
    Parsing F Script :=
  match textOf (lib.toUpper n.string) with
  | "ALTER" => do
    parseAlter lib
    pure s
  | "BEGIN" => pushTransaction lib s "BEGIN" .begin
  | "BYE" => parseQuit "BYE" s
  | "COMMIT" => pushTransaction lib s "COMMIT" .commit
  | "CONFIG" => pushCommand s (parseConfig lib)
  | "CREATE" => pushCommand s (parseCreate lib)
  | "EXIT" => parseQuit "EXIT" s
  | "QUIT" => parseQuit "QUIT" s
  | "ROLLBACK" => pushTransaction lib s "ROLLBACK" .rollback
  | "SELECT" => pushCommand s (parseSelect lib)
  | "SET" => notYetImplemented "parser::parse_set()"
  | command => unknownCommand capture s n command

/-- `parse()`. -/
def parse (capture : Option (String → Bool)) : Parsing F Script := do
  let s ← repeatWhile (fun s n => !s.returned && n.isIdentifier) (statement lib capture) {}
  if s.returned then pure s
  else do
    let n ← peek
    if n.token.isEof then pure s
    else
      unexpected n ("expected the beginning of the line to start with an identifier representing a "
        ++ "PBQL keyword.")

end Parser

end Prinbee
