import Mathlib.Logic.Function.Basic
import Prinbee.Data.Convert

/-!
# Commands

`command.cpp`: what the parser makes of a statement, a kind and parameters.  The source keeps one
map for each type of value and throws when a parameter is set with two types.  The parser sets each
parameter with one type, which is the one it has here.

## Main definitions

* `Param`, `Param.Value` — the parameters, and the type of each.
* `Command`, `Command.set` — a command, and one more parameter of it.
-/

namespace Prinbee

/-- `command_t`, without the invalid one. -/
inductive CommandType
  | begin
  | commit
  | config
  | createContext
  | rollback
  | select
  deriving DecidableEq, Repr

/-- `param_mode_t`. -/
inductive ParamMode
  | table
  | print
  | json
  deriving DecidableEq, Repr

def ParamMode.toInt : ParamMode → ℤ
  | table => 0
  | print => 1
  | json => 2

/-- The keyword of a mode. -/
def ParamMode.text : ParamMode → String
  | table => "TABLE"
  | print => "PRINT"
  | json => "JSON"

/-- `MAX_LIMIT`. -/
def maxLimit : ℕ := 1000000

/-- `MAX_EXPRESSIONS`. -/
def maxExpressions : ℕ := 1000

/-- `MAX_TABLES`. -/
def maxTables : ℕ := 20

/-- `param_t`, without the invalid one.  The last four have a position. -/
inductive Param
  | condition
  | description
  | group
  | ifExists
  | limit
  | name
  | orderBy
  | path
  | type
  | user
  | where_
  | mode
  | expression (idx : ℕ)
  | columnName (idx : ℕ)
  | table (idx : ℕ)
  | tableName (idx : ℕ)
  deriving DecidableEq, Repr

/-- The type that a parameter is set with: a Boolean, an `int64_t` or a string. -/
abbrev Param.Value : Param → Type
  | .ifExists => Bool
  | .limit => ℤ
  | .type => ℤ
  | .mode => ℤ
  | _ => Bytes

/-- `command`. -/
@[ext]
structure Command where
  command : CommandType
  params : (p : Param) → Option p.Value

namespace Command

/-- `command()`. -/
def ofType (command : CommandType) : Command := ⟨command, fun _ => none⟩

/-- `set_bool()`, `set_int64()` and `set_string()`. -/
def set (c : Command) (p : Param) (value : p.Value) : Command :=
  { c with params := Function.update c.params p (some value) }

/-- `get_int64()`, zero when the parameter is not set. -/
def getType (c : Command) : ℤ := (c.params .type).getD (0 : ℤ)

section

variable (c : Command) {p q : Param} (value : p.Value)

@[simp] theorem command_ofType (t : CommandType) : (ofType t).command = t := rfl

@[simp] theorem params_ofType (t : CommandType) : (ofType t).params p = none := rfl

@[simp] theorem command_set : (c.set p value).command = c.command := rfl

@[simp] theorem params_set_self : (c.set p value).params p = some value := by
  simp [set]

theorem params_set_of_ne (h : q ≠ p) : (c.set p value).params q = c.params q := by
  simp [set, h]

end

end Command

end Prinbee
