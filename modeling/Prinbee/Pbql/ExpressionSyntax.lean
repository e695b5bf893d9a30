import Prinbee.Pbql.ExpressionParser

/-!
# The grammar of expressions

The table of operators at the head of `parse_expression.cpp`, as a grammar: the expressions, the
tokens that spell them, which of them may stand below which operator, and the tree that folding an
expression from the leaves to the root gives.

## Main definitions

* `Expression.Syntax` — the expressions.
* `Expression.Spells` — the tokens that spell an expression.
* `Expression.Syntax.level`, `Expression.Leveled` — precedence and associativity.
* `Expression.Syntax.fold` — the tree of an expression.
* `Expression.Plain` — the expressions that can be told from the others by their tokens: a cast
  without parentheses stands at the end, and `NOT` is not a name.
-/

namespace Prinbee

namespace Expression

open TokenStream
open Lexer (Token TokenNode)

/-- The operators between two operands; `||` is not among them. -/
inductive Operator
  | logicalOr
  | logicalAnd
  | comparison (t : BinaryToken)
  | integer (t : BinaryToken)
  | regularExpression (logical_not : Bool)
  | additive (t : BinaryToken)
  | multiplicative (t : BinaryToken)
  | power
  deriving DecidableEq, Repr

/-- The expressions.  A sign and a `NOT` come with those that follow them. -/
inductive Syntax (F : Type)
  | word (s : Bytes)
  | string (s : Bytes) (more : List Bytes)
  | integer (n : Int512)
  | floatingPoint (f : F)
  | allFields
  | group (e : Syntax F)
  | castGroup (t : CastType) (e : Syntax F)
  | castBare (t : CastType) (e : Syntax F)
  | field (e : Syntax F) (name : Bytes)
  | fieldsOf (e : Syntax F)
  | scope (e : Syntax F) (t : CastType)
  | element (e i : Syntax F)
  | callNone (e : Syntax F)
  | call (e params : Syntax F)
  | sign (minus : Bool) (more : List Bool) (e : Syntax F)
  | binary (o : Operator) (l r : Syntax F)
  | concat (l r : Syntax F)
  | ahead (func : Function) (e : Syntax F)
  | between (negate : Bool) (e low high : Syntax F)
  | like (insensitive negate : Bool) (e pattern : Syntax F)
  | is (negate : Bool) (k : IsKeyword) (e : Syntax F)
  | not (more : ℕ) (e : Syntax F)
  | comma (l r : Syntax F)

variable {F : Type} (lib : Library F)

/-! ### Tokens -/

/-- The token of an operator. -/
def Operator.IsToken : Operator → TokenNode F → Prop
  | .logicalOr, n => lib.keyword n = some "OR"
  | .logicalAnd, n => lib.keyword n = some "AND"
  | .comparison t, n => comparisonOf n = some t
  | .integer t, n => otherOf n = some (.integer t)
  | .regularExpression logical_not, n => otherOf n = some (.regularExpression logical_not)
  | .additive t, n => additiveOf n = some t
  | .multiplicative t, n => multiplicativeOf n = some t
  | .power, n => powerOf n = some ()

/-- A keyword. -/
abbrev Word (k : String) : Tokens F → Tokens F → Prop := Spelled fun n => lib.keyword n = some k

/-- A token with this value. -/
abbrev Is (t : Token F) : Tokens F → Tokens F → Prop := Spelled fun n => n.token = t

/-- An optional `NOT`. -/
def Negated (negate : Bool) (ts rest : Tokens F) : Prop :=
  if negate then Word lib "NOT" ts rest else rest = ts

/-- Strings, one after the other. -/
def Strings : List Bytes → Tokens F → Tokens F → Prop
  | [], ts, rest => rest = ts
  | s :: more, ts, rest => ∃ ts₁, Is (.string s) ts ts₁ ∧ Strings more ts₁ rest

/-- Signs, one after the other. -/
def Signs : List Bool → Tokens F → Tokens F → Prop
  | [], ts, rest => rest = ts
  | m :: more, ts, rest => ∃ ts₁, Spelled (fun n => signOfToken n = some m) ts ts₁ ∧ Signs more ts₁ rest

/-- `NOT`, this many times. -/
def Nots : ℕ → Tokens F → Tokens F → Prop
  | 0, ts, rest => rest = ts
  | k + 1, ts, rest => ∃ ts₁, Word lib "NOT" ts ts₁ ∧ Nots k ts₁ rest

/-- The name of a type: one word, `DOUBLE PRECISION`, or `UNSIGNED` and a word. -/
def TypeName (t : CastType) (ts rest : Tokens F) : Prop :=
  Spelled (fun n => n.isIdentifier = true ∧ types.lookup (textOf (lib.toLower n.string)) = some t)
      ts rest ∨
    ∃ ts₁, Spelled (fun n => n.isIdentifier = true ∧
        types.lookup (textOf (lib.toLower n.string)) = none) ts ts₁ ∧
      ((t = .float8 ∧
          Spelled (fun n => n.isIdentifier = true ∧ textOf (lib.toLower n.string) = "double") ts ts₁ ∧
          Word lib "PRECISION" ts₁ rest) ∨
        (Spelled (fun n => n.isIdentifier = true ∧ textOf (lib.toLower n.string) = "unsigned") ts ts₁ ∧
          Spelled (fun n => ∃ k, lib.keyword n = some k ∧ unsignedTypes.lookup k = some t) ts₁ rest))

/-- The tokens that spell an expression. -/
def Spells : Syntax F → Tokens F → Tokens F → Prop
  | .word s, ts, rest => Is (.identifier s) ts rest
  | .string s more, ts, rest => ∃ ts₁, Is (.string s) ts ts₁ ∧ Strings more ts₁ rest
  | .integer n, ts, rest => Is (.integer n) ts rest
  | .floatingPoint f, ts, rest => Is (.floatingPoint f) ts rest
  | .allFields, ts, rest => Is .multiply ts rest
  | .group e, ts, rest => ∃ ts₁ ts₂,
    Is .openParenthesis ts ts₁ ∧ Spells e ts₁ ts₂ ∧ Is .closeParenthesis ts₂ rest
  | .castGroup t e, ts, rest => ∃ ts₁ ts₂ ts₃, TypeName lib t ts ts₁ ∧ Is .openParenthesis ts₁ ts₂ ∧
    Spells e ts₂ ts₃ ∧ Is .closeParenthesis ts₃ rest
  | .castBare t e, ts, rest => ∃ ts₁, TypeName lib t ts ts₁ ∧ Spells e ts₁ rest
  | .field e name, ts, rest => ∃ ts₁ ts₂,
    Spells e ts ts₁ ∧ Is .period ts₁ ts₂ ∧ Is (.identifier name) ts₂ rest
  | .fieldsOf e, ts, rest => ∃ ts₁ ts₂, Spells e ts ts₁ ∧ Is .period ts₁ ts₂ ∧ Is .multiply ts₂ rest
  | .scope e t, ts, rest => ∃ ts₁ ts₂, Spells e ts ts₁ ∧ Is .scope ts₁ ts₂ ∧ TypeName lib t ts₂ rest
  | .element e i, ts, rest => ∃ ts₁ ts₂ ts₃, Spells e ts ts₁ ∧ Is .openBracket ts₁ ts₂ ∧
    Spells i ts₂ ts₃ ∧ Is .closeBracket ts₃ rest
  | .callNone e, ts, rest => ∃ ts₁ ts₂, Spells e ts ts₁ ∧ Is .openParenthesis ts₁ ts₂ ∧
    Is .closeParenthesis ts₂ rest
  | .call e params, ts, rest => ∃ ts₁ ts₂ ts₃, Spells e ts ts₁ ∧ Is .openParenthesis ts₁ ts₂ ∧
    Spells params ts₂ ts₃ ∧ Is .closeParenthesis ts₃ rest
  | .sign minus more e, ts, rest => ∃ ts₁, Signs (minus :: more) ts ts₁ ∧ Spells e ts₁ rest
  | .binary o l r, ts, rest => ∃ ts₁ ts₂,
    Spells l ts ts₁ ∧ Spelled (o.IsToken lib) ts₁ ts₂ ∧ Spells r ts₂ rest
  | .concat l r, ts, rest => ∃ ts₁ ts₂, Spells l ts ts₁ ∧ Is .stringConcat ts₁ ts₂ ∧ Spells r ts₂ rest
  | .ahead func e, ts, rest => ∃ ts₁,
    Spelled (fun n => prefixOf n = some func) ts ts₁ ∧ Spells e ts₁ rest
  | .between negate e low high, ts, rest => ∃ ts₁ ts₂ ts₃ ts₄ ts₅, Spells e ts ts₁ ∧
    Negated lib negate ts₁ ts₂ ∧ Word lib "BETWEEN" ts₂ ts₃ ∧ Spells low ts₃ ts₄ ∧
    Word lib "AND" ts₄ ts₅ ∧ Spells high ts₅ rest
  | .like insensitive negate e pattern, ts, rest => ∃ ts₁ ts₂ ts₃, Spells e ts ts₁ ∧
    Negated lib negate ts₁ ts₂ ∧ Word lib (if insensitive then "ILIKE" else "LIKE") ts₂ ts₃ ∧
    Spells pattern ts₃ rest
  | .is negate k e, ts, rest => ∃ ts₁ ts₂ ts₃, Spells e ts ts₁ ∧ Word lib "IS" ts₁ ts₂ ∧
    Negated lib negate ts₂ ts₃ ∧
    Spelled (fun n => ∃ w, lib.keyword n = some w ∧ isKeywords.lookup w = some k) ts₃ rest
  | .not more e, ts, rest => ∃ ts₁, Nots lib (more + 1) ts ts₁ ∧ Spells e ts₁ rest
  | .comma l r, ts, rest => ∃ ts₁ ts₂, Spells l ts ts₁ ∧ Is .comma ts₁ ts₂ ∧ Spells r ts₂ rest

/-! ### Precedence -/

/-- The level of an operator; an operator with a higher level binds tighter. -/
def Operator.level : Operator → ℕ
  | .logicalOr => 1
  | .logicalAnd => 2
  | .comparison _ => 5
  | .integer _ | .regularExpression _ => 7
  | .additive _ => 8
  | .multiplicative _ => 9
  | .power => 10

namespace Syntax

/-- The level of an expression. -/
def level : Syntax F → ℕ
  | comma _ _ => 0
  | binary o _ _ => o.level
  | not _ _ => 3
  | is _ _ _ => 4
  | between _ _ _ _ | like _ _ _ _ => 6
  | concat _ _ | ahead _ _ => 7
  | sign _ _ _ => 11
  | _ => 12

/-- An operator before its operand. -/
def isAhead : Syntax F → Bool
  | ahead _ _ => true
  | _ => false

/-- An operator `||` and its operands. -/
def isConcat : Syntax F → Bool
  | concat _ _ => true
  | _ => false

/-- `.*` was found among the postfixes. -/
def foundAllFields : Syntax F → Bool
  | fieldsOf _ => true
  | field e _ | scope e _ | element e _ | callNone e | call e _ => e.foundAllFields
  | _ => false

/-- The expression ends with a cast without parentheses. -/
def isOpen : Syntax F → Bool
  | castBare _ _ => true
  | sign _ _ e | ahead _ e | not _ e => e.isOpen
  | binary _ _ r | concat _ r | comma _ r => r.isOpen
  | between _ _ _ high => high.isOpen
  | like _ _ _ pattern => pattern.isOpen
  | _ => false

/-- The expression starts with a parenthesis. -/
def startsWithGroup : Syntax F → Bool
  | group _ => true
  | field e _ | fieldsOf e | scope e _ | element e _ | callNone e | call e _ => e.startsWithGroup
  | binary _ l _ | concat l _ | comma l _ => l.startsWithGroup
  | between _ e _ _ | like _ _ e _ | is _ _ e => e.startsWithGroup
  | _ => false

end Syntax

/-- Precedence and associativity: the operands of an operator bind tighter than the operator, or as
tight on its left.  A word is no type, and no period stands behind `.*`. -/
def Leveled : Syntax F → Prop
  | .word s => types.lookup (textOf (lib.toLower s)) = none ∧ textOf (lib.toLower s) ≠ "double" ∧
    textOf (lib.toLower s) ≠ "unsigned"
  | .string _ _ | .integer _ | .floatingPoint _ | .allFields => True
  | .group e | .castGroup _ e | .castBare _ e => Leveled e ∧ 1 ≤ e.level
  | .field e _ | .fieldsOf e => Leveled e ∧ 12 ≤ e.level ∧ e.foundAllFields = false
  | .scope e _ | .callNone e => Leveled e ∧ 12 ≤ e.level
  | .element e i => Leveled e ∧ Leveled i ∧ 12 ≤ e.level ∧ 1 ≤ i.level
  | .call e params => Leveled e ∧ Leveled params ∧ 12 ≤ e.level
  | .sign _ _ e => Leveled e ∧ 12 ≤ e.level
  | .binary o l r =>
    Leveled l ∧ Leveled r ∧ o.level ≤ l.level ∧ o.level < r.level ∧
      (o.level = 7 → l.isAhead = false)
  | .concat l r => Leveled l ∧ Leveled r ∧ 7 ≤ l.level ∧ 8 ≤ r.level ∧ l.isAhead = false
  | .ahead func e => Leveled e ∧ 7 ≤ e.level ∧ func ∈ [Function.abs, .sqrt, .cbrt]
  | .between _ e low high =>
    Leveled e ∧ Leveled low ∧ Leveled high ∧ 7 ≤ e.level ∧ 7 ≤ low.level ∧ 7 ≤ high.level
  | .like _ _ e pattern => Leveled e ∧ Leveled pattern ∧ 7 ≤ e.level ∧ 7 ≤ pattern.level
  | .is _ _ e => Leveled e ∧ 4 ≤ e.level
  | .not _ e => Leveled e ∧ 4 ≤ e.level
  | .comma l r => Leveled l ∧ Leveled r ∧ 1 ≤ r.level

/-- The expression is told from the others by its tokens: no word is `NOT`, and a cast without
parentheses, which goes as far as it can, stands at the end, with no parenthesis behind the type. -/
def Plain : Syntax F → Prop
  | .word s => textOf (lib.toUpper s) ≠ "NOT"
  | .string _ _ | .integer _ | .floatingPoint _ | .allFields => True
  | .group e | .castGroup _ e | .sign _ _ e | .ahead _ e | .not _ e => Plain e
  | .castBare _ e => Plain e ∧ e.startsWithGroup = false
  | .field e _ | .fieldsOf e | .scope e _ | .callNone e | .is _ _ e => Plain e ∧ e.isOpen = false
  | .element e i | .call e i => Plain e ∧ Plain i ∧ e.isOpen = false
  | .binary _ l r | .concat l r => Plain l ∧ Plain r ∧ l.isOpen = false
  | .comma l r => Plain l ∧ Plain r
  | .between _ e low high =>
    Plain e ∧ Plain low ∧ Plain high ∧ e.isOpen = false ∧ low.isOpen = false
  | .like _ _ e pattern => Plain e ∧ Plain pattern ∧ e.isOpen = false

/-! ### Folding -/

/-- The tree of an operator with two operands. -/
def Operator.fold (o : Operator) (l r : ExprTree F) : Option (ExprTree F) :=
  match o with
  | .logicalOr => (foldLogicalOr lib l r).toOption
  | .logicalAnd => (foldLogicalAnd lib l r).toOption
  | .comparison t => (foldComparison lib t l r).toOption
  | .integer t => (foldOther lib t l r).toOption
  | .regularExpression logical_not => (foldRegularExpression lib logical_not l r).toOption
  | .additive t => if refusedByAdditive lib l r then none else (foldAdditive lib t l r).toOption
  | .multiplicative t => (foldMultiplicative lib t l r).toOption
  | .power => (foldPower lib l r).toOption

/-- The tree of a call. -/
def foldCall (e : ExprTree F) (params : List (ExprTree F)) : Option (ExprTree F) :=
  match e with
  | .identifier name => do
    let f ← functionNamed (textOf (lib.toUpper name))
    if f.2.getD params.length ≠ params.length then none
    else if f.1 = .atan then do
      let func ← atanCall params
      (functionCall lib func params).toOption
    else (functionCall lib f.1 params).toOption
  | _ => none

/-- The tree of a number with signs. -/
def foldSign (minus : Bool) (more : List Bool) (e : ExprTree F) : Option (ExprTree F) :=
  if (refusedByUnary lib e).isSome then none
  else (foldUnary lib (more.foldl (fun negate m => negate ^^ m) minus) e).toOption

namespace Syntax

/-- The tree of an expression, from its parts. -/
def assemble (e : Syntax F) (parts : Option (List (ExprTree F))) : Option (ExprTree F) :=
  match e with
  | comma _ _ => none
  | concat _ _ => parts.bind fun ps => (concatCall lib ps).toOption
  | _ => parts.bind List.head?

/-- The operands of `||`. -/
def operandsOf (e : Syntax F) (parts : Option (List (ExprTree F))) : Option (List (ExprTree F)) :=
  match e with
  | concat _ _ => parts
  | _ => (e.assemble lib parts).map fun v => [v]

/-- The expressions of a list. -/
def itemsOf (e : Syntax F) (parts : Option (List (ExprTree F))) : Option (List (ExprTree F)) :=
  match e with
  | comma _ _ => parts
  | _ => (e.assemble lib parts).map fun v => [v]

/-- The parts of an expression: the operands of `||` with the literals merged, the expressions of a
list, and the tree of any other expression. -/
def parts : Syntax F → Option (List (ExprTree F))
  | word s => some [wordTree (lib.toLower s)]
  | string s more => some [.string (s ++ more.flatten)]
  | integer n => some [.integer n]
  | floatingPoint f => some [.floatingPoint f]
  | allFields => some [.allFields]
  | group e => (e.assemble lib e.parts).map fun v => [v]
  | castGroup t e | castBare t e | scope e t => (e.assemble lib e.parts).map fun v => [.cast t v]
  | field e name =>
    (e.assemble lib e.parts).map fun v => [.period v (.name (lib.toLower name))]
  | fieldsOf e => (e.assemble lib e.parts).map fun v => [.period v .allFields]
  | element e i => do
    let v ← e.assemble lib e.parts
    let w ← i.assemble lib i.parts
    some [.elementAt v w]
  | callNone e => do
    let v ← e.assemble lib e.parts
    let r ← foldCall lib v []
    some [r]
  | call e params => do
    let v ← e.assemble lib e.parts
    let ps ← params.itemsOf lib params.parts
    let r ← foldCall lib v ps
    some [r]
  | sign minus more e => do
    let v ← e.assemble lib e.parts
    let r ← foldSign lib minus more v
    some [r]
  | binary o l r => do
    let v ← l.assemble lib l.parts
    let w ← r.assemble lib r.parts
    let x ← o.fold lib v w
    some [x]
  | concat l r => do
    let ps ← l.operandsOf lib l.parts
    let v ← r.assemble lib r.parts
    (concatParam lib ps v).toOption
  | ahead func e => do
    let v ← e.assemble lib e.parts
    let r ← (functionCall lib func [v]).toOption
    some [r]
  | between negate e low high => do
    let v ← e.assemble lib e.parts
    let b1 ← low.assemble lib low.parts
    let b2 ← high.assemble lib high.parts
    let r ← (foldBetween lib negate v b1 b2).toOption
    some [r]
  | like insensitive negate e pattern => do
    let v ← e.assemble lib e.parts
    let p ← pattern.assemble lib pattern.parts
    let r ← (foldLike lib insensitive negate v p).toOption
    some [r]
  | is negate k e => (e.assemble lib e.parts).map fun v => [foldIs lib negate k v]
  | not more e => do
    let v ← e.assemble lib e.parts
    let r ← (foldLogicalNot lib (more % 2 = 0) v).toOption
    some [r]
  | comma l r => do
    let ps ← l.itemsOf lib l.parts
    let v ← r.assemble lib r.parts
    some (ps ++ [v])

/-- The tree of an expression, folded from the leaves to the root. -/
def fold (e : Syntax F) : Option (ExprTree F) := e.assemble lib (e.parts lib)

/-- The operands of `||`, with the literals merged. -/
def operands (e : Syntax F) : Option (List (ExprTree F)) := e.operandsOf lib (e.parts lib)

/-- The trees of a list. -/
def items (e : Syntax F) : Option (List (ExprTree F)) := e.itemsOf lib (e.parts lib)

/-! ### The tree of each expression -/

theorem toOption_eq_some {α : Type} {y : Except Failure α} {a : α} :
    y.toOption = some a ↔ y = .ok a := by
  cases y with
  | error e => simp [Except.toOption]
  | ok b => simp [Except.toOption]

section

variable {lib} {e l r i low high pattern params : Syntax F} {x v w : ExprTree F}

@[simp] theorem fold_word (s : Bytes) :
    (word s : Syntax F).fold lib = some (wordTree (lib.toLower s)) := rfl

@[simp] theorem fold_string (s : Bytes) (more : List Bytes) :
    (string s more : Syntax F).fold lib = some (.string (s ++ more.flatten)) := rfl

@[simp] theorem fold_integer (n : Int512) :
    (integer n : Syntax F).fold lib = some (.integer n) := rfl

@[simp] theorem fold_floatingPoint (f : F) :
    (floatingPoint f).fold lib = some (.floatingPoint f) := rfl

@[simp] theorem fold_allFields : (allFields : Syntax F).fold lib = some .allFields := rfl

/-- A tree that is the only part of an expression. -/
theorem bind_head_map {α β : Type} (x : Option α) (f : α → β) :
    ((x.map fun v => [f v]).bind List.head?) = x.map f := by
  cases x with
  | none => rfl
  | some v => rfl

@[simp] theorem fold_group : (group e).fold lib = e.fold lib := by
  have h : (group e).fold lib = (e.fold lib).map id := bind_head_map _ _
  rw [h, Option.map_id, id]

@[simp] theorem fold_castGroup (t : CastType) :
    (castGroup t e).fold lib = (e.fold lib).map (.cast t) := bind_head_map _ _

@[simp] theorem fold_castBare (t : CastType) :
    (castBare t e).fold lib = (e.fold lib).map (.cast t) := bind_head_map _ _

@[simp] theorem fold_scope (t : CastType) :
    (scope e t).fold lib = (e.fold lib).map (.cast t) := bind_head_map _ _

@[simp] theorem fold_field (name : Bytes) :
    (field e name).fold lib = (e.fold lib).map fun v => .period v (.name (lib.toLower name)) :=
  bind_head_map _ _

@[simp] theorem fold_fieldsOf :
    (fieldsOf e).fold lib = (e.fold lib).map fun v => .period v .allFields := bind_head_map _ _

@[simp] theorem fold_is (negate : Bool) (k : IsKeyword) :
    (is negate k e).fold lib = (e.fold lib).map (foldIs lib negate k) := bind_head_map _ _

theorem fold_element_eq_some : (element e i).fold lib = some x ↔
    ∃ v w, e.fold lib = some v ∧ i.fold lib = some w ∧ .elementAt v w = x := by
  have h : (element e i).fold lib = ((e.fold lib).bind fun v => (i.fold lib).bind fun w =>
      some [.elementAt v w]).bind List.head? := rfl
  simp [h, Option.bind_assoc, Option.bind_eq_some_iff]

theorem fold_callNone_eq_some : (callNone e).fold lib = some x ↔
    ∃ v, e.fold lib = some v ∧ foldCall lib v [] = some x := by
  have h : (callNone e).fold lib = ((e.fold lib).bind fun v => (foldCall lib v []).bind fun r =>
      some [r]).bind List.head? := rfl
  simp [h, Option.bind_assoc, Option.bind_eq_some_iff]

theorem fold_call_eq_some : (call e params).fold lib = some x ↔
    ∃ v ps, e.fold lib = some v ∧ params.items lib = some ps ∧ foldCall lib v ps = some x := by
  have h : (call e params).fold lib = ((e.fold lib).bind fun v => (params.items lib).bind fun ps =>
      (foldCall lib v ps).bind fun r => some [r]).bind List.head? := rfl
  simp [h, Option.bind_assoc, Option.bind_eq_some_iff]

theorem fold_sign_eq_some {minus : Bool} {more : List Bool} :
    (sign minus more e).fold lib = some x ↔
      ∃ v, e.fold lib = some v ∧ foldSign lib minus more v = some x := by
  have h : (sign minus more e).fold lib = ((e.fold lib).bind fun v =>
      (foldSign lib minus more v).bind fun r => some [r]).bind List.head? := rfl
  simp [h, Option.bind_assoc, Option.bind_eq_some_iff]

theorem fold_binary_eq_some {o : Operator} : (binary o l r).fold lib = some x ↔
    ∃ v w, l.fold lib = some v ∧ r.fold lib = some w ∧ o.fold lib v w = some x := by
  have h : (binary o l r).fold lib = ((l.fold lib).bind fun v => (r.fold lib).bind fun w =>
      (o.fold lib v w).bind fun x => some [x]).bind List.head? := rfl
  simp [h, Option.bind_assoc, Option.bind_eq_some_iff]

theorem fold_ahead_eq_some {func : Function} : (ahead func e).fold lib = some x ↔
    ∃ v, e.fold lib = some v ∧ functionCall lib func [v] = .ok x := by
  have h : (ahead func e).fold lib = ((e.fold lib).bind fun v =>
      (functionCall lib func [v]).toOption.bind fun r => some [r]).bind List.head? := rfl
  simp [h, Option.bind_assoc, Option.bind_eq_some_iff, toOption_eq_some]

theorem fold_between_eq_some {negate : Bool} : (between negate e low high).fold lib = some x ↔
    ∃ v b1 b2, e.fold lib = some v ∧ low.fold lib = some b1 ∧ high.fold lib = some b2 ∧
      foldBetween lib negate v b1 b2 = .ok x := by
  have h : (between negate e low high).fold lib = ((e.fold lib).bind fun v =>
      (low.fold lib).bind fun b1 => (high.fold lib).bind fun b2 =>
        (foldBetween lib negate v b1 b2).toOption.bind fun r => some [r]).bind List.head? := rfl
  simp [h, Option.bind_assoc, Option.bind_eq_some_iff, toOption_eq_some]

theorem fold_like_eq_some {insensitive negate : Bool} :
    (like insensitive negate e pattern).fold lib = some x ↔
      ∃ v p, e.fold lib = some v ∧ pattern.fold lib = some p ∧
        foldLike lib insensitive negate v p = .ok x := by
  have h : (like insensitive negate e pattern).fold lib = ((e.fold lib).bind fun v =>
      (pattern.fold lib).bind fun p =>
        (foldLike lib insensitive negate v p).toOption.bind fun r => some [r]).bind List.head? := rfl
  simp [h, Option.bind_assoc, Option.bind_eq_some_iff, toOption_eq_some]

theorem fold_not_eq_some {more : ℕ} : (not more e).fold lib = some x ↔
    ∃ v, e.fold lib = some v ∧ foldLogicalNot lib (more % 2 = 0) v = .ok x := by
  have h : (not more e).fold lib = ((e.fold lib).bind fun v =>
      (foldLogicalNot lib (more % 2 = 0) v).toOption.bind fun r => some [r]).bind List.head? := rfl
  simp [h, Option.bind_assoc, Option.bind_eq_some_iff, toOption_eq_some]

theorem fold_concat_eq_some : (concat l r).fold lib = some x ↔
    ∃ ps v qs, l.operands lib = some ps ∧ r.fold lib = some v ∧ concatParam lib ps v = .ok qs ∧
      concatCall lib qs = .ok x := by
  have h : (concat l r).fold lib =
      ((l.operands lib).bind fun ps => (r.fold lib).bind fun v =>
        (concatParam lib ps v).toOption).bind fun ps => (concatCall lib ps).toOption := rfl
  simp only [h, Option.bind_eq_some_iff, toOption_eq_some]
  constructor
  · rintro ⟨qs, ⟨ps, hps, v, hv, hq⟩, hx⟩
    exact ⟨ps, v, qs, hps, hv, hq, hx⟩
  · rintro ⟨ps, v, qs, hps, hv, hq, hx⟩
    exact ⟨qs, ⟨ps, hps, v, hv, hq⟩, hx⟩

theorem operands_concat_eq_some {qs : List (ExprTree F)} : (concat l r).operands lib = some qs ↔
    ∃ ps v, l.operands lib = some ps ∧ r.fold lib = some v ∧ concatParam lib ps v = .ok qs := by
  have h : (concat l r).operands lib = (l.operands lib).bind fun ps => (r.fold lib).bind fun v =>
      (concatParam lib ps v).toOption := rfl
  simp [h, Option.bind_eq_some_iff, toOption_eq_some]

theorem items_comma_eq_some {qs : List (ExprTree F)} : (comma l r).items lib = some qs ↔
    ∃ ps v, l.items lib = some ps ∧ r.fold lib = some v ∧ ps ++ [v] = qs := by
  have h : (comma l r).items lib = (l.items lib).bind fun ps => (r.fold lib).bind fun v =>
      some (ps ++ [v]) := rfl
  simp [h, Option.bind_eq_some_iff]

/-- An expression that is no `||` is its only operand. -/
theorem operands_of_not_concat (h : e.isConcat = false) :
    e.operands lib = (e.fold lib).map fun v => [v] := by
  cases e with
  | concat l r => cases h
  | _ => rfl

/-- An operator `||` is a call with its operands. -/
theorem fold_of_isConcat (h : e.isConcat = true) :
    e.fold lib = (e.operands lib).bind fun ps => (concatCall lib ps).toOption := by
  cases e with
  | concat l r => rfl
  | _ => cases h

/-- An expression that is no list is its only item. -/
theorem items_of_level (h : 1 ≤ e.level) : e.items lib = (e.fold lib).map fun v => [v] := by
  cases e with
  | comma l r => cases h
  | _ => rfl

end

end Syntax

end Expression

end Prinbee
