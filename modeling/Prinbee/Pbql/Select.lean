import Prinbee.Pbql.Grammar

/-!
# SELECT

The grammar of a SELECT, with what the command records of it, and what `parse_select()` accepts.  The
comma between two tables, the name of an ORDER BY, the integer of a LIMIT and the mode of an OUTPUT
are not taken, so that the statement ends there with an exception; a name that is a keyword is read
a second time as this keyword.

## Main definitions

* `Parser.SelectStatement`, `Parser.SelectStatement.command` — a statement, and its command.
* `Parser.ReadsSelect` — the grammar.
* `Parser.AcceptsSelect` — what the parser accepts.

## Main results

* `Parser.run_parseSelect_eq_ok` — the parser returns the commands of the statements it accepts.
-/

namespace Prinbee

namespace Parser

open TokenStream Reader
open Lexer (TokenNode)

variable {F : Type}

/-! ### The statement -/

/-- An expression and its name; the source takes an expression that begins with DEFAULT for the
beginning of `DEFAULT VALUES`. -/
structure SelectItem where
  expression : Bytes
  name : Option Bytes
  isDefault : Bool

/-- A table and its name. -/
structure SelectTable where
  table : Bytes
  name : Option Bytes

inductive SelectClause
  | where_ (expression : Bytes)
  | orderBy (index : Bytes)
  | limit (n : ℤ)

/-- WHERE, ORDER BY or LIMIT. -/
def SelectClause.kind : SelectClause → Fin 3
  | where_ _ => 0
  | orderBy _ => 1
  | limit _ => 2

def SelectClause.where? : SelectClause → Option Bytes
  | where_ e => some e
  | _ => none

def SelectClause.orderBy? : SelectClause → Option Bytes
  | orderBy i => some i
  | _ => none

def SelectClause.limit? : SelectClause → Option ℤ
  | limit n => some n
  | _ => none

/-- A statement; it has no items when it is `DEFAULT VALUES`. -/
structure SelectStatement where
  items : List SelectItem
  tables : List SelectTable
  clauses : List SelectClause
  output : Option ParamMode

/-- The command records all parts of the statement at their position. -/
def SelectStatement.command (s : SelectStatement) : Command where
  command := .select
  params
    | .expression k => s.items[k]?.map (·.expression)
    | .columnName k => s.items[k]?.map fun i => i.name.getD (Parser.columnName k)
    | .table k => s.tables[k]?.map (·.table)
    | .tableName k => s.tables[k]?.bind (·.name)
    | .where_ => s.clauses.findSome? (·.where?)
    | .orderBy => s.clauses.findSome? (·.orderBy?)
    | .limit => s.clauses.findSome? (·.limit?)
    | .mode => s.output.map (·.toInt)
    | _ => none

/-! ### The grammar -/

section

variable (lib : Library F)

/-- `expression [AS name]`. -/
inductive ReadsItem : Grammar Failure (TokenNode F) SelectItem
  | unnamed {ts rest : Tokens F} {n : TokenNode F} {left : Tokens F} {e : Bytes}
    (hnext : ts.next = .ok (n, left)) (he : Expression lib ts e rest) {m : TokenNode F}
    {behind : Tokens F} (hbehind : rest.next = .ok (m, behind)) (has : lib.keyword m ≠ some "AS") :
    ReadsItem ts ⟨e, none, lib.keyword n = some "DEFAULT"⟩ rest
  | named {ts ts₁ ts₂ rest : Tokens F} {n : TokenNode F} {left : Tokens F} {e : Bytes}
    {m : TokenNode F} (hnext : ts.next = .ok (n, left)) (he : Expression lib ts e ts₁)
    (has : Keyword lib "AS" ts₁ ts₂) (hm : Identifier ts₂ m rest) :
    ReadsItem ts ⟨e, some (lib.toLower m.string), lib.keyword n = some "DEFAULT"⟩ rest

/-- `DEFAULT VALUES`, or the items. -/
inductive ReadsFields : Grammar Failure (TokenNode F) (List SelectItem)
  | defaultValues {ts ts₁ rest : Tokens F} (hdefault : Keyword lib "DEFAULT" ts ts₁)
    (hvalues : Keyword lib "VALUES" ts₁ rest) : ReadsFields ts [] rest
  | items {ts rest : Tokens F} {items : List SelectItem}
    (h : Separated TokenNode.isComma (ReadsItem lib) ts items rest)
    (hmax : items.length ≤ maxExpressions) : ReadsFields ts items rest

/-- `table [AS name]`. -/
inductive ReadsTable : Grammar Failure (TokenNode F) SelectTable
  | unnamed {ts rest : Tokens F} {n : TokenNode F} (hn : Identifier ts n rest) {m : TokenNode F}
    {behind : Tokens F} (hbehind : rest.next = .ok (m, behind)) (has : lib.keyword m ≠ some "AS") :
    ReadsTable ts ⟨n.string, none⟩ rest
  | named {ts ts₁ ts₂ rest : Tokens F} {n m : TokenNode F} (hn : Identifier ts n ts₁)
    (has : Keyword lib "AS" ts₁ ts₂) (hm : Identifier ts₂ m rest) :
    ReadsTable ts ⟨n.string, some m.string⟩ rest

/-- `WHERE expression`, `ORDER BY index`, `ORDER BY PRIMARY KEY` or `LIMIT n`. -/
inductive ReadsClause : Grammar Failure (TokenNode F) SelectClause
  | where_ {ts ts₁ rest : Tokens F} {e : Bytes} (hwhere : Keyword lib "WHERE" ts ts₁)
    (he : Expression lib ts₁ e rest) : ReadsClause ts (.where_ e) rest
  | index {ts ts₁ ts₂ rest : Tokens F} {n : TokenNode F} (horder : Keyword lib "ORDER" ts ts₁)
    (hby : Keyword lib "BY" ts₁ ts₂) (hn : Identifier ts₂ n rest) :
    ReadsClause ts (.orderBy (lib.toLower n.string)) rest
  | primaryKey {ts ts₁ ts₂ ts₃ rest : Tokens F} (horder : Keyword lib "ORDER" ts ts₁)
    (hby : Keyword lib "BY" ts₁ ts₂) (hprimary : Keyword lib "PRIMARY" ts₂ ts₃)
    (hkey : Keyword lib "KEY" ts₃ rest) : ReadsClause ts (.orderBy primaryKeyName) rest
  | limit {ts ts₁ rest : Tokens F} {n : TokenNode F} {v : Int512} (hlimit : Keyword lib "LIMIT" ts ts₁)
    (hnext : ts₁.next = .ok (n, rest)) (hv : n.integer = some v) (hpos : 1 ≤ v.toInt)
    (hmax : v.toInt ≤ maxLimit) : ReadsClause ts (.limit v.toInt) rest

/-- `FROM` with tables and clauses, when it is there. -/
inductive ReadsFrom : Tokens F → List SelectTable → List SelectClause → Tokens F → Prop
  | none (ts : Tokens F) : ReadsFrom ts [] [] ts
  | from_ {ts ts₁ ts₂ rest : Tokens F} {tables : List SelectTable} {clauses : List SelectClause}
    (hfrom : Keyword lib "FROM" ts ts₁)
    (htables : Separated TokenNode.isComma (ReadsTable lib) ts₁ tables ts₂)
    (hmax : tables.length ≤ maxTables) (hclauses : Many (ReadsClause lib) ts₂ clauses rest)
    (honce : (clauses.map SelectClause.kind).Nodup) : ReadsFrom ts tables clauses rest

/-- `OUTPUT mode`, when it is there. -/
inductive ReadsOutput : Grammar Failure (TokenNode F) (Option ParamMode)
  | none (ts : Tokens F) : ReadsOutput ts none ts
  | output {ts ts₁ rest : Tokens F} {mode : ParamMode} (houtput : Keyword lib "OUTPUT" ts ts₁)
    (hmode : Keyword lib mode.text ts₁ rest) : ReadsOutput ts (some mode) rest

/-- **The grammar**, from behind SELECT. -/
def ReadsSelect : Grammar Failure (TokenNode F) SelectStatement := fun ts s rest =>
  ∃ ts₁ ts₂ ts₃, ReadsFields lib ts s.items ts₁ ∧ ReadsFrom lib ts₁ s.tables s.clauses ts₂ ∧
    ReadsOutput lib ts₂ s.output ts₃ ∧ SemiColon ts₃ rest

/-! ### What the parser accepts -/

/-- `DEFAULT` and what the parser takes for `VALUES`: any identifier, and a string with this text. -/
def AcceptsDefault (ts : Tokens F) (n : TokenNode F) (rest : Tokens F) : Prop :=
  ∃ ts₁, Keyword lib "DEFAULT" ts ts₁ ∧ ts₁.next = .ok (n, rest) ∧
    (n.isIdentifier = false → textOf (lib.toUpper n.string) = "VALUES")

/-- Items of which none begins with DEFAULT. -/
def AcceptsItems : Grammar Failure (TokenNode F) (List SelectItem) := fun ts items rest =>
  Separated TokenNode.isComma (ReadsItem lib) ts items rest ∧ items.length ≤ maxExpressions ∧
    ∀ i ∈ items, i.isDefault = false

/-- `ORDER BY`, and the keyword WHERE as the name. -/
def OrderByWhere : Grammar Failure (TokenNode F) Bytes := fun ts index rest =>
  ∃ ts₁ ts₂ n, Keyword lib "ORDER" ts ts₁ ∧ Keyword lib "BY" ts₁ ts₂ ∧ ts₂.next = .ok (n, rest) ∧
    lib.keyword n = some "WHERE" ∧ index = lib.toLower n.string

/-- A WHERE, or an ORDER BY with the name WHERE, which the parser reads as the keyword again. -/
inductive AcceptsClauses : Grammar Failure (TokenNode F) (List SelectClause)
  | none (ts : Tokens F) : AcceptsClauses ts [] ts
  | where_ {ts ts₁ rest : Tokens F} {e : Bytes} (hwhere : Keyword lib "WHERE" ts ts₁)
    (he : Expression lib ts₁ e rest) : AcceptsClauses ts [.where_ e] rest
  | again {ts ts₁ rest : Tokens F} {index e : Bytes} (horder : OrderByWhere lib ts index ts₁)
    (he : Expression lib ts₁ e rest) : AcceptsClauses ts [.orderBy index, .where_ e] rest

/-- One table. -/
inductive AcceptsFrom : Tokens F → List SelectTable → List SelectClause → Tokens F → Prop
  | none (ts : Tokens F) : AcceptsFrom ts [] [] ts
  | from_ {ts ts₁ ts₂ rest : Tokens F} {table : SelectTable} {clauses : List SelectClause}
    (hfrom : Keyword lib "FROM" ts ts₁) (htable : ReadsTable lib ts₁ table ts₂)
    (hclauses : AcceptsClauses lib ts₂ clauses rest) : AcceptsFrom ts [table] clauses rest

/-- A statement that the parser accepts. -/
def AcceptsSelect : Grammar Failure (TokenNode F) SelectStatement := fun ts s rest =>
  ∃ ts₁ ts₂, ((s.items = [] ∧ ∃ n, AcceptsDefault lib ts n ts₁) ∨ AcceptsItems lib ts s.items ts₁) ∧
    AcceptsFrom lib ts₁ s.tables s.clauses ts₂ ∧ s.output = none ∧ SemiColon ts₂ rest

end

/-! ### The expressions -/

/-- What a turn of the loop over the expressions records. -/
def recordItem (command : Command) (count : ℕ) (item : SelectItem) : Command :=
  (command.set (.expression count) item.expression).set (.columnName count)
    (item.name.getD (columnName count))

section

variable {lib : Library F} {ts rest : Tokens F} {command : Command} {count : ℕ}

theorem expression_recordItem (command : Command) (count : ℕ) (item : SelectItem) :
    (recordItem command count item).params (.expression count) = some item.expression := by
  unfold recordItem
  rw [Command.params_set_of_ne _ _ (by simp), Command.params_set_self]

theorem columnName_recordItem (command : Command) (count : ℕ) (item : SelectItem) :
    (recordItem command count item).params (.columnName count) =
      some (item.name.getD (columnName count)) :=
  Command.params_set_self _ _

theorem params_recordItem {p : Param} (item : SelectItem) (he : p ≠ .expression count)
    (hn : p ≠ .columnName count) : (recordItem command count item).params p = command.params p := by
  unfold recordItem
  rw [Command.params_set_of_ne _ _ hn, Command.params_set_of_ne _ _ he]

theorem next_of_run_selectField {s : SelectFields}
    (h : (selectField lib command count).run ts = .ok (s, rest)) :
    ∃ n left, ts.next = .ok (n, left) := by
  unfold selectField at h
  obtain ⟨n, left, hnext, -⟩ := run_peek_bind_eq_ok.1 h
  exact ⟨n, left, hnext⟩

/-- A turn of the loop over the expressions that reads an expression. -/
theorem run_selectField_eq_ok_of_ne {n : TokenNode F} {left : Tokens F} {s : SelectFields}
    (hnext : ts.next = .ok (n, left)) (hn : lib.keyword n ≠ some "DEFAULT") :
    (selectField lib command count).run ts = .ok (s, rest) ↔
      count < maxExpressions ∧ ∃ item, ReadsItem lib ts item rest ∧ item.isDefault = false ∧
        s = ⟨recordItem command count item, count, false⟩ := by
  unfold selectField
  rw [run_peek_bind_eq_ok]
  constructor
  · rintro ⟨n', left', hnext', h⟩
    rw [hnext] at hnext'
    cases hnext'
    rw [run_ite, if_neg hn, run_ite] at h
    split at h
    · exact absurd h (run_unexpected _ _ _)
    · next hmax =>
      refine ⟨Nat.lt_of_not_le hmax, ?_⟩
      obtain ⟨e, ts₁, he, h⟩ := run_bind_eq_ok.1 h
      obtain ⟨m, behind, hbehind, h⟩ := run_peek_bind_eq_ok.1 h
      rw [run_ite] at h
      split at h
      · next has =>
        obtain ⟨m', ts₂, hm', h⟩ := run_take_bind_eq_ok.1 h
        obtain ⟨k, behind', hk, h⟩ := run_peek_bind_eq_ok.1 h
        rw [run_ite] at h
        split at h
        · next hid =>
          obtain ⟨k', ts₃, hk', h⟩ := run_take_bind_eq_ok.1 h
          rw [hbehind] at hm'
          rw [hk] at hk'
          cases hm'
          cases hk'
          cases h
          exact ⟨_, .named hnext he ⟨m, hbehind, has⟩ ⟨hk, hid⟩, decide_eq_false hn, rfl⟩
        · exact absurd h (run_unexpected _ _ _)
      · next has =>
        cases h
        exact ⟨_, .unnamed hnext he hbehind has, decide_eq_false hn, rfl⟩
  · rintro ⟨hmax, item, hitem, -, rfl⟩
    refine ⟨n, left, hnext, ?_⟩
    rw [run_ite, if_neg hn, run_ite, if_neg (Nat.not_le_of_lt hmax)]
    cases hitem with
    | unnamed hnext' he hbehind has =>
      refine run_bind_eq_ok.2 ⟨_, _, he, run_peek_bind_eq_ok.2 ⟨_, _, hbehind, ?_⟩⟩
      rw [run_ite, if_neg has]
      rfl
    | named hnext' he has hm =>
      obtain ⟨k, hk, has⟩ := has
      refine run_bind_eq_ok.2 ⟨_, _, he, run_peek_bind_eq_ok.2 ⟨_, _, hk, ?_⟩⟩
      rw [run_ite, if_pos has]
      refine run_take_bind_eq_ok.2 ⟨_, _, hk, run_peek_bind_eq_ok.2 ⟨_, _, hm.1, ?_⟩⟩
      rw [run_ite, if_pos hm.2]
      exact run_take_bind_eq_ok.2 ⟨_, _, hm.1, rfl⟩

/-- A turn of the loop over the expressions that reads DEFAULT. -/
theorem run_selectField_eq_ok_of_eq {n : TokenNode F} {left : Tokens F} {s : SelectFields}
    (hnext : ts.next = .ok (n, left)) (hn : lib.keyword n = some "DEFAULT") :
    (selectField lib command count).run ts = .ok (s, rest) ↔
      command.params (.expression 0) = none ∧ (∃ m, AcceptsDefault lib ts m rest) ∧
        s = ⟨command, count, true⟩ := by
  unfold selectField
  rw [run_peek_bind_eq_ok]
  constructor
  · rintro ⟨n', left', hnext', h⟩
    rw [hnext] at hnext'
    cases hnext'
    rw [run_ite, if_pos hn, run_ite] at h
    split at h
    · exact absurd h (run_unexpected _ _ _)
    · next hnone =>
      obtain ⟨n', ts₁, hnext', h⟩ := run_take_bind_eq_ok.1 h
      obtain ⟨m, behind, hm, h⟩ := run_peek_bind_eq_ok.1 h
      rw [run_ite] at h
      split at h
      · exact absurd h (run_unexpected _ _ _)
      · next hvalues =>
        obtain ⟨m', ts₂, hm', h⟩ := run_take_bind_eq_ok.1 h
        rw [hnext] at hnext'
        rw [hm] at hm'
        cases hnext'
        cases hm'
        cases h
        refine ⟨Option.not_isSome_iff_eq_none.1 hnone, ⟨m, _, ⟨n, hnext, hn⟩, hm, ?_⟩, rfl⟩
        intro hid
        by_contra hne
        exact hvalues ⟨hid, hne⟩
  · rintro ⟨hnone, ⟨m, ts₁, hdefault, hm, hvalues⟩, rfl⟩
    refine ⟨n, left, hnext, ?_⟩
    obtain ⟨-, rfl⟩ := hdefault.next_eq hnext
    rw [run_ite, if_pos hn, run_ite, if_neg (by simp [hnone])]
    refine run_take_bind_eq_ok.2 ⟨n, left, hnext, run_peek_bind_eq_ok.2 ⟨m, rest, hm, ?_⟩⟩
    rw [run_ite, if_neg fun h => h.2 (hvalues h.1)]
    exact run_take_bind_eq_ok.2 ⟨m, rest, hm, rfl⟩

theorem ReadsItem.length_lt (hlib : lib.Lawful) {item : SelectItem}
    (h : ReadsItem lib ts item rest) : 0 < ts.length := by
  cases h with
  | unnamed hnext he hbehind has => exact Nat.zero_lt_of_lt (hlib.length_expression he)
  | named hnext he has hm => exact Nat.zero_lt_of_lt (hlib.length_expression he)

/-- What the loop over the expressions records. -/
def recordItems : Command → ℕ → List SelectItem → Command
  | command, _, [] => command
  | command, count, item :: items => recordItems (recordItem command count item) (count + 1) items

/-- A turn of the loop over the expressions, behind a comma. -/
def nextItem (s : SelectFields) (item : SelectItem) : Option SelectFields :=
  if s.count + 1 < maxExpressions then
    some ⟨recordItem s.command (s.count + 1) item, s.count + 1, false⟩
  else none

theorem foldlM_nextItem {items : List SelectItem} {s : SelectFields}
    (hcount : count < maxExpressions) :
    items.foldlM nextItem ⟨command, count, false⟩ = some s ↔ count + items.length < maxExpressions ∧
      s = ⟨recordItems command (count + 1) items, count + items.length, false⟩ := by
  induction items generalizing command count with
  | nil => simp [hcount, recordItems, eq_comm]
  | cons item items ih =>
    rw [List.foldlM_cons, nextItem]
    by_cases h : count + 1 < maxExpressions
    · rw [if_pos h, Option.bind_eq_bind, Option.bind_some, ih h, List.length_cons, recordItems,
        Nat.add_right_comm, ← Nat.add_assoc]
    · rw [if_neg h, List.length_cons]
      constructor
      · intro hnone
        cases hnone
      · rintro ⟨hmax, -⟩
        omega

theorem ReadsItem.next {item : SelectItem} (h : ReadsItem lib ts item rest) :
    ∃ n left, ts.next = .ok (n, left) ∧ item.isDefault = decide (lib.keyword n = some "DEFAULT") := by
  cases h with
  | unnamed hnext he hbehind has => exact ⟨_, _, hnext, rfl⟩
  | named hnext he has hm => exact ⟨_, _, hnext, rfl⟩

theorem run_selectField_item {item : SelectItem} (h : ReadsItem lib ts item rest)
    (hdefault : item.isDefault = false) (hcount : count < maxExpressions) :
    (selectField lib command count).run ts =
      .ok (⟨recordItem command count item, count, false⟩, rest) := by
  obtain ⟨n, left, hnext, hn⟩ := h.next
  rw [hdefault] at hn
  exact (run_selectField_eq_ok_of_ne hnext (of_decide_eq_false hn.symm)).2
    ⟨hcount, item, h, hdefault, rfl⟩

/-- The loop goes on, and an expression was read. -/
def SelectFields.Started (s : SelectFields) : Prop :=
  s.ended = false ∧ (s.command.params (.expression 0)).isSome = true

theorem run_selectField_started {s s' : SelectFields} (hs : s.Started) :
    (selectField lib s.command (s.count + 1)).run ts = .ok (s', rest) ↔
      ∃ item, (ReadsItem lib ts item rest ∧ item.isDefault = false) ∧ nextItem s item = some s' := by
  constructor
  · intro h
    obtain ⟨n, left, hnext⟩ := next_of_run_selectField h
    by_cases hn : lib.keyword n = some "DEFAULT"
    · -- DEFAULT is refused behind an expression
      obtain ⟨hnone, -⟩ := (run_selectField_eq_ok_of_eq hnext hn).1 h
      have hsome := hs.2
      rw [hnone] at hsome
      cases hsome
    · obtain ⟨hcount, item, hitem, hdefault, rfl⟩ := (run_selectField_eq_ok_of_ne hnext hn).1 h
      exact ⟨item, ⟨hitem, hdefault⟩, if_pos hcount⟩
  · rintro ⟨item, ⟨hitem, hdefault⟩, hs'⟩
    unfold nextItem at hs'
    split at hs'
    · next hcount =>
      cases hs'
      exact run_selectField_item hitem hdefault hcount
    · cases hs'

theorem SelectFields.Started.nextItem {s s' : SelectFields} {item : SelectItem} (hs : s.Started)
    (h : Parser.nextItem s item = some s') : s'.Started := by
  unfold Parser.nextItem at h
  split at h
  · cases h
    refine ⟨rfl, ?_⟩
    dsimp only
    rw [params_recordItem item (by simp) (by simp)]
    exact hs.2
  · cases h

/-- The loop over the expressions, from behind the first one. -/
theorem run_repeat_selectField_eq_ok (hlib : lib.Lawful) {s : SelectFields}
    (hcount : count < maxExpressions) (hsome : (command.params (.expression 0)).isSome = true) :
    (repeatWhile (fun s n => !s.ended && n.isComma)
      (fun s _ => selectField lib s.command (s.count + 1)) ⟨command, count, false⟩).run ts =
        .ok (s, rest) ↔
      ∃ items, (Many (After TokenNode.isComma (ReadsItem lib)) ts items rest ∧
          ∀ i ∈ items, i.isDefault = false) ∧
        (count + items.length < maxExpressions ∧
          s = ⟨recordItems command (count + 1) items, count + items.length, false⟩) ∧
        Stops (fun s n => !s.ended && n.isComma) s rest := by
  simp only [← many_and, ← foldlM_nextItem hcount]
  refine run_repeatWhile_many (I := SelectFields.Started) ?_ (fun hs h => hs.nextItem h) ?_
    ⟨rfl, hsome⟩
  · intro s n left s' rest hs hn
    rw [run_selectField_started hs]
    rw [hs.1] at hn
    refine exists_congr fun item => and_congr_left fun _ => and_congr_left fun _ => ?_
    constructor
    · intro h
      exact ⟨n, left, rfl, hn, h⟩
    · rintro ⟨n', left', hnext, -, h⟩
      cases hnext
      exact h
  · rintro s ts item rest hs ⟨⟨n, left, hnext, hn, h⟩, -⟩
    refine ⟨n, left, eq_cons_of_next hnext (h.length_lt hlib), ?_⟩
    rw [hs.1]
    exact hn

/-- What the loop over the expressions accepts. -/
theorem accepts_of_run_selectFields (hlib : lib.Lawful)
    (h : (selectFields lib).run ts = .ok (command, rest)) :
    (command = .ofType .select ∧ ∃ n, AcceptsDefault lib ts n rest) ∨
      ∃ items, AcceptsItems lib ts items rest ∧ command = recordItems (.ofType .select) 0 items := by
  unfold selectFields at h
  obtain ⟨s, ts₁, hfirst, h⟩ := run_bind_eq_ok.1 h
  obtain ⟨s', ts₂, hloop, h⟩ := run_bind_eq_ok.1 h
  cases h
  obtain ⟨n, left, hnext⟩ := next_of_run_selectField hfirst
  by_cases hn : lib.keyword n = some "DEFAULT"
  · obtain ⟨-, hdefault, rfl⟩ := (run_selectField_eq_ok_of_eq hnext hn).1 hfirst
    have hended := run_repeatWhile_eq_ok.1 hloop
    cases hended with
    | stop => exact .inl ⟨rfl, hdefault⟩
    | done => exact .inl ⟨rfl, hdefault⟩
    | turn hc => cases hc
  · obtain ⟨hcount, item, hitem, hdefault, rfl⟩ := (run_selectField_eq_ok_of_ne hnext hn).1 hfirst
    obtain ⟨items, ⟨hmany, hitems⟩, ⟨hmax, rfl⟩, -⟩ :=
      (run_repeat_selectField_eq_ok hlib hcount (by simp [expression_recordItem])).1 hloop
    refine .inr ⟨item :: items, ⟨⟨item, items, _, rfl, hitem, hmany⟩, ?_, ?_⟩, rfl⟩
    · rw [List.length_cons]
      omega
    · exact List.forall_mem_cons.2 ⟨hdefault, hitems⟩

theorem run_selectFields_default {n m : TokenNode F} {left : Tokens F}
    (h : AcceptsDefault lib ts n rest) (hnext : rest.next = .ok (m, left)) :
    (selectFields lib).run ts = .ok (.ofType .select, rest) := by
  obtain ⟨ts₁, ⟨k, hk, hdefault⟩, hn⟩ := h
  refine run_bind_eq_ok.2 ⟨⟨.ofType .select, 0, true⟩, rest, ?_, run_bind_eq_ok.2
    ⟨⟨.ofType .select, 0, true⟩, rest, ?_, rfl⟩⟩
  · exact (run_selectField_eq_ok_of_eq hk hdefault).2
      ⟨rfl, ⟨n, ts₁, ⟨k, hk, hdefault⟩, hn⟩, rfl⟩
  · refine run_repeatWhile_eq_ok.2 ?_
    cases rest with
    | stop t => exact .stop _ t
    | error e => cases hnext
    | cons t left => exact .done left rfl

theorem run_selectFields_items (hlib : lib.Lawful) {items : List SelectItem} {m : TokenNode F}
    {left : Tokens F} (h : AcceptsItems lib ts items rest) (hnext : rest.next = .ok (m, left))
    (hm : m.isComma = false) :
    (selectFields lib).run ts = .ok (recordItems (.ofType .select) 0 items, rest) := by
  obtain ⟨⟨item, tail, ts₁, rfl, hitem, hmany⟩, hmax, hdefault⟩ := h
  obtain ⟨hfirst, htail⟩ := List.forall_mem_cons.1 hdefault
  have hcount : 0 < maxExpressions := by decide
  refine run_bind_eq_ok.2 ⟨_, _, run_selectField_item hitem hfirst hcount, run_bind_eq_ok.2
    ⟨_, _, (run_repeat_selectField_eq_ok hlib hcount (by simp [expression_recordItem])).2
      ⟨tail, ⟨hmany, htail⟩, ⟨?_, rfl⟩, stops_of_next hnext hm⟩, rfl⟩⟩
  rw [List.length_cons] at hmax
  omega

end

/-! ### The tables -/

/-- What the loop over the tables records. -/
def recordTable (command : Command) (count : ℕ) (t : SelectTable) : Command :=
  match t.name with
  | some name => (command.set (.table count) t.table).set (.tableName count) name
  | none => command.set (.table count) t.table

section

variable {lib : Library F} {ts rest : Tokens F} {command command' : Command} {count : ℕ}

theorem run_selectTableName_eq_ok :
    (selectTableName lib count command).run ts = .ok (command', rest) ↔
      (∃ ts₁ m, Keyword lib "AS" ts ts₁ ∧ Identifier ts₁ m rest ∧
        command' = command.set (.tableName count) m.string) ∨
      (∃ n left, ts.next = .ok (n, left) ∧ lib.keyword n ≠ some "AS" ∧ rest = ts ∧
        command' = command) := by
  unfold selectTableName
  rw [run_takeIf_bind_eq_ok]
  constructor
  · rintro ⟨n, left, hnext, h⟩
    by_cases has : lib.keyword n = some "AS"
    · rw [decide_eq_true has, if_pos rfl, if_pos rfl] at h
      obtain ⟨m, behind, hm, h⟩ := run_peek_bind_eq_ok.1 h
      rw [run_ite] at h
      split at h
      · next hid =>
        obtain ⟨m', behind', hm', h⟩ := run_take_bind_eq_ok.1 h
        rw [hm] at hm'
        cases hm'
        cases h
        exact .inl ⟨left, m, ⟨n, hnext, has⟩, ⟨hm, hid⟩, rfl⟩
      · exact absurd h (run_unexpected _ _ _)
    · rw [decide_eq_false has, if_neg Bool.false_ne_true, if_neg Bool.false_ne_true] at h
      cases h
      exact .inr ⟨n, left, hnext, has, rfl, rfl⟩
  · rintro (⟨ts₁, m, ⟨n, hnext, has⟩, hm, rfl⟩ | ⟨n, left, hnext, has, rfl, rfl⟩)
    · refine ⟨n, ts₁, hnext, ?_⟩
      rw [decide_eq_true has, if_pos rfl, if_pos rfl, run_peek_bind_eq_ok]
      refine ⟨m, rest, hm.1, ?_⟩
      rw [run_ite, if_pos hm.2]
      exact run_take_bind_eq_ok.2 ⟨m, rest, hm.1, rfl⟩
    · refine ⟨n, left, hnext, ?_⟩
      rw [decide_eq_false has, if_neg Bool.false_ne_true, if_neg Bool.false_ne_true]
      rfl

/-- The comma between two tables is not the name of a table. -/
theorem run_selectTables_comma {left : ℕ} {n : TokenNode F} {behind : Tokens F}
    (hnext : ts.next = .ok (n, behind)) (hn : n.isComma = true) (r : Command × Tokens F) :
    (selectTables lib left count command).run ts ≠ .ok r := by
  intro h
  cases left with
  | zero =>
    obtain ⟨m, behind', -, h⟩ := run_peek_bind_eq_ok.1 h
    exact run_unexpected _ _ _ h
  | succ left =>
    obtain ⟨m, behind', hm, h⟩ := run_peek_bind_eq_ok.1 h
    rw [hnext] at hm
    cases hm
    rw [run_ite] at h
    split at h
    · next hid =>
      rw [(kind_of_isIdentifier hid).2.1] at hn
      cases hn
    · exact run_unexpected _ _ _ h

/-- **Only one table is accepted.** -/
theorem run_selectTables_eq_ok {left : ℕ} :
    (selectTables lib (left + 1) count command).run ts = .ok (command', rest) ↔
      ∃ t, ReadsTable lib ts t rest ∧ command' = recordTable command count t ∧ NotComma rest := by
  unfold selectTables
  rw [run_peek_bind_eq_ok]
  constructor
  · rintro ⟨n, ts₁, hnext, h⟩
    rw [run_ite] at h
    split at h
    · next hid =>
      obtain ⟨n', ts₁', hnext', h⟩ := run_take_bind_eq_ok.1 h
      rw [hnext] at hnext'
      cases hnext'
      obtain ⟨c, ts₂, hname, h⟩ := run_bind_eq_ok.1 h
      obtain ⟨m, behind, hm, h⟩ := run_peek_bind_eq_ok.1 h
      rw [run_ite] at h
      split at h
      · next hcomma => exact absurd h (run_selectTables_comma hm hcomma _)
      · next hcomma =>
        cases h
        have hend : NotComma rest := ⟨m, behind, hm, Bool.eq_false_iff.2 hcomma⟩
        rcases run_selectTableName_eq_ok.1 hname with
          ⟨ts₃, k, has, hk, rfl⟩ | ⟨k, left', hk, has, rfl, rfl⟩
        · exact ⟨_, .named ⟨hnext, hid⟩ has hk, rfl, hend⟩
        · exact ⟨_, .unnamed ⟨hnext, hid⟩ hk has, rfl, hend⟩
    · exact absurd h (run_unexpected _ _ _)
  · rintro ⟨t, ht, rfl, k, behind, hk, hcomma⟩
    have hrest : ∀ c : Command, (peek >>= fun n => if TokenNode.isComma n then
        selectTables lib left (count + 1) c else pure c : Parsing F Command).run rest =
          .ok (c, rest) := by
      intro c
      refine run_peek_bind_eq_ok.2 ⟨k, behind, hk, ?_⟩
      rw [run_ite, if_neg (Bool.eq_false_iff.1 hcomma)]
      rfl
    cases ht with
    | unnamed hn hbehind has =>
      refine ⟨_, _, hn.1, ?_⟩
      rw [run_ite, if_pos hn.2]
      exact run_take_bind_eq_ok.2 ⟨_, _, hn.1, run_bind_eq_ok.2
        ⟨_, _, run_selectTableName_eq_ok.2 (.inr ⟨_, _, hbehind, has, rfl, rfl⟩), hrest _⟩⟩
    | named hn has hm =>
      refine ⟨_, _, hn.1, ?_⟩
      rw [run_ite, if_pos hn.2]
      exact run_take_bind_eq_ok.2 ⟨_, _, hn.1, run_bind_eq_ok.2
        ⟨_, _, run_selectTableName_eq_ok.2 (.inl ⟨_, _, has, hm, rfl⟩), hrest _⟩⟩

/-! ### The output -/

/-- The mode of an OUTPUT is not the end of the statement. -/
theorem run_selectOutput_semiColon {ts₁ : Tokens F} :
    (selectOutput lib command).run ts = .ok (command', ts₁) ∧ SemiColon ts₁ rest ↔
      SemiColon ts rest ∧ command' = command ∧ ts₁ = ts := by
  unfold selectOutput
  rw [run_peek_bind_eq_ok]
  constructor
  · rintro ⟨⟨n, left, hnext, h⟩, hsemi⟩
    rw [run_ite] at h
    split at h
    · exfalso
      obtain ⟨n', left', -, h⟩ := run_take_bind_eq_ok.1 h
      obtain ⟨m, behind, hm, h⟩ := run_peek_bind_eq_ok.1 h
      cases hmode : lib.keyword m with
      | none =>
        rw [hmode] at h
        exact run_unexpected _ _ _ h
      | some mode =>
        have hts₁ : ts₁ = left' := by
          rw [hmode] at h
          simp only [run_ite, run_pure] at h
          split_ifs at h
          · cases h
            rfl
          · cases h
            rfl
          · cases h
            rfl
          · exact absurd h (run_unexpected _ _ _)
        subst hts₁
        exact hsemi.not_keyword ⟨m, hm, hmode⟩
    · cases h
      exact ⟨hsemi, rfl, rfl⟩
  · rintro ⟨hsemi, rfl, rfl⟩
    obtain ⟨n, hnext, hn⟩ := hsemi
    refine ⟨⟨n, rest, hnext, ?_⟩, n, hnext, hn⟩
    rw [run_ite, if_neg]
    · rfl
    · intro houtput
      exact SemiColon.not_keyword ⟨n, hnext, hn⟩ ⟨n, hnext, houtput⟩

end

/-! ### The clauses -/

/-- What a turn of the loop over the clauses records. -/
def recordClause (command : Command) : SelectClause → Command
  | .where_ e => command.set .where_ e
  | .orderBy index => command.set .orderBy index
  | .limit n => command.set .limit n

/-- The loop over the clauses. -/
abbrev RepeatsClauses (lib : Library F) :=
  Repeats (fun (_ : SelectClauses) n => isClause lib n) (selectClause lib)

section

variable {lib : Library F} {ts ts' rest : Tokens F} {s s' : SelectClauses} {n m : TokenNode F}
  {left behind : Tokens F}

theorem isClause_iff :
    isClause lib n = true ↔ lib.keyword n = some "WHERE" ∨ lib.keyword n = some "ORDER" ∨
      lib.keyword n = some "LIMIT" := by
  simp [isClause]

theorem isIdentifier_of_isClause (h : isClause lib n = true) : n.isIdentifier = true := by
  rcases isClause_iff.1 h with h | h | h <;> exact isIdentifier_of_keyword h

/-- A keyword of a clause has letters, in lower case too. -/
theorem toLower_ne_nil_of_isClause (hlib : lib.Lawful) (h : isClause lib n = true) :
    lib.toLower n.string ≠ [] := by
  intro hnil
  have hupper := (hlib.toUpper_eq_nil n.string).2 ((hlib.toLower_eq_nil n.string).1 hnil)
  have hkeyword : lib.keyword n = some "" := by
    unfold Library.keyword
    rw [if_pos (isIdentifier_of_isClause h), hupper]
    rfl
  have hclause := isClause_iff.1 h
  rw [hkeyword] at hclause
  simp at hclause

/-- ORDER, from behind the keyword: what is left begins with an identifier. -/
theorem run_selectOrder_cases (h : (selectOrder lib s n).run left = .ok (s', rest)) :
    s.orderBy = [] ∧
      ((∃ m behind, Keyword lib "BY" left rest ∧ Identifier rest m behind ∧
          s' = { s with
            orderBy := lib.toLower m.string,
            command := s.command.set .orderBy (lib.toLower m.string) }) ∨
        ∃ behind, Keyword lib "KEY" rest behind) := by
  unfold selectOrder at h
  rw [run_ite] at h
  split at h
  · exact absurd h (run_unexpected _ _ _)
  · next horder =>
    refine ⟨not_not.1 horder, ?_⟩
    obtain ⟨k, behind, hk, h⟩ := run_peek_bind_eq_ok.1 h
    rw [run_ite] at h
    split at h
    · next hby =>
      obtain ⟨k', ts₁, hk', h⟩ := run_take_bind_eq_ok.1 h
      rw [hk] at hk'
      cases hk'
      obtain ⟨m, behind', hm, h⟩ := run_peek_bind_eq_ok.1 h
      cases hname : lib.keyword m with
      | none =>
        rw [hname] at h
        exact absurd h (run_unexpected _ _ _)
      | some name =>
        rw [hname] at h
        dsimp only at h
        rw [run_ite] at h
        split at h
        · obtain ⟨m', ts₂, hm', h⟩ := run_take_bind_eq_ok.1 h
          obtain ⟨k, behind'', hkey, h⟩ := run_peek_bind_eq_ok.1 h
          rw [run_ite] at h
          split at h
          · next heq =>
            cases h
            exact .inr ⟨behind'', k, hkey, heq⟩
          · exact absurd h (run_unexpected _ _ _)
        · cases h
          exact .inl ⟨m, behind', ⟨_, hk, hby⟩, ⟨hm, isIdentifier_of_keyword hname⟩, rfl⟩
    · exact absurd h (run_unexpected _ _ _)

/-- LIMIT, from behind the keyword: what is left begins with an integer. -/
theorem run_selectLimit_cases (h : (selectLimit s n).run left = .ok (s', rest)) :
    ∃ m behind v, rest.next = .ok (m, behind) ∧ m.integer = some v := by
  unfold selectLimit at h
  rw [run_ite] at h
  split at h
  · exact absurd h (run_unexpected _ _ _)
  · obtain ⟨m, behind, hm, h⟩ := run_peek_bind_eq_ok.1 h
    cases hv : m.integer with
    | none =>
      rw [hv] at h
      exact absurd h (run_unexpected _ _ _)
    | some v =>
      rw [hv] at h
      dsimp only at h
      rw [run_ite] at h
      split at h
      · exact absurd h (run_unexpected _ _ _)
      · cases h
        exact ⟨m, behind, v, hm, hv⟩

theorem run_selectClause_where (hn : lib.keyword n = some "WHERE") :
    (selectClause lib s n).run left = .ok (s', rest) ↔ s.whereExpression = [] ∧
      ∃ e, Expression lib left e rest ∧
        s' = { s with whereExpression := e, command := s.command.set .where_ e } := by
  unfold selectClause
  rw [run_ite, if_pos hn, run_ite]
  constructor
  · intro h
    split at h
    · exact absurd h (run_unexpected _ _ _)
    · next hwhere =>
      obtain ⟨e, rest', he, h⟩ := run_bind_eq_ok.1 h
      cases h
      exact ⟨not_not.1 hwhere, e, he, rfl⟩
  · rintro ⟨hwhere, e, he, rfl⟩
    rw [if_neg (not_not.2 hwhere)]
    exact run_bind_eq_ok.2 ⟨e, rest, he, rfl⟩

/-- A turn of the loop over the clauses. -/
theorem run_selectClause_cases
    (h : (selectClause lib s n).run left = .ok (s', rest)) :
    (lib.keyword n = some "WHERE" ∧ s.whereExpression = [] ∧ ∃ e, Expression lib left e rest ∧
        s' = { s with whereExpression := e, command := s.command.set .where_ e }) ∨
      (lib.keyword n = some "ORDER" ∧ s.orderBy = [] ∧
        ((∃ m behind, Keyword lib "BY" left rest ∧ Identifier rest m behind ∧
            s' = { s with
              orderBy := lib.toLower m.string,
              command := s.command.set .orderBy (lib.toLower m.string) }) ∨
          ∃ behind, Keyword lib "KEY" rest behind)) ∨
      ∃ m behind v, rest.next = .ok (m, behind) ∧ m.integer = some v := by
  by_cases hwhere : lib.keyword n = some "WHERE"
  · exact .inl ⟨hwhere, (run_selectClause_where hwhere).1 h⟩
  · unfold selectClause at h
    rw [run_ite, if_neg hwhere, run_ite] at h
    split at h
    · next horder => exact .inr (.inl ⟨horder, run_selectOrder_cases h⟩)
    · exact .inr (.inr (run_selectLimit_cases h))

/-- At a token that is neither the end of the statement nor a clause, the statement is refused. -/
theorem clauses_not_semiColon (h : RepeatsClauses lib s ts s' ts')
    (hsemi : SemiColon ts' rest) (hnext : ts.next = .ok (m, behind)) (hm : m.isSemiColon = false) :
    isClause lib m = true ∧ ts = .cons m behind := by
  cases h with
  | stop s t =>
    rw [(hsemi.next_eq hnext).1] at hm
    cases hm
  | done left hc =>
    rw [(hsemi.next_eq hnext).1] at hm
    cases hm
  | turn hc hturn hrest =>
    cases hnext
    exact ⟨hc, rfl⟩

theorem clauses_not_integer (h : RepeatsClauses lib s ts s' ts') (hsemi : SemiColon ts' rest)
    (hnext : ts.next = .ok (m, behind)) {v : Int512} (hv : m.integer = some v) : False := by
  have hsemicolon : m.isSemiColon = false := by
    by_contra hm
    rw [(kind_of_isSemiColon (Bool.eq_true_of_not_eq_false hm)).2.2] at hv
    cases hv
  have hid := isIdentifier_of_isClause (clauses_not_semiColon h hsemi hnext hsemicolon).1
  rw [(kind_of_isIdentifier hid).2.2.2.2.2] at hv
  cases hv

theorem clauses_not_key (h : RepeatsClauses lib s ts s' ts') (hsemi : SemiColon ts' rest)
    (hkey : Keyword lib "KEY" ts behind) : False := by
  obtain ⟨m, hnext, hm⟩ := hkey
  have hid := (kind_of_isIdentifier (isIdentifier_of_keyword hm)).1
  have hclause := isClause_iff.1 (clauses_not_semiColon h hsemi hnext hid).1
  rw [hm] at hclause
  simp at hclause

/-- Behind a WHERE and an ORDER BY, nothing is accepted. -/
theorem clauses_of_both (h : RepeatsClauses lib s ts s' ts') (hsemi : SemiColon ts' rest)
    (hwhere : s.whereExpression ≠ []) (horder : s.orderBy ≠ []) : s' = s ∧ ts' = ts := by
  cases h with
  | stop s t => exact ⟨rfl, rfl⟩
  | done left hc => exact ⟨rfl, rfl⟩
  | turn hc hturn hrest =>
    rcases run_selectClause_cases hturn with ⟨-, h, -⟩ | ⟨-, h, -⟩ | ⟨m, behind, v, hm, hv⟩
    · exact absurd h hwhere
    · exact absurd h horder
    · exact (clauses_not_integer hrest hsemi hm hv).elim

/-- The name of an ORDER BY is read again: it is the keyword WHERE. -/
theorem clauses_of_index (hlib : lib.Lawful) (h : RepeatsClauses lib s ts s' ts')
    (hsemi : SemiColon ts' rest) (hm : Identifier ts m behind)
    (hs : s.orderBy = lib.toLower m.string) :
    lib.keyword m = some "WHERE" ∧ s.whereExpression = [] ∧ ∃ e, Expression lib behind e ts' ∧
      s' = { s with whereExpression := e, command := s.command.set .where_ e } := by
  obtain ⟨hclause, rfl⟩ := clauses_not_semiColon h hsemi hm.1 (kind_of_isIdentifier hm.2).1
  have horder : s.orderBy ≠ [] := hs ▸ toLower_ne_nil_of_isClause hlib hclause
  cases h with
  | done left hc =>
    rw [hclause] at hc
    cases hc
  | turn hc hturn hrest =>
    rcases run_selectClause_cases hturn with ⟨hw, hwhere, e, he, rfl⟩ | ⟨-, h, -⟩ |
      ⟨k, left, v, hk, hv⟩
    · obtain ⟨rfl, rfl⟩ := clauses_of_both hrest hsemi (hlib.expression_ne_nil he) horder
      exact ⟨hw, hwhere, e, he, rfl⟩
    · exact absurd h horder
    · exact (clauses_not_integer hrest hsemi hk hv).elim

/-- Behind a WHERE, nothing is accepted. -/
theorem clauses_of_where (hlib : lib.Lawful) (h : RepeatsClauses lib s ts s' ts')
    (hsemi : SemiColon ts' rest) (hwhere : s.whereExpression ≠ []) : s' = s ∧ ts' = ts := by
  cases h with
  | stop s t => exact ⟨rfl, rfl⟩
  | done left hc => exact ⟨rfl, rfl⟩
  | turn hc hturn hrest =>
    rcases run_selectClause_cases hturn with ⟨-, h, -⟩ |
      ⟨-, -, ⟨m, behind, -, hm, rfl⟩ | ⟨behind, hkey⟩⟩ | ⟨m, behind, v, hm, hv⟩
    · exact absurd h hwhere
    · exact absurd (clauses_of_index hlib hrest hsemi hm rfl).2.1 hwhere
    · exact (clauses_not_key hrest hsemi hkey).elim
    · exact (clauses_not_integer hrest hsemi hm hv).elim

/-- **The clauses that are accepted.** -/
theorem clauses_accepts (hlib : lib.Lawful) {command : Command}
    (h : RepeatsClauses lib { command := command } ts s' ts') (hsemi : SemiColon ts' rest) :
    ∃ clauses, AcceptsClauses lib ts clauses ts' ∧
      s'.command = clauses.foldl recordClause command := by
  cases h with
  | stop s t => exact ⟨[], .none _, rfl⟩
  | done left hc => exact ⟨[], .none _, rfl⟩
  | @turn _ _ _ n left ts₁ _ hc hturn hrest =>
    rcases run_selectClause_cases hturn with ⟨hw, -, e, he, rfl⟩ |
      ⟨ho, -, ⟨m, behind, hby, hm, rfl⟩ | ⟨behind, hkey⟩⟩ | ⟨m, behind, v, hm, hv⟩
    · obtain ⟨rfl, rfl⟩ := clauses_of_where hlib hrest hsemi (hlib.expression_ne_nil he)
      exact ⟨_, .where_ ⟨n, rfl, hw⟩ he, rfl⟩
    · obtain ⟨hw, -, e, he, rfl⟩ := clauses_of_index hlib hrest hsemi hm rfl
      exact ⟨_, .again ⟨left, ts₁, m, ⟨n, rfl, ho⟩, hby, hm.1, hw, rfl⟩ he, rfl⟩
    · exact (clauses_not_key hrest hsemi hkey).elim
    · exact (clauses_not_integer hrest hsemi hm hv).elim

theorem repeatsClauses_of_semiColon (hsemi : SemiColon ts rest) : RepeatsClauses lib s ts s ts := by
  obtain ⟨n, hnext, hn⟩ := hsemi
  cases ts with
  | stop t => exact .stop s t
  | error e => cases hnext
  | cons t left =>
    cases hnext
    refine .done _ (Bool.eq_false_iff.2 fun hc => ?_)
    rw [(kind_of_isIdentifier (isIdentifier_of_isClause hc)).1] at hn
    cases hn

theorem run_selectClause_index (hn : lib.keyword n = some "ORDER") (hs : s.orderBy = [])
    (hby : Keyword lib "BY" left rest) (hm : rest.next = .ok (m, behind))
    (hwhere : lib.keyword m = some "WHERE") :
    (selectClause lib s n).run left = .ok ({ s with
      orderBy := lib.toLower m.string,
      command := s.command.set .orderBy (lib.toLower m.string) }, rest) := by
  obtain ⟨k, hk, hby⟩ := hby
  unfold selectClause
  rw [run_ite, if_neg (by rw [hn]; decide), run_ite, if_pos hn]
  unfold selectOrder
  rw [run_ite, if_neg (not_not.2 hs)]
  refine run_peek_bind_eq_ok.2 ⟨k, rest, hk, ?_⟩
  rw [run_ite, if_pos hby]
  refine run_take_bind_eq_ok.2 ⟨k, rest, hk, run_peek_bind_eq_ok.2 ⟨m, behind, hm, ?_⟩⟩
  rw [hwhere]
  rfl

/-- What is accepted is what the loop over the clauses runs through. -/
theorem repeatsClauses_of_accepts (hlib : lib.Lawful) {command : Command}
    {clauses : List SelectClause} (h : AcceptsClauses lib ts clauses ts')
    (hsemi : SemiColon ts' rest) :
    ∃ s', RepeatsClauses lib { command := command } ts s' ts' ∧
      s'.command = clauses.foldl recordClause command := by
  cases h with
  | none => exact ⟨_, repeatsClauses_of_semiColon hsemi, rfl⟩
  | where_ hwhere he =>
    obtain ⟨n, hnext, hn⟩ := hwhere
    obtain rfl := eq_cons_of_next hnext (Nat.zero_lt_of_lt (hlib.length_expression he))
    exact ⟨_, .turn (isClause_iff.2 (.inl hn)) ((run_selectClause_where hn).2 ⟨rfl, _, he, rfl⟩)
      (repeatsClauses_of_semiColon hsemi), rfl⟩
  | again horder he =>
    obtain ⟨ts₁, ts₂, m, ⟨n, hnext, hn⟩, hby, hm, hwhere, rfl⟩ := horder
    obtain rfl := eq_cons_of_next hm (Nat.zero_lt_of_lt (hlib.length_expression he))
    obtain ⟨k, hk, hkeyword⟩ := hby
    obtain rfl := eq_cons_of_next hk (Nat.succ_pos _)
    obtain rfl := eq_cons_of_next hnext (Nat.succ_pos _)
    -- the name is taken in the next turn, as the keyword of a WHERE
    exact ⟨_, .turn (isClause_iff.2 (.inr (.inl hn)))
      (run_selectClause_index hn rfl ⟨k, rfl, hkeyword⟩ rfl hwhere)
      (.turn (isClause_iff.2 (.inl hwhere))
        ((run_selectClause_where hwhere).2 ⟨rfl, _, he, rfl⟩) (repeatsClauses_of_semiColon hsemi)), rfl⟩

/-! ### The command -/

/-- What FROM records. -/
def recordFrom (command : Command) (tables : List SelectTable) (clauses : List SelectClause) :
    Command :=
  clauses.foldl recordClause (tables.head?.elim command (recordTable command 0))

theorem get_recordItems (get : Command → ℕ → Option Bytes) (f : ℕ → SelectItem → Bytes)
    (hget : ∀ command count item k, get (recordItem command count item) k =
      if k = count then some (f count item) else get command k)
    (items : List SelectItem) (command : Command) (count k : ℕ) :
    get (recordItems command count items) k =
      if k < count then get command k else (items[k - count]?.map (f k)).or (get command k) := by
  induction items generalizing command count with
  | nil => simp [recordItems]
  | cons item items ih =>
    rw [recordItems, ih, hget]
    rcases Nat.lt_trichotomy k count with hk | rfl | hk
    · rw [if_pos (Nat.lt_succ_of_lt hk), if_neg (Nat.ne_of_lt hk), if_pos hk]
    · rw [if_pos (Nat.lt_succ_self k), if_pos rfl, if_neg (Nat.lt_irrefl k), Nat.sub_self]
      rfl
    · have hsub : k - count = k - (count + 1) + 1 := by omega
      rw [if_neg (by omega), if_neg (Nat.ne_of_gt hk), if_neg (by omega), hsub,
        List.getElem?_cons_succ]

theorem expression_recordItems (items : List SelectItem) (k : ℕ) :
    (recordItems (.ofType .select) 0 items).params (.expression k) =
      items[k]?.map (·.expression) := by
  have hget : ∀ (command : Command) count (item : SelectItem) k,
      (recordItem command count item).params (.expression k) =
        if k = count then some item.expression else command.params (.expression k) := by
    intro command count item k
    split
    · next h =>
      subst h
      exact expression_recordItem command k item
    · next h => exact params_recordItem item (by simpa using h) (by simp)
  exact (get_recordItems (fun c k => c.params (.expression k)) (fun _ item => item.expression) hget
    items (.ofType .select) 0 k).trans (by simp)

theorem columnName_recordItems (items : List SelectItem) (k : ℕ) :
    (recordItems (.ofType .select) 0 items).params (.columnName k) =
      items[k]?.map fun item => item.name.getD (columnName k) := by
  have hget : ∀ (command : Command) count (item : SelectItem) k,
      (recordItem command count item).params (.columnName k) =
        if k = count then some (item.name.getD (columnName count))
        else command.params (.columnName k) := by
    intro command count item k
    split
    · next h =>
      subst h
      exact columnName_recordItem command k item
    · next h => exact params_recordItem item (by simp) (by simpa using h)
  exact (get_recordItems (fun c k => c.params (.columnName k))
    (fun k item => item.name.getD (columnName k)) hget items (.ofType .select) 0 k).trans (by simp)

theorem params_recordItems {p : Param} (he : ∀ k, p ≠ .expression k) (hn : ∀ k, p ≠ .columnName k)
    (items : List SelectItem) (command : Command) (count : ℕ) :
    (recordItems command count items).params p = command.params p := by
  induction items generalizing command count with
  | nil => rfl
  | cons item items ih =>
    rw [recordItems, ih, params_recordItem item (he _) (hn _)]

theorem command_recordItems (items : List SelectItem) (command : Command) (count : ℕ) :
    (recordItems command count items).command = command.command := by
  induction items generalizing command count with
  | nil => rfl
  | cons item items ih =>
    rw [recordItems, ih]
    rfl

/-- The command of the expressions alone. -/
theorem recordItems_eq (items : List SelectItem) :
    recordItems (.ofType .select) 0 items = SelectStatement.command ⟨items, [], [], none⟩ := by
  refine Command.ext (command_recordItems items _ 0) (funext fun p => ?_)
  cases p with
  | expression k => exact expression_recordItems items k
  | columnName k => exact columnName_recordItems items k
  | _ => exact params_recordItems (by simp) (by simp) items _ 0

theorem recordTable_eq (items : List SelectItem) (t : SelectTable) :
    recordTable (SelectStatement.command ⟨items, [], [], none⟩) 0 t =
      SelectStatement.command ⟨items, [t], [], none⟩ := by
  obtain ⟨table, name⟩ := t
  have hne : ∀ {k : ℕ}, k ≠ 0 → [SelectTable.mk table name][k]? = none := by
    intro k hk
    exact List.getElem?_eq_none (by rw [List.length_singleton]; omega)
  cases name with
  | none =>
    refine Command.ext rfl (funext fun p => ?_)
    by_cases hp : p = .table 0
    · subst hp
      exact Command.params_set_self _ _
    · refine (Command.params_set_of_ne _ _ hp).trans ?_
      cases p with
      | table k => simp [SelectStatement.command, hne (by simpa using hp)]
      | tableName k => cases k <;> rfl
      | _ => rfl
  | some name =>
    refine Command.ext rfl (funext fun p => ?_)
    by_cases hn : p = .tableName 0
    · subst hn
      exact Command.params_set_self _ _
    · refine (Command.params_set_of_ne _ _ hn).trans ?_
      by_cases hp : p = .table 0
      · subst hp
        exact Command.params_set_self _ _
      · refine (Command.params_set_of_ne _ _ hp).trans ?_
        cases p with
        | table k => simp [SelectStatement.command, hne (by simpa using hp)]
        | tableName k => simp [SelectStatement.command, hne (by simpa using hn)]
        | _ => rfl

theorem recordWhere_eq {s : SelectStatement} (h : s.clauses.findSome? (·.where?) = none) (e : Bytes) :
    s.command.set .where_ e =
      SelectStatement.command { s with clauses := s.clauses ++ [.where_ e] } := by
  refine Command.ext rfl (funext fun p => ?_)
  by_cases hp : p = .where_
  · subst hp
    rw [Command.params_set_self]
    dsimp only [SelectStatement.command]
    rw [List.findSome?_append, h]
    rfl
  · refine (Command.params_set_of_ne _ _ hp).trans ?_
    cases p with
    | where_ => exact absurd rfl hp
    | orderBy => simp [SelectStatement.command, List.findSome?_append, SelectClause.orderBy?]
    | limit => simp [SelectStatement.command, List.findSome?_append, SelectClause.limit?]
    | _ => rfl

theorem recordOrderBy_eq {s : SelectStatement} (h : s.clauses.findSome? (·.orderBy?) = none)
    (index : Bytes) :
    s.command.set .orderBy index =
      SelectStatement.command { s with clauses := s.clauses ++ [.orderBy index] } := by
  refine Command.ext rfl (funext fun p => ?_)
  by_cases hp : p = .orderBy
  · subst hp
    rw [Command.params_set_self]
    dsimp only [SelectStatement.command]
    rw [List.findSome?_append, h]
    rfl
  · refine (Command.params_set_of_ne _ _ hp).trans ?_
    cases p with
    | orderBy => exact absurd rfl hp
    | where_ => simp [SelectStatement.command, List.findSome?_append, SelectClause.where?]
    | limit => simp [SelectStatement.command, List.findSome?_append, SelectClause.limit?]
    | _ => rfl

/-- What is recorded of an accepted statement is its command. -/
theorem recordFrom_eq {tables : List SelectTable} {clauses : List SelectClause}
    (h : AcceptsFrom lib ts tables clauses rest) (items : List SelectItem) :
    recordFrom (recordItems (.ofType .select) 0 items) tables clauses =
      SelectStatement.command ⟨items, tables, clauses, none⟩ := by
  unfold recordFrom
  rw [recordItems_eq]
  cases h with
  | none => rfl
  | from_ hfrom htable hclauses =>
    rw [List.head?_cons, Option.elim_some, recordTable_eq]
    cases hclauses with
    | none => rfl
    | @where_ _ _ _ e =>
      exact recordWhere_eq (s := ⟨items, [_], [], none⟩) rfl e
    | @again _ _ _ index e =>
      simp only [List.foldl_cons, List.foldl_nil, recordClause]
      rw [recordOrderBy_eq (s := ⟨items, [_], [], none⟩) rfl]
      exact recordWhere_eq (s := ⟨items, [_], [.orderBy index], none⟩) rfl e

/-! ### What the parser accepts -/

theorem AcceptsClauses.notComma {clauses : List SelectClause}
    (h : AcceptsClauses lib ts clauses ts') (hsemi : SemiColon ts' rest) : NotComma ts := by
  cases h with
  | none => exact hsemi.notComma
  | where_ hwhere he => exact hwhere.notComma
  | again horder he =>
    obtain ⟨ts₁, ts₂, m, horder, -⟩ := horder
    exact horder.notComma

theorem AcceptsFrom.notComma {tables : List SelectTable} {clauses : List SelectClause}
    (h : AcceptsFrom lib ts tables clauses ts') (hsemi : SemiColon ts' rest) : NotComma ts := by
  cases h with
  | none => exact hsemi.notComma
  | from_ hfrom htable hclauses => exact hfrom.notComma

theorem run_selectFrom_semiColon (hlib : lib.Lawful) {command command' : Command} :
    (selectFrom lib command).run ts = .ok (command', ts') ∧ SemiColon ts' rest ↔
      ∃ tables clauses, AcceptsFrom lib ts tables clauses ts' ∧ SemiColon ts' rest ∧
        command' = recordFrom command tables clauses := by
  unfold selectFrom
  rw [run_peek_bind_eq_ok]
  constructor
  · rintro ⟨⟨n, left, hnext, h⟩, hsemi⟩
    rw [run_ite] at h
    split at h
    · next hfrom =>
      obtain ⟨n', ts₁, hnext', h⟩ := run_take_bind_eq_ok.1 h
      rw [hnext] at hnext'
      cases hnext'
      obtain ⟨c, ts₂, htables, h⟩ := run_bind_eq_ok.1 h
      obtain ⟨s', ts₃, hloop, h⟩ := run_bind_eq_ok.1 h
      cases h
      obtain ⟨t, ht, rfl, -⟩ := run_selectTables_eq_ok.1 htables
      obtain ⟨clauses, hclauses, hrecord⟩ :=
        clauses_accepts hlib (run_repeatWhile_eq_ok.1 hloop) hsemi
      exact ⟨[t], clauses, .from_ ⟨n, hnext, hfrom⟩ ht hclauses, hsemi, hrecord⟩
    · cases h
      exact ⟨[], [], .none _, hsemi, rfl⟩
  · rintro ⟨tables, clauses, haccepts, hsemi, rfl⟩
    refine ⟨?_, hsemi⟩
    cases haccepts with
    | none =>
      obtain ⟨n, hnext, hn⟩ := hsemi
      refine ⟨n, rest, hnext, ?_⟩
      rw [run_ite, if_neg]
      · rfl
      · intro hfrom
        exact SemiColon.not_keyword ⟨n, hnext, hn⟩ ⟨n, hnext, hfrom⟩
    | from_ hfrom htable hclauses =>
      obtain ⟨n, hnext, hn⟩ := hfrom
      refine ⟨n, _, hnext, ?_⟩
      rw [run_ite, if_pos hn]
      obtain ⟨s', hloop, hrecord⟩ := repeatsClauses_of_accepts hlib hclauses hsemi
      refine run_take_bind_eq_ok.2 ⟨n, _, hnext, run_bind_eq_ok.2 ⟨_, _, run_selectTables_eq_ok.2
        ⟨_, htable, rfl, hclauses.notComma hsemi⟩, run_bind_eq_ok.2
          ⟨s', _, run_repeatWhile_eq_ok.2 hloop, ?_⟩⟩⟩
      rw [hrecord]
      rfl

/-- **The parser returns the commands of the statements it accepts.** -/
theorem run_parseSelect_eq_ok (hlib : lib.Lawful) {command : Command} :
    (parseSelect lib).run ts = .ok (command, rest) ↔
      ∃ s, AcceptsSelect lib ts s rest ∧ s.command = command := by
  constructor
  · intro h
    obtain ⟨c₁, ts₁, hfields, h⟩ := run_bind_eq_ok.1 h
    obtain ⟨c₂, ts₂, hfrom, h⟩ := run_bind_eq_ok.1 h
    obtain ⟨c₃, ts₃, houtput, h⟩ := run_bind_eq_ok.1 h
    obtain ⟨u, ts₄, hsemi, h⟩ := run_bind_eq_ok.1 h
    cases h
    obtain ⟨hsemi, rfl, rfl⟩ :=
      run_selectOutput_semiColon.1 ⟨houtput, run_expectSemiColon_eq_ok.1 hsemi⟩
    obtain ⟨tables, clauses, haccepts, -, rfl⟩ :=
      (run_selectFrom_semiColon hlib).1 ⟨hfrom, hsemi⟩
    rcases accepts_of_run_selectFields hlib hfields with ⟨rfl, hdefault⟩ | ⟨items, hitems, rfl⟩
    · exact ⟨⟨[], tables, clauses, none⟩, ⟨ts₁, _, .inl ⟨rfl, hdefault⟩, haccepts, rfl, hsemi⟩,
        (recordFrom_eq haccepts []).symm⟩
    · exact ⟨⟨items, tables, clauses, none⟩, ⟨ts₁, _, .inr hitems, haccepts, rfl, hsemi⟩,
        (recordFrom_eq haccepts items).symm⟩
  · rintro ⟨⟨items, tables, clauses, output⟩, ⟨ts₁, ts₂, hfields, haccepts, houtput, hsemi⟩, rfl⟩
    obtain rfl : output = none := houtput
    obtain ⟨n, left, hnext, hn⟩ := haccepts.notComma hsemi
    have hrun : (selectFields lib).run ts = .ok (recordItems (.ofType .select) 0 items, ts₁) := by
      rcases hfields with ⟨hitems, m, hdefault⟩ | hitems
      · obtain rfl : items = [] := hitems
        exact run_selectFields_default hdefault hnext
      · exact run_selectFields_items hlib hitems hnext hn
    obtain ⟨hfrom, -⟩ := (run_selectFrom_semiColon hlib).2
      ⟨tables, clauses, haccepts, hsemi, rfl⟩
    obtain ⟨houtput, -⟩ := run_selectOutput_semiColon.2 ⟨hsemi, rfl, rfl⟩
    rw [← recordFrom_eq haccepts items]
    exact run_bind_eq_ok.2 ⟨_, _, hrun, run_bind_eq_ok.2 ⟨_, _, hfrom, run_bind_eq_ok.2
      ⟨_, _, houtput, run_bind_eq_ok.2 ⟨(), rest, run_expectSemiColon_eq_ok.2 hsemi, rfl⟩⟩⟩⟩

end

end Parser

end Prinbee
