import Prinbee.Pbql.Select

/-!
# SELECT, as the grammar says

The parser does what the grammar says on tokens that do not use what it leaves untaken: a second
table, an ORDER BY, a LIMIT, an OUTPUT, and an expression that begins with DEFAULT are in the grammar
and refused.  `DEFAULT` with another word than VALUES, and `ORDER BY WHERE e`, are accepted and not in
the grammar.

## Main definitions

* `Parser.FollowsSelectGrammar` — the parser accepts what the grammar says, with its command.
* `Parser.PlainSelect` — nothing of the above is used.

## Main results

* `Parser.followsSelectGrammar_iff` — the parser follows the grammar exactly on plain tokens.
-/

namespace Prinbee

namespace Parser

open TokenStream Reader
open Lexer (TokenNode)

variable {F : Type}

section

variable (lib : Library F) (ts : Tokens F)

/-- The parser accepts the statements of the grammar, and makes their commands. -/
def FollowsSelectGrammar : Prop :=
  ∀ command rest, (parseSelect lib).run ts = .ok (command, rest) ↔
    ∃ s, ReadsSelect lib ts s rest ∧ s.command = command

/-- No expression begins with DEFAULT. -/
def SelectStatement.NoDefault (s : SelectStatement) : Prop := ∀ i ∈ s.items, i.isDefault = false

/-- No second table, ORDER BY, LIMIT or OUTPUT. -/
structure SelectStatement.Simple (s : SelectStatement) : Prop where
  tables : s.tables.length ≤ 1
  clauses : ∀ c ∈ s.clauses, c.kind = 0
  output : s.output = none

/-- `DEFAULT word`, where the word is not VALUES, and the end of a statement. -/
def DefaultOther : Prop :=
  ∃ n ts₁ tables clauses ts₂ rest, AcceptsDefault lib ts n ts₁ ∧ lib.keyword n ≠ some "VALUES" ∧
    AcceptsFrom lib ts₁ tables clauses ts₂ ∧ SemiColon ts₂ rest

/-- A statement, up to `FROM table ORDER BY WHERE`. -/
def UpToOrderByWhere (items : List SelectItem) (table : SelectTable) (index : Bytes)
    (rest : Tokens F) : Prop :=
  ∃ ts₁ ts₂ ts₃, ReadsFields lib ts items ts₁ ∧ (∀ i ∈ items, i.isDefault = false) ∧
    Keyword lib "FROM" ts₁ ts₂ ∧ ReadsTable lib ts₂ table ts₃ ∧ OrderByWhere lib ts₃ index rest

/-- An expression, and the end of the statement. -/
def LastExpression (lib : Library F) (ts : Tokens F) (e : Bytes) (rest : Tokens F) : Prop :=
  ∃ left, Expression lib ts e left ∧ SemiColon left rest

/-- `... FROM table ORDER BY WHERE expression ;`. -/
def EndsOrderByWhere : Prop :=
  ∃ items table index ts₁ e rest, UpToOrderByWhere lib ts items table index ts₁ ∧
    LastExpression lib ts₁ e rest

/-- `... FROM table ORDER BY WHERE WHERE expression ;`, where the text of the expression is the same
with the second WHERE. -/
def EndsWhereTwice : Prop :=
  ∃ items table index ts₁ ts₂ e rest, UpToOrderByWhere lib ts items table index ts₁ ∧
    LastExpression lib ts₁ e rest ∧ Keyword lib "WHERE" ts₁ ts₂ ∧ LastExpression lib ts₂ e rest

/-- Tokens that use nothing that the parser leaves untaken, and nothing that it takes for something
else. -/
structure PlainSelect : Prop where
  statement : ∀ s rest, ReadsSelect lib ts s rest →
    s.NoDefault ∧ (s.Simple ∨ EndsWhereTwice lib ts)
  notDefaultOther : ¬ DefaultOther lib ts
  orderByWhere : EndsOrderByWhere lib ts → EndsWhereTwice lib ts

end

/-! ### The grammar is read in one way -/

section

variable {lib : Library F} {ts ts₁ ts₂ ts' rest rest' : Tokens F} {n : TokenNode F}

theorem readsItem_deterministic : Deterministic (ReadsItem lib) := by
  intro ts a rest a' rest' h h'
  cases h with
  | unnamed hnext he hbehind has =>
    cases h' with
    | unnamed hnext' he' hbehind' has' =>
      rw [hnext] at hnext'
      cases hnext'
      cases he.symm.trans he'
      exact ⟨rfl, rfl⟩
    | named hnext' he' has' hm =>
      cases he.symm.trans he'
      exact absurd (has'.next_eq hbehind).1 has
  | named hnext he has hm =>
    cases h' with
    | unnamed hnext' he' hbehind' has' =>
      cases he.symm.trans he'
      exact absurd (has.next_eq hbehind').1 has'
    | named hnext' he' has' hm' =>
      rw [hnext] at hnext'
      cases hnext'
      cases he.symm.trans he'
      obtain ⟨-, rfl⟩ := has.unique has'
      cases hm.1.symm.trans hm'.1
      exact ⟨rfl, rfl⟩

theorem readsTable_deterministic : Deterministic (ReadsTable lib) := by
  intro ts a rest a' rest' h h'
  cases h with
  | unnamed hn hbehind has =>
    cases h' with
    | unnamed hn' hbehind' has' =>
      cases hn.1.symm.trans hn'.1
      exact ⟨rfl, rfl⟩
    | named hn' has' hm =>
      cases hn.1.symm.trans hn'.1
      exact absurd (has'.next_eq hbehind).1 has
  | named hn has hm =>
    cases h' with
    | unnamed hn' hbehind' has' =>
      cases hn.1.symm.trans hn'.1
      exact absurd (has.next_eq hbehind').1 has'
    | named hn' has' hm' =>
      cases hn.1.symm.trans hn'.1
      obtain ⟨-, rfl⟩ := has.unique has'
      cases hm.1.symm.trans hm'.1
      exact ⟨rfl, rfl⟩

theorem ReadsOutput.notComma {output : Option ParamMode} (h : ReadsOutput lib ts output ts')
    (hsemi : SemiColon ts' rest) : NotComma ts := by
  cases h with
  | none => exact hsemi.notComma
  | output houtput hmode => exact houtput.notComma

/-- What is behind the clauses is not another word. -/
theorem ReadsOutput.not_keyword {output : Option ParamMode} (h : ReadsOutput lib ts output ts')
    (hsemi : SemiColon ts' rest) {k : String} (hk : k ≠ "OUTPUT") : ¬ Keyword lib k ts rest' := by
  intro hkeyword
  cases h with
  | none => exact hsemi.not_keyword hkeyword
  | output houtput hmode => exact hk (hkeyword.unique houtput).1

theorem ReadsClause.first {c : SelectClause} (h : ReadsClause lib ts c rest) :
    ∃ k ts₁, Keyword lib k ts ts₁ ∧ k ≠ "OUTPUT" := by
  cases h with
  | where_ hwhere he => exact ⟨_, _, hwhere, by decide⟩
  | index horder hby hn => exact ⟨_, _, horder, by decide⟩
  | primaryKey horder hby hprimary hkey => exact ⟨_, _, horder, by decide⟩
  | limit hlimit hnext hv hpos hmax => exact ⟨_, _, hlimit, by decide⟩

theorem manyClauses_notComma {clauses : List SelectClause} {output : Option ParamMode}
    (h : Many (ReadsClause lib) ts clauses ts₁) (houtput : ReadsOutput lib ts₁ output ts')
    (hsemi : SemiColon ts' rest) : NotComma ts := by
  cases h with
  | nil => exact houtput.notComma hsemi
  | cons hfirst hrest =>
    obtain ⟨k, left, hk, -⟩ := hfirst.first
    exact hk.notComma

theorem ReadsFrom.notComma {tables : List SelectTable} {clauses : List SelectClause}
    {output : Option ParamMode} (h : ReadsFrom lib ts tables clauses ts₁)
    (houtput : ReadsOutput lib ts₁ output ts') (hsemi : SemiColon ts' rest) : NotComma ts := by
  cases h with
  | none => exact houtput.notComma hsemi
  | from_ hfrom htables hmax hclauses honce => exact hfrom.notComma

/-- Items of which none begins with DEFAULT do not stand where `DEFAULT VALUES` stands. -/
theorem not_default_of_items {items : List SelectItem}
    (h : Separated TokenNode.isComma (ReadsItem lib) ts items rest)
    (hdefault : ∀ i ∈ items, i.isDefault = false) : ¬ Keyword lib "DEFAULT" ts rest' := by
  intro hkeyword
  obtain ⟨item, tail, left, rfl, hitem, -⟩ := h
  obtain ⟨n, behind, hnext, hn⟩ := hitem.next
  rw [hdefault item List.mem_cons_self] at hn
  exact of_decide_eq_false hn.symm (hkeyword.next_eq hnext).1

theorem readsFields_unique {items items' : List SelectItem} (h : ReadsFields lib ts items rest)
    (h' : ReadsFields lib ts items' rest') (hdefault : ∀ i ∈ items, i.isDefault = false)
    (hdefault' : ∀ i ∈ items', i.isDefault = false) (hend : NotComma rest)
    (hend' : NotComma rest') : items = items' ∧ rest = rest' := by
  cases h with
  | defaultValues hkeyword hvalues =>
    cases h' with
    | defaultValues hkeyword' hvalues' =>
      obtain ⟨-, rfl⟩ := hkeyword.unique hkeyword'
      exact ⟨rfl, (hvalues.unique hvalues').2⟩
    | items h' hmax' => exact absurd hkeyword (not_default_of_items h' hdefault')
  | items h hmax =>
    cases h' with
    | defaultValues hkeyword' hvalues' => exact absurd hkeyword' (not_default_of_items h hdefault)
    | items h' hmax' => exact h.unique readsItem_deterministic hend.isComma hend'.isComma h'

theorem readsClause_of_orderByWhere {c : SelectClause} {index : Bytes}
    (h : ReadsClause lib ts c rest') (horder : OrderByWhere lib ts index rest) :
    c = .orderBy index ∧ rest' = rest := by
  obtain ⟨ts₁, ts₂, n, horder, hby, hn, hwhere, rfl⟩ := horder
  cases h with
  | where_ hwhere' he => exact absurd (horder.unique hwhere').1 (by decide)
  | index horder' hby' hn' =>
    obtain ⟨-, rfl⟩ := horder.unique horder'
    obtain ⟨-, rfl⟩ := hby.unique hby'
    cases hn.symm.trans hn'.1
    exact ⟨rfl, rfl⟩
  | primaryKey horder' hby' hprimary hkey =>
    obtain ⟨-, rfl⟩ := horder.unique horder'
    obtain ⟨-, rfl⟩ := hby.unique hby'
    have hk := (hprimary.next_eq hn).1
    rw [hwhere] at hk
    simp at hk
  | limit hlimit hnext hv hpos hmax => exact absurd (horder.unique hlimit).1 (by decide)

theorem readsClause_of_where {c : SelectClause} (h : ReadsClause lib ts c rest)
    (hwhere : Keyword lib "WHERE" ts ts₁) : ∃ e, c = .where_ e ∧ Expression lib ts₁ e rest := by
  cases h with
  | where_ hwhere' he =>
    obtain ⟨-, rfl⟩ := hwhere.unique hwhere'
    exact ⟨_, rfl, he⟩
  | index horder hby hn => exact absurd (hwhere.unique horder).1 (by decide)
  | primaryKey horder hby hprimary hkey => exact absurd (hwhere.unique horder).1 (by decide)
  | limit hlimit hnext hv hpos hmax => exact absurd (hwhere.unique hlimit).1 (by decide)

/-! ### Statements with `ORDER BY WHERE` -/

/-- A statement of the grammar, on tokens that go up to `ORDER BY WHERE`. -/
theorem ReadsSelect.of_upTo {s : SelectStatement} {items : List SelectItem} {table : SelectTable}
    {index : Bytes} (h : ReadsSelect lib ts s rest) (hdefault : s.NoDefault)
    (hup : UpToOrderByWhere lib ts items table index ts') :
    s.items = items ∧ s.tables = [table] ∧ ∃ clauses ts₁ ts₂, s.clauses = .orderBy index :: clauses ∧
      (s.clauses.map SelectClause.kind).Nodup ∧ Many (ReadsClause lib) ts' clauses ts₁ ∧
        ReadsOutput lib ts₁ s.output ts₂ ∧ SemiColon ts₂ rest := by
  obtain ⟨ts₁, ts₂, ts₃, hfields, hfrom, houtput, hsemi⟩ := h
  obtain ⟨left₁, left₂, left₃, hfields', hdefault', hkeyword, htable, horder⟩ := hup
  obtain ⟨hitems, rfl⟩ := readsFields_unique hfields hfields' hdefault hdefault'
    (hfrom.notComma houtput hsemi) hkeyword.notComma
  have hkeyword' := horder
  obtain ⟨left₄, -, -, hkeyword', -⟩ := hkeyword'
  generalize htables : s.tables = tables at hfrom
  generalize hclauses : s.clauses = clauses at hfrom
  cases hfrom with
  | none => exact absurd hkeyword (houtput.not_keyword hsemi (by decide))
  | from_ hfrom htables' hmax hclauses' honce =>
    obtain ⟨-, rfl⟩ := hkeyword.unique hfrom
    obtain ⟨rfl, rfl⟩ := htables'.unique readsTable_deterministic
      (manyClauses_notComma hclauses' houtput hsemi).isComma hkeyword'.notComma.isComma
      ⟨table, [], left₃, rfl, htable, .nil _⟩
    cases hclauses' with
    | nil => exact absurd hkeyword' (houtput.not_keyword hsemi (by decide))
    | cons hfirst hrest =>
      obtain ⟨rfl, rfl⟩ := readsClause_of_orderByWhere hfirst horder
      exact ⟨hitems, rfl, _, ts₂, ts₃, rfl, honce, hrest, houtput, hsemi⟩

theorem accepts_fields {items : List SelectItem} (h : ReadsFields lib ts items rest)
    (hdefault : ∀ i ∈ items, i.isDefault = false) :
    (items = [] ∧ ∃ n, AcceptsDefault lib ts n rest) ∨ AcceptsItems lib ts items rest := by
  cases h with
  | defaultValues hkeyword hvalues =>
    obtain ⟨n, hn, hvalues⟩ := hvalues
    refine .inl ⟨rfl, n, _, hkeyword, hn, fun hid => ?_⟩
    rw [isIdentifier_of_keyword hvalues] at hid
    cases hid
  | items h hmax => exact .inr ⟨h, hmax, hdefault⟩

theorem accepts_of_upTo {items : List SelectItem} {table : SelectTable} {index e : Bytes}
    (hup : UpToOrderByWhere lib ts items table index ts') (he : LastExpression lib ts' e rest) :
    AcceptsSelect lib ts ⟨items, [table], [.orderBy index, .where_ e], none⟩ rest := by
  obtain ⟨ts₁, ts₂, ts₃, hfields, hdefault, hfrom, htable, horder⟩ := hup
  obtain ⟨left, he, hsemi⟩ := he
  exact ⟨ts₁, left, accepts_fields hfields hdefault, .from_ hfrom htable (.again horder he), rfl,
    hsemi⟩

theorem reads_of_upTo {items : List SelectItem} {table : SelectTable} {index e : Bytes}
    (hup : UpToOrderByWhere lib ts items table index ts₁) (hwhere : Keyword lib "WHERE" ts₁ ts₂)
    (he : LastExpression lib ts₂ e rest) :
    ReadsSelect lib ts ⟨items, [table], [.orderBy index, .where_ e], none⟩ rest := by
  obtain ⟨left₁, left₂, left₃, hfields, hdefault, hfrom, htable, horder⟩ := hup
  obtain ⟨left₄, left₅, n, horder, hby, hn, hname, rfl⟩ := horder
  obtain ⟨left, he, hsemi⟩ := he
  exact ⟨left₁, left, left, hfields, .from_ hfrom ⟨table, [], left₃, rfl, htable, .nil _⟩
    (show 1 ≤ maxTables by decide) (.cons (.index horder hby ⟨hn, isIdentifier_of_keyword hname⟩)
      (.cons (.where_ hwhere he) (.nil _))) (show [(1 : Fin 3), 0].Nodup by decide), .none _, hsemi⟩

/-- Tokens that end in `ORDER BY WHERE WHERE e` are read in one way only. -/
theorem ReadsSelect.of_whereTwice {s : SelectStatement} (h : ReadsSelect lib ts s rest)
    (hdefault : s.NoDefault) (htwice : EndsWhereTwice lib ts) : AcceptsSelect lib ts s rest := by
  obtain ⟨items, table, index, ts₁, ts₂, e, rest', hup, he, hwhere, left, he', hsemi'⟩ := htwice
  obtain ⟨hitems, htables, clauses, ts₃, ts₄, hclauses, -, hmany, houtput, hsemi⟩ :=
    h.of_upTo hdefault hup
  obtain ⟨items', tables', clauses', output⟩ := s
  obtain rfl : items' = items := hitems
  obtain rfl : tables' = [table] := htables
  obtain rfl : clauses' = .orderBy index :: clauses := hclauses
  change ReadsOutput lib ts₃ output ts₄ at houtput
  cases hmany with
  | nil => exact absurd hwhere (houtput.not_keyword hsemi (by decide))
  | cons hfirst hrest =>
    obtain ⟨e'', rfl, he''⟩ := readsClause_of_where hfirst hwhere
    cases he'.symm.trans he''
    cases hrest with
    | cons hfirst' _ =>
      obtain ⟨k, _, hk, -⟩ := hfirst'.first
      exact absurd hk hsemi'.not_keyword
    | nil =>
      cases houtput with
      | output houtput' hmode => exact absurd houtput' hsemi'.not_keyword
      | none =>
        obtain rfl := hsemi'.unique hsemi
        exact accepts_of_upTo hup he

/-! ### Statements with the same command -/

theorem ReadsFields.separated {items : List SelectItem} (h : ReadsFields lib ts items rest)
    (hne : items ≠ []) : Separated TokenNode.isComma (ReadsItem lib) ts items rest := by
  cases h with
  | defaultValues hkeyword hvalues => exact absurd rfl hne
  | items h hmax => exact h

theorem items_eq_nil_iff {s s' : SelectStatement} (h : s.command = s'.command) :
    s.items = [] ↔ s'.items = [] := by
  have hfirst := congrArg (fun c : Command => c.params (.expression 0)) h
  dsimp only [SelectStatement.command] at hfirst
  constructor
  · intro hnil
    rw [hnil] at hfirst
    simpa using hfirst.symm
  · intro hnil
    rw [hnil] at hfirst
    simpa using hfirst

/-- A statement of the grammar with the command of one that is accepted does not begin an expression
with DEFAULT. -/
theorem ReadsSelect.noDefault {s s' : SelectStatement} (h : ReadsSelect lib ts s rest)
    (h' : AcceptsSelect lib ts s' rest') (hcommand : s.command = s'.command) : s.NoDefault := by
  obtain ⟨ts₁, ts₂, ts₃, hfields, hfrom, houtput, hsemi⟩ := h
  obtain ⟨left₁, left₂, hfields', hfrom', houtput', hsemi'⟩ := h'
  by_cases hnil : s.items = []
  · intro i hi
    rw [hnil] at hi
    cases hi
  · rcases hfields' with ⟨hnil', -⟩ | ⟨hseparated, hmax, hdefault⟩
    · exact absurd ((items_eq_nil_iff hcommand).2 hnil') hnil
    · obtain ⟨hitems, -⟩ := (hfields.separated hnil).unique readsItem_deterministic
        (hfrom.notComma houtput hsemi).isComma (hfrom'.notComma hsemi').isComma hseparated
      unfold SelectStatement.NoDefault
      rw [hitems]
      exact hdefault

theorem output_eq_none {s s' : SelectStatement} (h : s.command = s'.command)
    (hnone : s'.output = none) : s.output = none := by
  have hmode := congrArg (fun c : Command => c.params .mode) h
  dsimp only [SelectStatement.command] at hmode
  rw [hnone] at hmode
  simpa using hmode

theorem where_eq {s s' : SelectStatement} (h : s.command = s'.command) :
    s.clauses.findSome? (·.where?) = s'.clauses.findSome? (·.where?) :=
  congrArg (fun c : Command => c.params .where_) h

theorem orderBy_eq {s s' : SelectStatement} (h : s.command = s'.command) :
    s.clauses.findSome? (·.orderBy?) = s'.clauses.findSome? (·.orderBy?) :=
  congrArg (fun c : Command => c.params .orderBy) h

theorem limit_eq {s s' : SelectStatement} (h : s.command = s'.command) :
    s.clauses.findSome? (·.limit?) = s'.clauses.findSome? (·.limit?) :=
  congrArg (fun c : Command => c.params .limit) h

/-- A statement with the command of one that has one table and no ORDER BY is simple. -/
theorem SelectStatement.Simple.of_command {s s' : SelectStatement} (h : s.command = s'.command)
    (hs' : s'.Simple) : s.Simple := by
  have hnone : ∀ c ∈ s'.clauses, c.orderBy? = none ∧ c.limit? = none := by
    intro c hc
    have hkind := hs'.clauses c hc
    cases c with
    | where_ e => exact ⟨rfl, rfl⟩
    | orderBy index => cases hkind
    | limit n => cases hkind
  refine ⟨?_, ?_, output_eq_none h hs'.output⟩
  · have htable := congrArg (fun c : Command => c.params (.table 1)) h
    dsimp only [SelectStatement.command] at htable
    rw [List.getElem?_eq_none hs'.tables] at htable
    exact List.getElem?_eq_none_iff.1 (by simpa using htable)
  · intro c hc
    have horder := orderBy_eq h
    have hlimit := limit_eq h
    rw [List.findSome?_eq_none_iff.2 fun c hc => (hnone c hc).1, List.findSome?_eq_none_iff] at horder
    rw [List.findSome?_eq_none_iff.2 fun c hc => (hnone c hc).2, List.findSome?_eq_none_iff] at hlimit
    cases c with
    | where_ e => rfl
    | orderBy index => cases horder _ hc
    | limit n => cases hlimit _ hc

/-- A statement of the grammar with the command that the parser makes of `ORDER BY WHERE e`. -/
theorem ReadsSelect.whereTwice {s : SelectStatement} {items : List SelectItem} {table : SelectTable}
    {index e : Bytes} (h : ReadsSelect lib ts s rest) (hdefault : s.NoDefault)
    (hup : UpToOrderByWhere lib ts items table index ts') (he : LastExpression lib ts' e rest)
    (hcommand : s.command =
      SelectStatement.command ⟨items, [table], [.orderBy index, .where_ e], none⟩) :
    EndsWhereTwice lib ts := by
  obtain ⟨-, -, clauses, ts₁, ts₂, hclauses, honce, hmany, houtput, hsemi⟩ := h.of_upTo hdefault hup
  have hwhere := where_eq hcommand
  have hlimit : s.clauses.findSome? (·.limit?) = none := limit_eq hcommand
  rw [output_eq_none hcommand rfl] at houtput
  rw [hclauses] at honce hwhere hlimit
  cases houtput
  cases hmany with
  | nil => cases hwhere
  | @cons _ left _ a as hfirst hrest =>
    rw [List.map_cons, List.map_cons, List.nodup_cons, List.nodup_cons] at honce
    cases hfirst with
    | index horder hby hn => exact absurd List.mem_cons_self honce.1
    | primaryKey horder hby hprimary hkey => exact absurd List.mem_cons_self honce.1
    | limit hkeyword hnext hv hpos hmax => cases hlimit
    | where_ hkeyword he' =>
      obtain rfl := Option.some.inj hwhere
      cases hrest with
      | nil => exact ⟨items, table, index, ts', _, _, rest, hup, he, hkeyword, _, he', hsemi⟩
      | @cons _ _ _ b bs hsecond _ =>
        -- each clause stands once, and there is no LIMIT
        cases b with
        | where_ e'' => exact absurd List.mem_cons_self honce.2.1
        | orderBy index' => exact absurd (List.mem_cons_of_mem _ List.mem_cons_self) honce.1
        | limit n => cases hlimit

/-- A simple statement of the grammar is accepted. -/
theorem ReadsSelect.accepts {s : SelectStatement} (h : ReadsSelect lib ts s rest)
    (hdefault : s.NoDefault) (hs : s.Simple) : AcceptsSelect lib ts s rest := by
  obtain ⟨items, tables, clauses, output⟩ := s
  obtain ⟨ts₁, ts₂, ts₃, hfields, hfrom, houtput, hsemi⟩ := h
  obtain rfl : output = none := hs.output
  have htables : tables.length ≤ 1 := hs.tables
  have hkinds : ∀ c ∈ clauses, c.kind = 0 := hs.clauses
  cases houtput
  refine ⟨ts₁, ts₂, accepts_fields hfields hdefault, ?_, rfl, hsemi⟩
  cases hfrom with
  | none => exact .none _
  | from_ hkeyword hseparated hmax hclauses honce =>
    obtain ⟨table, tail, left, rfl, htable, hmany⟩ := hseparated
    obtain rfl : tail = [] := List.length_eq_zero_iff.1 (by simpa using htables)
    cases hmany
    refine .from_ hkeyword htable ?_
    cases hclauses with
    | nil => exact .none _
    | @cons _ _ _ a as hfirst hrest =>
      obtain ⟨ha, has⟩ := List.forall_mem_cons.1 hkinds
      cases hrest with
      | nil =>
        cases hfirst with
        | where_ hwhere he => exact .where_ hwhere he
        | index horder hby hn => cases ha
        | primaryKey horder hby hprimary hkey => cases ha
        | limit hlimit hnext hv hpos hmax => cases ha
      | @cons _ _ _ b bs hsecond _ =>
        rw [List.map_cons, List.map_cons, ha, has b List.mem_cons_self] at honce
        exact absurd List.mem_cons_self (List.nodup_cons.1 honce).1

end

/-! ### Agreement -/

section

variable {lib : Library F} {ts rest rest' : Tokens F} {n : TokenNode F}

/-- Where the grammar reads `DEFAULT VALUES`, the parser takes VALUES. -/
theorem keyword_values (h : ReadsFields lib ts [] rest) (hdefault : AcceptsDefault lib ts n rest') :
    lib.keyword n = some "VALUES" ∧ rest' = rest := by
  cases h with
  | items h hmax =>
    obtain ⟨item, tail, left, hnil, -⟩ := h
    cases hnil
  | defaultValues hkeyword hvalues =>
    obtain ⟨left, hkeyword', hn, -⟩ := hdefault
    obtain ⟨-, rfl⟩ := hkeyword.unique hkeyword'
    exact hvalues.next_eq hn

/-- A statement of the grammar with the command of an accepted one is simple, or there are two
WHERE. -/
theorem ReadsSelect.simple_or_twice {s s' : SelectStatement} (h : ReadsSelect lib ts s rest)
    (h' : AcceptsSelect lib ts s' rest) (hcommand : s.command = s'.command) :
    s.Simple ∨ EndsWhereTwice lib ts := by
  have hdefault := h.noDefault h' hcommand
  have hnil := items_eq_nil_iff hcommand
  obtain ⟨ts₁, ts₂, hfields, hfrom, houtput, hsemi⟩ := h'
  obtain ⟨items, tables, clauses, output⟩ := s'
  obtain rfl : output = none := houtput
  cases hfrom with
  | none =>
    exact .inl (SelectStatement.Simple.of_command hcommand ⟨Nat.zero_le 1, by simp, rfl⟩)
  | from_ hkeyword htable hclauses =>
    cases hclauses with
    | none => exact .inl (SelectStatement.Simple.of_command hcommand ⟨Nat.le_refl 1, by simp, rfl⟩)
    | where_ hwhere he =>
      refine .inl (SelectStatement.Simple.of_command hcommand ⟨Nat.le_refl 1, ?_, rfl⟩)
      simp [SelectClause.kind]
    | again horder he =>
      have hread : ReadsFields lib ts items ts₁ ∧ ∀ i ∈ items, i.isDefault = false := by
        rcases hfields with ⟨hitems, n, haccepts⟩ | ⟨hseparated, hmax, hitems⟩
        · obtain rfl : items = [] := hitems
          obtain ⟨left, -, -, hfields', -⟩ := h
          rw [hnil.2 rfl] at hfields'
          obtain ⟨-, rfl⟩ := keyword_values hfields' haccepts
          exact ⟨hfields', List.forall_mem_nil _⟩
        · exact ⟨.items hseparated hmax, hitems⟩
      exact .inr (h.whereTwice hdefault
        ⟨ts₁, _, _, hread.1, hread.2, hkeyword, htable, horder⟩ ⟨_, he, hsemi⟩ hcommand)

/-- On plain tokens, what is accepted is in the grammar, with the same command. -/
theorem PlainSelect.reads (hplain : PlainSelect lib ts) (hlib : lib.Lawful) {s : SelectStatement}
    (h : AcceptsSelect lib ts s rest) : ∃ s', ReadsSelect lib ts s' rest ∧ s'.command = s.command := by
  have haccepts := h
  obtain ⟨ts₁, ts₂, hfields, hfrom, houtput, hsemi⟩ := h
  obtain ⟨items, tables, clauses, output⟩ := s
  obtain rfl : output = none := houtput
  have hread : ReadsFields lib ts items ts₁ ∧ ∀ i ∈ items, i.isDefault = false := by
    rcases hfields with ⟨hitems, n, hdefault⟩ | ⟨hseparated, hmax, hitems⟩
    · obtain rfl : items = [] := hitems
      have hvalues : lib.keyword n = some "VALUES" := by
        by_contra hvalues
        exact hplain.notDefaultOther ⟨n, ts₁, tables, clauses, ts₂, rest, hdefault, hvalues, hfrom,
          hsemi⟩
      obtain ⟨left, hkeyword, hn, -⟩ := hdefault
      exact ⟨.defaultValues hkeyword ⟨n, hn, hvalues⟩, List.forall_mem_nil _⟩
    · exact ⟨.items hseparated hmax, hitems⟩
  cases hfrom with
  | none => exact ⟨_, ⟨ts₁, ts₁, ts₁, hread.1, .none _, .none _, hsemi⟩, rfl⟩
  | from_ hkeyword htable hclauses =>
    have hmax : 1 ≤ maxTables := by decide
    cases hclauses with
    | none =>
      exact ⟨⟨items, [_], [], none⟩, ⟨ts₁, ts₂, ts₂, hread.1, .from_ hkeyword
        ⟨_, [], ts₂, rfl, htable, .nil _⟩ hmax (.nil _) List.nodup_nil, .none _, hsemi⟩, rfl⟩
    | where_ hwhere he =>
      exact ⟨⟨items, [_], [.where_ _], none⟩, ⟨ts₁, ts₂, ts₂, hread.1, .from_ hkeyword
        ⟨_, [], _, rfl, htable, .nil _⟩ hmax (.cons (.where_ hwhere he) (.nil _))
          (List.nodup_singleton _), .none _, hsemi⟩, rfl⟩
    | again horder he =>
      have hends : EndsOrderByWhere lib ts :=
        ⟨items, _, _, _, _, rest, ⟨ts₁, _, _, hread.1, hread.2, hkeyword, htable, horder⟩, _, he, hsemi⟩
      obtain ⟨items', table, index, left₁, left₂, e, rest', hup, he', hwhere, he''⟩ :=
        hplain.orderByWhere hends
      -- the parser returns one command, and the grammar has it
      have hrun := (run_parseSelect_eq_ok hlib).2 ⟨_, haccepts, rfl⟩
      have hrun' := (run_parseSelect_eq_ok hlib).2 ⟨_, accepts_of_upTo hup he', rfl⟩
      rw [hrun] at hrun'
      obtain ⟨hcommand, rfl⟩ := Prod.mk.inj (Except.ok.inj hrun')
      exact ⟨_, reads_of_upTo hup hwhere he'', hcommand.symm⟩

/-- **The parser follows the grammar exactly on plain tokens.** -/
theorem followsSelectGrammar_iff (hlib : lib.Lawful) :
    FollowsSelectGrammar lib ts ↔ PlainSelect lib ts := by
  constructor
  · intro hfollows
    refine ⟨?_, ?_, ?_⟩
    · intro s rest hs
      obtain ⟨s', haccepts, hcommand⟩ :=
        (run_parseSelect_eq_ok hlib).1 ((hfollows s.command rest).2 ⟨s, hs, rfl⟩)
      exact ⟨hs.noDefault haccepts hcommand.symm, hs.simple_or_twice haccepts hcommand.symm⟩
    · rintro ⟨n, ts₁, tables, clauses, ts₂, rest, hdefault, hvalues, hfrom, hsemi⟩
      obtain ⟨s, hs, hcommand⟩ := (hfollows _ rest).1 ((run_parseSelect_eq_ok hlib).2
        ⟨⟨[], tables, clauses, none⟩, ⟨ts₁, ts₂, .inl ⟨rfl, n, hdefault⟩, hfrom, rfl, hsemi⟩, rfl⟩)
      obtain ⟨left, -, -, hfields, -⟩ := hs
      rw [(items_eq_nil_iff hcommand).2 rfl] at hfields
      exact hvalues (keyword_values hfields hdefault).1
    · rintro ⟨items, table, index, ts₁, e, rest, hup, he⟩
      have haccepts := accepts_of_upTo hup he
      obtain ⟨s, hs, hcommand⟩ :=
        (hfollows _ rest).1 ((run_parseSelect_eq_ok hlib).2 ⟨_, haccepts, rfl⟩)
      exact hs.whereTwice (hs.noDefault haccepts hcommand) hup he hcommand
  · intro hplain command rest
    rw [run_parseSelect_eq_ok hlib]
    constructor
    · rintro ⟨s, haccepts, rfl⟩
      exact hplain.reads hlib haccepts
    · rintro ⟨s, hs, rfl⟩
      obtain ⟨hdefault, hsimple | htwice⟩ := hplain.statement s rest hs
      · exact ⟨s, hs.accepts hdefault hsimple, rfl⟩
      · exact ⟨s, hs.of_whereTwice hdefault htwice, rfl⟩

end

/-! ### Two statements -/

/-- `a ;`. -/
def oneItem : Tokens Unit := tokensOf [word "a", symbol .semiColon]

theorem plainSelect_oneItem : PlainSelect plainLibrary oneItem := by
  have hword : plainLibrary.keyword (word "a") ≠ some "DEFAULT" := by decide
  have hsemi : SemiColon (tokensOf [symbol .semiColon]) (tokensOf []) := ⟨_, rfl, rfl⟩
  have hfields : ∀ {items rest}, ReadsFields plainLibrary oneItem items rest →
      rest = tokensOf [symbol .semiColon] ∧ ∀ i ∈ items, i.isDefault = false := by
    intro items rest h
    cases h with
    | defaultValues hkeyword hvalues => exact absurd (hkeyword.next_eq rfl).1 (by decide)
    | items h hmax =>
      obtain ⟨item, tail, left, rfl, hitem, hmany⟩ := h
      cases hitem with
      | named hnext he has hm =>
        obtain ⟨n, hn, -⟩ := expression_plainLibrary he
        cases hn
        exact absurd has hsemi.not_keyword
      | unnamed hnext he hbehind has =>
        obtain ⟨n, hn, -⟩ := expression_plainLibrary he
        cases hn
        cases hnext
        cases hmany with
        | nil => exact ⟨rfl, List.forall_mem_singleton.2 (decide_eq_false hword)⟩
        | cons hfirst hrest =>
          obtain ⟨t, left, hnext, hcomma, -⟩ := hfirst
          rw [hsemi.notComma.isComma t left hnext] at hcomma
          cases hcomma
  refine ⟨?_, ?_, ?_⟩
  · rintro ⟨items, tables, clauses, output⟩ rest ⟨ts₁, ts₂, ts₃, hread, hfrom, houtput, -⟩
    obtain ⟨rfl, hdefault⟩ := hfields hread
    change ReadsFrom plainLibrary _ tables clauses ts₂ at hfrom
    cases hfrom with
    | from_ hkeyword htables hmax hclauses honce => exact absurd hkeyword hsemi.not_keyword
    | none =>
      change ReadsOutput plainLibrary _ output ts₃ at houtput
      cases houtput with
      | output hkeyword hmode => exact absurd hkeyword hsemi.not_keyword
      | none => exact ⟨hdefault, .inl ⟨Nat.zero_le 1, List.forall_mem_nil _, rfl⟩⟩
  · rintro ⟨n, ts₁, tables, clauses, ts₂, rest, ⟨left, hkeyword, -⟩, -⟩
    exact absurd (hkeyword.next_eq rfl).1 (by decide)
  · rintro ⟨items, table, index, ts₁, e, rest, ⟨left₁, left₂, left₃, hread, -, hkeyword, -⟩, -⟩
    obtain ⟨rfl, -⟩ := hfields hread
    exact absurd hkeyword hsemi.not_keyword

theorem followsSelectGrammar_oneItem : FollowsSelectGrammar plainLibrary oneItem :=
  (followsSelectGrammar_iff plainLibrary_lawful).2 plainSelect_oneItem

/-- `a FROM t , u ;`. -/
def twoTables : Tokens Unit :=
  tokensOf [word "a", word "FROM", word "t", symbol .comma, word "u", symbol .semiColon]

/-- A statement with two tables is in the grammar, and it is not what the parser accepts. -/
theorem twoTables_not_followed :
    ReadsSelect plainLibrary twoTables
      ⟨[⟨[97], none, false⟩], [⟨[116], none⟩, ⟨[117], none⟩], [], none⟩ (tokensOf []) ∧
    ¬ FollowsSelectGrammar plainLibrary twoTables := by
  have hread : ReadsSelect plainLibrary twoTables
      ⟨[⟨[97], none, false⟩], [⟨[116], none⟩, ⟨[117], none⟩], [], none⟩ (tokensOf []) := by
    refine ⟨tokensOf [word "FROM", word "t", symbol .comma, word "u", symbol .semiColon],
      tokensOf [symbol .semiColon], tokensOf [symbol .semiColon], ?_, ?_, .none _, _, rfl, rfl⟩
    · exact .items ⟨_, [], _, rfl, .unnamed (n := word "a") rfl rfl rfl (by decide), .nil _⟩
        (by decide)
    · exact .from_ ⟨word "FROM", rfl, by decide⟩ ⟨_, [_], _, rfl,
        .unnamed (n := word "t") ⟨rfl, rfl⟩ rfl (by decide), .cons ⟨_, _, rfl, rfl,
          .unnamed (n := word "u") ⟨rfl, rfl⟩ rfl (by decide)⟩ (.nil _)⟩ (by decide) (.nil _)
            List.nodup_nil
  refine ⟨hread, fun hfollows => ?_⟩
  obtain ⟨s, ⟨ts₁, ts₂, -, hfrom, -⟩, hcommand⟩ :=
    (run_parseSelect_eq_ok plainLibrary_lawful).1 ((hfollows _ _).2 ⟨_, hread, rfl⟩)
  have htable := congrArg (fun c : Command => c.params (.table 1)) hcommand
  obtain ⟨items, tables, clauses, output⟩ := s
  change AcceptsFrom plainLibrary _ tables clauses ts₂ at hfrom
  cases hfrom with
  | none => cases htable
  | from_ hkeyword htable' hclauses => cases htable

end Parser

end Prinbee
