import Prinbee.Pbql.Parser

/-!
# Transactions in a script

The commands of a script are in a vector, and the transaction that is open is found by looking back
over them.  Whatever the statements between them are, a BEGIN is followed by the COMMIT or ROLLBACK
that closes it, which has its type.

## Main definitions

* `Parser.Alternates` — BEGIN, and the COMMIT or ROLLBACK that closes it, in turn.

## Main results

* `Parser.wellFormed_statement` — what a statement keeps.
* `Parser.parse_alternates` — what is parsed alternates.
-/

namespace Prinbee

namespace Parser

open TokenStream Reader
open Lexer (TokenNode)

variable {F : Type}

/-! ### Alternation -/

/-- A BEGIN and the COMMIT or ROLLBACK that closes it, in turn; the last BEGIN may be open. -/
inductive Alternates : List Command → Prop
  | nil : Alternates []
  | opened {b : Command} (hb : b.command = .begin) : Alternates [b]
  | closed {b c : Command} {commands : List Command} (hb : b.command = .begin)
    (hc : c.command = .commit ∨ c.command = .rollback) (htype : c.params .type = b.params .type)
    (h : Alternates commands) : Alternates (b :: c :: commands)

section

variable {b c : Command} {commands : List Command}

theorem Alternates.append_begin (h : Alternates commands)
    (hlast : ∀ b, commands.getLast? = some b → b.command ≠ .begin) (hc : c.command = .begin) :
    Alternates (commands ++ [c]) := by
  induction h with
  | nil => exact .opened hc
  | opened hb => exact absurd hb (hlast _ rfl)
  | @closed b d commands hb hd htype h ih =>
    refine .closed hb hd htype (ih ?_)
    intro e he
    refine hlast e ?_
    rw [List.getLast?_cons, List.getLast?_cons, he]
    rfl

theorem Alternates.append_close (h : Alternates commands) (hlast : commands.getLast? = some b)
    (hb : b.command = .begin) (hc : c.command = .commit ∨ c.command = .rollback)
    (htype : c.params .type = b.params .type) : Alternates (commands ++ [c]) := by
  induction h with
  | nil => cases hlast
  | opened hb' =>
    cases hlast
    exact .closed hb hc htype .nil
  | @closed d e commands hd he htype' h ih =>
    refine .closed hd he htype' ?_
    cases hcommands : commands.getLast? with
    | none =>
      -- the last one is a COMMIT or a ROLLBACK
      have heb : e = b := by simpa [List.getLast?_cons, hcommands] using hlast
      subst heb
      rw [hb] at he
      rcases he with he | he <;> cases he
    | some f =>
      rw [List.getLast?_cons, List.getLast?_cons, hcommands] at hlast
      exact ih (hcommands.trans hlast)

/-- The BEGIN of the open transaction is the last of the transaction commands. -/
theorem openTransaction_eq (commands : List Command) :
    openTransaction commands =
      (commands.filter isTransaction).getLast?.filter fun c => c.command = .begin := by
  have hfind : commands.reverse.find? isTransaction = (commands.filter isTransaction).getLast? := by
    rw [← List.head?_filter, List.filter_reverse, List.head?_reverse]
  unfold openTransaction
  rw [hfind]
  cases (commands.filter isTransaction).getLast? with
  | none => rfl
  | some c => simp [Option.filter]

theorem openTransaction_eq_none :
    openTransaction commands = none ↔
      ∀ b, (commands.filter isTransaction).getLast? = some b → b.command ≠ .begin := by
  simp [openTransaction_eq, Option.filter_eq_none_iff]

theorem openTransaction_eq_some :
    openTransaction commands = some b ↔
      (commands.filter isTransaction).getLast? = some b ∧ b.command = .begin := by
  simp [openTransaction_eq, Option.filter_eq_some_iff]

end

/-! ### One statement -/

/-- The commands that were made so far: their transaction commands alternate, and a BEGIN has a
type. -/
structure WellFormed (commands : List Command) : Prop where
  alternates : Alternates (commands.filter isTransaction)
  begin_type : ∀ b ∈ commands, b.command = .begin →
    ∃ type : TransactionType, b.params .type = some type.toInt

section

variable {commands : List Command} {c : Command}

theorem WellFormed.append_other (h : WellFormed commands) (hc : isTransaction c = false) :
    WellFormed (commands ++ [c]) := by
  refine ⟨?_, ?_⟩
  · rw [List.filter_append, List.filter_singleton, hc, cond_false, List.append_nil]
    exact h.alternates
  · intro b hb hbegin
    rcases List.mem_append.1 hb with hb | hb
    · exact h.begin_type b hb hbegin
    · cases List.mem_singleton.1 hb
      simp [isTransaction, hbegin] at hc

theorem WellFormed.append_begin (h : WellFormed commands) (hopen : openTransaction commands = none)
    (hc : c.command = .begin) {type : TransactionType} (htype : c.params .type = some type.toInt) :
    WellFormed (commands ++ [c]) := by
  have ht : isTransaction c = true := by simp [isTransaction, hc]
  refine ⟨?_, ?_⟩
  · rw [List.filter_append, List.filter_singleton, ht, cond_true]
    exact h.alternates.append_begin (openTransaction_eq_none.1 hopen) hc
  · intro b hb hbegin
    rcases List.mem_append.1 hb with hb | hb
    · exact h.begin_type b hb hbegin
    · cases List.mem_singleton.1 hb
      exact ⟨type, htype⟩

theorem WellFormed.append_close (h : WellFormed commands) {b : Command}
    (hopen : openTransaction commands = some b) (hc : c.command = .commit ∨ c.command = .rollback)
    (htype : c.params .type = b.params .type) : WellFormed (commands ++ [c]) := by
  have ht : isTransaction c = true := by
    rcases hc with hc | hc <;> simp [isTransaction, hc]
  obtain ⟨hlast, hb⟩ := openTransaction_eq_some.1 hopen
  refine ⟨?_, ?_⟩
  · rw [List.filter_append, List.filter_singleton, ht, cond_true]
    exact h.alternates.append_close hlast hb hc htype
  · intro e he hbegin
    rcases List.mem_append.1 he with he | he
    · exact h.begin_type e he hbegin
    · cases List.mem_singleton.1 he
      rw [hbegin] at hc
      rcases hc with hc | hc <;> cases hc

/-- The BEGIN of the open transaction has a type, which is one of three. -/
theorem WellFormed.openTransaction_type (h : WellFormed commands) {b : Command}
    (hopen : openTransaction commands = some b) :
    b.params .type = some b.getType ∧ b.getType % 256 = b.getType := by
  obtain ⟨hlast, hb⟩ := openTransaction_eq_some.1 hopen
  obtain ⟨type, htype⟩ := h.begin_type b (List.mem_filter.1 (List.mem_of_getLast? hlast)).1 hb
  have hget : b.getType = type.toInt := by
    unfold Command.getType
    rw [htype]
    rfl
  rw [hget]
  exact ⟨htype, by cases type <;> rfl⟩

end

theorem command_transactionCommand (cmd : CommandType) (type : TransactionType) (expr : Bytes) :
    (transactionCommand cmd type expr).command = cmd := by
  unfold transactionCommand
  split <;> rfl

theorem type_transactionCommand (cmd : CommandType) (type : TransactionType) (expr : Bytes) :
    (transactionCommand cmd type expr).params .type = some type.toInt := by
  unfold transactionCommand
  split
  · rw [Command.params_set_of_ne _ _ (by decide), Command.params_set_self]
  · rw [Command.params_set_self]

variable (lib : Library F)

theorem wellFormed_parseTransactionCommand (cmdName : String) {cmd : CommandType}
    {commands : List Command} (hcmd : cmd = .begin ∨ cmd = .commit ∨ cmd = .rollback)
    (h : WellFormed commands) :
    Yields WellFormed (parseTransactionCommand lib cmdName cmd commands) := by
  unfold parseTransactionCommand
  refine yields_bind fun _ => yields_bind fun type => yields_bind fun expr =>
    yields_bind fun n => yields_bind fun _ => ?_
  have hc := command_transactionCommand cmd type expr
  have htype := type_transactionCommand cmd type expr
  refine yields_ite (fun hbegin => ?_) fun hclose => ?_
  · cases hopen : openTransaction commands with
    | some b => exact yields_fail _
    | none => exact yields_pure (h.append_begin hopen (hc.trans hbegin) htype)
  · have hclose : (transactionCommand cmd type expr).command = .commit ∨
        (transactionCommand cmd type expr).command = .rollback := by
      rw [hc]
      exact hcmd.resolve_left hclose
    cases hopen : openTransaction commands with
    | none => exact yields_fail _
    | some b =>
      obtain ⟨hb, hmod⟩ := h.openTransaction_type hopen
      refine yields_ite (fun _ => ?_) fun _ => yields_ite (fun _ => yields_fail _) fun hsame => ?_
      · refine yields_pure (h.append_close hopen hclose ?_)
        rw [Command.params_set_self, hb]
      · refine yields_pure (h.append_close hopen hclose ?_)
        rw [htype, hb, ← hmod, not_not.1 hsame]

/-! ### The statements that make other commands -/

/-- A reader that returns commands of a type. -/
def Makes (type : CommandType) (x : Parsing F Command) : Prop :=
  Yields (fun c => c.command = type) x

section

variable {type : CommandType} {command : Command} {count : ℕ}

theorem makes_pure (h : command.command = type) : Makes (F := F) type (pure command) :=
  yields_pure h

theorem makes_fail (e : Failure) : Makes (F := F) type (fail e) := yields_fail e

theorem makes_configName (name : Bytes) (h : command.command = type) :
    Makes (F := F) type (configName name command) := by
  refine yields_bind fun found => yields_ite (fun _ => ?_) fun _ => makes_pure h
  refine yields_bind fun n => yields_ite (fun _ => ?_) fun _ => makes_fail _
  exact yields_bind fun _ => makes_pure h

theorem makes_configParameters (h : command.command = type) :
    Makes type (configParameters lib command) := by
  refine yields_bind fun n => yields_ite (fun _ => yields_bind fun _ => makes_pure ?_) fun _ =>
    yields_ite (fun _ => yields_bind fun _ => ?_) fun _ => makes_fail _
  · split <;> exact h
  · refine (makes_configName _ h).bind fun command h => yields_bind fun found => ?_
    exact yields_ite (fun _ => yields_bind fun expr => makes_pure h) fun _ => makes_pure h

theorem makes_parseConfig : Makes .config (parseConfig lib) := by
  refine yields_bind fun n => yields_ite (fun _ => yields_bind fun _ => makes_pure rfl) fun _ => ?_
  exact (makes_configParameters lib rfl).bind fun command h => yields_bind fun _ => makes_pure h

theorem makes_parseCreateContext : Makes .createContext (parseCreateContext lib) := by
  refine yields_bind fun n => yields_ite (fun _ => ?_) fun _ => makes_fail _
  refine yields_bind fun ifNotExists => yields_bind fun n => yields_ite (fun _ => ?_) fun _ =>
    makes_fail _
  exact yields_bind fun _ => yields_bind fun s => yields_bind fun _ => makes_pure rfl

theorem makes_parseCreate : Makes .createContext (parseCreate lib) := by
  refine yields_bind fun n => ?_
  cases lib.keyword n with
  | none => exact makes_fail _
  | some command =>
    refine yields_ite (fun _ => makes_parseCreateContext lib) fun _ => ?_
    refine yields_ite (fun _ => makes_fail _) fun _ => yields_ite (fun _ => makes_fail _) fun _ => ?_
    exact yields_ite (fun _ => makes_fail _) fun _ => makes_fail _

theorem yields_selectField (h : command.command = type) (count : ℕ) :
    Yields (fun s : SelectFields => s.command.command = type)
      (selectField lib command count) := by
  refine yields_bind fun n => yields_ite (fun _ => ?_) fun _ => ?_
  · refine yields_ite (fun _ => yields_fail _) fun _ => yields_bind fun _ => yields_bind fun m => ?_
    exact yields_ite (fun _ => yields_fail _) fun _ => yields_bind fun _ => yields_pure h
  · refine yields_ite (fun _ => yields_fail _) fun _ => yields_bind fun expr => yields_bind fun n => ?_
    refine yields_ite (fun _ => ?_) fun _ => yields_pure h
    refine yields_bind fun _ => yields_bind fun n => ?_
    exact yields_ite (fun _ => yields_bind fun _ => yields_pure h) fun _ => yields_fail _

theorem makes_selectFields : Makes .select (selectFields lib) := by
  refine (yields_selectField lib rfl 0).bind fun s hs => ?_
  refine Yields.bind ?_ fun s hs => makes_pure hs
  exact yields_repeatWhile hs fun s _ hs => yields_selectField lib hs (s.count + 1)

theorem makes_selectTableName (h : command.command = type) (count : ℕ) :
    Makes type (selectTableName lib count command) := by
  refine yields_bind fun found => yields_ite (fun _ => ?_) fun _ => makes_pure h
  refine yields_bind fun n => yields_ite (fun _ => ?_) fun _ => makes_fail _
  exact yields_bind fun _ => makes_pure h

theorem makes_selectTables (left : ℕ) (h : command.command = type) :
    Makes type (selectTables lib left count command) := by
  induction left generalizing count command with
  | zero => exact yields_bind fun n => makes_fail _
  | succ left ih =>
    refine yields_bind fun n => yields_ite (fun _ => yields_bind fun _ => ?_) fun _ => makes_fail _
    have htable : (command.set (.table count) n.string).command = type := h
    refine (makes_selectTableName lib htable count).bind fun command h => ?_
    exact yields_bind fun n => yields_ite (fun _ => ih h) fun _ => makes_pure h

/-- The clauses of a command of a type. -/
def ClausesOf (type : CommandType) (s : SelectClauses) : Prop := s.command.command = type

theorem yields_selectOrder {s : SelectClauses} (h : ClausesOf type s) (n : TokenNode F) :
    Yields (ClausesOf type) (selectOrder lib s n) := by
  refine yields_ite (fun _ => yields_fail _) fun _ => yields_bind fun n => yields_ite (fun _ => ?_)
    fun _ => yields_fail _
  refine yields_bind fun _ => yields_bind fun n => ?_
  cases lib.keyword n with
  | none => exact yields_fail _
  | some name =>
    refine yields_ite (fun _ => ?_) fun _ => yields_pure h
    refine yields_bind fun _ => yields_bind fun n => ?_
    exact yields_ite (fun _ => yields_pure h) fun _ => yields_fail _

theorem yields_selectLimit {s : SelectClauses} (h : ClausesOf type s) (n : TokenNode F) :
    Yields (ClausesOf type) (selectLimit s n) := by
  refine yields_ite (fun _ => yields_fail _) fun _ => yields_bind fun n => ?_
  cases n.integer with
  | none => exact yields_fail _
  | some v => exact yields_ite (fun _ => yields_fail _) fun _ => yields_pure h

theorem yields_selectClause {s : SelectClauses} (h : ClausesOf type s) (n : TokenNode F) :
    Yields (ClausesOf type) (selectClause lib s n) := by
  refine yields_ite (fun _ => ?_) fun _ => ?_
  · exact yields_ite (fun _ => yields_fail _) fun _ => yields_bind fun expr => yields_pure h
  · exact yields_ite (fun _ => yields_selectOrder lib h n) fun _ => yields_selectLimit h n

theorem makes_selectFrom (h : command.command = type) : Makes type (selectFrom lib command) := by
  refine yields_bind fun n => yields_ite (fun _ => yields_bind fun _ => ?_) fun _ => makes_pure h
  refine (makes_selectTables lib maxTables h).bind fun command h => ?_
  refine Yields.bind (P := ClausesOf type) ?_ fun s hs => makes_pure hs
  exact yields_repeatWhile h fun s n hs => yields_selectClause lib hs n

theorem makes_selectOutput (h : command.command = type) :
    Makes type (selectOutput lib command) := by
  refine yields_bind fun n => yields_ite (fun _ => yields_bind fun _ => yields_bind fun n => ?_)
    fun _ => makes_pure h
  cases lib.keyword n with
  | none => exact makes_fail _
  | some mode =>
    refine yields_ite (fun _ => makes_pure h) fun _ => yields_ite (fun _ => makes_pure h) fun _ => ?_
    exact yields_ite (fun _ => makes_pure h) fun _ => makes_fail _

theorem makes_parseSelect : Makes .select (parseSelect lib) := by
  refine (makes_selectFields lib).bind fun command h => ?_
  refine (makes_selectFrom lib h).bind fun command h => ?_
  exact (makes_selectOutput lib h).bind fun command h => yields_bind fun _ => makes_pure h

end

/-! ### The script -/

/-- A script with commands that are well formed. -/
def Script.WellFormed (s : Script) : Prop := Parser.WellFormed s.commands

theorem wellFormed_pushCommand {s : Script} (h : s.WellFormed) {type : CommandType}
    (htype : type ∉ [.begin, .commit, .rollback]) {x : Parsing F Command} (hx : Makes type x) :
    Yields Script.WellFormed (pushCommand s x) := by
  refine hx.bind fun c hc => yields_pure (h.append_other ?_)
  simp only [List.mem_cons, List.not_mem_nil, not_or] at htype
  simp [isTransaction, hc, htype]

theorem wellFormed_pushTransaction {s : Script} (h : s.WellFormed) (cmdName : String)
    {cmd : CommandType} (hcmd : cmd = .begin ∨ cmd = .commit ∨ cmd = .rollback) :
    Yields Script.WellFormed (pushTransaction lib s cmdName cmd) :=
  (wellFormed_parseTransactionCommand lib cmdName hcmd h).bind fun _ hc => yields_pure hc

theorem wellFormed_parseQuit {s : Script} (h : s.WellFormed) (command : String) :
    Yields Script.WellFormed (parseQuit command s : Parsing F Script) :=
  yields_bind fun _ => yields_pure h

theorem wellFormed_unknownCommand (capture : Option (String → Bool)) {s : Script}
    (h : s.WellFormed) (n : TokenNode F) (command : String) :
    Yields Script.WellFormed (unknownCommand capture s n command) := by
  cases capture with
  | none => exact yields_fail _
  | some f => exact yields_ite (fun _ => yields_pure h) fun _ => yields_fail _

/-- **Whatever a statement is, the commands stay well formed.** -/
theorem wellFormed_statement (capture : Option (String → Bool)) {s : Script} (h : s.WellFormed)
    (n : TokenNode F) : Yields Script.WellFormed (statement lib capture s n) := by
  unfold statement
  split
  · exact yields_bind fun _ => yields_pure h
  · exact wellFormed_pushTransaction lib h _ (.inl rfl)
  · exact wellFormed_parseQuit h _
  · exact wellFormed_pushTransaction lib h _ (.inr (.inl rfl))
  · exact wellFormed_pushCommand h (by decide) (makes_parseConfig lib)
  · exact wellFormed_pushCommand h (by decide) (makes_parseCreate lib)
  · exact wellFormed_parseQuit h _
  · exact wellFormed_parseQuit h _
  · exact wellFormed_pushTransaction lib h _ (.inr (.inr rfl))
  · exact wellFormed_pushCommand h (by decide) (makes_parseSelect lib)
  · exact yields_fail _
  · exact wellFormed_unknownCommand capture h n _

theorem wellFormed_parse (capture : Option (String → Bool)) :
    Yields Script.WellFormed (parse lib capture) := by
  refine Yields.bind (P := Script.WellFormed) ?_ fun s hs => ?_
  · refine yields_repeatWhile ⟨.nil, ?_⟩ fun s n hs => wellFormed_statement lib capture hs n
    intro b hb
    cases hb
  · refine yields_ite (fun _ => yields_pure hs) fun _ => yields_bind fun n => ?_
    exact yields_ite (fun _ => yields_pure hs) fun _ => yields_fail _

/-- The command vector that `parse()` returns for a script; none when it throws. -/
def parsedCommands (lexer : Lexer.Library F) (capture : Option (String → Bool))
    (script : List Char) (filename : String) : Option (List Command) :=
  match (parse lib capture).run (Lexer.tokens lexer (.ofScript script filename)) with
  | .ok r => some r.1.commands
  | .error _ => none

end Parser

end Prinbee
