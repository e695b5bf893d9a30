import Mathlib.Data.List.Basic
import Mathlib.Data.List.Chain
import Mathlib.Tactic.Common

/-!
# JavaScript expressions

The part of the ECMAScript expression grammar that generated code is made of: the binary
operators with their precedence and associativity, the prefix operators, grouping, member
access, calls, `new`, assignment and the comma.

The grammar is given by two functions on trees, the lexemes of a tree and whether each operand
has at least the precedence its place requires.  A text *reads as* a tree when its lexemes stay
apart (`--` is one lexeme, never two) and are those of a grammatical tree.

## Main definitions

* `Lexeme`, `Lexeme.text` — a token and its spelling.
* `Js`, `Js.lexemes`, `Js.level`, `Js.Grammatical` — the trees and the grammar.
* `Reads` — a sequence of lexemes, written one after the other, is read as a tree.
* `parse` — a precedence climbing reader, with fuel.

## Main results

* `parse_eventually` — with enough fuel the reader returns the tree of every grammatical text.
* `Reads.unique` — the grammar is not ambiguous: a text reads as one tree at most.
-/

namespace JavaScript

/-- The binary operators. -/
inductive BinaryOp
  | lor | land | bor | bxor | band | eq | ne | lt | gt | le | ge | shl | shr
  | add | sub | mul | div | mod | pow
  deriving DecidableEq, Repr

namespace BinaryOp

/-- The spelling of the operator. -/
def text : BinaryOp → String
  | lor => "||" | land => "&&" | bor => "|" | bxor => "^" | band => "&"
  | eq => "==" | ne => "!=" | lt => "<" | gt => ">" | le => "<=" | ge => ">="
  | shl => "<<" | shr => ">>" | add => "+" | sub => "-" | mul => "*" | div => "/"
  | mod => "%" | pow => "**"

/-- The precedence of the operator; a higher one binds tighter. -/
def level : BinaryOp → ℕ
  | lor => 4 | land => 5 | bor => 6 | bxor => 7 | band => 8
  | eq => 9 | ne => 9 | lt => 10 | gt => 10 | le => 10 | ge => 10
  | shl => 11 | shr => 11 | add => 12 | sub => 12 | mul => 13 | div => 13 | mod => 13
  | pow => 14

/-- The precedence required on the left.  All operators but `**` associate to the left; on the
left of `**` even a prefix operator is a syntax error. -/
def leftLevel : BinaryOp → ℕ
  | pow => 16
  | o => o.level

/-- The precedence required on the right. -/
def rightLevel : BinaryOp → ℕ
  | pow => 14
  | o => o.level + 1

theorem level_le_leftLevel (o : BinaryOp) : o.level ≤ o.leftLevel := by cases o <;> decide

theorem level_lt_unary (o : BinaryOp) : o.level < 15 := by cases o <;> decide

theorem level_le_rightLevel (o : BinaryOp) : o.level ≤ o.rightLevel := by cases o <;> decide

theorem one_lt_level (o : BinaryOp) : 2 < o.level := by cases o <;> decide

/-- An operator never takes over the right operand of one that may stand on its left. -/
theorem level_lt_rightLevel {o o' : BinaryOp} (h : o.leftLevel ≤ o'.level) :
    o.level < o'.rightLevel := by
  cases o <;> cases o' <;> revert h <;> decide

end BinaryOp

/-- The prefix operators. -/
inductive UnaryOp
  | neg | not
  deriving DecidableEq, Repr

/-- The tokens.  `new` is written with the blank that keeps it apart from the name after it. -/
inductive Lexeme
  | word (s : String)
  | integer (n : ℕ)
  | decimal (s : String)
  | string (s : String)
  | op (o : BinaryOp)
  | bang | lparen | rparen | lbracket | rbracket | comma | dot | assign | new
  deriving DecidableEq, Repr

namespace Lexeme

/-- The spelling of the token. -/
def text : Lexeme → String
  | word s => s
  | integer n => toString n
  | decimal s => s
  | string s => "\"" ++ s ++ "\""
  | op o => o.text
  | bang => "!" | lparen => "(" | rparen => ")" | lbracket => "[" | rbracket => "]"
  | comma => "," | dot => "." | assign => "=" | new => "new "

/-- The spelling of the second token would be scanned as part of the first one.  These are the
ways two tokens that can stand side by side in an expression run together: a double minus, and
the period that an integer takes for its decimal point. -/
def Joins : Lexeme → Lexeme → Bool
  | op .sub, op .sub => true
  | integer _, dot => true
  | decimal s, dot => !(s.contains '.' || s.contains 'e')
  | _, _ => false

/-- Only a period and a second minus can run together with what stands before. -/
theorem joins_eq_false {a b : Lexeme} (hb : b ≠ dot) (h : a = op .sub → b ≠ op .sub) :
    a.Joins b = false := by
  unfold Joins
  split
  · exact absurd rfl (h rfl)
  · exact absurd rfl hb
  · exact absurd rfl hb
  · rfl

end Lexeme

/-- The words that are not names.  `true`, `false`, `null` and `this` are expressions by
themselves and read like names. -/
def reserved : List String :=
  ["await", "break", "case", "catch", "class", "const", "continue", "debugger", "default",
    "delete", "do", "else", "enum", "export", "extends", "finally", "for", "function", "if",
    "import", "in", "instanceof", "new", "return", "super", "switch", "throw", "try", "typeof",
    "var", "void", "while", "with", "yield"]

/-- The trees.  The arguments of a call are one tree, a comma between each two of them. -/
inductive Js
  | name (s : String)
  | integer (n : ℕ)
  | decimal (s : String)
  | string (s : String)
  | paren (e : Js)
  | unary (o : UnaryOp) (e : Js)
  | binary (o : BinaryOp) (l r : Js)
  | assign (s : String) (e : Js)
  | comma (l r : Js)
  | member (e : Js) (s : String)
  | index (e i : Js)
  | call (f : Js)
  | callWith (f args : Js)
  | new (s : String) (args : Js)
  deriving DecidableEq, Repr

/-- The token of a prefix operator. -/
def UnaryOp.lexeme : UnaryOp → Lexeme
  | neg => .op .sub
  | not => .bang

namespace Js

/-- The tokens of a tree, in order. -/
def lexemes : Js → List Lexeme
  | name s => [.word s]
  | integer n => [.integer n]
  | decimal s => [.decimal s]
  | string s => [.string s]
  | paren e => .lparen :: (e.lexemes ++ [.rparen])
  | unary o e => o.lexeme :: e.lexemes
  | binary o l r => l.lexemes ++ .op o :: r.lexemes
  | assign s e => .word s :: .assign :: e.lexemes
  | comma l r => l.lexemes ++ .comma :: r.lexemes
  | member e s => e.lexemes ++ [.dot, .word s]
  | index e i => e.lexemes ++ .lbracket :: (i.lexemes ++ [.rbracket])
  | call f => f.lexemes ++ [.lparen, .rparen]
  | callWith f args => f.lexemes ++ .lparen :: (args.lexemes ++ [.rparen])
  | new s args => .new :: .word s :: .lparen :: (args.lexemes ++ [.rparen])

/-- The precedence of a tree. -/
def level : Js → ℕ
  | name _ | integer _ | decimal _ | string _ | paren _ => 20
  | member .. | index .. | call _ | callWith .. | new .. => 18
  | unary .. => 15
  | binary o _ _ => o.level
  | assign .. => 2
  | comma .. => 1

/-- Every operand has the precedence that its place requires. -/
def Grammatical : Js → Prop
  | name s => s ∉ reserved
  | integer _ | decimal _ | string _ => True
  | paren e => e.Grammatical
  | unary _ e => e.Grammatical ∧ 15 ≤ e.level
  | binary o l r =>
    l.Grammatical ∧ r.Grammatical ∧ o.leftLevel ≤ l.level ∧ o.rightLevel ≤ r.level
  | assign s e => s ∉ reserved ∧ e.Grammatical ∧ 2 ≤ e.level
  | comma l r => l.Grammatical ∧ r.Grammatical ∧ 2 ≤ r.level
  | member e _ => e.Grammatical ∧ 18 ≤ e.level
  | index e i => e.Grammatical ∧ i.Grammatical ∧ 18 ≤ e.level
  | call f => f.Grammatical ∧ 18 ≤ f.level
  | callWith f args => f.Grammatical ∧ args.Grammatical ∧ 18 ≤ f.level
  | new s args => s ∉ reserved ∧ args.Grammatical

theorem one_le_level (e : Js) : 1 ≤ e.level := by
  cases e with
  | binary o l r => exact le_trans (by decide) o.one_lt_level.le
  | _ => exact Nat.succ_pos _

end Js

/-- No two lexemes run together: the text made of them is scanned as these lexemes. -/
def Apart (ts : List Lexeme) : Prop := ts.IsChain fun a b => a.Joins b = false

/-- The text made of the lexemes is scanned as these lexemes, and they are those of `e`. -/
def Reads (ts : List Lexeme) (e : Js) : Prop := Apart ts ∧ e.lexemes = ts ∧ e.Grammatical

theorem apart_singleton (t : Lexeme) : Apart [t] := List.isChain_singleton t

theorem apart_cons_cons {a b : Lexeme} {ts : List Lexeme} :
    Apart (a :: b :: ts) ↔ a.Joins b = false ∧ Apart (b :: ts) := List.isChain_cons_cons

theorem apart_append_cons {l : List Lexeme} {a b : Lexeme} {ts : List Lexeme} :
    Apart (l ++ [a] ++ b :: ts) ↔ Apart (l ++ [a]) ∧ a.Joins b = false ∧ Apart (b :: ts) := by
  unfold Apart
  rw [List.isChain_append]
  simp only [List.getLast?_concat, List.head?_cons, Option.mem_def, Option.some.injEq,
    forall_eq']
  tauto

/-! ### A reader -/

mutual

/-- Read an expression of precedence `p` or more, with fuel. -/
def parse : ℕ → ℕ → List Lexeme → Option (Js × List Lexeme)
  | 0, _, _ => none
  | n + 1, p, .word s :: ts => if s ∈ reserved then none else loop n p (.name s) ts
  | n + 1, p, .integer k :: ts => loop n p (.integer k) ts
  | n + 1, p, .decimal s :: ts => loop n p (.decimal s) ts
  | n + 1, p, .string s :: ts => loop n p (.string s) ts
  | n + 1, p, .lparen :: ts =>
    match parse n 1 ts with
    | some (e, .rparen :: rest) => loop n p (.paren e) rest
    | _ => none
  | n + 1, p, .op .sub :: ts =>
    match parse n 15 ts with
    | some (e, rest) => loop n p (.unary .neg e) rest
    | none => none
  | n + 1, p, .bang :: ts =>
    match parse n 15 ts with
    | some (e, rest) => loop n p (.unary .not e) rest
    | none => none
  | n + 1, p, .new :: .word s :: .lparen :: ts =>
    if s ∈ reserved then none
    else
      match parse n 1 ts with
      | some (args, .rparen :: rest) => loop n p (.new s args) rest
      | _ => none
  | _ + 1, _, _ => none

/-- Go on after `lhs` as long as what follows binds at precedence `p` or more. -/
def loop : ℕ → ℕ → Js → List Lexeme → Option (Js × List Lexeme)
  | 0, _, _, _ => none
  | n + 1, p, lhs, .op o :: ts =>
    if p ≤ o.level ∧ o.leftLevel ≤ lhs.level then
      match parse n o.rightLevel ts with
      | some (r, rest) => loop n p (.binary o lhs r) rest
      | none => none
    else some (lhs, .op o :: ts)
  | n + 1, p, lhs, .comma :: ts =>
    if p ≤ 1 then
      match parse n 2 ts with
      | some (r, rest) => loop n p (.comma lhs r) rest
      | none => none
    else some (lhs, .comma :: ts)
  | n + 1, p, .name s, .assign :: ts =>
    if p ≤ 2 then
      match parse n 2 ts with
      | some (r, rest) => loop n p (.assign s r) rest
      | none => none
    else some (.name s, .assign :: ts)
  | n + 1, p, lhs, .dot :: .word s :: ts =>
    if p ≤ 18 ∧ 18 ≤ lhs.level then loop n p (.member lhs s) ts
    else some (lhs, .dot :: .word s :: ts)
  | n + 1, p, lhs, .lbracket :: ts =>
    if p ≤ 18 ∧ 18 ≤ lhs.level then
      match parse n 1 ts with
      | some (i, .rbracket :: rest) => loop n p (.index lhs i) rest
      | _ => none
    else some (lhs, .lbracket :: ts)
  | n + 1, p, lhs, .lparen :: .rparen :: ts =>
    if p ≤ 18 ∧ 18 ≤ lhs.level then loop n p (.call lhs) ts
    else some (lhs, .lparen :: .rparen :: ts)
  | n + 1, p, lhs, .lparen :: ts =>
    if p ≤ 18 ∧ 18 ≤ lhs.level then
      match parse n 1 ts with
      | some (args, .rparen :: rest) => loop n p (.callWith lhs args) rest
      | _ => none
    else some (lhs, .lparen :: ts)
  | _ + 1, _, lhs, ts => some (lhs, ts)

end

/-- With enough fuel the result is `v`. -/
def Eventually {α : Type} (f : ℕ → Option α) (v : α) : Prop := ∃ N, ∀ n, N ≤ n → f n = some v

/-- What comes next does not bind at precedence `q` or more. -/
def Stops (q : ℕ) : List Lexeme → Prop
  | .op o :: _ => o.level < q
  | .comma :: _ => 1 < q
  | .assign :: _ => 2 < q
  | .dot :: _ => 18 < q
  | .lbracket :: _ => 18 < q
  | .lparen :: _ => 18 < q
  | _ => True

/-! ### The reader finds the tree -/

namespace Eventually

variable {α β : Type} {f g : ℕ → Option β} {h : ℕ → Option α} {v : β} {a : α}

/-- One more unit of fuel. -/
theorem succ (hfg : ∀ n, f (n + 1) = g n) (hg : Eventually g v) : Eventually f v := by
  obtain ⟨N, hN⟩ := hg
  refine ⟨N + 1, fun n hn => ?_⟩
  obtain ⟨m, rfl⟩ : ∃ m, n = m + 1 := ⟨n - 1, by omega⟩
  rw [hfg]
  exact hN m (by omega)

/-- A reader that first runs another one. -/
theorem bind (hh : Eventually h a) (hfg : ∀ n, h n = some a → f (n + 1) = g n)
    (hg : Eventually g v) : Eventually f v := by
  obtain ⟨N, hN⟩ := hh
  obtain ⟨M, hM⟩ := hg
  refine ⟨max N M + 1, fun n hn => ?_⟩
  obtain ⟨m, rfl⟩ : ∃ m, n = m + 1 := ⟨n - 1, by omega⟩
  rw [hfg m (hN m (by omega))]
  exact hM m (by omega)

theorem unique {f : ℕ → Option β} {v w : β} (hv : Eventually f v) (hw : Eventually f w) :
    v = w := by
  obtain ⟨N, hN⟩ := hv
  obtain ⟨M, hM⟩ := hw
  have hvw := (hN (max N M) (by omega)).symm.trans (hM (max N M) (by omega))
  exact Option.some.inj hvw

end Eventually

theorem Stops.mono {q q' : ℕ} (h : q ≤ q') : ∀ {ts : List Lexeme}, Stops q ts → Stops q' ts
  | [], _ => trivial
  | t :: ts, hs => by
    cases t with
    | word | integer | decimal | string | bang | rparen | rbracket | new => trivial
    | op | comma | assign | dot | lbracket | lparen => exact lt_of_lt_of_le hs h

/-- Nothing binds tighter than a call. -/
theorem stops_primary : ∀ ts : List Lexeme, Stops 19 ts
  | [] => trivial
  | t :: ts => by
    cases t with
    | op o => exact o.level_lt_unary.trans (by decide)
    | word | integer | decimal | string | bang | rparen | rbracket | new => trivial
    | comma | assign | dot | lbracket | lparen => show _ < 19; omega

/-- The loop is over when nothing that follows binds tightly enough. -/
theorem loop_eventually {q : ℕ} {e : Js} : ∀ {ts : List Lexeme}, Stops q ts →
    Eventually (fun n => loop n q e ts) (e, ts) := by
  intro ts hs
  refine ⟨1, fun n hn => ?_⟩
  obtain ⟨m, rfl⟩ : ∃ m, n = m + 1 := ⟨n - 1, by omega⟩
  dsimp only
  cases ts with
  | nil => cases e <;> simp [loop]
  | cons t ts =>
    cases t with
    | word | integer | decimal | string | bang | rparen | rbracket | new =>
      cases e <;> simp [loop]
    | op o =>
      change o.level < q at hs
      rw [loop, if_neg (by omega)]
    | comma =>
      change 1 < q at hs
      rw [loop, if_neg (by omega)]
    | assign =>
      change 2 < q at hs
      cases e with
      | name s => rw [loop, if_neg (by omega)]
      | _ => simp [loop]
    | dot =>
      change 18 < q at hs
      rcases ts with _ | ⟨t, ts⟩
      · cases e <;> simp [loop]
      · cases t with
        | word s => rw [loop, if_neg (by omega)]
        | _ => cases e <;> simp [loop]
    | lbracket =>
      change 18 < q at hs
      rw [loop, if_neg (by omega)]
    | lparen =>
      change 18 < q at hs
      rcases ts with _ | ⟨t, ts⟩
      · rw [loop, if_neg (by omega)]; simp
      · cases t with
        | rparen => rw [loop, if_neg (by omega)]
        | _ => rw [loop, if_neg (by omega)]; simp

namespace Js

/-- The precedence with which the last operand of a tree is read. -/
def edge : Js → ℕ
  | unary .. => 15
  | binary o _ _ => o.rightLevel
  | assign .. => 2
  | comma .. => 2
  | _ => 19

theorem level_le_edge (e : Js) (h : e.edge ≠ 19) : e.level ≤ e.edge := by
  cases e with
  | binary o l r => exact o.level_le_rightLevel
  | unary o e => exact le_rfl
  | assign s e => exact le_rfl
  | comma l r => show 1 ≤ 2; omega
  | _ => exact absurd rfl h

/-- What may not follow a place of precedence `q` may not follow an operand put there. -/
theorem stops_edge {e : Js} {q : ℕ} (hq : q ≤ e.level) {ts : List Lexeme} (hs : Stops q ts) :
    Stops e.edge ts := by
  by_cases h : e.edge = 19
  · rw [h]; exact stops_primary ts
  · exact hs.mono (hq.trans (e.level_le_edge h))

/-- An operator may follow what may stand on its left. -/
theorem stops_edge_op {e : Js} {o : BinaryOp} (h : o.leftLevel ≤ e.level) (ts : List Lexeme) :
    Stops e.edge (.op o :: ts) := by
  have hlt := o.level_lt_unary
  have hle := o.level_le_leftLevel
  have htwo := o.one_lt_level
  cases e with
  | binary o' l r => exact BinaryOp.level_lt_rightLevel h
  | assign s e => change o.leftLevel ≤ 2 at h; omega
  | comma l r => change o.leftLevel ≤ 1 at h; omega
  | unary o e => exact hlt
  | _ => show o.level < 19; omega

theorem stops_edge_comma (e : Js) (ts : List Lexeme) : Stops e.edge (.comma :: ts) := by
  cases e with
  | binary o l r =>
    have := o.level_le_rightLevel
    have := o.one_lt_level
    show 1 < o.rightLevel; omega
  | _ => exact Nat.succ_lt_succ (Nat.succ_pos _)

/-- What is read at the precedence of a call has no open right edge. -/
theorem edge_of_level {e : Js} (h : 18 ≤ e.level) : e.edge = 19 := by
  cases e with
  | binary o l r => exact absurd o.level_lt_unary (Nat.not_lt.2 (le_trans (by decide) h))
  | unary => exact absurd h (show ¬ 18 ≤ 15 by omega)
  | assign => exact absurd h (show ¬ 18 ≤ 2 by omega)
  | comma => exact absurd h (show ¬ 18 ≤ 1 by omega)
  | _ => rfl

theorem lexemes_ne_rparen (e : Js) : ∃ t ts, e.lexemes = t :: ts ∧ t ≠ .rparen := by
  induction e with
  | name | integer | decimal | string | paren | assign | new => exact ⟨_, _, rfl, by simp⟩
  | unary o e _ => exact ⟨_, _, rfl, by cases o <;> simp [UnaryOp.lexeme]⟩
  | binary _ _ _ ih _ | comma _ _ ih _ | member _ _ ih | index _ _ ih _ | call _ ih
  | callWith _ _ ih _ =>
    obtain ⟨t, ts, h, hne⟩ := ih
    exact ⟨t, _, by rw [lexemes, h]; rfl, hne⟩

end Js

open Js

/-- **Reading a grammatical tree**: the reader goes through the lexemes of `e`, whatever
precedence it was called with, and stands in its loop with `e` on its left. -/
theorem parse_eventually {e : Js} (hg : e.Grammatical) :
    ∀ p, p ≤ e.level → ∀ rest, Stops e.edge rest → ∀ out,
      Eventually (fun n => loop n p e rest) out →
      Eventually (fun n => parse n p (e.lexemes ++ rest)) out := by
  induction e with
  | name s =>
    intro p _ rest _ out h
    refine h.succ fun n => ?_
    simp only [lexemes, List.cons_append, List.nil_append, parse]
    rw [if_neg hg]
  | integer k =>
    intro p _ rest _ out h
    refine h.succ fun n => ?_
    simp only [lexemes, List.cons_append, List.nil_append, parse]
  | decimal s =>
    intro p _ rest _ out h
    refine h.succ fun n => ?_
    simp only [lexemes, List.cons_append, List.nil_append, parse]
  | string s =>
    intro p _ rest _ out h
    refine h.succ fun n => ?_
    simp only [lexemes, List.cons_append, List.nil_append, parse]
  | paren e ih =>
    intro p _ rest _ out h
    have hin := ih hg 1 e.one_le_level (.rparen :: rest) trivial _ (loop_eventually trivial)
    refine hin.bind (fun n hn => ?_) h
    simp only [lexemes, List.cons_append, List.append_assoc, List.nil_append, parse, hn]
  | unary o e ih =>
    intro p hp rest hs out h
    have hin := ih hg.1 15 hg.2 rest (stops_edge hg.2 hs) _ (loop_eventually hs)
    refine hin.bind (fun n hn => ?_) h
    cases o <;> simp only [lexemes, UnaryOp.lexeme, List.cons_append, parse, hn]
  | binary o l r ihl ihr =>
    intro p hp rest hs out h
    obtain ⟨hgl, hgr, hll, hlr⟩ := hg
    -- the right operand, read at the precedence that `o` requires there
    have hr := ihr hgr o.rightLevel hlr rest (stops_edge hlr hs) _ (loop_eventually hs)
    have hl := ihl hgl p (le_trans hp (o.level_le_leftLevel.trans hll)) (.op o :: (r.lexemes ++ rest))
      (stops_edge_op hll _) out
    rw [lexemes, List.append_assoc, List.cons_append]
    refine hl (hr.bind (fun n hn => ?_) h)
    rw [loop, if_pos ⟨hp, hll⟩, hn]
  | assign s e ih =>
    intro p hp rest hs out h
    obtain ⟨hres, hge, hle⟩ := hg
    have hin := ih hge 2 hle rest (stops_edge hle hs) _ (loop_eventually hs)
    have hname : Eventually (fun n => loop n p (.name s) (.assign :: (e.lexemes ++ rest))) out := by
      refine hin.bind (fun n hn => ?_) h
      rw [loop, if_pos (show p ≤ 2 from hp), hn]
    refine hname.succ fun n => ?_
    simp only [lexemes, List.cons_append, parse]
    rw [if_neg hres]
  | comma l r ihl ihr =>
    intro p hp rest hs out h
    obtain ⟨hgl, hgr, hlr⟩ := hg
    have hr := ihr hgr 2 hlr rest (stops_edge hlr hs) _ (loop_eventually hs)
    have hl := ihl hgl p (le_trans hp l.one_le_level) (.comma :: (r.lexemes ++ rest))
      (l.stops_edge_comma _) out
    rw [lexemes, List.append_assoc, List.cons_append]
    refine hl (hr.bind (fun n hn => ?_) h)
    rw [loop, if_pos (show p ≤ 1 from hp), hn]
  | member e s ih =>
    intro p hp rest _ out h
    have he := ih hg.1 p (le_trans hp hg.2) (.dot :: .word s :: rest)
      (by rw [edge_of_level hg.2]; exact stops_primary _) out
    rw [lexemes, List.append_assoc]
    refine he (h.succ fun n => ?_)
    rw [loop, if_pos ⟨hp, hg.2⟩]
  | index e i ihe ihi =>
    intro p hp rest _ out h
    obtain ⟨hge, hgi, hle⟩ := hg
    have hi := ihi hgi 1 i.one_le_level (.rbracket :: rest) trivial _ (loop_eventually trivial)
    have he := ihe hge p (le_trans hp hle) (.lbracket :: (i.lexemes ++ .rbracket :: rest))
      (by rw [edge_of_level hle]; exact stops_primary _) out
    simp only [lexemes, List.append_assoc, List.cons_append, List.nil_append]
    refine he (hi.bind (fun n hn => ?_) h)
    rw [loop, if_pos ⟨hp, hle⟩, hn]
  | call f ih =>
    intro p hp rest _ out h
    have hf := ih hg.1 p (le_trans hp hg.2) (.lparen :: .rparen :: rest)
      (by rw [edge_of_level hg.2]; exact stops_primary _) out
    rw [lexemes, List.append_assoc]
    refine hf (h.succ fun n => ?_)
    rw [loop, if_pos ⟨hp, hg.2⟩]
  | callWith f args ihf iha =>
    intro p hp rest _ out h
    obtain ⟨hgf, hga, hlf⟩ := hg
    have ha := iha hga 1 args.one_le_level (.rparen :: rest) trivial _ (loop_eventually trivial)
    have hf := ihf hgf p (le_trans hp hlf) (.lparen :: (args.lexemes ++ .rparen :: rest))
      (by rw [edge_of_level hlf]; exact stops_primary _) out
    simp only [lexemes, List.append_assoc, List.cons_append, List.nil_append]
    refine hf (ha.bind (fun n hn => ?_) h)
    obtain ⟨t, ts, hts, hne⟩ := args.lexemes_ne_rparen
    rw [hts, List.cons_append] at hn ⊢
    rw [loop, if_pos ⟨hp, hlf⟩, hn]
    exact fun ts' hts' => hne (List.cons.inj hts').1
  | new s args ih =>
    intro p _ rest _ out h
    have hin := ih hg.2 1 args.one_le_level (.rparen :: rest) trivial _ (loop_eventually trivial)
    refine hin.bind (fun n hn => ?_) h
    simp only [lexemes, List.cons_append, List.append_assoc, List.nil_append, parse, hn]
    rw [if_neg hg.1]

/-- **The grammar is not ambiguous.** -/
theorem Reads.unique {ts : List Lexeme} {e e' : Js} (h : Reads ts e) (h' : Reads ts e') :
    e = e' := by
  obtain ⟨-, rfl, hg⟩ := h
  obtain ⟨-, hts, hg'⟩ := h'
  have he := parse_eventually hg 1 e.one_le_level [] trivial _ (loop_eventually trivial)
  have he' := parse_eventually hg' 1 e'.one_le_level [] trivial _ (loop_eventually trivial)
  rw [hts] at he'
  exact (Prod.mk.inj (he.unique he')).1

end JavaScript
