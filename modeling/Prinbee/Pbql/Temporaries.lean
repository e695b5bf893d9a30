import Mathlib.Data.List.Forall2
import Prinbee.Pbql.Node

/-!
# The temporaries of BETWEEN

Each node has its own `f_temp_counter`, and `recursive_to_as2js()` counts on the one of the
`BETWEEN` node that it writes; `to_as2js()` clears the counter of the node that it is called on.
So the counter tells how many times a node was written, and not which node it is.

## Main definitions

* `Node.counters`, `Node.countersBelow` — the counters of the `BETWEEN` nodes of a tree.
* `Node.advance`, `Node.afterToAs2js` — the tree once its text was written.
* `assigned` — the names that a text assigns.
* `Node.KeepsTemporaries` — the temporaries of a text differ, and the next text is the same.

## Main results

* `Node.assigned_recursiveToAs2js` — the names that are assigned, one for each `BETWEEN`.
* `Node.keepsTemporaries_iff` — they are right if and only if no `BETWEEN` is below the root.
-/

namespace Prinbee

open JavaScript

/-- The name that an assignment follows, if it does. -/
def assignedName : Lexeme → Option Lexeme → List String
  | .word s, some .assign => [s]
  | _, _ => []

/-- The names that an assignment follows. -/
def assigned : List Lexeme → List String
  | [] => []
  | t :: ts => assignedName t ts.head? ++ assigned ts

theorem assignedName_eq_nil {next : Option Lexeme} (h : next ≠ some .assign) (t : Lexeme) :
    assignedName t next = [] := by
  unfold assignedName
  split
  · exact absurd rfl h
  · rfl

/-- An assignment is not split from its name. -/
theorem assigned_append {us : List Lexeme} (h : us.head? ≠ some .assign) (ts : List Lexeme) :
    assigned (ts ++ us) = assigned ts ++ assigned us := by
  induction ts with
  | nil => rfl
  | cons t ts ih =>
    rw [List.cons_append, assigned, assigned, ih, List.append_assoc]
    cases ts with
    | nil => rw [List.nil_append, assignedName_eq_nil h, assignedName_eq_nil (by simp)]
    | cons u ts => rfl

namespace Node

mutual

/-- The counters of the `BETWEEN` nodes, in the order of the text. -/
def counters : Node → List ℕ
  | identifier _ | string _ | integer _ | floatingPoint .. | boolean _ | null | allFields => []
  | binary _ l r | power l r | elementAt l r => l.counters ++ r.counters
  | regularExpression l r | like _ l r => r.counters ++ l.counters
  | negate c | logicalNot c | period c _ | cast _ c => c.counters
  | between counter value low high => counter :: (value.counters ++ (low.counters ++ high.counters))
  | functionCall _ _ params => allCounters params

/-- Those of the parameters of a call. -/
def allCounters : List Node → List ℕ
  | [] => []
  | n :: ns => n.counters ++ allCounters ns

end

/-- The counters of the `BETWEEN` nodes below the root. -/
def countersBelow : Node → List ℕ
  | between _ value low high => value.counters ++ (low.counters ++ high.counters)
  | n => n.counters

mutual

/-- The tree once `recursive_to_as2js()` was called: each `BETWEEN` node counted. -/
def advance : Node → Node
  | binary t l r => binary t l.advance r.advance
  | negate c => negate c.advance
  | logicalNot c => logicalNot c.advance
  | power l r => power l.advance r.advance
  | period l f => period l.advance f
  | elementAt l i => elementAt l.advance i.advance
  | regularExpression l r => regularExpression l.advance r.advance
  | like insensitive l r => like insensitive l.advance (if r.isLiteral then r else r.advance)
  | between counter value low high =>
    between (counter + 1) value.advance low.advance high.advance
  | cast t c => cast t c.advance
  | functionCall object method params => functionCall object method (advanceAll params)
  | n => n

/-- The parameters of a call. -/
def advanceAll : List Node → List Node
  | [] => []
  | n :: ns => n.advance :: advanceAll ns

end

/-- The tree once `to_as2js()` was called. -/
def afterToAs2js (n : Node) : Node := n.resetCounter.advance

variable (escape : Char → String)

/-- The temporaries of the text differ, and a second call gives the same text. -/
def KeepsTemporaries (n : Node) : Prop :=
  (assigned (n.toAs2jsLexemes escape)).Nodup ∧
    n.afterToAs2js.toAs2js escape = n.toAs2js escape

/-! ### The names that are assigned -/

/-- A node and the token that follows it. -/
theorem assigned_node (n : Node) {b : Lexeme} (hb : b ≠ .assign) (ts : List Lexeme) :
    assigned (n.recursiveToAs2js escape ++ b :: ts)
      = assigned (n.recursiveToAs2js escape) ++ assigned (b :: ts) :=
  assigned_append (by simpa using hb) _

theorem counters_of_isLiteral {n : Node} (h : n.isLiteral = true) : n.counters = [] := by
  cases n <;> first | rfl | cases h

/-- The parameters of a call and the parenthesis after them. -/
theorem assigned_params {ns : List Node} (n : Node)
    (h : ∀ m ∈ ns, assigned (m.recursiveToAs2js escape) = m.counters.map tempName) :
    assigned (n.recursiveToAs2js escape ++ (moreToAs2js escape ns ++ [.rparen]))
      = assigned (n.recursiveToAs2js escape) ++ (allCounters ns).map tempName := by
  induction ns generalizing n with
  | nil => simp [moreToAs2js, allCounters, assigned_node, assigned, assignedName]
  | cons m ns ih =>
    have hrest := ih m fun k hk => h k (List.mem_cons_of_mem _ hk)
    rw [moreToAs2js, List.cons_append, List.append_assoc, assigned_node escape n (by simp),
      assigned, hrest, h m (List.mem_cons_self ..), allCounters, List.map_append]
    rfl

/-- **The names that are assigned** are those of the `BETWEEN` nodes. -/
theorem assigned_recursiveToAs2js (n : Node) :
    assigned (n.recursiveToAs2js escape) = n.counters.map tempName := by
  induction n with
  | identifier | string | boolean | null | allFields =>
    simp [recursiveToAs2js, counters, assigned, assignedName]
  | integer n =>
    rw [recursiveToAs2js, counters]
    split
    · rfl
    · rfl
  | floatingPoint negative digits =>
    rw [recursiveToAs2js, counters]
    split
    · rfl
    · rfl
  | binary t l r hl hr | power l r hl hr | elementAt l r hl hr | regularExpression l r hl hr =>
    simp [recursiveToAs2js, counters, assigned, assignedName, assigned_node, hl, hr]
  | negate c h | logicalNot c h | period c _ h =>
    simp [recursiveToAs2js, counters, assigned, assignedName, assigned_node, h]
  | like insensitive l r hl hr =>
    cases hlit : r.isLiteral with
    | true =>
      cases insensitive <;>
        simp [recursiveToAs2js, counters, assigned, assignedName, assigned_node, hl, hlit,
          counters_of_isLiteral]
    | false =>
      cases insensitive <;>
        simp [recursiveToAs2js, counters, assigned, assignedName, assigned_node, hl, hr, hlit]
  | between counter value low high hv hl hh =>
    simp [recursiveToAs2js, counters, assigned, assignedName, assigned_node, hv, hl, hh]
  | cast t c h =>
    cases t <;> simp [recursiveToAs2js, counters, assigned, assignedName, assigned_node, h]
  | functionCall object method params h =>
    cases params with
    | nil => simp [recursiveToAs2js, counters, allCounters, assigned, assignedName]
    | cons n ns =>
      have hparams := assigned_params escape n fun m hm => h m (List.mem_cons_of_mem _ hm)
      simp [recursiveToAs2js, counters, allCounters, assigned, assignedName, hparams,
        h n (List.mem_cons_self ..)]

/-! ### The next text -/

theorem isLiteral_advance (n : Node) : n.advance.isLiteral = n.isLiteral := by
  cases n <;> rfl

theorem counters_advance (n : Node) : n.advance.counters = n.counters.map (· + 1) := by
  induction n with
  | identifier | string | integer | floatingPoint | boolean | null | allFields => rfl
  | binary t l r hl hr | power l r hl hr | elementAt l r hl hr | regularExpression l r hl hr =>
    simp [advance, counters, hl, hr]
  | negate c h | logicalNot c h | period c _ h | cast t c h => simp [advance, counters, h]
  | like insensitive l r hl hr =>
    cases hlit : r.isLiteral <;> simp [advance, counters, hl, hr, hlit, counters_of_isLiteral]
  | between counter value low high hv hl hh => simp [advance, counters, hv, hl, hh]
  | functionCall object method params h =>
    rw [advance, counters, counters]
    induction params with
    | nil => rfl
    | cons n ns ih =>
      rw [advanceAll, allCounters, allCounters, h n (List.mem_cons_self ..),
        ih fun m hm => h m (List.mem_cons_of_mem _ hm), List.map_append]

/-- What a token becomes in the next text. -/
def Later (t u : Lexeme) : Prop :=
  t = u ∨ ∃ counter, t = .word (tempName counter) ∧ u = .word (tempName (counter + 1))

theorem Later.refl (t : Lexeme) : Later t t := .inl rfl

theorem later_self (ts : List Lexeme) : List.Forall₂ Later ts ts :=
  List.forall₂_same.2 fun t _ => .refl t

theorem later_params {ns : List Node}
    (h : ∀ n ∈ ns, List.Forall₂ Later (n.recursiveToAs2js escape)
      (n.advance.recursiveToAs2js escape)) :
    List.Forall₂ Later (moreToAs2js escape ns) (moreToAs2js escape (advanceAll ns)) := by
  induction ns with
  | nil => exact .nil
  | cons n ns ih =>
    exact .cons (.refl _) (List.rel_append (h n (List.mem_cons_self ..))
      (ih fun m hm => h m (List.mem_cons_of_mem _ hm)))

/-- The pattern of a `LIKE` is computed when it is a literal, and written otherwise. -/
theorem later_pattern {pattern : Node}
    (h : List.Forall₂ Later (pattern.recursiveToAs2js escape)
      (pattern.advance.recursiveToAs2js escape)) :
    List.Forall₂ Later
      (if pattern.isLiteral then [.string (convertLikePattern escape pattern.getStringAutoConvert)]
        else pattern.recursiveToAs2js escape)
      (if (if pattern.isLiteral then pattern else pattern.advance).isLiteral then
        [.string (convertLikePattern escape
          (if pattern.isLiteral then pattern else pattern.advance).getStringAutoConvert)]
        else (if pattern.isLiteral then pattern else pattern.advance).recursiveToAs2js escape) := by
  cases hlit : pattern.isLiteral with
  | true =>
    simp only [hlit, if_true]
    exact later_self _
  | false =>
    simp only [Bool.false_eq_true, if_false, isLiteral_advance, hlit]
    exact h

/-- The next text has a token for each one of the text. -/
theorem later_advance (n : Node) :
    List.Forall₂ Later (n.recursiveToAs2js escape) (n.advance.recursiveToAs2js escape) := by
  induction n with
  | identifier | string | integer | floatingPoint | boolean | null | allFields =>
    exact later_self _
  | binary t l r hl hr =>
    exact List.rel_append hl (.cons (.refl _) hr)
  | power l r hl hr =>
    exact .cons (.refl _) (List.rel_append hl (.cons (.refl _) (List.rel_append hr (later_self _))))
  | elementAt l i hl hi =>
    exact List.rel_append hl (.cons (.refl _) (List.rel_append hi (later_self _)))
  | regularExpression l r hl hr =>
    exact List.rel_append (later_self [_, _, _])
      (List.rel_append hr (List.rel_append (later_self [_, _, _, _])
        (List.rel_append hl (later_self _))))
  | negate c h | logicalNot c h =>
    exact .cons (.refl _) h
  | period c f h =>
    exact List.rel_append h (later_self _)
  | like insensitive l r hl hr =>
    exact List.rel_append (later_self [_, _, _]) (List.rel_append
      (List.rel_append (later_pattern escape hr) (later_self _)) (List.rel_append (later_self [_, _, _, _])
        (List.rel_append hl (later_self _))))
  | between counter value low high hv hl hh =>
    have htemp : Later (.word (tempName counter)) (.word (tempName (counter + 1))) :=
      .inr ⟨counter, rfl, rfl⟩
    exact .cons (.refl _) (.cons htemp (.cons (.refl _) (List.rel_append hv
      (.cons (.refl _) (.cons htemp (.cons (.refl _) (List.rel_append hl
        (.cons (.refl _) (.cons htemp (.cons (.refl _) (List.rel_append hh (later_self _))))))))))))
  | cast t c h =>
    cases t
    all_goals
        exact List.rel_append (later_self [_, _, _]) (List.rel_append h (later_self _))
  | functionCall object method params h =>
    cases params with
    | nil => exact later_self _
    | cons n ns =>
      exact List.rel_append (later_self [_, _, _, _])
        (List.rel_append (h n (List.mem_cons_self ..))
          (List.rel_append (later_params escape fun m hm => h m (List.mem_cons_of_mem _ hm))
            (later_self _)))

/-- The digits of a greater counter are not fewer. -/
theorem length_tempName_le (counter : ℕ) :
    (tempName counter).length ≤ (tempName (counter + 1)).length := by
  simp only [tempName, String.length_append, Nat.toString_eq_repr]
  have hpos : 0 < (counter + 1 + 1).repr.length := Nat.length_repr_pos
  have hlt := (Nat.length_repr_le_iff hpos).1 le_rfl
  exact Nat.add_le_add_left ((Nat.length_repr_le_iff hpos).2 (by omega)) _

theorem tempName_injective : Function.Injective tempName := by
  intro a b h
  have hrepr : (a + 1).repr = (b + 1).repr := (String.append_right_inj _).1 h
  have hdigits := congrArg String.toList hrepr
  rw [Nat.toList_repr, Nat.toList_repr] at hdigits
  have hvalue := congrArg (Nat.ofDigitChars 10 · 0) hdigits
  rw [Nat.ofDigitChars_toDigits (by decide) (by decide),
    Nat.ofDigitChars_toDigits (by decide) (by decide)] at hvalue
  exact Nat.succ_injective hvalue

theorem Later.length_le {t u : Lexeme} (h : Later t u) : t.text.length ≤ u.text.length := by
  rcases h with rfl | ⟨counter, rfl, rfl⟩
  · exact le_rfl
  · exact length_tempName_le counter

/-- A token that did not change its text did not change. -/
theorem Later.eq_of_text_eq {t u : Lexeme} (h : Later t u) (heq : t.text = u.text) : t = u := by
  rcases h with rfl | ⟨counter, rfl, rfl⟩
  · rfl
  · exact absurd (tempName_injective heq) (by omega)

/-- A text that did not change has the same tokens: none got longer. -/
theorem eq_of_join_eq {ts us : List Lexeme} (h : List.Forall₂ Later ts us)
    (heq : String.join (ts.map Lexeme.text) = String.join (us.map Lexeme.text)) : ts = us := by
  have hle {ts us : List Lexeme} (h : List.Forall₂ Later ts us) :
      (String.join (ts.map Lexeme.text)).length ≤ (String.join (us.map Lexeme.text)).length := by
    induction h with
    | nil => exact le_rfl
    | cons h _ ih =>
      simp only [List.map_cons, String.join_cons, String.length_append]
      exact Nat.add_le_add h.length_le ih
  induction h with
  | nil => rfl
  | cons h hrest ih =>
    simp only [List.map_cons, String.join_cons] at heq
    have hlen := congrArg String.length heq
    rw [String.length_append, String.length_append] at hlen
    have hhead := h.length_le
    have htail := hle hrest
    have hchars := congrArg String.toList heq
    rw [String.toList_append, String.toList_append] at hchars
    obtain ⟨hfirst, hothers⟩ := List.append_inj hchars (by
      rw [String.length_toList, String.length_toList]
      omega)
    rw [h.eq_of_text_eq (String.toList_injective hfirst), ih (String.toList_injective hothers)]

/-! ### When the temporaries are kept -/

theorem counters_eq_nil_of_map {l : List ℕ} (h : l.map (· + 1) = l) : l = [] := by
  cases l with
  | nil => rfl
  | cons c l => exact absurd (List.cons.inj h).1 (Nat.succ_ne_self c)

/-- The counters of the two texts: the root starts again, the others do not. -/
theorem counters_next (n : Node) :
    n.afterToAs2js.resetCounter.counters = n.resetCounter.counters →
      n.countersBelow = [] := by
  intro h
  cases n with
  | between counter value low high =>
    have htail : value.advance.counters ++ (low.advance.counters ++ high.advance.counters) =
        value.counters ++ (low.counters ++ high.counters) := (List.cons.inj h).2
    rw [counters_advance, counters_advance, counters_advance, ← List.map_append,
      ← List.map_append] at htail
    exact counters_eq_nil_of_map htail
  | _ => exact counters_eq_nil_of_map ((counters_advance _).symm.trans h)

/-- A tree without `BETWEEN` does not count. -/
theorem advance_eq_self (n : Node) (h : n.counters = []) : n.advance = n := by
  induction n with
  | identifier | string | integer | floatingPoint | boolean | null | allFields => rfl
  | binary t l r hl hr =>
    obtain ⟨hleft, hright⟩ := List.append_eq_nil_iff.1 h
    exact congrArg₂ (binary t) (hl hleft) (hr hright)
  | power l r hl hr =>
    obtain ⟨hleft, hright⟩ := List.append_eq_nil_iff.1 h
    exact congrArg₂ power (hl hleft) (hr hright)
  | elementAt l i hl hi =>
    obtain ⟨hleft, hright⟩ := List.append_eq_nil_iff.1 h
    exact congrArg₂ elementAt (hl hleft) (hi hright)
  | regularExpression l r hl hr =>
    obtain ⟨hright, hleft⟩ := List.append_eq_nil_iff.1 h
    exact congrArg₂ regularExpression (hl hleft) (hr hright)
  | like insensitive l r hl hr =>
    obtain ⟨hright, hleft⟩ := List.append_eq_nil_iff.1 h
    refine congrArg₂ (like insensitive) (hl hleft) ?_
    rw [hr hright, ite_self]
  | negate c hc => exact congrArg negate (hc h)
  | logicalNot c hc => exact congrArg logicalNot (hc h)
  | period c field hc => exact congrArg (period · field) (hc h)
  | cast t c hc => exact congrArg (cast t) (hc h)
  | between counter value low high hv hl hh => cases h
  | functionCall object method params hparams =>
    refine congrArg (functionCall object method) ?_
    induction params with
    | nil => rfl
    | cons n ns ih =>
      obtain ⟨hhead, htail⟩ := List.append_eq_nil_iff.1 h
      exact congrArg₂ List.cons (hparams n (List.mem_cons_self ..) hhead)
        (ih (fun m hm => hparams m (List.mem_cons_of_mem _ hm)) htail)

/-- The second text has a token for each one of the first. -/
theorem later_next (n : Node) :
    List.Forall₂ Later (n.toAs2jsLexemes escape) (n.afterToAs2js.toAs2jsLexemes escape) := by
  cases n with
  | between counter value low high =>
    exact List.rel_append (later_self [_, _, _]) (List.rel_append (later_advance escape value)
      (List.rel_append (later_self [_, _, _]) (List.rel_append (later_advance escape low)
        (List.rel_append (later_self [_, _, _]) (List.rel_append (later_advance escape high)
          (later_self _))))))
  | _ => exact later_advance escape _

/-- **The temporaries are kept if and only if** no `BETWEEN` is below the root.  Two of them that
are not the root have the same name, as has the root with one that is written for the first time;
and one that is not the root has another name in the next text. -/
theorem keepsTemporaries_iff (n : Node) : n.KeepsTemporaries escape ↔ n.countersBelow = [] := by
  constructor
  · rintro ⟨-, htext⟩
    have hassigned := congrArg assigned (eq_of_join_eq (n.later_next escape) htext.symm)
    unfold toAs2jsLexemes at hassigned
    rw [assigned_recursiveToAs2js, assigned_recursiveToAs2js] at hassigned
    exact n.counters_next (List.map_injective_iff.2 tempName_injective hassigned).symm
  · intro h
    unfold KeepsTemporaries toAs2js toAs2jsLexemes afterToAs2js
    rw [assigned_recursiveToAs2js]
    cases n with
    | between counter value low high =>
      rw [countersBelow] at h
      obtain ⟨hv, hlh⟩ := List.append_eq_nil_iff.1 h
      obtain ⟨hl, hh⟩ := List.append_eq_nil_iff.1 hlh
      simp only [resetCounter, advance, counters, advance_eq_self _ hv, advance_eq_self _ hl,
        advance_eq_self _ hh, h]
      exact ⟨by simp, trivial⟩
    | _ =>
      simp only [resetCounter, countersBelow] at h ⊢
      rw [h, advance_eq_self _ h]
      exact ⟨List.nodup_nil, rfl⟩

/-- `a BETWEEN 1 AND 2 AND b BETWEEN 3 AND 4`. -/
def twoBetweens : Node :=
  .binary .logicalAnd (.between 0 (.identifier "a") (.integer 1) (.integer 2))
    (.between 0 (.identifier "b") (.integer 3) (.integer 4))

/-- Both have the same temporary. -/
theorem twoBetweens_not_keepsTemporaries : ¬ twoBetweens.KeepsTemporaries Char.toString := by
  rintro ⟨hnodup, -⟩
  revert hnodup
  decide

end Node

end Prinbee
