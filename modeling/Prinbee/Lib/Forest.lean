import Mathlib.Tactic.Common
import Mathlib.Data.Int.Notation

/-!
# Forests laid out in a sequence

A forest is a list of trees, as first child and next sibling.  Each node has items of its own
(what they are may depend on the number of its children), and the items of a forest are those of
its nodes, parents before children.  `Forest.layout` says at which offset each node starts.

A program that caches these offsets has to move them when a node grows, shrinks, or gains or
loses a child.  The rule is often to move every offset past a cutoff by the difference:
`Forest.layout_modify` says when that gives the layout of the changed forest.

## Main definitions

* `Forest.Pos`, `Forest.at?`, `Forest.get?`, `Forest.modify` — positions, and a change at one.
* `Forest.Every` — a property of every tree.
* `Forest.items`, `Forest.layout`, `Forest.offset` — the items, and where each node starts.
* `Forest.Shifts` — a relabelling moves the offsets past a cutoff.
* `Forest.All` — a property of every node.
* `Forest.EndsIn` — every node starts before the end.

## Main results

* `Forest.items_split` — the items around those of one node.
* `Forest.layout_modify` — moving the offsets past a cutoff follows a change at one node.
-/

/-- A list of trees: the first one's label, its children, and the trees after it. -/
inductive Forest (α : Type*)
  | nil
  | node (label : α) (sub next : Forest α)
  deriving DecidableEq, Repr

namespace Forest

/-- A step from a node to its first child or to its next sibling. -/
inductive Step
  | down
  | next
  deriving DecidableEq, Repr

/-- A position in a forest, from its first tree. -/
abbrev Pos := List Step

variable {α β δ : Type*}

/-- Relabel every node. -/
def map (f : α → β) : Forest α → Forest β
  | nil => nil
  | node a sub next => node (f a) (map f sub) (map f next)

@[simp] theorem map_nil (f : α → β) : (nil : Forest α).map f = nil := rfl

@[simp] theorem map_node (f : α → β) (a : α) (sub next : Forest α) :
    (node a sub next).map f = node (f a) (sub.map f) (next.map f) := rfl

/-- The number of trees. -/
def roots : Forest α → ℕ
  | nil => 0
  | node _ _ next => next.roots + 1

@[simp] theorem roots_nil : (nil : Forest α).roots = 0 := rfl

@[simp] theorem roots_node (a : α) (sub next : Forest α) :
    (node a sub next).roots = next.roots + 1 := rfl

@[simp] theorem roots_map (f : α → β) (t : Forest α) : (t.map f).roots = t.roots := by
  induction t with
  | nil => rfl
  | node a sub next _ ih => rw [map_node, roots_node, roots_node, ih]

/-! ### Positions -/

/-- The forest that starts at a position. -/
def at? : Forest α → Pos → Option (Forest α)
  | t, [] => some t
  | nil, _ :: _ => none
  | node _ sub _, .down :: p => sub.at? p
  | node _ _ next, .next :: p => next.at? p

/-- The label and the children of the node at a position. -/
def get? : Forest α → Pos → Option (α × Forest α)
  | nil, _ => none
  | node a sub _, [] => some (a, sub)
  | node _ sub _, .down :: p => sub.get? p
  | node _ _ next, .next :: p => next.get? p

/-- Change the label and the children of the node at a position. -/
def modify (g : α → Forest α → α × Forest α) : Forest α → Pos → Forest α
  | nil, _ => nil
  | node a sub next, [] => node (g a sub).1 (g a sub).2 next
  | node a sub next, .down :: p => node a (modify g sub p) next
  | node a sub next, .next :: p => node a sub (modify g next p)

@[simp] theorem at?_nil_pos (t : Forest α) : t.at? [] = some t := by cases t <;> rfl

@[simp] theorem at?_down (a : α) (sub next : Forest α) (p : Pos) :
    (node a sub next).at? (.down :: p) = sub.at? p := rfl

@[simp] theorem at?_next (a : α) (sub next : Forest α) (p : Pos) :
    (node a sub next).at? (.next :: p) = next.at? p := rfl

@[simp] theorem get?_nil (p : Pos) : (nil : Forest α).get? p = none := by cases p <;> rfl

@[simp] theorem get?_node (a : α) (sub next : Forest α) :
    (node a sub next).get? [] = some (a, sub) := rfl

@[simp] theorem get?_down (a : α) (sub next : Forest α) (p : Pos) :
    (node a sub next).get? (.down :: p) = sub.get? p := rfl

@[simp] theorem get?_next (a : α) (sub next : Forest α) (p : Pos) :
    (node a sub next).get? (.next :: p) = next.get? p := rfl

variable {g : α → Forest α → α × Forest α}

@[simp] theorem modify_nil (p : Pos) : modify g nil p = nil := by cases p <;> rfl

@[simp] theorem modify_node (a : α) (sub next : Forest α) :
    modify g (node a sub next) [] = node (g a sub).1 (g a sub).2 next := rfl

@[simp] theorem modify_down (a : α) (sub next : Forest α) (p : Pos) :
    modify g (node a sub next) (.down :: p) = node a (modify g sub p) next := rfl

@[simp] theorem modify_next (a : α) (sub next : Forest α) (p : Pos) :
    modify g (node a sub next) (.next :: p) = node a sub (modify g next p) := rfl

@[simp] theorem roots_modify (t : Forest α) (p : Pos) : (modify g t p).roots = t.roots := by
  induction t generalizing p with
  | nil => rw [modify_nil]
  | node a sub next _ ih =>
    cases p with
    | nil => rfl
    | cons s p =>
      cases s with
      | down => rfl
      | next => rw [modify_next, roots_node, ih, roots_node]

/-- The node that was changed. -/
theorem get?_modify {t : Forest α} {p : Pos} {a : α} {sub : Forest α}
    (h : t.get? p = some (a, sub)) : (t.modify g p).get? p = some (g a sub) := by
  induction t generalizing p with
  | nil => rw [get?_nil] at h; cases h
  | node b u next ihs ihn =>
    cases p with
    | nil =>
      cases h
      rfl
    | cons s p =>
      cases s with
      | down => exact ihs h
      | next => exact ihn h

/-- A change of a node, then of one under it. -/
theorem modify_modify_down (f : α → Forest α → α × Forest α) (t : Forest α) (p q : Pos) :
    (t.modify f p).modify g (p ++ .down :: q)
      = t.modify (fun a sub => ((f a sub).1, (f a sub).2.modify g q)) p := by
  induction t generalizing p with
  | nil => rw [modify_nil, modify_nil, modify_nil]
  | node a sub next ihs ihn =>
    cases p with
    | nil => rfl
    | cons s p =>
      cases s with
      | down => rw [modify_down, List.cons_append, modify_down, ihs, modify_down]
      | next => rw [modify_next, List.cons_append, modify_next, ihn, modify_next]

theorem get?_append {t u : Forest α} {p : Pos} (h : t.at? p = some u) (q : Pos) :
    t.get? (p ++ q) = u.get? q := by
  induction p generalizing t with
  | nil =>
    rw [at?_nil_pos, Option.some.injEq] at h
    rw [h, List.nil_append]
  | cons s p ih =>
    cases t with
    | nil => cases h
    | node a sub next =>
      cases s with
      | down => exact ih h
      | next => exact ih h

/-- The children of a node are the forest one step down. -/
theorem at?_down_of_get? {t : Forest α} {p : Pos} {a : α} {sub : Forest α}
    (h : t.get? p = some (a, sub)) : t.at? (p ++ [.down]) = some sub := by
  induction t generalizing p with
  | nil => rw [get?_nil] at h; cases h
  | node b sub' next ihs ihn =>
    cases p with
    | nil =>
      cases h
      exact at?_nil_pos sub
    | cons s p =>
      cases s with
      | down => exact ihs h
      | next => exact ihn h

/-! ### Lists of trees -/

/-- The trees of `u` after those of `t`. -/
def append : Forest α → Forest α → Forest α
  | nil, u => u
  | node a sub next, u => node a sub (next.append u)

@[simp] theorem nil_append (u : Forest α) : (nil : Forest α).append u = u := rfl

@[simp] theorem node_append (a : α) (sub next u : Forest α) :
    (node a sub next).append u = node a sub (next.append u) := rfl

theorem append_assoc (t u w : Forest α) : (t.append u).append w = t.append (u.append w) := by
  induction t with
  | nil => rfl
  | node a sub next _ ih => exact congrArg (node a sub) ih

@[simp] theorem roots_append (t u : Forest α) : (t.append u).roots = t.roots + u.roots := by
  induction t with
  | nil => rw [nil_append, roots_nil, Nat.zero_add]
  | node a sub next _ ih => rw [node_append, roots_node, roots_node, ih]; omega

@[simp] theorem map_append (f : α → β) (t u : Forest α) :
    (t.append u).map f = (t.map f).append (u.map f) := by
  induction t with
  | nil => rfl
  | node a sub next _ ih => rw [node_append, map_node, map_node, node_append, ih]

/-- The tree number `i`: its label and children. -/
def tree? : Forest α → ℕ → Option (α × Forest α)
  | nil, _ => none
  | node a sub _, 0 => some (a, sub)
  | node _ _ next, i + 1 => next.tree? i

/-- Remove tree number `i`. -/
def eraseTree : Forest α → ℕ → Forest α
  | nil, _ => nil
  | node _ _ next, 0 => next
  | node a sub next, i + 1 => node a sub (next.eraseTree i)

/-- Every tree has a property of its label and children. -/
def Every (P : α → Forest α → Prop) : Forest α → Prop
  | nil => True
  | node a sub next => P a sub ∧ Every P next

@[simp] theorem every_nil (P : α → Forest α → Prop) : Every P (nil : Forest α) := trivial

@[simp] theorem every_node {P : α → Forest α → Prop} {a : α} {sub next : Forest α} :
    Every P (node a sub next) ↔ P a sub ∧ Every P next := Iff.rfl

theorem every_append {P : α → Forest α → Prop} {t u : Forest α} :
    Every P (t.append u) ↔ Every P t ∧ Every P u := by
  induction t with
  | nil => exact (and_iff_right trivial).symm
  | node a sub next _ ih => rw [node_append, every_node, every_node, ih, and_assoc]

/-- The position of tree number `i`. -/
def treePos (i : ℕ) : Pos := List.replicate i .next

theorem get?_treePos (t : Forest α) (i : ℕ) : t.get? (treePos i) = t.tree? i := by
  induction t generalizing i with
  | nil => rw [get?_nil]; rfl
  | node a sub next _ ih =>
    cases i with
    | zero => rfl
    | succ i => exact ih i

theorem tree?_append_roots (t : Forest α) (a : α) (sub rest : Forest α) :
    (t.append (node a sub rest)).tree? t.roots = some (a, sub) := by
  induction t with
  | nil => rfl
  | node b u next _ ih => exact ih

theorem modify_append_roots (t : Forest α) (a : α) (sub rest : Forest α) :
    (t.append (node a sub rest)).modify g (treePos t.roots)
      = t.append (node (g a sub).1 (g a sub).2 rest) := by
  induction t with
  | nil => rfl
  | node b u next _ ih => exact congrArg (node b u) ih

theorem modify_append_roots_down (t : Forest α) (a : α) (sub rest : Forest α) (q : Pos) :
    (t.append (node a sub rest)).modify g (treePos t.roots ++ .down :: q)
      = t.append (node a (sub.modify g q) rest) := by
  induction t with
  | nil => rfl
  | node b u next _ ih => exact congrArg (node b u) ih

theorem Every.tree? {P : α → Forest α → Prop} {t : Forest α} (h : t.Every P) {i : ℕ}
    (hi : i < t.roots) : ∃ a sub, t.tree? i = some (a, sub) ∧ P a sub := by
  induction t generalizing i with
  | nil => cases hi
  | node a sub next _ ih =>
    cases i with
    | zero => exact ⟨a, sub, rfl, h.1⟩
    | succ i => exact ih h.2 (Nat.lt_of_succ_lt_succ hi)

/-- A change under a tree, or of one that keeps the property. -/
theorem Every.modify {P : α → Forest α → Prop} {t : Forest α} (h : t.Every P) {p : Pos} {a : α}
    {sub : Forest α} (hp : t.get? p = some (a, sub)) (hnode : P a sub → P (g a sub).1 (g a sub).2)
    (hunder : ∀ b u q, P b u → P b (u.modify g q)) : (t.modify g p).Every P := by
  induction t generalizing p with
  | nil => rw [get?_nil] at hp; cases hp
  | node b u next _ ih =>
    obtain ⟨hb, hnext⟩ := h
    cases p with
    | nil =>
      cases hp
      exact ⟨hnode hb, hnext⟩
    | cons s p =>
      cases s with
      | down => exact ⟨hunder b u p hb, hnext⟩
      | next => exact ⟨hb, ih hnext hp⟩

/-! ### Items and offsets -/

section Layout

variable (own : α → ℕ → List δ) (place : ℕ → α → β)

/-- The items of a forest: those of a node, of its children, of the trees after it. -/
def items : Forest α → List δ
  | nil => []
  | node a sub next => own a sub.roots ++ (items sub ++ items next)

/-- Label every node with the offset of its items. -/
def layout : ℕ → Forest α → Forest β
  | _, nil => nil
  | off, node a sub next =>
    node (place off a) (layout (off + (own a sub.roots).length) sub)
      (layout (off + (own a sub.roots).length + (items own sub).length) next)

/-- The offset of the items of the forest that starts at a position. -/
def offset : ℕ → Forest α → Pos → ℕ
  | off, _, [] => off
  | off, nil, _ :: _ => off
  | off, node a sub _, .down :: p => offset (off + (own a sub.roots).length) sub p
  | off, node a sub next, .next :: p =>
    offset (off + (own a sub.roots).length + (items own sub).length) next p

@[simp] theorem items_nil : items own (nil : Forest α) = [] := rfl

@[simp] theorem items_node (a : α) (sub next : Forest α) :
    items own (node a sub next) = own a sub.roots ++ (items own sub ++ items own next) := rfl

@[simp] theorem layout_nil (off : ℕ) : layout own place off (nil : Forest α) = nil := rfl

@[simp] theorem layout_node (off : ℕ) (a : α) (sub next : Forest α) :
    layout own place off (node a sub next)
      = node (place off a) (layout own place (off + (own a sub.roots).length) sub)
          (layout own place (off + (own a sub.roots).length + (items own sub).length) next) := rfl

@[simp] theorem offset_nil_pos (off : ℕ) (t : Forest α) : offset own off t [] = off := by
  cases t <;> rfl

@[simp] theorem offset_down (off : ℕ) (a : α) (sub next : Forest α) (p : Pos) :
    offset own off (node a sub next) (.down :: p)
      = offset own (off + (own a sub.roots).length) sub p := rfl

@[simp] theorem offset_next (off : ℕ) (a : α) (sub next : Forest α) (p : Pos) :
    offset own off (node a sub next) (.next :: p)
      = offset own (off + (own a sub.roots).length + (items own sub).length) next p := rfl

@[simp] theorem roots_layout (off : ℕ) (t : Forest α) :
    (layout own place off t).roots = t.roots := by
  induction t generalizing off with
  | nil => rfl
  | node a sub next _ ih => rw [layout_node, roots_node, roots_node, ih]

/-- The offset of a node and of all of its subtree is in the range of the forest. -/
theorem offset_range {t : Forest α} {p : Pos} {a : α} {sub : Forest α}
    (h : t.get? p = some (a, sub)) (off : ℕ) :
    off ≤ offset own off t p ∧
      offset own off t p + (own a sub.roots).length + (items own sub).length
        ≤ off + (items own t).length := by
  induction t generalizing p off with
  | nil => rw [get?_nil] at h; cases h
  | node b sub' next ihs ihn =>
    simp only [items_node, List.length_append]
    cases p with
    | nil => cases h; simp only [offset_nil_pos]; omega
    | cons s p =>
      cases s with
      | down =>
        have ih := ihs h (off + (own b sub'.roots).length)
        rw [offset_down]; omega
      | next =>
        have ih := ihn h (off + (own b sub'.roots).length + (items own sub').length)
        rw [offset_next]; omega

/-- The items of a forest are those of one node, of its children, and others around them that a
change of the node leaves alone. -/
theorem items_split {t : Forest α} {p : Pos} {a : α} {sub : Forest α}
    (h : t.get? p = some (a, sub)) (off : ℕ) :
    ∃ pre post, off + pre.length = offset own off t p ∧
      items own t = pre ++ (own a sub.roots ++ items own sub) ++ post ∧
      ∀ a' sub', items own (t.modify (fun _ _ => (a', sub')) p)
        = pre ++ (own a' sub'.roots ++ items own sub') ++ post := by
  induction t generalizing p off with
  | nil => rw [get?_nil] at h; cases h
  | node b sub₀ next ihs ihn =>
    cases p with
    | nil =>
      cases h
      exact ⟨[], items own next, by simp, by simp, by simp⟩
    | cons s p =>
      cases s with
      | down =>
        obtain ⟨pre, post, hpre, hitems, hmod⟩ := ihs h (off + (own b sub₀.roots).length)
        refine ⟨own b sub₀.roots ++ pre, post ++ items own next, ?_, ?_, ?_⟩
        · rw [offset_down, ← hpre, List.length_append]; omega
        · rw [items_node, hitems]; simp only [List.append_assoc]
        · intro a' sub'
          rw [modify_down, items_node, hmod, roots_modify]; simp only [List.append_assoc]
      | next =>
        obtain ⟨pre, post, hpre, hitems, hmod⟩ :=
          ihn h (off + (own b sub₀.roots).length + (items own sub₀).length)
        refine ⟨own b sub₀.roots ++ items own sub₀ ++ pre, post, ?_, ?_, ?_⟩
        · rw [offset_next, ← hpre, List.length_append, List.length_append]; omega
        · rw [items_node, hitems]; simp only [List.append_assoc]
        · intro a' sub'
          rw [modify_next, items_node, hmod]; simp only [List.append_assoc]

/-! ### Moving offsets -/

/-- `σ` moves what is placed past the cutoff `c` by `d` and leaves the rest. -/
structure Shifts (c : ℕ) (d : ℤ) (σ : β → β) : Prop where
  keep : ∀ o a, o ≤ c → σ (place o a) = place o a
  move : ∀ (o o' : ℕ) a, c < o → (o' : ℤ) = o + d → σ (place o a) = place o' a

variable {own place} {c : ℕ} {d : ℤ} {σ : β → β}

/-- A forest that ends before the cutoff stays where it is. -/
theorem map_layout_keep (hσ : Shifts place c d σ) {off : ℕ} {t : Forest α}
    (h : off + (items own t).length ≤ c) :
    (layout own place off t).map σ = layout own place off t := by
  induction t generalizing off with
  | nil => rfl
  | node a sub next ihs ihn =>
    simp only [items_node, List.length_append] at h
    rw [layout_node, map_node, hσ.keep _ _ (by omega), ihs (by omega), ihn (by omega)]

/-- A forest that starts past the cutoff moves. -/
theorem map_layout_move (hσ : Shifts place c d σ) {off : ℕ} (off' : ℕ) {t : Forest α}
    (h : c < off) (hd : (off' : ℤ) = off + d) :
    (layout own place off t).map σ = layout own place off' t := by
  induction t generalizing off off' with
  | nil => rfl
  | node a sub next ihs ihn =>
    rw [layout_node, map_node, layout_node, hσ.move off off' a h hd,
      ihs (off' + (own a sub.roots).length) (by omega) (by push_cast; omega),
      ihn (off' + (own a sub.roots).length + (items own sub).length) (by omega)
        (by push_cast; omega)]

/-- **Offsets follow a change at one node.**  The cutoff lies in the items of the node or of its
children, and `g₁` and `g₂`, made before and after the move, put the new node in place. -/
theorem layout_modify (hσ : Shifts place c d σ) {t : Forest α} {p : Pos} {a a' : α}
    {sub sub' : Forest α} {off : ℕ} {g₁ g₂ : β → Forest β → β × Forest β}
    (h : t.get? p = some (a, sub)) (hlo : offset own off t p ≤ c)
    (hhi : c < offset own off t p + (own a sub.roots).length + (items own sub).length)
    (hd : ((own a' sub'.roots).length + (items own sub').length : ℤ)
      = (own a sub.roots).length + (items own sub).length + d)
    (hg : ∀ o, o = offset own off t p → ∀ x,
      x = g₁ (place o a) (layout own place (o + (own a sub.roots).length) sub) →
      g₂ (σ x.1) (x.2.map σ)
        = (place o a', layout own place (o + (own a' sub'.roots).length) sub')) :
    (((layout own place off t).modify g₁ p).map σ).modify g₂ p
      = layout own place off (t.modify (fun _ _ => (a', sub')) p) := by
  induction t generalizing p off with
  | nil => rw [get?_nil] at h; cases h
  | node b sub₀ next ihs ihn =>
    cases p with
    | nil =>
      cases h
      rw [offset_nil_pos] at hlo hhi
      rw [layout_node, modify_node, map_node, modify_node, modify_node, layout_node,
        hg off (offset_nil_pos _ _ _).symm _ rfl,
        map_layout_move hσ (off + (own a' sub'.roots).length + (items own sub').length) hhi
          (by push_cast; omega)]
    | cons s p =>
      cases s with
      | down =>
        rw [get?_down] at h
        rw [offset_down] at hlo hhi hg
        have hrange := offset_range own h (off + (own b sub₀.roots).length)
        -- what comes after the tree moves: it starts after the changed node
        have hlen : ((items own (sub₀.modify (fun _ _ => (a', sub')) p)).length : ℤ)
            = (items own sub₀).length + d := by
          obtain ⟨pre, post, -, hitems, hmod⟩ := items_split own h 0
          rw [hitems, hmod]
          simp only [List.length_append]
          push_cast
          omega
        rw [layout_node, modify_down, map_node, modify_down, modify_down, layout_node,
          roots_modify, hσ.keep _ _ (by omega), ihs h hlo hhi hg,
          map_layout_move hσ (off + (own b sub₀.roots).length
            + (items own (sub₀.modify (fun _ _ => (a', sub')) p)).length) (by omega)
            (by push_cast; omega)]
      | next =>
        rw [get?_next] at h
        rw [offset_next] at hlo hhi hg
        have hrange := offset_range own h
          (off + (own b sub₀.roots).length + (items own sub₀).length)
        -- what comes before ends at or before the cutoff
        rw [layout_node, modify_next, map_node, modify_next, modify_next, layout_node,
          hσ.keep _ _ (by omega), map_layout_keep hσ (by omega), ihn h hlo hhi hg]

end Layout

/-! ### Positions in a layout -/

section Positions

variable (own : α → ℕ → List δ) (place : ℕ → α → β)

/-- The node at a position, laid out. -/
theorem get?_layout (off : ℕ) (t : Forest α) (p : Pos) :
    (layout own place off t).get? p = (t.get? p).map fun x =>
      (place (offset own off t p) x.1,
        layout own place (offset own off t p + (own x.1 x.2.roots).length) x.2) := by
  induction t generalizing p off with
  | nil => rw [layout_nil, get?_nil, get?_nil, Option.map_none]
  | node a sub next ihs ihn =>
    rw [layout_node]
    cases p with
    | nil => rfl
    | cons s p =>
      cases s with
      | down => exact ihs _ p
      | next => exact ihn _ p

theorem offset_append {t u : Forest α} {p : Pos} (h : t.at? p = some u) (off : ℕ) (q : Pos) :
    offset own off t (p ++ q) = offset own (offset own off t p) u q := by
  induction p generalizing t off with
  | nil =>
    rw [at?_nil_pos, Option.some.injEq] at h
    rw [h, List.nil_append, offset_nil_pos]
  | cons s p ih =>
    cases t with
    | nil => cases h
    | node a sub next =>
      cases s with
      | down => exact ih h _
      | next => exact ih h _

/-- The children of a node start after its own items. -/
theorem offset_down_of_get? {t : Forest α} {p : Pos} {a : α} {sub : Forest α}
    (h : t.get? p = some (a, sub)) (off : ℕ) :
    offset own off t (p ++ [.down]) = offset own off t p + (own a sub.roots).length := by
  induction t generalizing p off with
  | nil => rw [get?_nil] at h; cases h
  | node b u next ihs ihn =>
    cases p with
    | nil =>
      cases h
      rw [List.nil_append, offset_down, offset_nil_pos, offset_nil_pos]
    | cons s p =>
      cases s with
      | down => exact ihs h _
      | next => exact ihn h _

/-- The trees after a node start after those under it. -/
theorem offset_next_of_get? {t : Forest α} {p : Pos} {a : α}
    {sub : Forest α} (h : t.get? p = some (a, sub)) (off : ℕ) :
    offset own off t (p ++ [.next])
      = offset own off t p + (own a sub.roots).length + (items own sub).length := by
  induction t generalizing p off with
  | nil => rw [get?_nil] at h; cases h
  | node b u next ihs ihn =>
    cases p with
    | nil =>
      cases h
      rw [List.nil_append, offset_next, offset_nil_pos, offset_nil_pos]
    | cons s p =>
      cases s with
      | down => exact ihs h _
      | next => exact ihn h _

/-- The last tree ends where the forest does. -/
theorem offset_last {t : Forest α} {i : ℕ} {a : α} {sub : Forest α}
    (h : t.tree? i = some (a, sub)) (hlast : t.get? (treePos i ++ [.next]) = none) (off : ℕ) :
    offset own off t (treePos i) + (own a sub.roots).length + (items own sub).length
      = off + (items own t).length := by
  induction t generalizing i off with
  | nil => cases h
  | node b u next _ ih =>
    cases i with
    | zero =>
      cases h
      cases next with
      | nil =>
        change offset own off _ [] + _ + _ = _
        rw [offset_nil_pos, items_node, items_nil]
        simp only [List.length_append, List.length_nil]
        omega
      | node c w rest => cases hlast
    | succ i =>
      have hrest := ih h hlast (off + (own b u.roots).length + (items own u).length)
      change offset own _ next (treePos i) + _ + _ = _
      rw [hrest, items_node]
      simp only [List.length_append]
      omega

/-- A node that is replaced by one of the same place and size. -/
theorem layout_modify_same {t : Forest α} {p : Pos} {a a' : α} {sub : Forest α}
    (h : t.get? p = some (a, sub)) (hown : (own a' sub.roots).length = (own a sub.roots).length)
    (hplace : ∀ o, place o a' = place o a) (off : ℕ) :
    layout own place off (t.modify (fun _ _ => (a', sub)) p) = layout own place off t := by
  induction t generalizing p off with
  | nil => rw [get?_nil] at h; cases h
  | node b sub₀ next ihs ihn =>
    cases p with
    | nil =>
      cases h
      rw [modify_node, layout_node, layout_node, hown, hplace]
    | cons s p =>
      cases s with
      | down =>
        have hlen : (items own (sub₀.modify (fun _ _ => (a', sub)) p)).length
            = (items own sub₀).length := by
          rw [get?_down] at h
          obtain ⟨pre, post, -, hitems, hmod⟩ := items_split own h 0
          rw [hitems, hmod]
          simp only [List.length_append, hown]
        rw [modify_down, layout_node, layout_node, roots_modify, hlen, ihs h]
      | next => rw [modify_next, layout_node, layout_node, ihn h]

end Positions

/-! ### Properties of all nodes -/

/-- A property of every node and its children. -/
def All (P : α → Forest α → Prop) : Forest α → Prop
  | nil => True
  | node a sub next => P a sub ∧ All P sub ∧ All P next

variable {P : α → Forest α → Prop}

theorem All.get? {t : Forest α} (h : All P t) {p : Pos} {a : α} {sub : Forest α}
    (hp : t.get? p = some (a, sub)) : P a sub ∧ All P sub := by
  induction t generalizing p with
  | nil => rw [get?_nil] at hp; cases hp
  | node b sub' next ihs ihn =>
    obtain ⟨hnode, hsub, hnext⟩ := h
    cases p with
    | nil =>
      cases hp
      exact ⟨hnode, hsub⟩
    | cons s p =>
      cases s with
      | down => exact ihs hsub hp
      | next => exact ihn hnext hp

theorem All.imp {Q : α → Forest α → Prop} (hPQ : ∀ a sub, P a sub → Q a sub) {t : Forest α}
    (h : All P t) : All Q t := by
  induction t with
  | nil => exact trivial
  | node a sub next ihs ihn => exact ⟨hPQ a sub h.1, ihs h.2.1, ihn h.2.2⟩

theorem All.append {t u : Forest α} (ht : All P t) (hu : All P u) : All P (t.append u) := by
  induction t with
  | nil => exact hu
  | node a sub next _ ih => exact ⟨ht.1, ht.2.1, ih ht.2.2⟩

/-- A change of one node keeps a property of all nodes, when the new node has it and those above
it keep it. -/
theorem All.modify {t : Forest α} (h : All P t) {p : Pos} {a a' : α} {sub sub' : Forest α}
    (hp : t.get? p = some (a, sub)) (hnew : P a' sub' ∧ All P sub')
    (habove : ∀ r b u q, t.get? r = some (b, u) → p = r ++ .down :: q → P b u →
      P b (u.modify (fun _ _ => (a', sub')) q)) :
    All P (t.modify (fun _ _ => (a', sub')) p) := by
  induction t generalizing p with
  | nil => rw [get?_nil] at hp; cases hp
  | node b u next ihs ihn =>
    obtain ⟨hnode, hsub, hnext⟩ := h
    cases p with
    | nil => exact ⟨hnew.1, hnew.2, hnext⟩
    | cons s p =>
      cases s with
      | down =>
        refine ⟨habove [] b u p rfl rfl hnode, ihs hsub hp fun r b' u' q hr heq => ?_, hnext⟩
        exact habove (.down :: r) b' u' q hr (by rw [heq, List.cons_append])
      | next =>
        refine ⟨hnode, hsub, ihn hnext hp fun r b' u' q hr heq => ?_⟩
        exact habove (.next :: r) b' u' q hr (by rw [heq, List.cons_append])

/-! ### Nodes that start before the end -/

section Ends

variable (own : α → ℕ → List δ)

/-- Every node starts before the end of the items. -/
def EndsIn : Forest α → Prop
  | nil => True
  | node a sub next =>
    items own (node a sub next) ≠ [] ∧ (items own next = [] → EndsIn sub) ∧ EndsIn next

variable {own} {place : ℕ → α → β} {c : ℕ} {d : ℤ} {σ : β → β}

/-- A forest that ends at the cutoff stays where it is, when its nodes start before it. -/
theorem map_layout_keep_of_endsIn (hσ : Shifts place c d σ) {off : ℕ} {t : Forest α}
    (ht : EndsIn own t) (h : off + (items own t).length ≤ c + 1) :
    (layout own place off t).map σ = layout own place off t := by
  induction t generalizing off with
  | nil => rfl
  | node a sub next ihs ihn =>
    obtain ⟨hne, hsub, hnext⟩ := ht
    have hpos := List.length_pos_iff.2 hne
    simp only [items_node, List.length_append] at h hpos
    have hsub' : (layout own place (off + (own a sub.roots).length) sub).map σ
        = layout own place (off + (own a sub.roots).length) sub := by
      by_cases hnil : items own next = []
      · exact ihs (hsub hnil) (by omega)
      · have hlast := List.length_pos_iff.2 hnil
        exact map_layout_keep hσ (by omega)
    rw [layout_node, map_node, hσ.keep _ _ (by omega), hsub', ihn hnext (by omega)]

theorem items_append (own : α → ℕ → List δ) (t u : Forest α) :
    items own (t.append u) = items own t ++ items own u := by
  induction t with
  | nil => rfl
  | node a sub next _ ih =>
    rw [node_append, items_node, items_node, ih]
    simp only [List.append_assoc]

theorem layout_append (own : α → ℕ → List δ) (place : ℕ → α → β) (off : ℕ) (t u : Forest α) :
    layout own place off (t.append u)
      = (layout own place off t).append (layout own place (off + (items own t).length) u) := by
  induction t generalizing off with
  | nil => rfl
  | node a sub next _ ih =>
    rw [node_append, layout_node, layout_node, node_append, ih, items_node, List.length_append,
      List.length_append]
    simp only [Nat.add_assoc]

theorem EndsIn.append {t u : Forest α} (ht : EndsIn own t) (hu : EndsIn own u) :
    EndsIn own (t.append u) := by
  induction t with
  | nil => exact hu
  | node a sub next _ ih =>
    obtain ⟨hne, hsub, hnext⟩ := ht
    refine ⟨fun hnil => hne ?_, fun hnil => hsub ?_, ih hnext⟩
    · rw [← node_append, items_append] at hnil
      exact (List.append_eq_nil_iff.1 hnil).1
    · rw [items_append] at hnil
      exact (List.append_eq_nil_iff.1 hnil).1

theorem length_items_modify (own : α → ℕ → List δ) {t : Forest α} {p : Pos} {a : α}
    {sub : Forest α} (hp : t.get? p = some (a, sub)) (a' : α) (sub' : Forest α) :
    (items own (t.modify (fun _ _ => (a', sub')) p)).length
        + ((own a sub.roots).length + (items own sub).length)
      = (items own t).length + ((own a' sub'.roots).length + (items own sub').length) := by
  obtain ⟨pre, post, -, hitems, hmod⟩ := items_split own hp 0
  rw [hitems, hmod]
  simp only [List.length_append]
  omega

/-- The nodes still start before the end when one of them grows, if others come after it or its
children start before the end. -/
theorem EndsIn.modify {t : Forest α} (h : EndsIn own t) {p : Pos} {a a' : α}
    {sub sub' : Forest α} (hp : t.get? p = some (a, sub))
    (hgrow : (own a sub.roots).length + (items own sub).length
      ≤ (own a' sub'.roots).length + (items own sub').length)
    (hnext : t.get? (p ++ [.next]) ≠ none ∨ EndsIn own sub') :
    EndsIn own (t.modify (fun _ _ => (a', sub')) p) := by
  induction t generalizing p with
  | nil => rw [get?_nil] at hp; cases hp
  | node b u next ihs ihn =>
    have hlen := length_items_modify own hp a' sub'
    obtain ⟨hne, hsub, htail⟩ := h
    have hpos := List.length_pos_iff.2 hne
    have hne' : items own ((node b u next).modify (fun _ _ => (a', sub')) p) ≠ [] := by
      apply List.length_pos_iff.1
      omega
    cases p with
    | nil =>
      refine ⟨hne', fun hnil => ?_, htail⟩
      rcases hnext with hnext | hsub'
      · -- what comes after the node has items
        cases next with
        | nil => exact absurd rfl hnext
        | node c w rest => exact absurd hnil htail.1
      · exact hsub'
    | cons s p =>
      cases s with
      | down => exact ⟨hne', fun hnil => ihs (hsub hnil) hp hnext, htail⟩
      | next =>
        refine ⟨hne', fun hnil => hsub ?_, ihn htail hp hnext⟩
        have hlen' := length_items_modify own (show next.get? p = some (a, sub) from hp) a' sub'
        rw [hnil, List.length_nil] at hlen'
        apply List.length_eq_zero_iff.1
        omega

end Ends

end Forest
