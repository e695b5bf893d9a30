import Prinbee.Basic
import Prinbee.Lib.Run
import Prinbee.Lib.Splice

/-!
# The cursor

A cursor goes through the rows of a table by pages: `f_rows` holds the page it is in, or all the
rows it has read when they are cached.  The position is `f_global_position`, where the page starts,
and `f_local_position`, in the page.

`read_rows()` is given by the rows of the table and the number of rows that each call appends.

## Main definitions

* `Paging` — the rows of a table, and the pages they are read by.
* `Cursor` — the fields of the class, with its functions.
* `Cursor.call`, `iterate` — a call to the cursor, and what an iterator over the rows returns.
* `Cursor.Keeps` — the calls that keep the position.
* `Cursor.At` — the cursor is at a position of the table.

## Main results

* `Cursor.At.call` — a call that keeps the position returns the row of the iterator.
* `Cursor.iterates_run` — a run of such calls returns the rows of the iterator.
-/

namespace Prinbee

/-- The rows of a table, and how many of them the `n`th call to `read_rows()` appends, at a
position: at least one if there is any, and no more than `get_count()`. -/
structure Paging (α : Type) where
  rows : List α
  count : ℕ
  size : ℕ → ℕ → ℕ
  size_pos : ∀ n p, p < rows.length → 0 < size n p
  size_le_count : ∀ n p, size n p ≤ count
  size_le : ∀ n p, size n p ≤ rows.length - p

/-- The fields of `cursor`, and the number of calls to `read_rows()`. -/
structure Cursor (α : Type) where
  globalPosition : ℕ
  localPosition : ℕ
  multiplePages : Bool
  cache : Bool
  complete : Bool
  rows : List α
  reads : ℕ

namespace Cursor

variable {α : Type}

/-- The constructor, and `set_cache()`. -/
def new (cache : Bool) : Cursor α := ⟨0, 0, false, cache, false, [], 0⟩

/-- `get_position()`. -/
def getPosition (c : Cursor α) : ℕ := c.globalPosition + c.localPosition

/-- `read_rows()`. -/
def readRows (t : Paging α) (c : Cursor α) : Cursor α :=
  { c with
    rows := c.rows ++ t.rows.slice c.getPosition (t.size c.reads c.getPosition)
    reads := c.reads + 1 }

/-- `rewind()`. -/
def rewind (c : Cursor α) : Cursor α :=
  let c := { c with localPosition := 0 }
  if c.cache = false ∧ 0 < c.globalPosition then { c with globalPosition := 0, complete := false }
  else c

/-- A row of the page. -/
def rowAt (c : Cursor α) (i : ℕ) : Except Failure (Option α) :=
  match c.rows[i]? with
  | some row => .ok (some row)
  | none => .error .undefinedBehavior

/-- The end of `next_row()`. -/
def takeRow (c : Cursor α) : Except Failure (Option α × Cursor α) := do
  let result ← c.rowAt c.localPosition
  .ok (result, { c with localPosition := c.localPosition + 1 })

/-- `next_row()` after the last row of a page. -/
def nextPage (c : Cursor α) : Cursor α :=
  { c with
    multiplePages := true
    globalPosition := c.globalPosition + c.rows.length
    rows := []
    localPosition := 0 }

/-- `next_row()`. -/
def nextRow (t : Paging α) (c : Cursor α) : Except Failure (Option α × Cursor α) :=
  if c.rows.length ≤ c.localPosition then
    if c.complete then .ok (none, c)
    else
      let c := (if c.cache then c else c.nextPage).readRows t
      if c.rows.length ≤ c.localPosition then .ok (none, c) else c.takeRow
  else c.takeRow

/-- The end of `previous_row()`. -/
def takePreviousRow (c : Cursor α) : Except Failure (Option α × Cursor α) := do
  let c := { c with localPosition := c.localPosition - 1 }
  let result ← c.rowAt c.localPosition
  .ok (result, c)

/-- `previous_row()` before the first row of a page. -/
def previousPage (t : Paging α) (c : Cursor α) : Cursor α :=
  { c with
    multiplePages := true
    rows := []
    globalPosition := if t.count < c.globalPosition then c.globalPosition - t.count else 0 }

/-- The position after the rows that were read. -/
def toEnd (c : Cursor α) : Cursor α := { c with localPosition := c.rows.length }

/-- `previous_row()`. -/
def previousRow (t : Paging α) (c : Cursor α) : Except Failure (Option α × Cursor α) :=
  if c.localPosition = 0 then
    if c.globalPosition = 0 then .ok (none, c)
    else
      let c := ((c.previousPage t).readRows t).toEnd
      if c.localPosition = 0 then .ok (none, c) else c.takePreviousRow
  else c.takePreviousRow

/-- `forget()`. -/
def forget [DecidableEq α] (row : α) (c : Cursor α) : Bool × Cursor α :=
  if row ∈ c.rows then (true, { c with rows := c.rows.erase row }) else (false, c)

/-! ### Calls -/

/-- A call to a cursor. -/
inductive Call (α : Type)
  | nextRow
  | previousRow
  | rewind
  | forget (row : α)

/-- What a call returns, if it returns a row. -/
def call [DecidableEq α] (t : Paging α) (c : Cursor α) :
    Call α → Except Failure (Option α × Cursor α)
  | .nextRow => c.nextRow t
  | .previousRow => c.previousRow t
  | .rewind => .ok (none, c.rewind)
  | .forget row => .ok (none, (c.forget row).2)

/-- An iterator over the rows: what a call returns, and the position after it. -/
def iterate (rows : List α) (p : ℕ) : Call α → Option α × ℕ
  | .nextRow => if p < rows.length then (rows[p]?, p + 1) else (none, p)
  | .previousRow => if 0 < p then (rows[p - 1]?, p - 1) else (none, p)
  | .rewind => (none, 0)
  | .forget _ => (none, p)

/-- A cursor, and what the calls returned. -/
def step [DecidableEq α] (t : Paging α) (s : Cursor α × List (Option α)) (i : Call α) :
    Except Failure (Cursor α × List (Option α)) := do
  let (row, c) ← s.1.call t i
  .ok (c, s.2 ++ [row])

/-- The same for the iterator. -/
def iterateStep (rows : List α) (s : ℕ × List (Option α)) (i : Call α) : ℕ × List (Option α) :=
  ((iterate rows s.1 i).2, s.2 ++ [(iterate rows s.1 i).1])

/-- What the calls to a new cursor return. -/
def returned [DecidableEq α] (t : Paging α) (cache : Bool) (calls : List (Call α)) :
    Except Failure (List (Option α)) := do
  let (_, rows) ← calls.foldlM (step t) (new cache, [])
  .ok rows

/-- What the calls to an iterator return. -/
def iterated (rows : List α) (calls : List (Call α)) : List (Option α) :=
  (calls.foldl (iterateStep rows) (0, [])).2

/-- **The calls that keep the position.** A page that is read again ends where the one after it
starts; the cursor is not rewound out of another page than the first one, unless it is empty; and no
row of the page is forgotten, but for the last one before it is the row that was just returned. -/
def Keeps [DecidableEq α] (t : Paging α) (c : Cursor α) : Call α → Prop
  | .nextRow => True
  | .previousRow =>
    c.localPosition = 0 → 0 < c.globalPosition →
      t.size c.reads (c.globalPosition - t.count) = min t.count c.globalPosition
  | .rewind => c.cache = true ∨ c.globalPosition = 0 ∨ c.rows = []
  | .forget row =>
    row ∉ c.rows ∨ c.rows.erase row = c.rows.dropLast ∧ c.localPosition < c.rows.length

/-! ### The position -/

/-- The page is where the cursor says in the table, and the cursor is at a position of it. -/
structure At (t : Paging α) (c : Cursor α) (p : ℕ) : Prop where
  complete : c.complete = false
  rows : c.rows = t.rows.slice c.globalPosition c.rows.length
  inside : c.globalPosition + c.rows.length ≤ t.rows.length
  inPage : c.localPosition ≤ c.rows.length
  position : c.getPosition = p
  cached : c.cache = true → c.globalPosition = 0

section

variable {t : Paging α} {c : Cursor α} {p : ℕ}

theorem at_new (t : Paging α) (cache : Bool) : (new cache).At t 0 := by
  refine ⟨rfl, ?_, Nat.zero_le _, le_rfl, rfl, fun _ => rfl⟩
  exact (List.slice_zero_count 0 t.rows).symm

/-- The row of the table at a position of the page. -/
theorem At.rowAt (h : c.At t p) {i : ℕ} (hi : i < c.rows.length) :
    c.rowAt i = .ok t.rows[c.globalPosition + i]? := by
  have hrow : c.rows[i]? = t.rows[c.globalPosition + i]? := by
    rw [h.rows, List.slice, List.getElem?_take, if_pos hi, List.getElem?_drop]
  have hlt : c.globalPosition + i < t.rows.length := by
    have hinside := h.inside
    omega
  rw [Cursor.rowAt, hrow, List.getElem?_eq_getElem hlt]

/-- A move in the page. -/
theorem At.move (h : c.At t p) {i : ℕ} (hi : i ≤ c.rows.length) :
    { c with localPosition := i }.At t (c.globalPosition + i) :=
  ⟨h.complete, h.rows, h.inside, hi, rfl, h.cached⟩

theorem At.takeRow (h : c.At t p) (hlt : c.localPosition < c.rows.length) :
    ∃ c', c.takeRow = .ok (t.rows[p]?, c') ∧ c'.At t (p + 1) := by
  have hposition := h.position
  rw [getPosition] at hposition
  refine ⟨{ c with localPosition := c.localPosition + 1 }, ?_, ?_⟩
  · rw [Cursor.takeRow, h.rowAt hlt, hposition]
    rfl
  · rw [← hposition, Nat.add_assoc]
    exact h.move hlt

theorem At.takePreviousRow (h : c.At t p) (hpos : 0 < c.localPosition) :
    ∃ c', c.takePreviousRow = .ok (t.rows[p - 1]?, c') ∧ c'.At t (p - 1) := by
  have hinPage := h.inPage
  have hposition := h.position
  rw [getPosition] at hposition
  have hmove := h.move (show c.localPosition - 1 ≤ c.rows.length by omega)
  have hp : c.globalPosition + (c.localPosition - 1) = p - 1 := by omega
  refine ⟨{ c with localPosition := c.localPosition - 1 }, ?_, ?_⟩
  · rw [Cursor.takePreviousRow]
    dsimp only
    rw [hmove.rowAt (show c.localPosition - 1 < c.rows.length by omega)]
    dsimp only
    rw [hp]
    rfl
  · rwa [hp] at hmove

/-- The rows that follow the page are read. -/
theorem At.readRows (h : c.At t p) (hend : c.localPosition = c.rows.length) :
    (c.readRows t).At t p ∧ (c.readRows t).rows.length = c.rows.length + t.size c.reads p := by
  have hposition := h.position
  have hle := t.size_le c.reads p
  have hinside := h.inside
  have hp : c.globalPosition + c.rows.length = p := by rw [← hend, ← hposition, getPosition]
  have hlength : (t.rows.slice p (t.size c.reads p)).length = t.size c.reads p :=
    List.length_slice_of_le (by omega)
  have hrows : (c.readRows t).rows.length = c.rows.length + t.size c.reads p := by
    rw [Cursor.readRows, hposition, List.length_append, hlength]
  refine ⟨⟨h.complete, ?_, ?_, ?_, hposition, h.cached⟩, hrows⟩
  · rw [hrows]
    rw [Cursor.readRows, hposition, h.rows, ← hp, List.slice_append_slice]
    rw [← h.rows]
  · rw [hrows]
    change c.globalPosition + _ ≤ _
    omega
  · rw [hrows]
    change c.localPosition ≤ _
    omega

/-! ### The calls -/

theorem At.nextRow (h : c.At t p) :
    ∃ c', c.nextRow t = .ok ((iterate t.rows p .nextRow).1, c') ∧
      c'.At t (iterate t.rows p .nextRow).2 := by
  have hposition := h.position
  have hinside := h.inside
  have hinPage := h.inPage
  rw [getPosition] at hposition
  rw [Cursor.nextRow, iterate]
  by_cases hend : c.rows.length ≤ c.localPosition
  · rw [if_pos hend, if_neg (by rw [h.complete]; exact Bool.false_ne_true)]
    -- the page is left, unless the rows are cached
    obtain ⟨c₁, hc₁, hat, hlast⟩ : ∃ c₁, (if c.cache then c else c.nextPage) = c₁ ∧ c₁.At t p ∧
        c₁.localPosition = c₁.rows.length := by
      cases hcache : c.cache with
      | true => exact ⟨c, rfl, h, by omega⟩
      | false =>
        refine ⟨_, rfl, ⟨h.complete, ?_, hinside, le_rfl, ?_, fun htrue => ?_⟩, rfl⟩
        · exact (List.slice_zero_count _ _).symm
        · change c.globalPosition + c.rows.length + 0 = p
          omega
        · change c.cache = true at htrue
          exact absurd (hcache.symm.trans htrue) Bool.false_ne_true
    rw [hc₁]
    dsimp only
    obtain ⟨hread, hlength⟩ := hat.readRows hlast
    have hlocal : (c₁.readRows t).localPosition = c₁.rows.length := hlast
    by_cases hp : p < t.rows.length
    · have hsize := t.size_pos c₁.reads p hp
      rw [if_neg (by omega), if_pos hp]
      exact hread.takeRow (by omega)
    · have hsize := t.size_le c₁.reads p
      rw [if_pos (by omega), if_neg hp]
      exact ⟨_, rfl, hread⟩
  · rw [if_neg hend, if_pos (by omega)]
    exact h.takeRow (by omega)

theorem At.previousRow (h : c.At t p)
    (hkeeps : c.localPosition = 0 → 0 < c.globalPosition →
      t.size c.reads (c.globalPosition - t.count) = min t.count c.globalPosition) :
    ∃ c', c.previousRow t = .ok ((iterate t.rows p .previousRow).1, c') ∧
      c'.At t (iterate t.rows p .previousRow).2 := by
  have hposition := h.position
  have hinside := h.inside
  rw [getPosition] at hposition
  rw [Cursor.previousRow, iterate]
  by_cases hlocal : c.localPosition = 0
  · rw [if_pos hlocal]
    by_cases hglobal : c.globalPosition = 0
    · rw [if_pos hglobal, if_neg (by omega)]
      exact ⟨c, rfl, h⟩
    · rw [if_neg hglobal, if_pos (show 0 < p by omega)]
      have hfrom : (c.previousPage t).globalPosition = c.globalPosition - t.count := by
        change (if t.count < c.globalPosition then c.globalPosition - t.count else 0) = _
        split <;> omega
      have hpage : (c.previousPage t).At t (c.globalPosition - t.count) := by
        refine ⟨h.complete, (List.slice_zero_count _ _).symm, ?_, ?_, ?_, fun hcache => ?_⟩
        · rw [hfrom]
          change c.globalPosition - t.count + 0 ≤ _
          omega
        · exact hlocal.le
        · change (c.previousPage t).globalPosition + c.localPosition = _
          rw [hfrom, hlocal, Nat.add_zero]
        · exact absurd (h.cached hcache) hglobal
      obtain ⟨hread, hlength⟩ := hpage.readRows hlocal
      -- the page ends where the cursor was
      have hsize : t.size (c.previousPage t).reads (c.globalPosition - t.count) =
          min t.count c.globalPosition := hkeeps hlocal (by omega)
      have hrows : ((c.previousPage t).readRows t).rows.length = min t.count c.globalPosition := by
        rw [hlength, hsize]
        exact Nat.zero_add _
      have hcount : 0 < t.count :=
        (t.size_pos c.reads 0 (by omega)).trans_le (t.size_le_count c.reads 0)
      have hend : ((c.previousPage t).readRows t).toEnd.At t p := by
        have hmove : ((c.previousPage t).readRows t).toEnd.At t ((c.previousPage t).globalPosition +
            ((c.previousPage t).readRows t).rows.length) := hread.move le_rfl
        have hp : (c.previousPage t).globalPosition + min t.count c.globalPosition = p := by omega
        rwa [hrows, hp] at hmove
      have hpos : 0 < ((c.previousPage t).readRows t).toEnd.localPosition := by
        change 0 < ((c.previousPage t).readRows t).rows.length
        omega
      rw [if_neg hpos.ne']
      exact hend.takePreviousRow hpos
  · rw [if_neg hlocal, if_pos (by omega)]
    exact h.takePreviousRow (by omega)

theorem At.rewind (h : c.At t p) (hkeeps : c.cache = true ∨ c.globalPosition = 0 ∨ c.rows = []) :
    c.rewind.At t 0 := by
  rw [Cursor.rewind]
  dsimp only
  split
  · next hpages =>
    have hrows : c.rows = [] := by
      rcases hkeeps with hcache | hglobal | hrows
      · rw [hpages.1] at hcache
        cases hcache
      · exact absurd hglobal hpages.2.ne'
      · exact hrows
    refine ⟨rfl, ?_, ?_, Nat.zero_le _, rfl, fun _ => rfl⟩
    · rw [hrows]
      exact (List.slice_zero_count _ _).symm
    · rw [hrows]
      exact Nat.zero_le _
  · next hfirst =>
    have hglobal : c.globalPosition = 0 := by
      cases hcache : c.cache with
      | true => exact h.cached hcache
      | false => exact Nat.eq_zero_of_not_pos fun hpos => hfirst ⟨hcache, hpos⟩
    have hmove := h.move (Nat.zero_le _)
    have hzero : c.globalPosition + 0 = 0 := hglobal
    rwa [hzero] at hmove

theorem At.forget [DecidableEq α] (h : c.At t p) {row : α}
    (hkeeps : row ∉ c.rows ∨
      c.rows.erase row = c.rows.dropLast ∧ c.localPosition < c.rows.length) :
    (c.forget row).2.At t p := by
  rw [Cursor.forget]
  split
  · next hmem =>
    rcases hkeeps with hnot | ⟨herase, hlt⟩
    · exact absurd hmem hnot
    have hinside := h.inside
    have hlength : c.rows.dropLast.length = c.rows.length - 1 := List.length_dropLast
    have hrows : c.rows.dropLast = t.rows.slice c.globalPosition c.rows.dropLast.length := by
      have htake := congrArg (List.take (c.rows.length - 1)) h.rows
      rw [List.slice, List.take_take, Nat.min_eq_left (by omega)] at htake
      rw [hlength, List.dropLast_eq_take, htake]
      rfl
    dsimp only
    rw [herase]
    refine ⟨h.complete, hrows, ?_, ?_, h.position, h.cached⟩
    · dsimp only
      omega
    · dsimp only
      omega
  · exact h

/-- **A call that keeps the position** returns the row of the iterator. -/
theorem At.call [DecidableEq α] (h : c.At t p) (i : Call α) (hkeeps : c.Keeps t i) :
    ∃ c', c.call t i = .ok ((iterate t.rows p i).1, c') ∧ c'.At t (iterate t.rows p i).2 := by
  cases i with
  | nextRow => exact h.nextRow
  | previousRow => exact h.previousRow hkeeps
  | rewind => exact ⟨_, rfl, h.rewind hkeeps⟩
  | forget row => exact ⟨_, rfl, h.forget hkeeps⟩

end

/-- **The cursor returns the rows of an iterator** as long as its calls keep the position. -/
theorem iterates_run [DecidableEq α] (t : Paging α) (cache : Bool) (calls : List (Call α))
    (h : Run.Along (fun s i => s.1.Keeps t i) (step t) (new cache, []) calls) :
    returned t cache calls = .ok (iterated t.rows calls) := by
  obtain ⟨⟨c, rows⟩, hrun, -, hrows⟩ := Run.refines
    (R := fun (s : Cursor α × List (Option α)) (a : ℕ × List (Option α)) =>
      s.1.At t a.1 ∧ s.2 = a.2)
    (iterateStep t.rows) (fun s a i hR hkeeps => by
      obtain ⟨c', hcall, hat⟩ := hR.1.call i hkeeps
      refine ⟨(c', s.2 ++ [(iterate t.rows a.1 i).1]), ?_, hat, ?_⟩
      · rw [step, hcall]
        rfl
      · rw [hR.2]
        rfl) calls _ (0, []) ⟨at_new t cache, rfl⟩ h
  rw [returned, hrun]
  exact congrArg Except.ok hrows

/-- Three rows, in pages of some. -/
def pagesOf (count : ℕ) (hpos : 0 < count) : Paging ℕ where
  rows := [1, 2, 3]
  count := count
  size _ p := min count (3 - p)
  size_pos _ p hp := by
    rw [List.length_cons, List.length_cons, List.length_singleton] at hp
    omega
  size_le_count _ p := Nat.min_le_left _ _
  size_le _ p := Nat.min_le_right _ _

/-- The second page is left, and the first one is read again. -/
theorem iterates_run_pagesOf :
    returned (pagesOf 2 (by decide)) false
        [.nextRow, .nextRow, .nextRow, .previousRow, .previousRow] =
      .ok (iterated [1, 2, 3] [.nextRow, .nextRow, .nextRow, .previousRow, .previousRow]) := by
  apply iterates_run (pagesOf 2 (by decide))
  refine .cons trivial rfl (.cons trivial rfl (.cons trivial rfl ?_))
  exact .cons (fun h => absurd h (by decide)) rfl (.cons (fun _ _ => rfl) rfl trivial)

/-- After `rewind()`, the page that the cursor was in is returned; after a row is forgotten, the one
that follows it is skipped. -/
theorem not_iterates :
    returned (pagesOf 2 (by decide)) false [.nextRow, .nextRow, .nextRow, .rewind, .nextRow] ≠
        .ok (iterated [1, 2, 3] [.nextRow, .nextRow, .nextRow, .rewind, .nextRow]) ∧
      returned (pagesOf 3 (by decide)) true [.nextRow, .forget 1, .nextRow] ≠
        .ok (iterated [1, 2, 3] [.nextRow, .forget 1, .nextRow]) := by
  constructor
  all_goals
    intro h
    cases h

end Cursor

end Prinbee
