import Mathlib.Logic.Function.Iterate
import Prinbee.Basic

/-!
# Characters of a script

`input.cpp` and `location.cpp`: the lexer reads a script one character at a time and can give
characters back.  A carriage return, alone or before a line feed, reads as a line feed; what was
given back is read again as it is.

A script is the list of characters that the UTF-8 iterator finds in it.

## Main definitions

* `Input.Location`, `Input` — a position, and the reader of a script.
* `Input.getc`, `Input.ungetc` — reading a character and giving it back.
* `Input.upcoming` — the characters that `getc()` has still to return.
* `Input.advance`, `Input.skipTo` — the reader some characters further.

## Main results

* `Input.getc_upcoming` — `getc()` returns the first upcoming character and leaves the others.
* `Input.ungetc_getc` — the character that was read last can always be given back.
-/

namespace Prinbee

/-- `location`. -/
structure Input.Location where
  filename : String
  line : ℕ
  column : ℕ
  deriving DecidableEq, Repr

namespace Input.Location

/-- `next_column()`. -/
def nextColumn (l : Location) : Location := { l with column := l.column + 1 }

/-- `next_line()`. -/
def nextLine (l : Location) : Location := { l with line := l.line + 1, column := 1 }

end Input.Location

/-- `input`: the script from `f_input` on, and the characters given back, the last one first. -/
structure Input where
  script : List Char
  location : Input.Location
  ungotten : List Char
  /-- `f_ungetc` has room for three characters. -/
  fits : ungotten.length ≤ 3

namespace Input

/-- `input()`. -/
def ofScript (script : List Char) (filename : String) : Input where
  script := script
  location := ⟨filename, 1, 1⟩
  ungotten := []
  fits := by decide

/-- A character of the script, with the line feed that a carriage return stands for. -/
def next : List Char → Option (Char × List Char)
  | [] => none
  | '\r' :: '\n' :: cs => some ('\n', cs)
  | '\r' :: cs => some ('\n', cs)
  | c :: cs => some (c, cs)

/-- `getc()`; there is no character at the end of the script. -/
def getc (i : Input) : Option Char × Input :=
  match h : i.ungotten with
  | c :: cs => (some c, { i with ungotten := cs, fits := by have := i.fits; grind })
  | [] =>
    match next i.script with
    | none => (none, i)
    | some (c, cs) =>
      let location := i.location.nextColumn
      (some c,
        { i with script := cs, location := if c = '\n' then location.nextLine else location })

/-- `ungetc()`. -/
def ungetc (c : Option Char) (i : Input) : Except Failure Input :=
  match c with
  | none => .ok i
  | some c =>
    if h : i.ungotten.length < 3 then
      .ok { i with ungotten := c :: i.ungotten, fits := h }
    else .error (.thrown .outOfRange "ungetc() called too many times.")

/-! ### The upcoming characters -/

/-- The characters of a script as they are read. -/
def normalize : List Char → List Char
  | [] => []
  | '\r' :: '\n' :: cs => '\n' :: normalize cs
  | '\r' :: cs => '\n' :: normalize cs
  | c :: cs => c :: normalize cs

/-- The characters that `getc()` has still to return. -/
def upcoming (i : Input) : List Char := i.ungotten ++ normalize i.script

theorem normalize_eq_nil {s : List Char} (h : next s = none) : normalize s = [] := by
  unfold next at h
  split at h
  · rfl
  all_goals cases h

theorem normalize_eq_cons {s cs : List Char} {c : Char} (h : next s = some (c, cs)) :
    normalize s = c :: normalize cs := by
  unfold next at h
  split at h
  · cases h
  all_goals
    cases h
    simp only [normalize]

/-- A script without carriage returns is read as it is. -/
theorem normalize_of_not_mem {s : List Char} (h : '\r' ∉ s) : normalize s = s := by
  fun_induction normalize s with
  | case1 => rfl
  | case2 cs ih => exact absurd List.mem_cons_self h
  | case3 cs hcs ih => exact absurd List.mem_cons_self h
  | case4 c cs hc hcs ih => rw [ih fun hmem => h (List.mem_cons_of_mem c hmem)]

theorem upcoming_ofScript {s : List Char} (h : '\r' ∉ s) (filename : String) :
    (ofScript s filename).upcoming = s :=
  normalize_of_not_mem h

theorem getc_ungotten {i : Input} {c : Char} {cs : List Char} (h : i.ungotten = c :: cs) :
    i.getc.1 = some c ∧ i.getc.2.ungotten = cs ∧ i.getc.2.script = i.script ∧
      i.getc.2.location = i.location := by
  obtain ⟨script, location, ungotten, fits⟩ := i
  subst h
  exact ⟨rfl, rfl, rfl, rfl⟩

theorem getc_end {i : Input} (h : i.ungotten = []) (hnext : next i.script = none) :
    i.getc = (none, i) := by
  obtain ⟨script, location, ungotten, fits⟩ := i
  subst h
  simp only at hnext
  simp only [getc, hnext]

theorem getc_script {i : Input} {c : Char} {cs : List Char} (h : i.ungotten = [])
    (hnext : next i.script = some (c, cs)) :
    i.getc.1 = some c ∧ i.getc.2.ungotten = [] ∧ i.getc.2.script = cs := by
  obtain ⟨script, location, ungotten, fits⟩ := i
  subst h
  simp only at hnext
  simp only [getc, hnext, and_self]

/-- `getc()` returns the first upcoming character and leaves the others. -/
theorem getc_upcoming (i : Input) :
    i.getc.1 = i.upcoming.head? ∧ i.getc.2.upcoming = i.upcoming.tail := by
  unfold upcoming
  cases h : i.ungotten with
  | cons c cs =>
    obtain ⟨hc, hcs, hscript, -⟩ := getc_ungotten h
    exact ⟨hc, by rw [hcs, hscript]; rfl⟩
  | nil =>
    cases hnext : next i.script with
    | none =>
      rw [getc_end h hnext, h, normalize_eq_nil hnext]
      exact ⟨rfl, rfl⟩
    | some r =>
      obtain ⟨hc, hcs, hscript⟩ := getc_script h hnext
      rw [hc, hcs, hscript, normalize_eq_cons hnext]
      exact ⟨rfl, rfl⟩

@[simp] theorem getc_fst (i : Input) : i.getc.1 = i.upcoming.head? := i.getc_upcoming.1

@[simp] theorem upcoming_getc (i : Input) : i.getc.2.upcoming = i.upcoming.tail :=
  i.getc_upcoming.2

/-- At the end of the script, `getc()` changes nothing. -/
theorem getc_of_nil {i : Input} (h : i.upcoming = []) : i.getc = (none, i) := by
  obtain ⟨hu, hs⟩ := List.append_eq_nil_iff.1 h
  cases hnext : next i.script with
  | none => exact getc_end hu hnext
  | some r =>
    rw [normalize_eq_cons hnext] at hs
    cases hs

theorem ungetc_upcoming {i i' : Input} {c : Option Char} (h : i.ungetc c = .ok i') :
    i'.upcoming = c.toList ++ i.upcoming := by
  cases c with
  | none =>
    cases h
    rfl
  | some c =>
    simp only [ungetc] at h
    split at h
    · cases h
      rfl
    · cases h

/-- The character that was read last can always be given back. -/
theorem ungetc_getc (i : Input) :
    ∃ i', i.getc.2.ungetc i.getc.1 = .ok i' ∧ i'.upcoming = i.upcoming := by
  have hroom : i.getc.1 = none ∨ i.getc.2.ungotten.length < 3 := by
    cases h : i.ungotten with
    | cons c cs =>
      have hfits := i.fits
      rw [h, List.length_cons] at hfits
      rw [(getc_ungotten h).2.1]
      exact Or.inr hfits
    | nil =>
      cases hnext : next i.script with
      | none =>
        rw [getc_end h hnext]
        exact Or.inl rfl
      | some r =>
        rw [(getc_script h hnext).2.1]
        exact Or.inr (by decide)
  obtain ⟨i', hi'⟩ : ∃ i', i.getc.2.ungetc i.getc.1 = .ok i' := by
    cases hc : i.getc.1 with
    | none => exact ⟨_, rfl⟩
    | some c =>
      have hlt := hroom.resolve_left (by rw [hc]; exact Option.some_ne_none c)
      exact ⟨_, dif_pos hlt⟩
  refine ⟨i', hi', ?_⟩
  rw [ungetc_upcoming hi', getc_fst, upcoming_getc]
  cases i.upcoming <;> rfl

/-! ### Reading on -/

/-- The reader after `n` calls of `getc()`. -/
def advance (n : ℕ) (i : Input) : Input := (fun i => i.getc.2)^[n] i

theorem advance_succ (n : ℕ) (i : Input) : i.advance (n + 1) = i.getc.2.advance n :=
  Function.iterate_succ_apply _ n i

theorem upcoming_advance (n : ℕ) (i : Input) : (i.advance n).upcoming = i.upcoming.drop n := by
  induction n generalizing i with
  | zero => rfl
  | succ n ih => rw [advance_succ, ih, upcoming_getc, List.drop_tail]

/-- The reader when `rest` is upcoming. -/
def skipTo (i : Input) (rest : List Char) : Input := i.advance (i.upcoming.length - rest.length)

theorem skipTo_self (i : Input) : i.skipTo i.upcoming = i := by
  rw [skipTo, Nat.sub_self]
  rfl

theorem skipTo_getc {i : Input} {c : Char} {cs rest : List Char} (h : i.upcoming = c :: cs)
    (hrest : rest <:+ cs) : i.getc.2.skipTo rest = i.skipTo rest := by
  have hlen := hrest.length_le
  rw [skipTo, skipTo, upcoming_getc, h, List.tail_cons, List.length_cons,
    Nat.sub_add_comm hlen, advance_succ]

theorem upcoming_skipTo {i : Input} {rest : List Char} (h : rest <:+ i.upcoming) :
    (i.skipTo rest).upcoming = rest := by
  obtain ⟨read, hread⟩ := h
  rw [skipTo, upcoming_advance, ← hread, List.length_append, Nat.add_sub_cancel,
    List.drop_left]

end Input

end Prinbee
