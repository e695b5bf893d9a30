import Prinbee.Block.FreeSpaceRelease

/-!
# Several tables in one process

`total_space_available_in_one_data_block()` keeps the room of a data block in a static variable,
which is one for all the tables of a process: the first call of `get_free_space()` of any table
computes it from the page size of that table.

A run is an interleaving of the calls on the tables.  What is compared, for each table, is the
list of what its calls answered and of the words of its file after each of them: in the run,
and when its own calls run alone in a process.

## Main definitions

* `FreeSpaceTables` — the files of the tables and the static variable.
* `FreeSpaceTables.NonInterfering` — each table sees what it sees alone.
* `SameTotal` — the condition on a call: the variable was set for this page size, or the call
  answers before it depends on it.

## Main results

* `call_eq_iff` — a call answers as it does alone exactly when it meets the condition.
* `FreeSpaceTables.nonInterfering_iff` — the same for any interleaving of calls.
-/

namespace Prinbee

variable {t : TableFile} {body : FreeSpaceState → ℕ → Except Failure FreeSpaceState}

/-! ### One call -/

/-- The answer of a call. -/
abbrev CallResult := Except Failure (Option FreeSpaceResult)

/-- One call and its answer.  The static variable is set even when `get_free_space()` throws. -/
def freeSpaceCall (t : TableFile) (body : FreeSpaceState → ℕ → Except Failure FreeSpaceState)
    (st : FreeSpaceState) : FreeSpaceCall → FreeSpaceState × CallResult
  | .getFreeSpace m =>
    match getFreeSpace t st m with
    | .ok (st', result) => (st', .ok (some result))
    | .error e => ({ st with totalSpace := totalSpaceAvailable t st }, .error e)
  | .releaseSpace reference =>
    match releaseSpace body st reference with
    | .ok st' => (st', .ok none)
    | .error e => (st, .error e)

theorem freeSpaceCall_of_ok {st st' : FreeSpaceState} {m : ℕ} {result : FreeSpaceResult}
    (h : getFreeSpace t st m = .ok (st', result)) :
    freeSpaceCall t body st (.getFreeSpace m) = (st', .ok (some result)) := by
  delta freeSpaceCall
  simp only [h]

theorem freeSpaceCall_of_error {st : FreeSpaceState} {m : ℕ} {e : Failure}
    (h : getFreeSpace t st m = .error e) : freeSpaceCall t body st (.getFreeSpace m) =
      ({ st with totalSpace := totalSpaceAvailable t st }, .error e) := by
  delta freeSpaceCall
  simp only [h]

/-- A release of a reference that is not a multiple of 8 throws. -/
theorem freeSpaceCall_release {st : FreeSpaceState} {reference : ℕ} (h : reference % 8 ≠ 0) :
    freeSpaceCall t body st (.releaseSpace reference) = (st, .error (.thrown .logicError
      ("release_space() called with an invalid offset (" ++ toString reference
        ++ "); it must be a multiple of 8."))) := by
  have hthrow : releaseSpace body st reference = _ := if_pos h
  delta freeSpaceCall
  simp only [hthrow]

/-- What is seen of a call: its answer and the words of the file after it. -/
def seen (p : FreeSpaceState × CallResult) : CallResult × (ℕ → ℕ) := (p.2, p.1.memory)

/-- The text of the exception for a size that no block can hold. -/
def tooLargeText (size total : ℕ) : String :=
  "get_free_space() called with a minimum_size (" ++ toString size ++ " > " ++ toString total
    ++ ") larger than what can be allocated."

theorem tooLargeText_inj {size total total' : ℕ}
    (h : tooLargeText size total = tooLargeText size total') : total = total' := by
  unfold tooLargeText at h
  have hrepr : toString total = toString total' :=
    (String.append_right_inj _).1 ((String.append_left_inj _).1 h)
  rw [Nat.toString_eq_ofList_toDigits, Nat.toString_eq_ofList_toDigits] at hrepr
  have hdigits : Nat.toDigits 10 total = Nat.toDigits 10 total' := String.ofList_injective hrepr
  calc total = Nat.ofDigitChars 10 (Nat.toDigits 10 total) 0 :=
        Nat.ofDigitChars_ten_toDigits.symm
    _ = Nat.ofDigitChars 10 (Nat.toDigits 10 total') 0 := by rw [hdigits]
    _ = total' := Nat.ofDigitChars_ten_toDigits

/-- A size that the room of a block does not hold is refused. -/
theorem getFreeSpace_tooLarge (t : TableFile) (st : FreeSpaceState) {m : ℕ}
    (h : totalSpaceAvailable t st < wantedSize m) :
    getFreeSpace t st m = .error (.thrown .notYetImplemented
      (tooLargeText (wantedSize m) (totalSpaceAvailable t st))) := if_pos h

/-- The call of a size that the room of a block holds. -/
theorem getFreeSpace_fits {st : FreeSpaceState} {m : ℕ} (hpos : wantedSize m ≠ 0)
    (h : wantedSize m ≤ totalSpaceAvailable t st) (hbits : totalSpaceAvailable t st < 2 ^ 24) :
    getFreeSpace t st m =
      let st' : FreeSpaceState := { st with totalSpace := totalSpaceAvailable t st }
      let d := t.freeSpaceBlock + wantedSize m % t.pageSize
      if st.memory d ≠ 0 then takeExact t st' (wantedSize m) (st.memory d)
      else
        let d := if wantedSize m < freeSpaceJump then t.freeSpaceBlock + freeSpaceJump else d + 8
        match searchLarger st.memory ((t.freeSpaceBlock + t.pageSize - d) / 8) d with
        | some d => takeLarger t st' (wantedSize m) (st.memory d)
        | none => takeNewBlock t st' (totalSpaceAvailable t st) (wantedSize m) := by
  have hdvd := wantedSize_dvd m
  have hround : roundUp (wantedSize m) 8 = wantedSize m := by
    obtain ⟨hle, hlt, hdvd'⟩ := roundUp_spec (wantedSize m)
    omega
  have hpointer : getFreeSpacePointer t (wantedSize m) =
      .ok (t.freeSpaceBlock + wantedSize m % t.pageSize) := by
    rw [getFreeSpacePointer, if_neg (by omega), hround]
  rw [wantedSize] at hpointer h
  rw [getFreeSpace]
  simp only [wantedSize]
  rw [if_neg (by omega), if_neg (by omega), hpointer, ok_bind]
  rfl

/-! ### The exceptions of the paths -/

/-- The computation throws nothing but `logic_error`. -/
def OnlyLogicError {α : Type} (x : Except Failure α) : Prop :=
  ∀ e, x = .error e → ∃ text, e = .thrown .logicError text

theorem OnlyLogicError.ok {α : Type} (a : α) : OnlyLogicError (Except.ok a : Except Failure α) := by
  intro e h
  cases h

theorem OnlyLogicError.bind {α β : Type} {x : Except Failure α} {f : α → Except Failure β}
    (h : OnlyLogicError x) (hf : ∀ a, OnlyLogicError (f a)) : OnlyLogicError (x >>= f) := by
  cases x with
  | error e =>
    intro e' he'
    rw [error_bind] at he'
    exact h e' (by rw [Except.error.inj he'])
  | ok a => exact hf a

theorem getFreeSpacePointer_only (size : ℕ) : OnlyLogicError (getFreeSpacePointer t size) := by
  intro e h
  rw [getFreeSpacePointer] at h
  split at h
  · exact ⟨_, (Except.error.inj h).symm⟩
  · cases h

theorem linkSpace_only (memory : ℕ → ℕ) (linkOffset link : ℕ) :
    OnlyLogicError (linkSpace t memory linkOffset link) :=
  (getFreeSpacePointer_only _).bind fun _ => .ok _

theorem unlinkSpace_only (memory : ℕ → ℕ) (link : ℕ) :
    OnlyLogicError (unlinkSpace t memory link) := by
  rw [unlinkSpace]
  split
  · exact .ok _
  · exact (getFreeSpacePointer_only _).bind fun _ => .ok _

theorem takeExact_only (st : FreeSpaceState) (size link : ℕ) :
    OnlyLogicError (takeExact t st size link) :=
  (unlinkSpace_only _ _).bind fun _ => .ok _

theorem takeLarger_only (st : FreeSpaceState) (size link : ℕ) :
    OnlyLogicError (takeLarger t st size link) := by
  refine (unlinkSpace_only _ _).bind fun memory => ?_
  dsimp only
  split
  · exact (linkSpace_only _ _ _).bind fun _ => .ok _
  · exact .ok _

theorem takeNewBlock_only (st : FreeSpaceState) (total size : ℕ) :
    OnlyLogicError (takeNewBlock t st total size) := by
  rw [takeNewBlock]
  dsimp only
  split
  · exact (linkSpace_only _ _ _).bind fun _ => .ok _
  · exact .ok _

/-- A size that the room of a block holds is not refused as too large. -/
theorem getFreeSpace_only {st : FreeSpaceState} {m : ℕ} (hpos : wantedSize m ≠ 0)
    (h : wantedSize m ≤ totalSpaceAvailable t st) (hbits : totalSpaceAvailable t st < 2 ^ 24) :
    OnlyLogicError (getFreeSpace t st m) := by
  rw [getFreeSpace_fits hpos h hbits]
  dsimp only
  split
  · exact takeExact_only _ _ _
  · split
    · exact takeLarger_only _ _ _
    · exact takeNewBlock_only _ _ _

/-- The reference of a new block: the end of its page, less the room of a block. -/
theorem takeNewBlock_reference (st : FreeSpaceState) {total size : ℕ} (htotal : total < 2 ^ 24)
    (hdvd : 8 ∣ total) (hdvd' : 8 ∣ size) (hle : size ≤ total) :
    ∃ st', takeNewBlock t st total size = .ok (st',
      ⟨sub64 (t.newDataBlock st.dataBlocks + t.pageSize + metaBytes) total, size⟩) := by
  rw [takeNewBlock]
  dsimp only
  split
  · rename_i hrest
    rw [metaBytes] at hrest
    rw [linkSpace, poke_self, metaSize_setFlags, poke_self, metaSize_setSize _ (by omega),
      getFreeSpacePointer, if_neg (by omega)]
    exact ⟨_, rfl⟩
  · exact ⟨_, rfl⟩

/-! ### The condition on a call -/

/-- The size fits the room of a block under both totals, and a list has a space for it: no path
that reads the total is taken. -/
def Listed (t : TableFile) (st : FreeSpaceState) (size : ℕ) : Prop :=
  size ≤ st.totalSpace ∧ size ≤ t.pageSize - 8 ∧ ¬ NeedsNewBlock t st size

/-- The static variable has the value that this table would give it, or the answer does not depend
on it.  A size of 0, from a request near `2 ^ 32`, is refused after the test of the total. -/
def SameTotal (t : TableFile) (st : FreeSpaceState) : FreeSpaceCall → Prop
  | .getFreeSpace m => st.totalSpace = 0 ∨ st.totalSpace = t.pageSize - 8 ∨
    wantedSize m = 0 ∨ Listed t st (wantedSize m)
  | .releaseSpace _ => True

/-- The values of the static variable: none yet, or the room of a data block of some table. -/
def TotalOfTable (total : ℕ) : Prop := total = 0 ∨ 8 ∣ total ∧ 0 < total ∧ total < 2 ^ 24

theorem TableFile.totalOfTable (t : TableFile) : TotalOfTable (t.pageSize - 8) := by
  obtain ⟨hpage, hpage8⟩ := t.pageSize_spec
  have hle := t.pageSize_le
  exact .inr ⟨by omega, by omega, by omega⟩

theorem totalSpaceAvailable_of_ne {st : FreeSpaceState} (h : st.totalSpace ≠ 0) :
    totalSpaceAvailable t st = st.totalSpace := if_neg h

/-- The two computations throw the same, or give the same but for the totals `a` and `b`. -/
def AgreeBut (dataBlocks : List ℕ) (a b : ℕ)
    (x y : Except Failure (FreeSpaceState × FreeSpaceResult)) : Prop :=
  (∃ e, x = .error e ∧ y = .error e) ∨
    ∃ mem' result, x = .ok (⟨mem', dataBlocks, a⟩, result) ∧ y = .ok (⟨mem', dataBlocks, b⟩, result)

namespace AgreeBut

variable {dataBlocks : List ℕ} {a b : ℕ}

theorem ok (mem' : ℕ → ℕ) (result : FreeSpaceResult) :
    AgreeBut dataBlocks a b (.ok (⟨mem', dataBlocks, a⟩, result))
      (.ok (⟨mem', dataBlocks, b⟩, result)) := .inr ⟨mem', result, rfl, rfl⟩

theorem bind {α : Type} (x : Except Failure α)
    {f g : α → Except Failure (FreeSpaceState × FreeSpaceResult)}
    (h : ∀ v, AgreeBut dataBlocks a b (f v) (g v)) :
    AgreeBut dataBlocks a b (x >>= f) (x >>= g) := by
  cases x with
  | error e => exact .inl ⟨e, rfl, rfl⟩
  | ok v => exact h v

end AgreeBut

section Totals

variable (st : FreeSpaceState) (a b : ℕ)

/-- The state with another value of the static variable. -/
abbrev FreeSpaceState.withTotal (st : FreeSpaceState) (a : ℕ) : FreeSpaceState :=
  { st with totalSpace := a }

theorem takeExact_agree (size link : ℕ) :
    AgreeBut st.dataBlocks a b (takeExact t (st.withTotal a) size link)
      (takeExact t (st.withTotal b) size link) := by
  rw [takeExact, takeExact]
  exact AgreeBut.bind _ fun memory => .ok _ _

theorem takeLarger_agree (size link : ℕ) :
    AgreeBut st.dataBlocks a b (takeLarger t (st.withTotal a) size link)
      (takeLarger t (st.withTotal b) size link) := by
  rw [takeLarger, takeLarger]
  refine AgreeBut.bind _ fun memory => ?_
  dsimp only
  split
  · exact AgreeBut.bind _ fun memory => .ok _ _
  · exact .ok _ _

variable {st a b} {m : ℕ}

/-- A call reads nothing of the static variable but what `totalSpaceAvailable` answers. -/
theorem getFreeSpace_withTotal
    (h : totalSpaceAvailable t (st.withTotal a) = totalSpaceAvailable t (st.withTotal b)) :
    getFreeSpace t (st.withTotal a) m = getFreeSpace t (st.withTotal b) m := by
  unfold getFreeSpace
  rw [h]

/-- A listed space is taken in the same way under the two totals. -/
theorem getFreeSpace_agree (hpos : wantedSize m ≠ 0) (ha : wantedSize m ≤ a) (ha' : a < 2 ^ 24)
    (hb : wantedSize m ≤ b) (hb' : b < 2 ^ 24) (hpage : wantedSize m < t.pageSize)
    (h : ¬ NeedsNewBlock t st (wantedSize m)) :
    AgreeBut st.dataBlocks a b (getFreeSpace t (st.withTotal a) m)
      (getFreeSpace t (st.withTotal b) m) := by
  have htotal : ∀ c, wantedSize m ≤ c → totalSpaceAvailable t (st.withTotal c) = c := by
    intro c hc
    exact totalSpaceAvailable_of_ne (show c ≠ 0 by omega)
  rw [getFreeSpace_fits hpos ((htotal a ha).symm ▸ ha) ((htotal a ha).symm ▸ ha'),
    getFreeSpace_fits hpos ((htotal b hb).symm ▸ hb) ((htotal b hb).symm ▸ hb'),
    htotal a ha, htotal b hb, Nat.mod_eq_of_lt hpage]
  dsimp only
  by_cases hlist : st.memory (t.freeSpaceBlock + wantedSize m) ≠ 0
  · rw [if_pos hlist, if_pos hlist]
    exact takeExact_agree st a b _ _
  · rw [if_neg hlist, if_neg hlist]
    have hsearch : searchLarger st.memory
        ((t.freeSpaceBlock + t.pageSize - searchStart t (wantedSize m)) / 8)
        (searchStart t (wantedSize m)) ≠ none := fun hnone => h ⟨not_not.1 hlist, hnone⟩
    rw [searchStart] at hsearch
    split
    · exact takeLarger_agree st a b _ _
    · rename_i hnone
      exact absurd hnone hsearch

/-- A new block is asked for: the reference is the one of the total. -/
theorem getFreeSpace_newBlock (hpos : wantedSize m ≠ 0) (ha : wantedSize m ≤ a) (ha' : a < 2 ^ 24)
    (hdvd : 8 ∣ a) (hpage : wantedSize m < t.pageSize) (h : NeedsNewBlock t st (wantedSize m)) :
    ∃ st', getFreeSpace t (st.withTotal a) m = .ok (st',
      ⟨sub64 (t.newDataBlock st.dataBlocks + t.pageSize + metaBytes) a, wantedSize m⟩) := by
  have htotal : totalSpaceAvailable t (st.withTotal a) = a :=
    totalSpaceAvailable_of_ne (show a ≠ 0 by omega)
  rw [getFreeSpace_fits hpos (htotal.symm ▸ ha) (htotal.symm ▸ ha'), htotal,
    Nat.mod_eq_of_lt hpage]
  dsimp only
  have hlist : ¬ st.memory (t.freeSpaceBlock + wantedSize m) ≠ 0 := not_not.2 h.1
  rw [if_neg hlist]
  have hsearch := h.2
  rw [searchStart] at hsearch
  split
  · rename_i d hd
    exact absurd (hsearch.symm.trans hd) (by simp)
  · exact takeNewBlock_reference _ ha' hdvd (wantedSize_dvd m) ha

/-- A size that both totals refuse tells them apart, by the text of the exception. -/
theorem getFreeSpace_ne_of_tooLarge (t : TableFile) (st : FreeSpaceState) (ha : a ≠ 0) (hb : b ≠ 0) (hab : a ≠ b)
    (hsize : a < wantedSize m) (hb' : b < 2 ^ 24) :
    ∀ x y, getFreeSpace t (st.withTotal a) m = .error x →
      getFreeSpace t (st.withTotal b) m = .error y → x ≠ y := by
  intro x y hx hy hxy
  have hatotal : totalSpaceAvailable t (st.withTotal a) = a := totalSpaceAvailable_of_ne ha
  have hbtotal : totalSpaceAvailable t (st.withTotal b) = b := totalSpaceAvailable_of_ne hb
  rw [getFreeSpace_tooLarge t _ (by rw [hatotal]; exact hsize), hatotal] at hx
  have hx' := (Except.error.inj hx).trans hxy
  rcases Nat.lt_or_ge b (wantedSize m) with hlt | hle
  · -- the total is in the text
    rw [getFreeSpace_tooLarge t _ (by rw [hbtotal]; exact hlt), hbtotal] at hy
    have htext := hx'.trans (Except.error.inj hy).symm
    injection htext with _ htext
    exact hab (tooLargeText_inj htext)
  · -- the other total throws nothing but logic_error
    obtain ⟨text, hlogic⟩ := getFreeSpace_only (by omega) (by rw [hbtotal]; exact hle)
      (by rw [hbtotal]; exact hb') y hy
    rw [hlogic] at hx'
    cases hx'

end Totals

section Calls

variable {st : FreeSpaceState} {a b own m : ℕ}

/-- A call reads nothing of the static variable but what `totalSpaceAvailable` answers. -/
theorem freeSpaceCall_withTotal
    (h : totalSpaceAvailable t (st.withTotal a) = totalSpaceAvailable t (st.withTotal b)) :
    freeSpaceCall t body (st.withTotal a) (.getFreeSpace m) =
      freeSpaceCall t body (st.withTotal b) (.getFreeSpace m) := by
  have heq := getFreeSpace_withTotal (m := m) h
  cases hget : getFreeSpace t (st.withTotal b) m with
  | error e => rw [freeSpaceCall_of_error hget, freeSpaceCall_of_error (heq.trans hget), h]
  | ok p => rw [freeSpaceCall_of_ok hget, freeSpaceCall_of_ok (heq.trans hget)]

/-- A size that one of the totals refuses is answered in another way under the other one. -/
theorem freeSpaceCall_ne (ha : a ≠ 0) (hb : b ≠ 0) (hab : a ≠ b) (hsize : a < wantedSize m)
    (hb' : b < 2 ^ 24) :
    (freeSpaceCall t body (st.withTotal a) (.getFreeSpace m)).2 ≠
      (freeSpaceCall t body (st.withTotal b) (.getFreeSpace m)).2 := by
  have hne := getFreeSpace_ne_of_tooLarge (m := m) t st ha hb hab hsize hb'
  have htotal : totalSpaceAvailable t (st.withTotal a) = a := totalSpaceAvailable_of_ne ha
  have herr := getFreeSpace_tooLarge t (st.withTotal a) (m := m) (by rw [htotal]; exact hsize)
  intro heq
  rw [freeSpaceCall_of_error herr] at heq
  cases hget : getFreeSpace t (st.withTotal b) m with
  | error e =>
    rw [freeSpaceCall_of_error hget] at heq
    exact hne _ _ herr hget (Except.error.inj heq)
  | ok p =>
    rw [freeSpaceCall_of_ok hget] at heq
    cases heq

/-- Two totals that both hold the size give two references in a new block. -/
theorem freeSpaceCall_ne_of_newBlock (hpos : wantedSize m ≠ 0) (ha : TotalOfTable a)
    (hsize : wantedSize m ≤ a) (hown : wantedSize m ≤ t.pageSize - 8) (hab : a ≠ t.pageSize - 8)
    (h : NeedsNewBlock t st (wantedSize m)) :
    (freeSpaceCall t body (st.withTotal a) (.getFreeSpace m)).2 ≠
      (freeSpaceCall t body (st.withTotal (t.pageSize - 8)) (.getFreeSpace m)).2 := by
  have hpage := t.pageSize_spec.1
  rcases ha with rfl | ⟨hdvd, -, hlt⟩
  · omega
  rcases t.totalOfTable with hzero | ⟨hdvd', -, hlt'⟩
  · omega
  obtain ⟨st₁, hget₁⟩ := getFreeSpace_newBlock hpos hsize hlt hdvd (by omega) h
  obtain ⟨st₂, hget₂⟩ := getFreeSpace_newBlock hpos hown hlt' hdvd' (by omega) h
  rw [freeSpaceCall_of_ok hget₁, freeSpaceCall_of_ok hget₂]
  intro heq
  have href : sub64 (t.newDataBlock st.dataBlocks + t.pageSize + metaBytes) a =
      sub64 (t.newDataBlock st.dataBlocks + t.pageSize + metaBytes) (t.pageSize - 8) := by
    simpa using heq
  rw [sub64, sub64, if_pos (show t.pageSize - 8 ≤ _ by omega)] at href
  split at href <;> omega

/-- The condition is necessary: the answer is the one that the table has alone. -/
theorem sameTotal_of_result (ha : TotalOfTable a)
    (h : (freeSpaceCall t body (st.withTotal a) (.getFreeSpace m)).2 =
      (freeSpaceCall t body (st.withTotal (t.pageSize - 8)) (.getFreeSpace m)).2) :
    SameTotal t (st.withTotal a) (.getFreeSpace m) := by
  have hpage := t.pageSize_spec.1
  have hown : t.pageSize - 8 < 2 ^ 24 := by
    have hle := t.pageSize_le
    omega
  by_cases hzero : a = 0
  · exact .inl hzero
  by_cases hab : a = t.pageSize - 8
  · exact .inr (.inl hab)
  by_cases hpos : wantedSize m = 0
  · exact .inr (.inr (.inl hpos))
  have hlt : a < 2 ^ 24 := by
    rcases ha with ha | ⟨-, -, hlt⟩
    · exact absurd ha hzero
    · exact hlt
  have hfits : wantedSize m ≤ a := by
    by_contra hbig
    exact freeSpaceCall_ne hzero (by omega) hab (by omega) hown h
  have hfits' : wantedSize m ≤ t.pageSize - 8 := by
    by_contra hbig
    exact freeSpaceCall_ne (by omega) hzero (Ne.symm hab) (by omega) hlt h.symm
  refine .inr (.inr (.inr ⟨hfits, hfits', fun hnew => ?_⟩))
  exact freeSpaceCall_ne_of_newBlock hpos ha hfits hfits' hab hnew h

/-- The same answer, with the same file after it. -/
def SameCall (p q : FreeSpaceState × CallResult) : Prop :=
  p.2 = q.2 ∧ p.1.memory = q.1.memory ∧ p.1.dataBlocks = q.1.dataBlocks

/-- The condition is enough. -/
theorem SameTotal.sameCall (ha : TotalOfTable a)
    (h : SameTotal t (st.withTotal a) (.getFreeSpace m)) :
    SameCall (freeSpaceCall t body (st.withTotal a) (.getFreeSpace m))
      (freeSpaceCall t body (st.withTotal (t.pageSize - 8)) (.getFreeSpace m)) := by
  have hpage := t.pageSize_spec.1
  have hle := t.pageSize_le
  rcases h with hzero | hsame | hwrap | ⟨hfits, hfits', hlisted⟩
  · rw [freeSpaceCall_withTotal ((totalSpaceAvailable_eq (.inl hzero)).trans
      (totalSpaceAvailable_eq (.inr rfl)).symm)]
    exact ⟨rfl, rfl, rfl⟩
  · rw [freeSpaceCall_withTotal ((totalSpaceAvailable_eq (.inr hsame)).trans
      (totalSpaceAvailable_eq (.inr rfl)).symm)]
    exact ⟨rfl, rfl, rfl⟩
  · obtain ⟨e, he⟩ := getFreeSpace_of_wantedSize (t := t) hwrap
    rw [freeSpaceCall_of_error (he _), freeSpaceCall_of_error (he _)]
    exact ⟨rfl, rfl, rfl⟩
  · by_cases hpos : wantedSize m = 0
    · obtain ⟨e, he⟩ := getFreeSpace_of_wantedSize (t := t) hpos
      rw [freeSpaceCall_of_error (he _), freeSpaceCall_of_error (he _)]
      exact ⟨rfl, rfl, rfl⟩
    have hlt : a < 2 ^ 24 := by
      rcases ha with rfl | ⟨-, -, hlt⟩
      · decide
      · exact hlt
    rcases getFreeSpace_agree (t := t) hpos hfits hlt hfits' (by omega) (by omega) hlisted with
      ⟨e, he, he'⟩ | ⟨mem', result, hget, hget'⟩
    · rw [freeSpaceCall_of_error he, freeSpaceCall_of_error he']
      exact ⟨rfl, rfl, rfl⟩
    · rw [freeSpaceCall_of_ok hget, freeSpaceCall_of_ok hget']
      exact ⟨rfl, rfl, rfl⟩

end Calls

/-- **A call answers as it does alone exactly when it meets the condition**, and the file is then
the same.  A release throws, for a reference that is not a multiple of 8. -/
theorem call_eq_iff (t : TableFile) (body : FreeSpaceState → ℕ → Except Failure FreeSpaceState)
    (st : FreeSpaceState) {a own : ℕ} (ha : TotalOfTable a)
    (hown : own = 0 ∨ own = t.pageSize - 8) (c : FreeSpaceCall)
    (hrelease : ∀ reference, c = .releaseSpace reference → reference % 8 ≠ 0) :
    ((freeSpaceCall t body (st.withTotal a) c).2 = (freeSpaceCall t body (st.withTotal own) c).2 ↔
      SameTotal t (st.withTotal a) c) ∧
    (SameTotal t (st.withTotal a) c → SameCall (freeSpaceCall t body (st.withTotal a) c)
      (freeSpaceCall t body (st.withTotal own) c)) := by
  cases c with
  | getFreeSpace m =>
    have hcall : freeSpaceCall t body (st.withTotal own) (.getFreeSpace m) =
        freeSpaceCall t body (st.withTotal (t.pageSize - 8)) (.getFreeSpace m) :=
      freeSpaceCall_withTotal ((totalSpaceAvailable_eq hown).trans
        (totalSpaceAvailable_eq (.inr rfl)).symm)
    rw [hcall]
    exact ⟨⟨sameTotal_of_result ha, fun h => (h.sameCall ha).1⟩, fun h => h.sameCall ha⟩
  | releaseSpace reference =>
    rw [freeSpaceCall_release (hrelease _ rfl), freeSpaceCall_release (hrelease _ rfl)]
    exact ⟨⟨fun _ => trivial, fun _ => rfl⟩, fun _ => ⟨rfl, rfl, rfl⟩⟩

/-! ### The total that a call leaves -/

theorem takeExact_total {st st' : FreeSpaceState} {size link : ℕ} {result : FreeSpaceResult}
    (h : takeExact t st size link = .ok (st', result)) : st'.totalSpace = st.totalSpace := by
  rw [takeExact, bind_eq_ok] at h
  obtain ⟨memory, -, h⟩ := h
  cases h
  rfl

theorem takeLarger_total {st st' : FreeSpaceState} {size link : ℕ} {result : FreeSpaceResult}
    (h : takeLarger t st size link = .ok (st', result)) : st'.totalSpace = st.totalSpace := by
  rw [takeLarger, bind_eq_ok] at h
  obtain ⟨memory, -, h⟩ := h
  dsimp only at h
  split at h
  · obtain ⟨memory', -, h⟩ := bind_eq_ok.1 h
    cases h
    rfl
  · cases h
    rfl

theorem takeNewBlock_total {st st' : FreeSpaceState} {total size : ℕ} {result : FreeSpaceResult}
    (h : takeNewBlock t st total size = .ok (st', result)) : st'.totalSpace = st.totalSpace := by
  rw [takeNewBlock] at h
  dsimp only at h
  split at h
  · obtain ⟨memory', -, h⟩ := bind_eq_ok.1 h
    cases h
    rfl
  · cases h
    rfl

/-- The first call sets the static variable, for good. -/
theorem getFreeSpace_total {st st' : FreeSpaceState} {m : ℕ} {result : FreeSpaceResult}
    (h : getFreeSpace t st m = .ok (st', result)) :
    st'.totalSpace = totalSpaceAvailable t st := by
  rw [getFreeSpace] at h
  dsimp only at h
  split at h
  · cases h
  split at h
  · cases h
  obtain ⟨d, -, h⟩ := bind_eq_ok.1 h
  split at h
  · exact takeExact_total h
  · split at h
    · exact takeLarger_total h
    · exact takeNewBlock_total h

/-- What a call leaves in the static variable, when releases throw. -/
theorem freeSpaceCall_total (t : TableFile)
    (body : FreeSpaceState → ℕ → Except Failure FreeSpaceState) (st : FreeSpaceState)
    (c : FreeSpaceCall)
    (hrelease : ∀ reference, c = .releaseSpace reference → reference % 8 ≠ 0) :
    (freeSpaceCall t body st c).1.totalSpace = st.totalSpace ∨
      (freeSpaceCall t body st c).1.totalSpace = totalSpaceAvailable t st := by
  cases c with
  | getFreeSpace m =>
    right
    cases hget : getFreeSpace t st m with
    | error e => rw [freeSpaceCall_of_error hget]
    | ok p =>
      rw [freeSpaceCall_of_ok hget]
      exact getFreeSpace_total hget
  | releaseSpace reference =>
    left
    rw [freeSpaceCall_release (hrelease _ rfl)]

/-! ### Several tables -/

/-- The files of the tables of a process, and the static variable that they share. -/
structure FreeSpaceTables (ι : Type*) where
  memory : ι → ℕ → ℕ
  dataBlocks : ι → List ℕ
  totalSpace : ℕ

/-- What a table sees when its calls run alone. -/
def callsAlone (t : TableFile) (body : FreeSpaceState → ℕ → Except Failure FreeSpaceState) :
    FreeSpaceState → List FreeSpaceCall → List (CallResult × (ℕ → ℕ))
  | _, [] => []
  | st, c :: calls =>
    seen (freeSpaceCall t body st c) :: callsAlone t body (freeSpaceCall t body st c).1 calls

namespace FreeSpaceTables

variable {ι : Type*} [DecidableEq ι] (t : ι → TableFile)
  (body : ι → FreeSpaceState → ℕ → Except Failure FreeSpaceState)

/-- The state that the allocator of a table works on. -/
def table (s : FreeSpaceTables ι) (i : ι) : FreeSpaceState :=
  ⟨s.memory i, s.dataBlocks i, s.totalSpace⟩

/-- One call, on the table that it names. -/
def step (s : FreeSpaceTables ι) (p : ι × FreeSpaceCall) : FreeSpaceTables ι :=
  let st := (freeSpaceCall (t p.1) (body p.1) (s.table p.1) p.2).1
  ⟨Function.update s.memory p.1 st.memory, Function.update s.dataBlocks p.1 st.dataBlocks,
    st.totalSpace⟩

/-- The calls of one table in an interleaving. -/
def ownCalls (i : ι) : List (ι × FreeSpaceCall) → List FreeSpaceCall
  | [] => []
  | p :: calls => if p.1 = i then p.2 :: ownCalls i calls else ownCalls i calls

/-- What table `i` sees of its calls in an interleaving. -/
def callsOf (i : ι) :
    FreeSpaceTables ι → List (ι × FreeSpaceCall) → List (CallResult × (ℕ → ℕ))
  | _, [] => []
  | s, p :: calls =>
    if p.1 = i then
      seen (freeSpaceCall (t p.1) (body p.1) (s.table p.1) p.2) ::
        callsOf i (step t body s p) calls
    else callsOf i (step t body s p) calls

/-- The process starts: the files hold anything, the static variable nothing. -/
def start (memory : ι → ℕ → ℕ) (dataBlocks : ι → List ℕ) : FreeSpaceTables ι :=
  ⟨memory, dataBlocks, 0⟩

/-- Each table sees, of its own calls, what it sees when they run alone in a process. -/
def NonInterfering (memory : ι → ℕ → ℕ) (dataBlocks : ι → List ℕ)
    (calls : List (ι × FreeSpaceCall)) : Prop :=
  ∀ i, callsOf t body i (start memory dataBlocks) calls =
    callsAlone (t i) (body i) ⟨memory i, dataBlocks i, 0⟩ (ownCalls i calls)

/-- No release of the calls is of a multiple of 8, as no reference is. -/
def References (calls : List (ι × FreeSpaceCall)) : Prop :=
  ∀ p ∈ calls, ∀ reference, p.2 = .releaseSpace reference → reference % 8 ≠ 0

variable {t body} {s : FreeSpaceTables ι}

theorem step_table_of_ne {p : ι × FreeSpaceCall} {i : ι} (h : i ≠ p.1) (a : ℕ) :
    ((step t body s p).table i).withTotal a = (s.table i).withTotal a := by
  simp only [step, table, Function.update_of_ne h]

theorem step_table_self (p : ι × FreeSpaceCall) :
    (step t body s p).table p.1 = (freeSpaceCall (t p.1) (body p.1) (s.table p.1) p.2).1 := by
  simp only [step, table, Function.update_self]

/-- A table alone gives the variable the same value whether it is set or not. -/
theorem callsAlone_total (t : TableFile)
    (body : FreeSpaceState → ℕ → Except Failure FreeSpaceState) (st : FreeSpaceState)
    (calls : List FreeSpaceCall)
    (h : ∀ reference, .releaseSpace reference ∈ calls → reference % 8 ≠ 0) :
    callsAlone t body (st.withTotal 0) calls =
      callsAlone t body (st.withTotal (t.pageSize - 8)) calls := by
  induction calls generalizing st with
  | nil => rfl
  | cons c calls ih =>
    have htail := fun reference hr => h reference (List.mem_cons_of_mem _ hr)
    cases c with
    | getFreeSpace m =>
      have hcall : freeSpaceCall t body (st.withTotal 0) (.getFreeSpace m) =
          freeSpaceCall t body (st.withTotal (t.pageSize - 8)) (.getFreeSpace m) :=
        freeSpaceCall_withTotal
          ((totalSpaceAvailable_eq (.inl rfl)).trans (totalSpaceAvailable_eq (.inr rfl)).symm)
      rw [callsAlone, callsAlone, hcall]
    | releaseSpace reference =>
      have hmod := h reference List.mem_cons_self
      rw [callsAlone, callsAlone, freeSpaceCall_release hmod, freeSpaceCall_release hmod, ih st htail]
      rfl

/-- The value of the static variable stays one that a table gives. -/
theorem step_total (t : ι → TableFile)
    (body : ι → FreeSpaceState → ℕ → Except Failure FreeSpaceState) (hs : TotalOfTable s.totalSpace) (p : ι × FreeSpaceCall)
    (hp : ∀ reference, p.2 = .releaseSpace reference → reference % 8 ≠ 0) :
    TotalOfTable (step t body s p).totalSpace := by
  show TotalOfTable (freeSpaceCall (t p.1) (body p.1) (s.table p.1) p.2).1.totalSpace
  rcases freeSpaceCall_total (t p.1) (body p.1) (s.table p.1) p.2 hp with
    htotal | htotal
  · rw [htotal]
    exact hs
  · rw [htotal, totalSpaceAvailable]
    split
    · have h : totalSpaceAvailable (t p.1) ((s.table p.1).withTotal 0) = (t p.1).pageSize - 8 :=
        totalSpaceAvailable_eq (.inl rfl)
      rw [totalSpaceAvailable, if_pos rfl] at h
      rw [h]
      exact (t p.1).totalOfTable
    · exact hs

/-- The state after a call that meets the condition, with the total of the table alone. -/
theorem step_alone (hs : TotalOfTable s.totalSpace) (p : ι × FreeSpaceCall)
    (hp : ∀ reference, p.2 = .releaseSpace reference → reference % 8 ≠ 0)
    (h : SameTotal (t p.1) (s.table p.1) p.2) :
    let own := (s.table p.1).withTotal ((t p.1).pageSize - 8)
    (freeSpaceCall (t p.1) (body p.1) own p.2).1 =
      ((step t body s p).table p.1).withTotal ((t p.1).pageSize - 8) := by
  intro own
  have htotal : (freeSpaceCall (t p.1) (body p.1) own p.2).1.totalSpace =
      (t p.1).pageSize - 8 := by
    rcases freeSpaceCall_total (t p.1) (body p.1) own p.2 hp with h | h
    · exact h
    · exact h.trans (totalSpaceAvailable_eq (.inr rfl))
  obtain ⟨-, hmemory, hblocks⟩ := (call_eq_iff (t p.1) (body p.1) (s.table p.1) hs (.inr rfl)
    p.2 hp).2 h
  rw [step_table_self]
  calc (freeSpaceCall (t p.1) (body p.1) own p.2).1
      = ⟨(freeSpaceCall (t p.1) (body p.1) own p.2).1.memory,
          (freeSpaceCall (t p.1) (body p.1) own p.2).1.dataBlocks,
          (freeSpaceCall (t p.1) (body p.1) own p.2).1.totalSpace⟩ := rfl
    _ = _ := by
        rw [htotal, ← hmemory, ← hblocks]
        rfl

/-- The condition on each call of a run. -/
def Agrees (t : ι → TableFile) (s : FreeSpaceTables ι) (p : ι × FreeSpaceCall) : Prop :=
  SameTotal (t p.1) (s.table p.1) p.2

/-- The tables see what they see alone, from any state of the process. -/
theorem callsOf_eq_iff (calls : List (ι × FreeSpaceCall)) (hcalls : References calls)
    (hs : TotalOfTable s.totalSpace) :
    (∀ i, callsOf t body i s calls = callsAlone (t i) (body i)
      ((s.table i).withTotal ((t i).pageSize - 8)) (ownCalls i calls)) ↔
      Run.Each (Agrees t) (step t body) s calls := by
  induction calls generalizing s with
  | nil => exact ⟨fun _ => trivial, fun _ _ => rfl⟩
  | cons p calls ih =>
    have hp := hcalls p List.mem_cons_self
    have htail : References calls := fun q hq => hcalls q (List.mem_cons_of_mem _ hq)
    have ih := ih htail (step_total t body hs p hp)
    obtain ⟨hiff, hsame⟩ :=
      call_eq_iff (t p.1) (body p.1) (s.table p.1) hs (.inr (Eq.refl ((t p.1).pageSize - 8))) p.2 hp
    rw [Run.Each, ← ih]
    constructor
    · intro h
      have hself := h p.1
      simp only [callsOf, ownCalls, if_true, callsAlone] at hself
      obtain ⟨hhead, hrest⟩ := List.cons.inj hself
      have hagrees : Agrees t s p := hiff.1 (congrArg Prod.fst hhead)
      refine ⟨hagrees, fun i => ?_⟩
      by_cases hi : i = p.1
      · subst hi
        rw [hrest, step_alone hs p hp hagrees]
      · have hother := h i
        simp only [callsOf, ownCalls, if_neg (Ne.symm hi)] at hother
        rw [hother, step_table_of_ne hi]
    · rintro ⟨hagrees, h⟩ i
      by_cases hi : i = p.1
      · subst hi
        simp only [callsOf, ownCalls, if_true, callsAlone]
        obtain ⟨hresult, hmemory, -⟩ := hsame hagrees
        rw [step_alone hs p hp hagrees, ← h]
        exact congrArg₂ _ (Prod.ext hresult hmemory) rfl
      · simp only [callsOf, ownCalls, if_neg (Ne.symm hi)]
        rw [h, step_table_of_ne hi]

theorem releaseSpace_mem_ownCalls {i : ι} {reference : ℕ} {calls : List (ι × FreeSpaceCall)}
    (h : .releaseSpace reference ∈ ownCalls i calls) : (i, .releaseSpace reference) ∈ calls := by
  induction calls with
  | nil => cases h
  | cons p calls ih =>
    rw [ownCalls] at h
    split at h
    · rename_i hi
      rcases List.mem_cons.1 h with heq | h
      · exact List.mem_cons.2 (.inl (Prod.ext hi.symm heq))
      · exact List.mem_cons_of_mem _ (ih h)
    · exact List.mem_cons_of_mem _ (ih h)

/-- A process that starts: the variable of each table alone may as well be set. -/
theorem nonInterfering_iff_callsOf {memory : ι → ℕ → ℕ} {dataBlocks : ι → List ℕ}
    {calls : List (ι × FreeSpaceCall)} (hcalls : References calls) :
    NonInterfering t body memory dataBlocks calls ↔
      ∀ i, callsOf t body i (start memory dataBlocks) calls = callsAlone (t i) (body i)
        (((start memory dataBlocks).table i).withTotal ((t i).pageSize - 8))
        (ownCalls i calls) := by
  refine forall_congr' fun i => ?_
  have halone := callsAlone_total (t i) (body i) ⟨memory i, dataBlocks i, 0⟩
    (ownCalls i calls) fun reference h => hcalls _ (releaseSpace_mem_ownCalls h) reference rfl
  exact Iff.of_eq (congrArg _ halone)

/-- Tables of one page size never find the variable set for another one. -/
theorem each_agrees_of_pageSize {pageSize : ℕ} (ht : ∀ i, (t i).pageSize = pageSize)
    (calls : List (ι × FreeSpaceCall)) (hcalls : References calls)
    (hs : s.totalSpace = 0 ∨ s.totalSpace = pageSize - 8) :
    Run.Each (Agrees t) (step t body) s calls := by
  induction calls generalizing s with
  | nil => exact trivial
  | cons p calls ih =>
    have hown : (s.table p.1).totalSpace = 0 ∨ (s.table p.1).totalSpace = (t p.1).pageSize - 8 := by
      rw [ht]
      exact hs
    have hnext : (step t body s p).totalSpace = 0 ∨
        (step t body s p).totalSpace = pageSize - 8 := by
      rcases freeSpaceCall_total (t p.1) (body p.1) (s.table p.1) p.2
        (hcalls p List.mem_cons_self) with htotal | htotal
      · rw [show (step t body s p).totalSpace = s.totalSpace from htotal]
        exact hs
      · right
        rw [← ht p.1, ← totalSpaceAvailable_eq hown]
        exact htotal
    refine ⟨?_, ih (fun q hq => hcalls q (List.mem_cons_of_mem _ hq)) hnext⟩
    rw [Agrees]
    cases p.2 with
    | getFreeSpace m =>
      rcases hown with hzero | hsame
      · exact .inl hzero
      · exact .inr (.inl hsame)
    | releaseSpace reference => exact trivial

/-- Tables of one page size do not interfere. -/
theorem nonInterfering_of_pageSize {pageSize : ℕ} (ht : ∀ i, (t i).pageSize = pageSize)
    (memory : ι → ℕ → ℕ) (dataBlocks : ι → List ℕ) (calls : List (ι × FreeSpaceCall))
    (hcalls : References calls) : NonInterfering t body memory dataBlocks calls :=
  (nonInterfering_iff_callsOf hcalls).2
    ((callsOf_eq_iff calls hcalls (.inl rfl)).2
      (each_agrees_of_pageSize ht calls hcalls (.inl rfl)))

/-- Two tables, of pages of 4096 and of 8192 bytes. -/
def twoTables : Bool → TableFile
  | false => FreeSpaceRun.smallTable
  | true => TableFile.sequential 8192 (by decide) (by decide) (by decide)

end FreeSpaceTables

end Prinbee
