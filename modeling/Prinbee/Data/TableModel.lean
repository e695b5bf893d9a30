import Prinbee.Data.Convert
import Prinbee.Lib.BinarySearch

/-!
# The model of a table by its name

`schema.cpp`: `name_to_model()` searches a sorted table of names by halves.  The search goes to the
upper half when the name comes before the one in the middle, and to the lower half when it comes
after it.

## Main definitions

* `Model`, `modelAndName` — the models and the table.
* `nameToModel` — the search.
* `ModelFound` — the model that has the name is returned, or the name is refused.

## Main results

* `modelFound_iff` — the names that go wrong are those of all models but the one in the middle.
-/

namespace Prinbee

/-- `model_t`. -/
inductive Model
  | content
  | data
  | log
  | queue
  | sequencial
  | session
  | tree
  deriving DecidableEq, Repr

/-- `TABLE_MODEL_DEFAULT`. -/
def Model.default : Model := .content

/-- `g_model_and_name`. -/
def modelAndName : List (Model × Bytes) :=
  [(.content, [67, 79, 78, 84, 69, 78, 84]), (.data, [68, 65, 84, 65]),
    (.default, [68, 69, 70, 65, 85, 76, 84]), (.log, [76, 79, 71]),
    (.queue, [81, 85, 69, 85, 69]), (.sequencial, [83, 69, 81, 85, 69, 78, 67, 73, 65, 76]),
    (.session, [83, 69, 83, 83, 73, 79, 78]), (.tree, [84, 82, 69, 69])]

example : modelAndName.map (fun row => textOf row.2) =
    ["CONTENT", "DATA", "DEFAULT", "LOG", "QUEUE", "SEQUENCIAL", "SESSION", "TREE"] := by
  decide

/-- A row of the table. -/
def modelRow (p : ℕ) : Model × Bytes := modelAndName.getD p (.default, [])

variable (toUpper : Bytes → Bytes)

/-- `name_to_model()`; `toUpper` is `snapdev::to_upper()`. -/
def nameToModel (name : Bytes) : Except Failure Model :=
  if name = [] then .ok .default
  else
    match BinarySearch.search (fun p => compare (modelRow p).2 (toUpper name)) 0
        modelAndName.length with
    | some p => .ok (modelRow p).1
    | none => .error (.thrown .invalidName ("unrecognized model \"" ++ textOf name ++ "\"."))

/-- The empty string has the default model, the name of a model has that model, and no other name is
accepted. -/
structure ModelFound (name : Bytes) : Prop where
  empty : name = [] → nameToModel toUpper name = .ok .default
  named : name ≠ [] → ∀ row ∈ modelAndName, row.2 = toUpper name →
    nameToModel toUpper name = .ok row.1
  refused : name ≠ [] → (∀ row ∈ modelAndName, row.2 ≠ toUpper name) →
    ∃ message, nameToModel toUpper name = .error (.thrown .invalidName message)

variable {toUpper} {name : Bytes}

/-- What is found is a row with the name. -/
theorem search_modelRow {uc : Bytes} {p : ℕ}
    (h : BinarySearch.search (fun p => compare (modelRow p).2 uc) 0 modelAndName.length = some p) :
    modelRow p ∈ modelAndName ∧ (modelRow p).2 = uc := by
  obtain ⟨-, hlt, heq⟩ := BinarySearch.search_eq_some h
  refine ⟨?_, Std.LawfulEqOrd.eq_of_compare heq⟩
  rw [modelRow, List.getD_eq_getElem _ _ hlt]
  exact List.getElem_mem hlt

theorem nameToModel_of_search_none (hne : name ≠ [])
    (h : BinarySearch.search (fun p => compare (modelRow p).2 (toUpper name)) 0
      modelAndName.length = none) :
    nameToModel toUpper name =
      .error (.thrown .invalidName ("unrecognized model \"" ++ textOf name ++ "\".")) := by
  rw [nameToModel, if_neg hne, h]

/-- A name that no model has is refused. -/
theorem nameToModel_of_unknown (hne : name ≠ [])
    (h : ∀ row ∈ modelAndName, row.2 ≠ toUpper name) :
    nameToModel toUpper name =
      .error (.thrown .invalidName ("unrecognized model \"" ++ textOf name ++ "\".")) := by
  apply nameToModel_of_search_none hne
  cases hsearch : BinarySearch.search (fun p => compare (modelRow p).2 (toUpper name)) 0
      modelAndName.length with
  | none => rfl
  | some p =>
    obtain ⟨hmem, heq⟩ := search_modelRow hsearch
    exact absurd heq (h _ hmem)

/-- The names come one after the other in the table. -/
theorem compare_modelRow : ∀ p < 8, ∀ m < 8,
    compare (modelRow p).2 (modelRow m).2 = compare p m := by
  decide

/-- Two rows have two names. -/
theorem modelRow_injective {p m : ℕ} (hp : p < 8) (hm : m < 8)
    (h : (modelRow p).2 = (modelRow m).2) : p = m := by
  have hcmp := compare_modelRow p hp m hm
  rw [h, Std.LawfulEqOrd.compare_eq_iff_eq.2 rfl] at hcmp
  exact compare_eq_iff_eq.1 hcmp.symm

theorem exists_modelRow {row : Model × Bytes} (h : row ∈ modelAndName) :
    ∃ m < 8, modelRow m = row := by
  obtain ⟨m, hm, rfl⟩ := List.getElem_of_mem h
  exact ⟨m, hm, List.getD_eq_getElem _ _ hm⟩

/-- The search finds the name of a model in the middle of the table only. -/
theorem search_modelAndName {m : ℕ} (hm : m < 8) :
    BinarySearch.search (fun p => compare (modelRow p).2 (modelRow m).2) 0 modelAndName.length =
      if m = 4 then some m else none := by
  apply BinarySearch.search_of_increasing (Nat.zero_le m) hm
  · intro p _ hpm
    rw [compare_modelRow p (hpm.trans hm) m hm]
    exact compare_lt_iff_lt.2 hpm
  · rw [compare_modelRow m hm m hm]
    exact compare_eq_iff_eq.2 rfl
  · intro p hmp hp
    rw [compare_modelRow p hp m hm]
    exact compare_gt_iff_gt.2 hmp

theorem nameToModel_of_row {m : ℕ} (hne : name ≠ []) (hm : m < 8)
    (h : (modelRow m).2 = toUpper name) :
    nameToModel toUpper name =
      if m = 4 then .ok .queue
      else .error (.thrown .invalidName ("unrecognized model \"" ++ textOf name ++ "\".")) := by
  rw [nameToModel, if_neg hne, ← h, search_modelAndName hm]
  by_cases hfour : m = 4
  · subst hfour
    rfl
  · rw [if_neg hfour, if_neg hfour]

/-- **The model is found exactly for the empty string, for `QUEUE` and for the names that no model
has.** -/
theorem modelFound_iff (toUpper : Bytes → Bytes) (name : Bytes) :
    ModelFound toUpper name ↔
      name = [] ∨ toUpper name = (modelRow 4).2 ∨
        ∀ row ∈ modelAndName, row.2 ≠ toUpper name := by
  by_cases hne : name = []
  · refine iff_of_true ⟨fun _ => ?_, fun h => absurd hne h, fun h => absurd hne h⟩ (.inl hne)
    rw [nameToModel, if_pos hne]
  by_cases hunknown : ∀ row ∈ modelAndName, row.2 ≠ toUpper name
  · refine iff_of_true ⟨fun h => absurd h hne, ?_, fun _ _ => ?_⟩ (.inr (.inr hunknown))
    · intro _ row hrow heq
      exact absurd heq (hunknown row hrow)
    · exact ⟨_, nameToModel_of_unknown hne hunknown⟩
  obtain ⟨row, hrow, heq⟩ : ∃ row ∈ modelAndName, row.2 = toUpper name := by
    simpa using hunknown
  obtain ⟨m, hm, rfl⟩ := exists_modelRow hrow
  have hresult := nameToModel_of_row hne hm heq
  by_cases hfour : m = 4
  · subst hfour
    rw [if_pos rfl] at hresult
    refine iff_of_true ⟨fun h => absurd h hne, ?_, fun _ h => absurd h hunknown⟩
      (.inr (.inl heq.symm))
    intro _ row' hrow' heq'
    obtain ⟨k, hk, rfl⟩ := exists_modelRow hrow'
    rw [modelRow_injective hk hm (heq'.trans heq.symm)]
    exact hresult
  · rw [if_neg hfour] at hresult
    refine iff_of_false (fun h => ?_) ?_
    · rw [h.named hne _ hrow heq] at hresult
      cases hresult
    · rintro (h | h | h)
      · exact hne h
      · exact hfour (modelRow_injective hm (by decide) (heq.trans h))
      · exact hunknown h

/-- A small letter as a capital one. -/
def capital (c : UInt8) : UInt8 := if 97 ≤ c ∧ c ≤ 122 then c - 32 else c

/-- `tree` is the name of a model, and is refused. -/
theorem model_tree_not_found :
    nameToModel (List.map capital) [116, 114, 101, 101] =
      .error (.thrown .invalidName "unrecognized model \"tree\".") ∧
    ¬ ModelFound (List.map capital) [116, 114, 101, 101] := by
  have hrefused : nameToModel (List.map capital) [116, 114, 101, 101] =
      .error (.thrown .invalidName "unrecognized model \"tree\".") :=
    nameToModel_of_row (m := 7) (List.cons_ne_nil _ _) (by decide) (by decide)
  refine ⟨hrefused, fun h => ?_⟩
  have hfound := h.named (List.cons_ne_nil _ _) (.tree, [84, 82, 69, 69]) (by decide) (by decide)
  rw [hrefused] at hfound
  cases hfound

end Prinbee
