import Mathlib.Tactic.Common

/-!
# Runs of a step function

A system is a state type `σ`, a type `ι` of operations and a step
`σ → ι → Except ε σ`.  A run is `List.foldlM step s ops`.  Safety results about a run are
about runs whose operations meet a precondition at the state they are applied to; the
rules here turn a fact about one step into a fact about all such runs.  Where a failed operation
leaves a state that the run goes on from, the step is a function `σ → ι → σ`.

## Main definitions

* `Run.Along ok step s ops` — every operation of `ops` meets `ok` at the state it is applied to.
* `Run.Each ok step s ops` — the same for a step that always leaves a state.
* `Run.Always P step s ops` — `P` holds in every state of the run.

## Main results

* `Run.invariant` — what a step keeps, a run keeps, and no step of it fails.
* `Run.refines` — a step by step simulation of an abstract system lifts to runs.
* `Run.always`, `Run.always_iff` — what a step keeps holds in every state of a run, and when a
  step loses it exactly when it does not meet its precondition.
-/

namespace Run

variable {σ α ι ε : Type*}

/-- Every operation of the list meets `ok` at the state the run has reached by then. -/
def Along (ok : σ → ι → Prop) (step : σ → ι → Except ε σ) : σ → List ι → Prop
  | _, [] => True
  | s, i :: is => ok s i ∧ ∀ s', step s i = .ok s' → Along ok step s' is

@[simp] theorem along_nil (ok : σ → ι → Prop) (step : σ → ι → Except ε σ) (s : σ) :
    Along ok step s [] := trivial

theorem Along.cons {ok : σ → ι → Prop} {step : σ → ι → Except ε σ} {s s' : σ} {i : ι}
    {is : List ι} (h : ok s i) (hs : step s i = .ok s') (hal : Along ok step s' is) :
    Along ok step s (i :: is) :=
  ⟨h, fun s'' hs'' => by rw [hs] at hs''; exact Except.ok.inj hs'' ▸ hal⟩

/-- A simulation of single steps is a simulation of runs: the abstract run never fails, so
neither does the concrete one, and the two end in related states. -/
theorem refines {R : σ → α → Prop} {ok : σ → ι → Prop} {step : σ → ι → Except ε σ}
    (astep : α → ι → α)
    (h : ∀ s a i, R s a → ok s i → ∃ s', step s i = .ok s' ∧ R s' (astep a i)) :
    ∀ (is : List ι) (s : σ) (a : α), R s a → Along ok step s is →
      ∃ s', is.foldlM step s = .ok s' ∧ R s' (is.foldl astep a) := by
  intro is
  induction is with
  | nil => intro s a hR _; exact ⟨s, rfl, hR⟩
  | cons i is ih =>
    intro s a hR hal
    obtain ⟨s₁, hs, hR₁⟩ := h s a i hR hal.1
    obtain ⟨s₂, hrun, hR₂⟩ := ih s₁ (astep a i) hR₁ (hal.2 s₁ hs)
    refine ⟨s₂, ?_, hR₂⟩
    rw [List.foldlM_cons, hs]
    exact hrun

/-- What every step that succeeds keeps, every run that succeeds keeps. -/
theorem Along.invariant {Inv : σ → Prop} {ok : σ → ι → Prop} {step : σ → ι → Except ε σ}
    (h : ∀ s i s', Inv s → ok s i → step s i = .ok s' → Inv s') {is : List ι} {s s' : σ}
    (hs : Inv s) (hal : Along ok step s is) (hrun : is.foldlM step s = .ok s') : Inv s' := by
  induction is generalizing s with
  | nil => exact Except.ok.inj hrun ▸ hs
  | cons i is ih =>
    rw [List.foldlM_cons] at hrun
    cases hi : step s i with
    | error e => rw [hi] at hrun; cases hrun
    | ok s₁ =>
      rw [hi] at hrun
      exact ih (h s i s₁ hs hal.1 hi) (hal.2 s₁ hi) hrun

/-- What every step keeps, every run keeps. -/
theorem invariant {Inv : σ → Prop} {ok : σ → ι → Prop} {step : σ → ι → Except ε σ}
    (h : ∀ s i, Inv s → ok s i → ∃ s', step s i = .ok s' ∧ Inv s')
    (is : List ι) (s : σ) (hs : Inv s) (hal : Along ok step s is) :
    ∃ s', is.foldlM step s = .ok s' ∧ Inv s' :=
  refines (R := fun s (_ : Unit) => Inv s) (fun u _ => u) (fun s _ i => h s i) is s () hs hal

/-- Every operation of the list meets `ok` at the state the run has reached by then. -/
def Each (ok : σ → ι → Prop) (step : σ → ι → σ) : σ → List ι → Prop
  | _, [] => True
  | s, i :: is => ok s i ∧ Each ok step (step s i) is

/-- `P` holds at the start of the run and after each of its operations. -/
def Always (P : σ → Prop) (step : σ → ι → σ) : σ → List ι → Prop
  | s, [] => P s
  | s, i :: is => P s ∧ Always P step (step s i) is

section Total

variable {P Inv : σ → Prop} {ok : σ → ι → Prop} {step : σ → ι → σ}

/-- A condition on the steps that is the same as another one, step by step. -/
theorem each_congr {ok' : σ → ι → Prop} (h : ∀ s i, ok s i ↔ ok' s i) (is : List ι) (s : σ) :
    Each ok step s is ↔ Each ok' step s is := by
  induction is generalizing s with
  | nil => exact Iff.rfl
  | cons i is ih => exact and_congr (h s i) (ih (step s i))

theorem each_trivial (is : List ι) (s : σ) : Each (fun _ _ => True) step s is := by
  induction is generalizing s with
  | nil => exact trivial
  | cons i is ih => exact ⟨trivial, ih (step s i)⟩

theorem Each.and {ok' : σ → ι → Prop} {s : σ} {is : List ι} (h : Each ok step s is)
    (h' : Each ok' step s is) : Each (fun s i => ok s i ∧ ok' s i) step s is := by
  induction is generalizing s with
  | nil => exact trivial
  | cons i is ih => exact ⟨⟨h.1, h'.1⟩, ih h.2 h'.2⟩

/-- What a step that keeps an invariant implies of its operation, a run implies of all of them. -/
theorem Each.imp (Inv : σ → Prop) {ok' : σ → ι → Prop}
    (hstep : ∀ s i, Inv s → ok s i → Inv (step s i))
    (himp : ∀ s i, Inv s → ok s i → ok' s i) {s : σ} {is : List ι} (hs : Inv s)
    (h : Each ok step s is) : Each ok' step s is := by
  induction is generalizing s with
  | nil => exact trivial
  | cons i is ih => exact ⟨himp s i hs h.1, ih (hstep s i hs h.1) h.2⟩

theorem Each.mono {ok' : σ → ι → Prop} (himp : ∀ s i, ok s i → ok' s i) {s : σ} {is : List ι}
    (h : Each ok step s is) : Each ok' step s is :=
  h.imp (fun _ => True) (fun _ _ _ _ => trivial) (fun s i _ => himp s i) trivial

/-- The operations of a run, and those of what it goes on with. -/
theorem each_append {s : σ} {is js : List ι} :
    Each ok step s (is ++ js) ↔ Each ok step s is ∧ Each ok step (is.foldl step s) js := by
  induction is generalizing s with
  | nil => exact (iff_of_eq (true_and _)).symm
  | cons i is ih => exact (and_congr_right fun _ => ih).trans and_assoc.symm

/-- A condition on the operations alone. -/
theorem each_const (Q : ι → Prop) (step : σ → ι → σ) (is : List ι) (s : σ) :
    Each (fun _ i => Q i) step s is ↔ ∀ i ∈ is, Q i := by
  induction is generalizing s with
  | nil => exact iff_of_true trivial (by simp)
  | cons i is ih =>
    rw [List.forall_mem_cons]
    exact and_congr_right fun _ => ih (step s i)

/-- A run of a system that keeps something besides its states. -/
theorem Each.lift {τ : Type*} (f : τ → σ) {step' : τ → ι → τ}
    (hf : ∀ t i, f (step' t i) = step (f t) i) {t : τ} {is : List ι} (h : Each ok step (f t) is) :
    Each (fun t i => ok (f t) i) step' t is := by
  induction is generalizing t with
  | nil => exact trivial
  | cons i is ih => exact ⟨h.1, ih (by rw [hf]; exact h.2)⟩

/-- What every step keeps holds in every state of a run. -/
theorem always (hP : ∀ s, Inv s → P s) (hstep : ∀ s i, Inv s → ok s i → Inv (step s i))
    (is : List ι) (s : σ) (hs : Inv s) (h : Each ok step s is) : Always P step s is := by
  induction is generalizing s with
  | nil => exact hP s hs
  | cons i is ih => exact ⟨hP s hs, ih (step s i) (hstep s i hs h.1) h.2⟩

theorem Always.head {s : σ} {is : List ι} (h : Always P step s is) : P s := by
  cases is with
  | nil => exact h
  | cons i is => exact h.1

/-- It holds where the run ends. -/
theorem Always.foldl {s : σ} {is : List ι} (h : Always P step s is) : P (is.foldl step s) := by
  induction is generalizing s with
  | nil => exact h
  | cons i is ih => exact ih h.2

/-- The steps of a run that never loses a property are those that keep it. -/
theorem each_of_always (hlost : ∀ s i, P s → P (step s i) → ok s i) {s : σ} {is : List ι}
    (h : Always P step s is) : Each ok step s is := by
  induction is generalizing s with
  | nil => exact trivial
  | cons i is ih => exact ⟨hlost s i h.1 h.2.head, ih h.2⟩

/-- When a step that loses the property is one that does not meet its precondition, the property
holds in every state of a run exactly when all its operations meet their precondition. -/
theorem always_iff (hP : ∀ s, Inv s → P s) (hstep : ∀ s i, Inv s → ok s i → Inv (step s i))
    (hlost : ∀ s i, Inv s → P (step s i) → ok s i) (is : List ι) (s : σ) (hs : Inv s) :
    Always P step s is ↔ Each ok step s is := by
  refine ⟨fun h => ?_, always hP hstep is s hs⟩
  induction is generalizing s with
  | nil => exact trivial
  | cons i is ih =>
    have hok : ok s i := hlost s i hs h.2.head
    exact ⟨hok, ih (step s i) (hstep s i hs hok) h.2⟩

end Total

end Run
