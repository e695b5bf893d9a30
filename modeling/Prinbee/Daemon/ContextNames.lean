import Mathlib.Data.List.TakeWhile
import Prinbee.Daemon.Prinbeed

/-!
# Names of contexts from the peers

A SCTX message has any text as the name of its context.  `set_name()` refuses some of them with
`invalid_parameter`, which `set_context()` answers, and others with `invalid_name`, which it does
not catch; and it looks at a segment only up to its first null character.

## Main definitions

* `ContextSetup.assign` — `set_name()` on the member `f_name`.
* `ContextSetup.Canonical` — up to four valid segments between slashes.
* `ContextSetup.Stores` — a name is stored in this form, or refused and the member is unchanged.
* `Prinbeed.Answers` — a refused name is answered with ERR, and no payload is changed.

## Main results

* `Prinbeed.handles_iff` — for which names both are so.
-/

namespace Prinbee

namespace ContextSetup

variable {name fName : List Char}

/-- `set_name()` on `f_name`. -/
def assign (fName name : List Char) : Except Failure Unit × List Char :=
  match setName name with
  | .ok canonical => (.ok (), canonical)
  | .error e => (.error e, fName)

/-- A canonical name. -/
def Canonical (name : List Char) : Prop :=
  ∃ segments : List (List Char), 1 ≤ segments.length ∧ segments.length ≤ maxSegments ∧
    (∀ s ∈ segments, validateName s maxSegmentLength = true) ∧ name = ['/'].intercalate segments

/-- **The name is stored in its canonical form**, which is stored again as it is, or an exception is
thrown and the member keeps its value. -/
def Stores (name : List Char) : Prop :=
  ∀ fName,
    (∃ type message, assign fName name = (.error (.thrown type message), fName)) ∨
      ∃ canonical, assign fName name = (.ok (), canonical) ∧ Canonical canonical ∧
        ∀ fName, assign fName canonical = (.ok (), canonical)

/-- The checks that throw `invalid_parameter`. -/
def NotAName (name : List Char) : Prop :=
  name = [] ∨ name.head? = some '/' ∨ name.getLast? = some '/' ∨
    maxSegments < (segments name).length

instance (name : List Char) : Decidable (NotAName name) := inferInstanceAs (Decidable (_ ∨ _))

/-- The segments of a name are valid to the last character. -/
def ValidSegments (name : List Char) : Prop :=
  ∀ s ∈ segments name, validateName s maxSegmentLength = true

instance (name : List Char) : Decidable (ValidSegments name) :=
  inferInstanceAs (Decidable (∀ _ ∈ _, _))

/-! ### What `set_name()` does -/

theorem setName_of_notAName (h : NotAName name) :
    ∃ what, setName name = .error (.thrown .invalidParameter what) := by
  unfold setName
  split
  · exact ⟨_, rfl⟩
  · next hempty =>
    split
    · exact ⟨_, rfl⟩
    · next hends =>
      have hmany : maxSegments < (segments name).length :=
        ((h.resolve_left hempty).resolve_left fun hhead => hends (.inl hhead)).resolve_left
          fun hlast => hends (.inr hlast)
      exact ⟨_, if_pos hmany⟩

/-- The check of the segments. -/
theorem setName_of_name (h : ¬ NotAName name) :
    (∃ what, setName name = .error (.thrown .invalidName what) ∧
        ∃ s ∈ segments name, ¬ validateName (s.takeWhile (· ≠ Char.ofNat 0)) maxSegmentLength) ∨
      (setName name = .ok (['/'].intercalate (segments name)) ∧
        ∀ s ∈ segments name, validateName (s.takeWhile (· ≠ Char.ofNat 0)) maxSegmentLength) := by
  rw [NotAName, not_or, not_or, not_or] at h
  obtain ⟨hempty, hhead, hlast, hmany⟩ := h
  have hends : ¬ (name.head? = some '/' ∨ name.getLast? = some '/') := not_or.2 ⟨hhead, hlast⟩
  rw [setName, if_neg hempty, if_neg hends, if_neg hmany]
  cases hfind : (segments name).find? fun s =>
      !validateName (s.takeWhile (· ≠ Char.ofNat 0)) maxSegmentLength with
  | some s =>
    refine .inl ⟨_, rfl, s, List.mem_of_find?_eq_some hfind, ?_⟩
    have hs := List.find?_some hfind
    simpa using hs
  | none =>
    refine .inr ⟨rfl, fun s hs => ?_⟩
    have hnone := List.find?_eq_none.1 hfind s hs
    simpa using hnone

/-- A valid name has only the characters of a name. -/
theorem not_mem_of_valid {s : List Char} {n : ℕ} (h : validateName s n = true) {c : Char}
    (hc : ∀ first, isNameChar first c = false) : c ∉ s := by
  intro hmem
  cases s with
  | nil => exact absurd hmem List.not_mem_nil
  | cons c' cs =>
    rw [validateName, Bool.and_eq_true, Bool.and_eq_true] at h
    rcases List.mem_cons.1 hmem with rfl | hcs
    · rw [hc] at h
      exact absurd h.1.2 (by decide)
    · have hall := List.all_eq_true.1 h.2 c hcs
      rw [hc] at hall
      exact absurd hall (by decide)

theorem takeWhile_of_valid {s : List Char} {n : ℕ} (h : validateName s n = true) :
    s.takeWhile (· ≠ Char.ofNat 0) = s := by
  refine List.takeWhile_eq_self_iff.2 fun c hc => ?_
  have hnull : Char.ofNat 0 ∉ s :=
    not_mem_of_valid h fun first => by cases first <;> decide
  have hne : c ≠ Char.ofNat 0 := fun heq => hnull (heq ▸ hc)
  exact decide_eq_true hne

/-- The segments of a canonical name are those it was made of. -/
theorem splitOn_intercalate_valid {segments : List (List Char)} (hne : segments ≠ [])
    (h : ∀ s ∈ segments, validateName s maxSegmentLength = true) :
    (['/'].intercalate segments).splitOn '/' = segments := by
  refine List.splitOn_intercalate '/' (fun s hs => ?_) hne
  exact not_mem_of_valid (h s hs) fun first => by cases first <;> decide

/-- A name whose segments are valid is stored. -/
theorem setName_valid (h : ¬ NotAName name) (hvalid : ValidSegments name) :
    setName name = .ok (['/'].intercalate (segments name)) ∧
      Canonical (['/'].intercalate (segments name)) := by
  have hhead : ¬ (name = [] ∨ name.head? = some '/') := fun hor =>
    h (hor.elim .inl fun hhead => .inr (.inl hhead))
  have hne := segments_ne_nil (not_or.1 hhead).1 (not_or.1 hhead).2
  have hmany : (segments name).length ≤ maxSegments :=
    Nat.le_of_not_lt fun hlt => h (.inr (.inr (.inr hlt)))
  rcases setName_of_name h with ⟨what, -, s, hs, hnot⟩ | ⟨hok, -⟩
  · rw [takeWhile_of_valid (hvalid s hs)] at hnot
    exact absurd (hvalid s hs) hnot
  · exact ⟨hok, segments name, List.length_pos_iff.2 hne, hmany, hvalid, rfl⟩

/-- A name that is stored in its canonical form has valid segments. -/
theorem validSegments_of_canonical (h : ¬ NotAName name)
    (hcanonical : Canonical (['/'].intercalate (segments name))) : ValidSegments name := by
  have hhead : ¬ (name = [] ∨ name.head? = some '/') := fun hor =>
    h (hor.elim .inl fun hhead => .inr (.inl hhead))
  have hne := segments_ne_nil (not_or.1 hhead).1 (not_or.1 hhead).2
  obtain ⟨parts, hpos, -, hvalid, heq⟩ := hcanonical
  have hsplit := splitOn_intercalate_valid (List.length_pos_iff.1 hpos) hvalid
  rw [← heq, splitOn_canonical hne] at hsplit
  rw [ValidSegments, hsplit]
  exact hvalid

end ContextSetup

/-! ### What `set_context()` does -/

namespace Prinbeed

open ContextSetup

variable (settings : PrinbeedSettings)

/-- **A name that is refused is answered with ERR**: the exception does not escape, and no payload is
changed, so no lock is taken. -/
def AnswersRefusal (name : List Char) : Prop :=
  ∀ (clock : Clock) (s : Prinbeed) (i : ℕ) (p : Payload) (cause : Cause) (c : ContextMessage),
    c.contextName = name → (∃ e, ContextSetup.setName name = .error e) →
      ∃ code message, setContext settings clock s i p cause (some c) =
        (.ok (), s.sendError p (some (i, cause)) code message) ∧
        (s.sendError p (some (i, cause)) code message).payloads = s.payloads

/-- The exceptions that `set_context()` catches. -/
theorem setContext_notAName {clock : Clock} {s : Prinbeed} {i : ℕ} {p : Payload} {cause : Cause}
    {c : ContextMessage} {what : String}
    (h : ContextSetup.setName c.contextName = .error (.thrown .invalidParameter what)) :
    setContext settings clock s i p cause (some c) =
      (.ok (), s.sendError p (some (i, cause)) .invalidParameters (invalidContextName what)) := by
  have hread : deserializeContextMessage (some c) = .ok { c with contextId := 0 } := rfl
  rw [setContext, hread]
  dsimp only
  rw [h]

/-- Another exception goes through. -/
theorem setContext_invalidName {clock : Clock} {s : Prinbeed} {i : ℕ} {p : Payload} {cause : Cause}
    {c : ContextMessage} {what : String}
    (h : ContextSetup.setName c.contextName = .error (.thrown .invalidName what)) :
    setContext settings clock s i p cause (some c) = (.error (.thrown .invalidName what), s) := by
  have hread : deserializeContextMessage (some c) = .ok { c with contextId := 0 } := rfl
  rw [setContext, hread]
  dsimp only
  rw [h]

/-- **Exactly for the names that are refused with `invalid_parameter`, or have valid segments**, the
name is stored in its canonical form or refused, and a refusal is answered. -/
theorem handles_iff (name : List Char) :
    (Stores name ∧ ∀ settings, AnswersRefusal settings name) ↔ NotAName name ∨ ValidSegments name := by
  by_cases hname : NotAName name
  · obtain ⟨what, hwhat⟩ := setName_of_notAName hname
    refine iff_of_true ⟨fun fName => .inl ⟨.invalidParameter, what, ?_⟩, ?_⟩ (.inl hname)
    · rw [assign, hwhat]
    · rintro settings clock s i p cause c rfl -
      exact ⟨_, _, setContext_notAName settings hwhat, rfl⟩
  · rw [or_iff_right hname]
    constructor
    · rintro ⟨hstores, hanswers⟩
      rcases setName_of_name hname with ⟨what, hwhat, -⟩ | ⟨hok, -⟩
      · -- the exception escapes, whatever the state
        let settings : PrinbeedSettings := ⟨[], [], [], fun _ => .ok 0⟩
        let message : ContextMessage := ⟨name, [], 0, 0⟩
        obtain ⟨code, text, hanswer, -⟩ := hanswers settings ⟨0, 0⟩ {} 0 ⟨0, ⟨0, .other 0⟩, 0, none, []⟩
          .received message rfl ⟨_, hwhat⟩
        rw [setContext_invalidName settings hwhat] at hanswer
        cases (Prod.mk.inj hanswer).1
      · rcases hstores [] with ⟨type, text, herror⟩ | ⟨canonical, hassign, hcanonical, -⟩
        · rw [assign, hok] at herror
          cases (Prod.mk.inj herror).1
        · rw [assign, hok] at hassign
          obtain rfl : ['/'].intercalate (segments name) = canonical := (Prod.mk.inj hassign).2
          exact validSegments_of_canonical hname hcanonical
    · intro hvalid
      obtain ⟨hok, hcanonical⟩ := setName_valid hname hvalid
      refine ⟨fun fName => .inr ⟨_, ?_, hcanonical, fun fName => ?_⟩, ?_⟩
      · rw [assign, hok]
      · rw [assign, setName_canonical hok]
      · rintro settings clock s i p cause c rfl ⟨e, herror⟩
        rw [hok] at herror
        cases herror

/-- A name with a period: the exception escapes from `set_context()`. -/
theorem not_handles :
    ¬ ∀ name : List Char, Stores name ∧ ∀ settings, AnswersRefusal settings name := by
  intro h
  let settings : PrinbeedSettings := ⟨[], [], [], fun _ => .ok 0⟩
  let message : ContextMessage := ⟨['.'], [], 1, 0⟩
  have hwhat : ContextSetup.setName ['.'] =
      .error (.thrown .invalidName (segmentNotValid ['.'])) := by decide
  obtain ⟨code, text, hanswer, -⟩ := (h ['.']).2 settings ⟨0, 0⟩ {} 0 ⟨0, ⟨0, .other 0⟩, 0, none, []⟩
    .received message rfl ⟨_, hwhat⟩
  rw [setContext_invalidName settings hwhat] at hanswer
  cases (Prod.mk.inj hanswer).1

end Prinbeed

end Prinbee
