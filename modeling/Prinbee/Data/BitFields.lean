import Mathlib.Algebra.Order.BigOperators.Group.List
import Mathlib.Data.List.TakeWhile
import Mathlib.Data.Nat.Bitwise
import Prinbee.Data.Structure

/-!
# The flags of bit fields

The name of a `BITS` field is followed by an equal sign and the names of its flags, with a slash
between them, each one with its number of bits after a colon; without, it has one bit.
`parse_descriptions()` gives the flags one position after the other.

The conversion of a number of bits, of a library, is a parameter.

## Main definitions

* `FlagDefinition`, `FlagDefinition.create` — `flag_definition`, and its constructor.
* `parseBitField` — the part of `parse_descriptions()` on bit fields.
* `declaredSizes` — the numbers of bits that a description declares.

## Main results

* `parseFlags_layout` — the flags are one after the other.
* `parseBitField_iff` — the flags are in the field when their sizes add up to no more than it has.
-/

namespace Prinbee

/-- `flag_definition`. -/
structure FlagDefinition where
  fieldName : List Char
  flagName : List Char
  pos : ℕ
  size : ℕ
  mask : ℕ
  deriving DecidableEq, Repr

namespace FlagDefinition

/-- `((1ULL << size) - 1ULL) << pos`. -/
def maskOf (pos size : ℕ) : ℕ := ((2 ^ size - 1) <<< pos) % 2 ^ 64

/-- The constructor. -/
def create (fieldName flagName : List Char) (pos size : ℕ) : Except Failure FlagDefinition :=
  if fieldName = [] ∨ flagName = [] then
    .error (.thrown .invalidParameter
      "the flag definition must have a non-empty field name and flag name.")
  else if size = 0 then
    .error (.thrown .invalidParameter
      ("bit field named \"" ++ String.ofList fieldName ++ "." ++ String.ofList flagName
        ++ "\" cannot have a size of 0."))
  else if 64 ≤ size then
    .error (.thrown .invalidParameter
      ("bit field named \"" ++ String.ofList fieldName ++ "." ++ String.ofList flagName
        ++ "\" is too large (" ++ toString size ++ " >= 64)."))
  else if 64 ≤ pos ∨ 64 < pos + size then
    .error (.thrown .invalidParameter
      ("the mask of the bit field named \"" ++ String.ofList fieldName ++ "."
        ++ String.ofList flagName ++ "\" does not fit in a uint64_t."))
  else .ok ⟨fieldName, flagName, pos, size, maskOf pos size⟩

/-- The bits of a flag are in a word. -/
structure WellFormed (f : FlagDefinition) : Prop where
  size_pos : 0 < f.size
  fits : f.pos + f.size ≤ 64
  mask : f.mask = maskOf f.pos f.size

theorem create_eq_ok {fieldName flagName : List Char} {pos size : ℕ} {f : FlagDefinition}
    (h : create fieldName flagName pos size = .ok f) :
    f = ⟨fieldName, flagName, pos, size, maskOf pos size⟩ ∧ f.WellFormed := by
  unfold create at h
  split at h
  · cases h
  split at h
  · cases h
  split at h
  · cases h
  split at h
  · cases h
  cases h
  refine ⟨rfl, ?_, ?_, rfl⟩
  all_goals
    dsimp only
    omega

theorem maskOf_eq {pos size : ℕ} (h : pos + size ≤ 64) :
    maskOf pos size = (2 ^ size - 1) * 2 ^ pos := by
  have hlt : (2 ^ size - 1) * 2 ^ pos < 2 ^ 64 := by
    calc (2 ^ size - 1) * 2 ^ pos
        < 2 ^ size * 2 ^ pos := by
          apply Nat.mul_lt_mul_of_pos_right _ (Nat.two_pow_pos pos)
          exact Nat.sub_lt (Nat.two_pow_pos size) Nat.one_pos
      _ = 2 ^ (pos + size) := by rw [← Nat.pow_add, Nat.add_comm]
      _ ≤ 2 ^ 64 := Nat.pow_le_pow_right (by decide) h
  rw [maskOf, Nat.shiftLeft_eq, Nat.mod_eq_of_lt hlt]

/-- The bits of the mask. -/
theorem WellFormed.testBit_mask {f : FlagDefinition} (h : f.WellFormed) (i : ℕ) :
    f.mask.testBit i = decide (f.pos ≤ i ∧ i < f.pos + f.size) := by
  rw [h.mask, maskOf_eq h.fits, ← Nat.shiftLeft_eq, Nat.testBit_shiftLeft,
    Nat.testBit_two_pow_sub_one]
  by_cases hpos : f.pos ≤ i
  · simp only [hpos, decide_true, Bool.true_and, true_and, decide_eq_decide]
    omega
  · simp [hpos]

/-- Flags one after the other have no bit in common. -/
theorem WellFormed.land_mask {f g : FlagDefinition} (hf : f.WellFormed) (hg : g.WellFormed)
    (h : f.pos + f.size ≤ g.pos) : f.mask &&& g.mask = 0 := by
  apply Nat.eq_of_testBit_eq
  intro i
  rw [Nat.testBit_land, hf.testBit_mask, hg.testBit_mask, Nat.zero_testBit, Bool.and_eq_false_iff,
    decide_eq_false_iff_not, decide_eq_false_iff_not]
  omega

/-- A mask is in the low bits when its last bit is. -/
theorem WellFormed.mask_lt_iff {f : FlagDefinition} (h : f.WellFormed) (bits : ℕ) :
    f.mask < 2 ^ bits ↔ f.pos + f.size ≤ bits := by
  have hsize := h.size_pos
  constructor
  · intro hlt
    by_contra hnot
    have hlast := h.testBit_mask (f.pos + f.size - 1)
    have hle : 2 ^ bits ≤ 2 ^ (f.pos + f.size - 1) := Nat.pow_le_pow_right (by decide) (by omega)
    rw [Nat.testBit_lt_two_pow (hlt.trans_le hle)] at hlast
    have hfalse := of_decide_eq_false hlast.symm
    omega
  · intro hle
    apply Nat.lt_pow_two_of_testBit
    intro i hi
    rw [h.testBit_mask, decide_eq_false_iff_not]
    omega

end FlagDefinition

/-! ### The description -/

/-- `find_first_of(":/")`. -/
def isFlagEnd (c : Char) : Bool := c = ':' ∨ c = '/'

/-- A flag of a description: its name, the text of its size, and the text after the slash. -/
def readFlag (start : List Char) : List Char × Option (List Char) × Option (List Char) :=
  let flagName := start.takeWhile (!isFlagEnd ·)
  match start.dropWhile (!isFlagEnd ·) with
  | [] => (flagName, none, none)
  | c :: start =>
    if c = ':' then
      let sizeStr := start.takeWhile (· ≠ '/')
      match start.dropWhile (· ≠ '/') with
      | [] => (flagName, some sizeStr, none)
      | _ :: next => (flagName, some sizeStr, some next)
    else (flagName, none, some start)

theorem readFlag_next {start next : List Char} (h : (readFlag start).2.2 = some next) :
    next.length < start.length := by
  have hdrop := List.length_dropWhile_le (!isFlagEnd ·) start
  unfold readFlag at h
  dsimp only at h
  split at h
  · cases h
  · next c rest hrest =>
    rw [hrest, List.length_cons] at hdrop
    split at h
    · have hsize := List.length_dropWhile_le (· ≠ '/') rest
      split at h
      · cases h
      · next c' next' hnext =>
        cases h
        rw [hnext, List.length_cons] at hsize
        omega
    · cases h
      omega

/-- The size of a flag; the total is compared with the size of the field when it is given. -/
def flagSize (convert : List Char → Option ℤ) (bitField bitPos : ℕ) (flagName : List Char) :
    Option (List Char) → Except Failure ℕ
  | none => .ok 1
  | some sizeStr =>
    match convert sizeStr with
    | none =>
      .error (.thrown .invalidSize
        ("the size (" ++ String.ofList sizeStr ++ ") of bit field \"" ++ String.ofList flagName
          ++ "\" is invalid."))
    | some size =>
      if size ≤ 0 then
        .error (.thrown .invalidSize
          ("the size of a bit field must be positive. \"" ++ String.ofList flagName
            ++ "\" was given " ++ toString size ++ " instead."))
      else if bitField < bitPos + size then
        .error (.thrown .invalidSize
          ("the total number of bits used by bit field \"" ++ String.ofList flagName
            ++ "\" overflows the maximum allowed of " ++ toString bitField ++ "."))
      else .ok size.toNat

/-- `add_flag_definition()`: a flag takes the place of one of the same name. -/
def addFlagDefinition (flags : List FlagDefinition) (bits : FlagDefinition) : List FlagDefinition :=
  flags.filter (·.flagName ≠ bits.flagName) ++ [bits]

/-- The loop over the flags. -/
def parseFlags (convert : List Char → Option ℤ) (bitField : ℕ) (fieldName start : List Char)
    (bitPos : ℕ) (flags : List FlagDefinition) : Except Failure (List FlagDefinition) :=
  if start = [] then .ok flags
  else do
    let size ← flagSize convert bitField bitPos (readFlag start).1 (readFlag start).2.1
    let bits ← FlagDefinition.create fieldName (readFlag start).1 bitPos size
    match _h : (readFlag start).2.2 with
    | none => .ok (addFlagDefinition flags bits)
    | some next =>
      parseFlags convert bitField fieldName next (bitPos + size) (addFlagDefinition flags bits)
termination_by start.length
decreasing_by exact readFlag_next _h

/-- `bit_field`. -/
def StructType.bitField (t : StructType) : ℕ :=
  match t.shape with
  | .fixed width => if t.isBits then 8 * width else 0
  | _ => 0

/-- The part of `parse_descriptions()` on bit fields: the name of the field, and its flags. -/
def parseBitField (convert : List Char → Option ℤ) (type : StructType) (fieldName : List Char) :
    Except Failure (List Char × List FlagDefinition) :=
  match fieldName.dropWhile (· ≠ '=') with
  | [] =>
    .error (.thrown .logicError
      ("field \"" ++ String.ofList fieldName
        ++ "\" is expected to have a bit field description following its name."))
  | _ :: start => do
    let name := fieldName.takeWhile (· ≠ '=')
    let bitField := if 64 < type.bitField then 64 else type.bitField
    let flags ← parseFlags convert bitField name start 0 []
    .ok (name, flags)

/-- The number of bits that a flag declares. -/
def declaredSize (convert : List Char → Option ℤ) : Option (List Char) → ℕ
  | none => 1
  | some sizeStr => ((convert sizeStr).getD 0).toNat

/-- The numbers of bits that are declared from a position of the description on. -/
def flagSizes (convert : List Char → Option ℤ) (start : List Char) : List ℕ :=
  if start = [] then []
  else
    match _h : (readFlag start).2.2 with
    | none => [declaredSize convert (readFlag start).2.1]
    | some next => declaredSize convert (readFlag start).2.1 :: flagSizes convert next
termination_by start.length
decreasing_by exact readFlag_next _h

/-- The numbers of bits that a description declares, one for a flag without. -/
def declaredSizes (convert : List Char → Option ℤ) (fieldName : List Char) : List ℕ :=
  flagSizes convert (fieldName.dropWhile (· ≠ '=')).tail

/-! ### The layout -/

/-- Flags that are one after the other, up to a position. -/
structure FlagLayout (flags : List FlagDefinition) (bitPos : ℕ) : Prop where
  wellFormed : ∀ f ∈ flags, f.WellFormed
  before : ∀ f ∈ flags, f.pos + f.size ≤ bitPos
  ordered : flags.Pairwise fun f g => f.pos + f.size ≤ g.pos

section

variable {convert : List Char → Option ℤ} {bitField bitPos size : ℕ}
  {fieldName flagName start : List Char} {flags flags' : List FlagDefinition}
  {bits : FlagDefinition}

/-- One more flag. -/
theorem FlagLayout.add (h : FlagLayout flags bitPos)
    (hbits : FlagDefinition.create fieldName flagName bitPos size = .ok bits) :
    FlagLayout (addFlagDefinition flags bits) (bitPos + size) ∧
      bits ∈ addFlagDefinition flags bits ∧ bits.pos + bits.size = bitPos + size := by
  obtain ⟨rfl, hwell⟩ := FlagDefinition.create_eq_ok hbits
  refine ⟨⟨fun f hf => ?_, fun f hf => ?_, ?_⟩, by simp [addFlagDefinition], rfl⟩
  · rcases List.mem_append.1 hf with hf | hf
    · exact h.wellFormed f (List.mem_of_mem_filter hf)
    · rwa [List.mem_singleton.1 hf]
  · rcases List.mem_append.1 hf with hf | hf
    · have hle := h.before f (List.mem_of_mem_filter hf)
      omega
    · rw [List.mem_singleton.1 hf]
  · refine List.pairwise_append.2 ⟨h.ordered.filter _, List.pairwise_singleton _ _, ?_⟩
    intro f hf g hg
    rw [List.mem_singleton.1 hg]
    exact h.before f (List.mem_of_mem_filter hf)

/-- The size of a flag is the one that is declared. -/
theorem flagSize_eq {sizeStr : Option (List Char)}
    (h : flagSize convert bitField bitPos flagName sizeStr = .ok size) :
    size = declaredSize convert sizeStr := by
  unfold flagSize at h
  split at h
  · cases h
    rfl
  · next sizeStr =>
    split at h
    · cases h
    · next n hn =>
      split at h
      · cases h
      split at h
      · cases h
      cases h
      rw [declaredSize, hn]
      rfl

/-- **The flags of a description are one after the other**, and the last one ends where their sizes
add up to. -/
theorem parseFlags_layout (hlayout : FlagLayout flags bitPos)
    (h : parseFlags convert bitField fieldName start bitPos flags = .ok flags') :
    FlagLayout flags' (bitPos + (flagSizes convert start).sum) ∧
      (start ≠ [] → ∃ f ∈ flags', f.pos + f.size = bitPos + (flagSizes convert start).sum) := by
  induction hn : start.length using Nat.strong_induction_on
      generalizing start bitPos flags with
  | _ n ih =>
    subst hn
    rw [parseFlags] at h
    rw [flagSizes]
    by_cases hempty : start = []
    · rw [if_pos hempty] at h ⊢
      cases h
      exact ⟨hlayout, fun hne => absurd hempty hne⟩
    · rw [if_neg hempty] at h ⊢
      obtain ⟨size, hsize, h⟩ := bind_eq_ok.1 h
      obtain ⟨bits, hbits, h⟩ := bind_eq_ok.1 h
      obtain ⟨hadd, hmem, hend⟩ := hlayout.add hbits
      have hdeclared := flagSize_eq hsize
      split at h
      · next hnext =>
        -- the last flag
        cases h
        rw [List.sum_singleton, ← hdeclared]
        exact ⟨hadd, fun _ => ⟨bits, hmem, hend⟩⟩
      · next next hnext =>
        obtain ⟨hlayout', hlast⟩ := ih _ (readFlag_next hnext) hadd h rfl
        rw [List.sum_cons, ← hdeclared, ← Nat.add_assoc]
        refine ⟨hlayout', fun _ => ?_⟩
        by_cases hnone : next = []
        · -- the list ends with a slash
          rw [hnone, parseFlags, if_pos rfl] at h
          cases h
          rw [hnone, flagSizes, if_pos rfl, List.sum_nil, Nat.add_zero]
          exact ⟨bits, hmem, hend⟩
        · exact hlast hnone

end

/-- The flags have no bit in common, and all their bits are in the field. -/
structure LaidOut (type : StructType) (flags : List FlagDefinition) : Prop where
  disjoint : flags.Pairwise fun f g => f.mask &&& g.mask = 0
  inside : ∀ f ∈ flags, f.mask < 2 ^ type.bitField

/-- What `parse_descriptions()` accepts. -/
theorem parseBitField_eq_ok {convert : List Char → Option ℤ} {type : StructType}
    {fieldName name : List Char} {flags : List FlagDefinition}
    (h : parseBitField convert type fieldName = .ok (name, flags)) :
    ∃ bitField, parseFlags convert bitField name (fieldName.dropWhile (· ≠ '=')).tail 0 [] =
      .ok flags := by
  rw [parseBitField] at h
  split at h
  · cases h
  · next c start hstart =>
    obtain ⟨flags', hflags, h⟩ := bind_eq_ok.1 h
    cases h
    exact ⟨_, by rw [hstart]; exact hflags⟩

/-- **The flags of an accepted bit field are laid out if and only if** the sizes that are declared
add up to no more bits than the field has. -/
theorem parseBitField_iff (convert : List Char → Option ℤ) (type : StructType)
    {fieldName name : List Char} {flags : List FlagDefinition}
    (h : parseBitField convert type fieldName = .ok (name, flags)) :
    LaidOut type flags ↔ (declaredSizes convert fieldName).sum ≤ type.bitField := by
  obtain ⟨bitField, hflags⟩ := parseBitField_eq_ok h
  have hempty : FlagLayout [] 0 := ⟨by simp, by simp, .nil⟩
  obtain ⟨hlayout, hlast⟩ := parseFlags_layout hempty hflags
  rw [← declaredSizes, Nat.zero_add] at hlayout hlast
  constructor
  · intro hlaid
    by_cases hstart : (fieldName.dropWhile (· ≠ '=')).tail = []
    · rw [declaredSizes, hstart, flagSizes, if_pos rfl]
      exact Nat.zero_le _
    · obtain ⟨f, hf, hend⟩ := hlast hstart
      rw [← hend]
      exact ((hlayout.wellFormed f hf).mask_lt_iff _).1 (hlaid.inside f hf)
  · intro hle
    refine ⟨?_, fun f hf => ?_⟩
    · apply hlayout.ordered.imp_of_mem
      intro f g hf hg hfg
      exact (hlayout.wellFormed f hf).land_mask (hlayout.wellFormed g hg) hfg
    · apply ((hlayout.wellFormed f hf).mask_lt_iff _).2
      exact (hlayout.before f hf).trans hle

/-- A conversion of one digit. -/
def convertDigit : List Char → Option ℤ
  | [c] => if '0' ≤ c ∧ c ≤ '9' then some (c.toNat - 48) else none
  | _ => none

/-- Flags of one, two and one bits. -/
theorem parseBitField_iff_threeFlags :
    LaidOut .bits8
      [⟨['x'], ['a'], 0, 1, 1⟩, ⟨['x'], ['b'], 1, 2, 6⟩, ⟨['x'], ['c'], 3, 1, 8⟩] := by
  have h : parseBitField convertDigit .bits8 ['x', '=', 'a', '/', 'b', ':', '2', '/', 'c'] =
      .ok (['x'], [⟨['x'], ['a'], 0, 1, 1⟩, ⟨['x'], ['b'], 1, 2, 6⟩, ⟨['x'], ['c'], 3, 1, 8⟩]) := by
    decide +kernel
  exact (parseBitField_iff convertDigit .bits8 h).2 (by decide +kernel)

/-- Nine flags without a size are accepted in a field of eight bits. -/
theorem not_laidOut : ¬ ∀ fieldName name flags,
    parseBitField convertDigit .bits8 fieldName = .ok (name, flags) → LaidOut .bits8 flags := by
  intro h
  have hflags := h (['x', '='] ++ ['/'].intercalate
    [['a'], ['b'], ['c'], ['d'], ['e'], ['f'], ['g'], ['h'], ['i']]) ['x']
    ((List.range 9).map fun i => ⟨['x'], [Char.ofNat (97 + i)], i, 1, 2 ^ i⟩) (by decide +kernel)
  exact absurd (hflags.inside ⟨['x'], ['i'], 8, 1, 256⟩ (by decide)) (by decide)

end Prinbee
