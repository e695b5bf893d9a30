import Prinbee.Data.ComplexTypeFile
import Prinbee.Lib.Walks

/-!
# The complex types of a context

`context.cpp`: a context reads the file of its complex types, and then verifies that no type
contains itself.  `find_loop()` follows the fields from each type that is no enumeration; it looks
for the name it started from, and gives up at a depth.

The types are put in the map of the context while the file is read, before anything is verified.

## Main definitions

* `ComplexTypes.verify` — `verify_complex_types()`, with `find_loop()`.
* `ComplexTypes.Sound` — the references can be followed to their ends.
* `ComplexTypes.fromBinary` — `from_binary()`.
* `ComplexTypes.Kept` — a call that throws leaves the types.

## Main results

* `ComplexTypes.verify_iff` — the verification accepts the sound maps.
* `ComplexTypes.verified_and_kept_iff` — and when the types are left.
-/

namespace Prinbee

namespace ComplexTypes

/-! ### Following references -/

/-- `MAX_COMPLEX_TYPE_REFERENCE_DEPTH`. -/
def maxComplexTypeReferenceDepth : ℕ := 10

/-- The error of `find_loop()` at the limit. -/
def tooManyReferences (name : Bytes) : Failure :=
  .thrown .invalidName
    ("too many complex type references from \"" ++ textOf name ++ "\"; the limit is currently "
      ++ toString maxComplexTypeReferenceDepth ++ ".")

/-- The loop of `find_loop()` over the fields of a type. -/
def followFields (types : ComplexTypes) (name : Bytes) (t : ComplexType)
    (findLoop : ComplexType → Except Failure Unit) : List ComplexField → Except Failure Unit
  | [] => .ok ()
  | f :: fs =>
    if f.type ≠ .structure then followFields types name t findLoop fs
    else if f.typeName = name then
      .error (.thrown .invalidName
        ("complex type loop found in \"" ++ textOf t.name ++ "\"."))
    else
      match types[f.typeName]? with
      | none =>
        .error (.thrown .logicError ("complex type \"" ++ textOf f.typeName ++ "\" not found."))
      | some u => do
        findLoop u
        followFields types name t findLoop fs

/-- `find_loop()`, with the depth that is left under the limit. -/
def findLoop (types : ComplexTypes) (name : Bytes) : ℕ → ComplexType → Except Failure Unit
  | 0, _ => .error (tooManyReferences name)
  | left + 1, t => followFields types name t (findLoop types name left) t.fields

/-- The loop of `verify_complex_types()`. -/
def verifyEntries (types : ComplexTypes) : List (Bytes × ComplexType) → Except Failure Unit
  | [] => .ok ()
  | (name, t) :: rest =>
    if t.isEnum then verifyEntries types rest
    else do
      findLoop types name (maxComplexTypeReferenceDepth - 1) t
      verifyEntries types rest

/-- `verify_complex_types()`. -/
def verify (types : ComplexTypes) : Except Failure Unit := verifyEntries types types.toList

/-! ### What the verification is for -/

/-- A type has a field of another. -/
def Refers (types : ComplexTypes) (a b : Bytes) : Prop :=
  ∃ t : ComplexType, types[a]? = some t ∧ ∃ f ∈ t.fields, f.type = .structure ∧ f.typeName = b

/-- A type that is no enumeration. -/
def Start (types : ComplexTypes) (a : Bytes) : Prop :=
  ∃ t : ComplexType, types[a]? = some t ∧ t.isEnum = false

/-- A name that references lead to from a type that is no enumeration. -/
def Reached (types : ComplexTypes) (b : Bytes) : Prop :=
  ∃ a, types.Start a ∧ Relation.ReflTransGen types.Refers a b

/-- The references exist, go around no cycle, and are fewer than the limit in a row. -/
structure Sound (types : ComplexTypes) : Prop where
  exist : ∀ a b, types.Reached a → types.Refers a b → b ∈ types
  acyclic : ∀ a, types.Reached a → ¬ Relation.TransGen types.Refers a a
  short : ∀ a chain, types.Start a → (a :: chain).IsChain types.Refers →
    (a :: chain).length < maxComplexTypeReferenceDepth

/-- Every name that a type refers to, directly or not, is there. -/
def Closed (types : ComplexTypes) (a : Bytes) : Prop :=
  ∀ b c, Relation.ReflTransGen types.Refers a b → types.Refers b c → c ∈ types

variable {types : ComplexTypes} {name : Bytes}

/-- The fields of a type are followed when each reference is another type that is followed. -/
theorem followFields_ok (t : ComplexType) (next : ComplexType → Except Failure Unit)
    (fs : List ComplexField) :
    followFields types name t next fs = .ok () ↔
      ∀ f ∈ fs, f.type = .structure → f.typeName ≠ name ∧
        ∃ u : ComplexType, types[f.typeName]? = some u ∧ next u = .ok () := by
  induction fs with
  | nil => exact ⟨fun _ f hf => (nomatch hf), fun _ => rfl⟩
  | cons f fs ih =>
    rw [followFields, List.forall_mem_cons, ← ih]
    by_cases htype : f.type = .structure
    · rw [if_neg (fun h => h htype)]
      by_cases hname : f.typeName = name
      · rw [if_pos hname]
        exact ⟨fun h => (nomatch h), fun h => absurd hname (h.1 htype).1⟩
      · rw [if_neg hname]
        cases hfind : types[f.typeName]? with
        | none =>
          refine ⟨fun h => (nomatch h), fun h => ?_⟩
          obtain ⟨u, hu, -⟩ := (h.1 htype).2
          cases hu
        | some u =>
          rw [bind_eq_ok]
          constructor
          · rintro ⟨_, hu, hrest⟩
            exact ⟨fun _ => ⟨hname, u, rfl, hu⟩, hrest⟩
          · rintro ⟨hf, hrest⟩
            obtain ⟨-, v, hv, hnext⟩ := hf htype
            cases hv
            exact ⟨(), hnext, hrest⟩
    · rw [if_pos htype]
      exact ⟨fun h => ⟨fun h' => absurd h' htype, h⟩, fun h => h.2⟩

/-- One step of the search. -/
theorem findLoop_succ {a : Bytes} {t : ComplexType} (ha : types[a]? = some t) (left : ℕ) :
    findLoop types name (left + 1) t = .ok () ↔
      ∀ b, types.Refers a b → b ≠ name ∧
        ∃ u : ComplexType, types[b]? = some u ∧ findLoop types name left u = .ok () := by
  rw [findLoop, followFields_ok]
  constructor
  · rintro h b ⟨t', ht', f, hf, htype, rfl⟩
    rw [ha, Option.some.injEq] at ht'
    subst ht'
    exact h f hf htype
  · intro h f hf htype
    exact h f.typeName ⟨t, ha, f, hf, htype, rfl⟩

theorem closed_iff {a : Bytes} :
    types.Closed a ↔ ∀ b, types.Refers a b → b ∈ types ∧ types.Closed b := by
  constructor
  · intro h b hab
    exact ⟨h a b .refl hab, fun c d hbc => h c d (.head hab hbc)⟩
  · intro h b c hab hbc
    rcases Relation.ReflTransGen.cases_head hab with rfl | ⟨b', hab', hb'b⟩
    · exact (h c hbc).1
    · exact (h b' hab').2 b c hb'b hbc

/-- **The search succeeds** when every name it meets is there, the start is not met again, and no
walk is longer than the depth that is left. -/
theorem findLoop_ok_iff (left : ℕ) {a : Bytes} {t : ComplexType} (ha : types[a]? = some t) :
    findLoop types name left t = .ok () ↔
      Walks.Bounded types.Refers left a ∧ types.Closed a ∧
        ¬ Relation.TransGen types.Refers a name := by
  induction left generalizing a t with
  | zero =>
    exact ⟨fun h => (nomatch h), fun h => absurd h.1 Walks.not_bounded_zero⟩
  | succ left ih =>
    rw [findLoop_succ ha, Walks.bounded_succ, closed_iff]
    constructor
    · intro h
      refine ⟨fun b hab => ?_, fun b hab => ?_, fun hname => ?_⟩
      · obtain ⟨-, u, hu, hok⟩ := h b hab
        exact ((ih hu).1 hok).1
      · obtain ⟨-, u, hu, hok⟩ := h b hab
        exact ⟨Std.ExtTreeMap.mem_iff_isSome_getElem?.2 (by rw [hu]; rfl), ((ih hu).1 hok).2.1⟩
      · obtain ⟨b, hab, hbn⟩ := Relation.TransGen.head'_iff.1 hname
        obtain ⟨hne, u, hu, hok⟩ := h b hab
        rcases Relation.reflTransGen_iff_eq_or_transGen.1 hbn with heq | hcycle
        · exact hne heq.symm
        · exact ((ih hu).1 hok).2.2 hcycle
    · rintro ⟨hbounded, hclosed, hname⟩ b hab
      refine ⟨fun heq => hname (heq ▸ .single hab), ?_⟩
      obtain ⟨u, hu⟩ := Option.isSome_iff_exists.1
        (Std.ExtTreeMap.mem_iff_isSome_getElem?.1 (hclosed b hab).1)
      exact ⟨u, hu, (ih hu).2 ⟨hbounded b hab, (hclosed b hab).2,
        fun hbn => hname (.head hab hbn)⟩⟩

theorem verifyEntries_ok (entries : List (Bytes × ComplexType)) :
    verifyEntries types entries = .ok () ↔ ∀ x ∈ entries, x.2.isEnum = false →
      findLoop types x.1 (maxComplexTypeReferenceDepth - 1) x.2 = .ok () := by
  induction entries with
  | nil => exact ⟨fun _ x hx => (nomatch hx), fun _ => rfl⟩
  | cons x entries ih =>
    rw [verifyEntries, List.forall_mem_cons, ← ih]
    cases x.2.isEnum with
    | true =>
      rw [if_pos rfl]
      exact ⟨fun h => ⟨fun h' => (nomatch h'), h⟩, fun h => h.2⟩
    | false =>
      rw [if_neg Bool.false_ne_true, bind_eq_ok]
      exact ⟨fun ⟨_, hx, hrest⟩ => ⟨fun _ => hx, hrest⟩, fun h => ⟨(), h.1 rfl, h.2⟩⟩

/-- **The verification accepts the sound maps.** -/
theorem verify_iff (types : ComplexTypes) : verify types = .ok () ↔ types.Sound := by
  have hstart : verify types = .ok () ↔ ∀ a, types.Start a →
      Walks.Bounded types.Refers (maxComplexTypeReferenceDepth - 1) a ∧ types.Closed a ∧
        ¬ Relation.TransGen types.Refers a a := by
    rw [verify, verifyEntries_ok]
    constructor
    · rintro h a ⟨t, ha, henum⟩
      exact (findLoop_ok_iff _ ha).1
        (h (a, t) (Std.ExtTreeMap.mem_toList_iff_getElem?_eq_some.2 ha) henum)
    · rintro h x hx henum
      have ha := Std.ExtTreeMap.mem_toList_iff_getElem?_eq_some.1 hx
      exact (findLoop_ok_iff _ ha).2 (h x.1 ⟨x.2, ha, henum⟩)
  rw [hstart]
  constructor
  · intro h
    refine ⟨?_, ?_, ?_⟩
    · rintro b c ⟨a, ha, hab⟩ hbc
      exact (h a ha).2.1 b c hab hbc
    · rintro b ⟨a, ha, hab⟩
      exact (h a ha).1.acyclic hab
    · intro a chain ha hchain
      exact Nat.succ_lt_succ ((h a ha).1 chain hchain)
  · intro h a ha
    refine ⟨fun chain hchain => ?_, fun b c hab hbc => ?_, ?_⟩
    · exact Nat.lt_of_succ_lt_succ (h.short a chain ha hchain)
    · exact h.exist b c ⟨a, ha, hab⟩ hbc
    · exact h.acyclic a ⟨a, ha, .refl⟩

/-! ### Reading a file -/

section FromBinary

variable (toUpper : Bytes → Bytes) (loadContext : VirtualBuffer → Except Failure Unit)

/-- `FILE_TYPE_CONTEXT`, `"CTXT"`. -/
def contextMagicName : Bytes := [67, 84, 88, 84]

/-- `from_binary()`; `loadContext` is the outcome of `load_context()`, which reads the other
members.  The number in the last text is the width given to the conversion, whatever the type. -/
def fromBinary (types : ComplexTypes) (b : VirtualBuffer) : Loading :=
  Loading.read types (b.pread 4 0 false) fun type =>
  if type.length = 0 then (types, .ok ())
  else if type.length ≠ 4 then
    (types, .error (.thrown .invalidSize
      "could not read file type; expected a context or a complex type file."))
  else if type = ComplexType.magicName then
    Loading.andThen (load toUpper types b) fun types => (types, verify types)
  else if type = contextMagicName then (types, loadContext b)
  else (types, .error (.thrown .invalidType "invalid type found in binary buffer (0x8)."))

/-- The types of a context that has read some buffers, from its creation on. -/
def afterReading (earlier : List VirtualBuffer) : ComplexTypes :=
  earlier.foldl (fun types b => (fromBinary toUpper loadContext types b).1) ∅

/-- A call that throws leaves the types as they were. -/
def Kept (types : ComplexTypes) (b : VirtualBuffer) : Prop :=
  (fromBinary toUpper loadContext types b).2 ≠ .ok () →
    (fromBinary toUpper loadContext types b).1 = types

/-- A buffer starts with the word of a complex type file. -/
def IsComplexTypeFile (b : VirtualBuffer) : Prop := b.contents.slice 0 4 = ComplexType.magicName

/-- Of each name, the last type before the first entry that is refused is in the map. -/
def Known (types : ComplexTypes) (f : ComplexTypeFile) : Prop :=
  ∀ (name : Bytes) (e : TypeEntry),
    (kept toUpper f).reverse.find? (fun e => e.name.1 = name) = some e →
      types[name]? = some e.complexType

variable {toUpper loadContext} {types : ComplexTypes} {b : VirtualBuffer}

/-- A buffer with anything in it has chunks. -/
theorem buffers_ne_nil (h : IsComplexTypeFile b) : b.buffers ≠ [] := by
  intro hnil
  unfold IsComplexTypeFile at h
  rw [VirtualBuffer.contents, hnil, List.flatMap_nil, List.slice_nil] at h
  cases h

/-- Types without fields refer to nothing. -/
theorem Plain.verify_eq (h : Plain types) : verify types = .ok () := by
  have hnone (a b : Bytes) : ¬ types.Refers a b := by
    rintro ⟨t, ht, f, hf, -⟩
    rw [(h a t ht).1] at hf
    cases hf
  rw [verify_iff]
  refine ⟨fun a b _ hab => absurd hab (hnone a b), fun a _ hcycle => ?_, fun a chain _ hchain => ?_⟩
  · obtain ⟨b, hab, -⟩ := Relation.TransGen.head'_iff.1 hcycle
    exact hnone a b hab
  · cases hchain with
    | singleton => exact (by decide : 1 < maxComplexTypeReferenceDepth)
    | cons_cons hab => exact absurd hab (hnone _ _)

theorem fromBinary_complexType (hb : b.WellFormed) (hmagic : IsComplexTypeFile b) :
    fromBinary toUpper loadContext types b
      = Loading.andThen (load toUpper types b) fun types => (types, verify types) := by
  unfold IsComplexTypeFile at hmagic
  unfold fromBinary
  rw [VirtualBuffer.pread_eq hb, hmagic, Loading.read]
  rfl

/-- A buffer that holds no file is not read at all. -/
theorem fromBinary_of_no_file (hb : b.WellFormed) (hmagic : IsComplexTypeFile b)
    (hnone : ∀ f : ComplexTypeFile, ¬ f.bytes <+: b.contents) :
    (fromBinary toUpper loadContext types b).1 = types := by
  rw [fromBinary_complexType hb hmagic, load]
  cases hopen : openFile b with
  | error e => rfl
  | ok s =>
    obtain ⟨f, hf, -⟩ := (openFile_iff hb (buffers_ne_nil hmagic)).1 hopen
    exact absurd hf (hnone f)

/-- **What is left of a file**, and when the call returns. -/
theorem fromBinary_of_file (toUpper : Bytes → Bytes)
    (loadContext : VirtualBuffer → Except Failure Unit) (htypes : Plain types) (hb : b.WellFormed)
    (hmagic : IsComplexTypeFile b) {f : ComplexTypeFile} (hf : f.bytes <+: b.contents) :
    ∃ r, fromBinary toUpper loadContext types b = ((kept toUpper f).foldl put types, r) ∧
      (r = .ok () ↔ Accepted toUpper f) := by
  obtain ⟨r, hload, hok⟩ := load_eq toUpper hb (buffers_ne_nil hmagic) hf htypes
  refine ⟨r, ?_, hok⟩
  rw [fromBinary_complexType hb hmagic, hload]
  cases r with
  | error e => rfl
  | ok u =>
    rw [Loading.andThen]
    dsimp only
    rw [(htypes.foldl_put _).verify_eq]

/-- Reading a buffer leaves the types without fields. -/
theorem Plain.fromBinary (htypes : Plain types) (hb : b.WellFormed) :
    Plain (ComplexTypes.fromBinary toUpper loadContext types b).1 := by
  by_cases hmagic : IsComplexTypeFile b
  · by_cases hfile : ∃ f : ComplexTypeFile, f.bytes <+: b.contents
    · obtain ⟨f, hf⟩ := hfile
      obtain ⟨r, hr, -⟩ := fromBinary_of_file toUpper loadContext htypes hb hmagic hf
      rw [hr]
      exact htypes.foldl_put _
    · rw [fromBinary_of_no_file hb hmagic fun f hf => hfile ⟨f, hf⟩]
      exact htypes
  · -- nothing else changes the types
    unfold IsComplexTypeFile at hmagic
    unfold ComplexTypes.fromBinary
    rw [VirtualBuffer.pread_eq hb, Loading.read]
    split
    · exact htypes
    · split
      · exact htypes
      · split
        · exact htypes
        · exact htypes

theorem plain_afterReading (earlier : List VirtualBuffer) (h : ∀ b ∈ earlier, b.WellFormed) :
    Plain (afterReading toUpper loadContext earlier) := by
  unfold afterReading
  induction earlier using List.reverseRecOn with
  | nil => exact plain_empty
  | append_singleton earlier b ih =>
    rw [List.foldl_append, List.foldl_cons, List.foldl_nil]
    exact (ih fun x hx => h x (List.mem_append_left _ hx)).fromBinary
      (h b (List.mem_append_right _ List.mem_cons_self))

/-- Putting types in the map changes nothing when they are known. -/
theorem foldl_put_eq_self (f : ComplexTypeFile) :
    (kept toUpper f).foldl put types = types ↔ Known toUpper types f := by
  constructor
  · intro h name e he
    rw [← h, getElem?_foldl_put, he, Option.map_some, Option.some_or]
  · intro h
    apply Std.ExtTreeMap.ext_getElem?
    intro name
    rw [getElem?_foldl_put]
    cases hfind : (kept toUpper f).reverse.find? fun e => e.name.1 = name with
    | none => rw [Option.map_none, Option.none_or]
    | some e => rw [h name e hfind, Option.map_some, Option.some_or]

/-- **When the types are left.** -/
theorem kept_iff (htypes : Plain types) (hb : b.WellFormed) (hmagic : IsComplexTypeFile b) :
    Kept toUpper loadContext types b ↔ ∀ f : ComplexTypeFile, f.bytes <+: b.contents →
      Accepted toUpper f ∨ Known toUpper types f := by
  unfold Kept
  constructor
  · intro h f hf
    obtain ⟨r, hr, hok⟩ := fromBinary_of_file toUpper loadContext htypes hb hmagic hf
    rw [hr, foldl_put_eq_self] at h
    by_cases hreturn : r = .ok ()
    · exact .inl (hok.1 hreturn)
    · exact .inr (h hreturn)
  · intro h hthrow
    by_cases hfile : ∃ f : ComplexTypeFile, f.bytes <+: b.contents
    · obtain ⟨f, hf⟩ := hfile
      obtain ⟨r, hr, hok⟩ := fromBinary_of_file toUpper loadContext htypes hb hmagic hf
      rw [hr] at hthrow ⊢
      exact (foldl_put_eq_self f).2 ((h f hf).resolve_left fun hacc => hthrow (hok.2 hacc))
    · exact fromBinary_of_no_file hb hmagic fun f hf => hfile ⟨f, hf⟩

/-- **The verification accepts the sound maps, and when a refused file leaves the types.** -/
theorem verified_and_kept_iff (toUpper : Bytes → Bytes)
    (loadContext : VirtualBuffer → Except Failure Unit) (earlier : List VirtualBuffer)
    (hearlier : ∀ b ∈ earlier, b.WellFormed) (b : VirtualBuffer) (hb : b.WellFormed)
    (hmagic : IsComplexTypeFile b) :
    ((∀ types : ComplexTypes, verify types = .ok () ↔ types.Sound) ∧
      Kept toUpper loadContext (afterReading toUpper loadContext earlier) b) ↔
    ∀ f : ComplexTypeFile, f.bytes <+: b.contents → Accepted toUpper f ∨
      Known toUpper (afterReading toUpper loadContext earlier) f := by
  rw [kept_iff (plain_afterReading earlier hearlier) hb hmagic]
  exact ⟨fun h => h.2, fun h => ⟨verify_iff, h⟩⟩

open ComplexTypeFile (inMemory wellFormed_inMemory contents_inMemory upperAscii fileOf typeA typeB)

theorem isComplexTypeFile_fileOf (entries : Structure.Counted 2 TypeEntry) :
    IsComplexTypeFile (inMemory (fileOf entries).bytes) := by
  unfold IsComplexTypeFile
  have hword : UInt512.toBytes 4 (fileOf entries).magic.1 = ComplexType.magicName :=
    UInt512.toBytes_ofBytes ComplexType.magicName
  rw [contents_inMemory, ComplexTypeFile.bytes, ComplexTypeFile.stored, Structure.wordNode,
    Structure.encode_node, Structure.Stored.own_field, hword, List.append_assoc]
  rfl

/-- The first entry of a file is refused: nothing is put in the map. -/
theorem verified_and_kept_typeB :
    (∀ types : ComplexTypes, verify types = .ok () ↔ types.Sound) ∧
      Kept upperAscii (fun _ => .ok ()) (afterReading upperAscii (fun _ => .ok ()) [])
        (inMemory (fileOf ⟨[typeB], by decide⟩).bytes) := by
  have hb := wellFormed_inMemory (fileOf ⟨[typeB], by decide⟩).bytes
  have hmagic := isComplexTypeFile_fileOf ⟨[typeB], by decide⟩
  refine (verified_and_kept_iff upperAscii (fun _ => .ok ()) [] (fun b hb => nomatch hb) _ hb
    hmagic).2 fun f hf => .inr ((foldl_put_eq_self f).1 ?_)
  -- the two readings of the same bytes
  obtain ⟨r, hr, -⟩ := load_eq upperAscii hb (buffers_ne_nil hmagic) hf plain_empty
  obtain ⟨r', hr', -⟩ := load_eq upperAscii hb (buffers_ne_nil hmagic)
    (f := fileOf ⟨[typeB], by decide⟩) (by rw [contents_inMemory]) plain_empty
  rw [hr] at hr'
  exact congrArg Prod.fst hr'

/-- **A type before a refused one stays in the map.** -/
theorem not_verified_and_kept : ¬ ∀ (toUpper : Bytes → Bytes)
    (loadContext : VirtualBuffer → Except Failure Unit) (earlier : List VirtualBuffer),
    (∀ b ∈ earlier, b.WellFormed) → ∀ b : VirtualBuffer, b.WellFormed → IsComplexTypeFile b →
      (∀ types : ComplexTypes, verify types = .ok () ↔ types.Sound) ∧
        Kept toUpper loadContext (afterReading toUpper loadContext earlier) b := by
  intro h
  have hb := wellFormed_inMemory (fileOf ⟨[typeA, typeB], by decide⟩).bytes
  have hmagic := isComplexTypeFile_fileOf ⟨[typeA, typeB], by decide⟩
  have hkept := (h upperAscii (fun _ => .ok ()) [] (fun b hb => nomatch hb) _ hb hmagic).2
  obtain ⟨r, hr, hok⟩ := fromBinary_of_file upperAscii (fun _ => .ok ()) plain_empty hb hmagic
    (f := fileOf ⟨[typeA, typeB], by decide⟩) (by rw [contents_inMemory])
  have hthrows : r ≠ .ok () := fun hreturn =>
    (hok.1 hreturn).2 typeB (List.mem_cons_of_mem _ List.mem_cons_self) (.inr (by decide))
  unfold Kept afterReading at hkept
  rw [List.foldl_nil, hr] at hkept
  -- `A` was put in the map before `B` was read
  have hknown := (foldl_put_eq_self _).1 (hkept hthrows) [65] typeA rfl
  rw [Std.ExtTreeMap.getElem?_empty] at hknown
  cases hknown

end FromBinary

end ComplexTypes

end Prinbee
