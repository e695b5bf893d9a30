import Mathlib.Data.List.Basic
import Mathlib.Tactic.Common

/-!
# JavaScript string literals

How JavaScript reads a string literal between double quotes: the escape sequences, the line
continuations, and the value, which is a sequence of UTF-16 code units.  Octal escapes are read in
the sloppy mode only.

A writer that escapes some of the characters and copies the others is described by the set of the
characters it escapes.  What it writes reads back as what it was given exactly when it copies no
quote, no backslash and no line terminator: a copied backslash always makes the value shorter or
different, whatever stands behind it.

## Main definitions

* `utf16`, `units` — the code units of a code point and of a text.
* `LiteralState`, `readStep`, `readBody` — the reader, one character at a time.
* `unescape` — the value of a literal.
* `written` — the text between the quotes, for a writer that escapes the characters of a set.

## Main results

* `unescape_written_iff` — a written text reads back exactly when every character that a literal
  cannot hold as itself is escaped.
-/

namespace JavaScript

/-- The UTF-16 code units of a code point. -/
def utf16 (n : ℕ) : List ℕ :=
  if n < 0x10000 then [n] else [0xd800 + (n - 0x10000) / 0x400, 0xdc00 + (n - 0x10000) % 0x400]

/-- The UTF-16 code units of a text. -/
def units (s : List Char) : List ℕ := s.flatMap fun c => utf16 c.toNat

@[simp] theorem units_nil : units [] = [] := rfl

@[simp] theorem units_cons (c : Char) (s : List Char) :
    units (c :: s) = utf16 c.toNat ++ units s := rfl

theorem utf16_length_pos (n : ℕ) : 1 ≤ (utf16 n).length := by
  unfold utf16
  split <;> simp

theorem utf16_length_le (n : ℕ) : (utf16 n).length ≤ 2 := by
  unfold utf16
  split <;> simp

/-! ### Reading a literal -/

/-- The value of a hexadecimal digit. -/
def hexDigit (c : Char) : Option ℕ :=
  if '0' ≤ c ∧ c ≤ '9' then some (c.toNat - '0'.toNat)
  else if 'a' ≤ c ∧ c ≤ 'f' then some (c.toNat - 'a'.toNat + 10)
  else if 'A' ≤ c ∧ c ≤ 'F' then some (c.toNat - 'A'.toNat + 10)
  else none

/-- The value of an octal digit. -/
def octalDigit (c : Char) : Option ℕ :=
  if '0' ≤ c ∧ c ≤ '7' then some (c.toNat - '0'.toNat) else none

/-- Where the reader of a literal stands. -/
inductive LiteralState where
  /-- Between two characters. -/
  | plain
  /-- Behind a backslash. -/
  | escaped
  /-- Behind a backslash and a carriage return. -/
  | carriageReturn
  /-- In a `\x` or `\u` escape, with `left` digits to come. -/
  | hex (value left : ℕ)
  /-- Behind `\u`. -/
  | unicode
  /-- In a `\u{…}` escape. -/
  | codePoint (value : ℕ) (seen : Bool)
  /-- In an octal escape, with `left` digits to come at most. -/
  | octal (value left : ℕ)
  /-- Behind `\0` in the strict mode. -/
  | zero
  deriving DecidableEq, Repr

/-- What one character does. -/
inductive ReadStep where
  /-- The reader adds code units to the value and goes on. -/
  | next (us : List ℕ) (st : LiteralState)
  /-- The literal ends. -/
  | close (us : List ℕ)
  /-- The text is not a literal. -/
  | error
  deriving DecidableEq, Repr

/-- The code units `us` come before those of the step. -/
def ReadStep.after (us : List ℕ) : ReadStep → ReadStep
  | next vs st => next (us ++ vs) st
  | close vs => close (us ++ vs)
  | error => error

/-- A character that is not part of an escape sequence. -/
def plainStep (c : Char) : ReadStep :=
  if c = '"' then .close []
  else if c = '\\' then .next [] .escaped
  else if c = '\n' ∨ c = '\r' then .error
  else .next (utf16 c.toNat) .plain

/-- The character that a letter behind a backslash stands for. -/
def singleEscape (c : Char) : Option Char :=
  if c = 'b' then some '\x08'
  else if c = 't' then some '\t'
  else if c = 'n' then some '\n'
  else if c = 'v' then some '\x0b'
  else if c = 'f' then some '\x0c'
  else if c = 'r' then some '\r'
  else none

/-- A digit behind a backslash. -/
def digitStep (strict : Bool) (c : Char) : ReadStep :=
  if strict then if c = '0' then .next [] .zero else .error
  else if c ≤ '3' then .next [] (.octal (c.toNat - '0'.toNat) 2)
  else if c ≤ '7' then .next [] (.octal (c.toNat - '0'.toNat) 1)
  else .next (utf16 c.toNat) .plain

/-- The character behind a backslash. -/
def escapedStep (strict : Bool) (c : Char) : ReadStep :=
  if (singleEscape c).isSome then .next (units (singleEscape c).toList) .plain
  else if c = 'x' then .next [] (.hex 0 2)
  else if c = 'u' then .next [] .unicode
  -- a line continuation stands for nothing
  else if c = '\n' ∨ c.toNat = 0x2028 ∨ c.toNat = 0x2029 then .next [] .plain
  else if c = '\r' then .next [] .carriageReturn
  else if '0' ≤ c ∧ c ≤ '9' then digitStep strict c
  else .next (utf16 c.toNat) .plain

/-- One character of a literal. -/
def readStep (strict : Bool) : LiteralState → Char → ReadStep
  | .plain, c => plainStep c
  | .escaped, c => escapedStep strict c
  | .carriageReturn, c => if c = '\n' then .next [] .plain else plainStep c
  | .hex value left, c =>
    match hexDigit c with
    | none => .error
    | some d =>
      if left ≤ 1 then .next [16 * value + d] .plain else .next [] (.hex (16 * value + d) (left - 1))
  | .unicode, c =>
    if c = '{' then .next [] (.codePoint 0 false)
    else match hexDigit c with
      | none => .error
      | some d => .next [] (.hex d 3)
  | .codePoint value seen, c =>
    if c = '}' then if seen then .next (utf16 value) .plain else .error
    else match hexDigit c with
      | none => .error
      | some d =>
        if 16 * value + d ≤ 0x10ffff then .next [] (.codePoint (16 * value + d) true) else .error
  | .octal value left, c =>
    match octalDigit c with
    | none => (plainStep c).after [value]
    | some d =>
      if left ≤ 1 then .next [8 * value + d] .plain else .next [] (.octal (8 * value + d) (left - 1))
  | .zero, c => if '0' ≤ c ∧ c ≤ '9' then .error else (plainStep c).after [0]

/-- The value of a literal from a state of the reader to its closing quote, and what stands behind
the quote. -/
def readBody (strict : Bool) : LiteralState → List Char → Option (List ℕ × List Char)
  | _, [] => none
  | st, c :: cs =>
    match readStep strict st c with
    | .error => none
    | .close us => some (us, cs)
    | .next us st' => (readBody strict st' cs).map fun r => (us ++ r.1, r.2)

/-- The value of a literal; the text is one literal and nothing else. -/
def unescape (strict : Bool) : List Char → Option (List ℕ)
  | '"' :: cs =>
    match readBody strict .plain cs with
    | some (us, []) => some us
    | _ => none
  | _ => none

/-! ### Writing a literal -/

/-- The letter that is written behind a backslash for a character. -/
def escapeLetter (c : Char) : Option Char :=
  if c = '"' then some '"'
  else if c = '\x08' then some 'b'
  else if c = '\t' then some 't'
  else if c = '\n' then some 'n'
  else if c = '\x0b' then some 'v'
  else if c = '\x0c' then some 'f'
  else if c = '\r' then some 'r'
  else none

/-- A character as written: the characters of the set `p` that have a letter are escaped. -/
def writtenChar (p : Char → Bool) (c : Char) : List Char :=
  match escapeLetter c with
  | some k => if p c then ['\\', k] else [c]
  | none => [c]

/-- A text as written between the quotes. -/
def written (p : Char → Bool) (s : List Char) : List Char := s.flatMap (writtenChar p)

/-- The character can stand in a literal as itself. -/
def Verbatim (c : Char) : Prop := c ≠ '"' ∧ c ≠ '\\' ∧ c ≠ '\n' ∧ c ≠ '\r'

instance : DecidablePred Verbatim := fun c => by unfold Verbatim; infer_instance

/-- The writer's text for the character reads back as the character. -/
def Kept (p : Char → Bool) (c : Char) : Prop :=
  Verbatim c ∨ (p c = true ∧ (escapeLetter c).isSome = true)

theorem written_cons (p : Char → Bool) (c : Char) (s : List Char) :
    written p (c :: s) = writtenChar p c ++ written p s := rfl

/-- A writer that escapes nothing copies the text. -/
theorem written_none (s : List Char) : written (fun _ => false) s = s := by
  have hchar : writtenChar (fun _ => false) = fun c => [c] := by
    funext c
    unfold writtenChar
    cases escapeLetter c <;> rfl
  rw [written, hchar, List.flatMap_singleton']

theorem kept_none {c : Char} : Kept (fun _ => false) c ↔ Verbatim c := by simp [Kept]

/-- A writer that escapes all it can keeps everything but the backslash. -/
theorem kept_all {c : Char} : Kept (fun _ => true) c ↔ c ≠ '\\' := by
  unfold Kept Verbatim escapeLetter
  grind

/-- Only these characters have a letter. -/
theorem escapeLetter_cases {c k : Char} (h : escapeLetter c = some k) :
    c = '"' ∧ k = '"' ∨ c = '\x08' ∧ k = 'b' ∨ c = '\t' ∧ k = 't' ∨ c = '\n' ∧ k = 'n' ∨
      c = '\x0b' ∧ k = 'v' ∨ c = '\x0c' ∧ k = 'f' ∨ c = '\r' ∧ k = 'r' := by
  unfold escapeLetter at h
  repeat' split at h
  all_goals cases h
  all_goals simp [*]

/-- A written character is the character itself, or a backslash and its letter. -/
theorem writtenChar_cases (p : Char → Bool) (c : Char) :
    writtenChar p c = [c] ∨
      ∃ k, p c = true ∧ escapeLetter c = some k ∧ writtenChar p c = ['\\', k] := by
  unfold writtenChar
  cases hk : escapeLetter c with
  | none => exact Or.inl rfl
  | some k =>
    cases hp : p c with
    | false => exact Or.inl rfl
    | true => exact Or.inr ⟨k, rfl, rfl, rfl⟩

/-! ### Characters that are kept -/

section

variable {strict : Bool} {st st' : LiteralState} {c : Char} {us : List ℕ}

theorem readBody_next (h : readStep strict st c = .next us st') (cs : List Char) :
    readBody strict st (c :: cs) = (readBody strict st' cs).map fun r => (us ++ r.1, r.2) := by
  simp only [readBody, h]

theorem readBody_close (h : readStep strict st c = .close us) (cs : List Char) :
    readBody strict st (c :: cs) = some (us, cs) := by
  simp only [readBody, h]

theorem readBody_error (h : readStep strict st c = .error) (cs : List Char) :
    readBody strict st (c :: cs) = none := by
  simp only [readBody, h]

/-- What the first character does when the reading succeeds. -/
theorem readBody_cons_eq_some {cs : List Char} {r : List ℕ × List Char}
    (h : readBody strict st (c :: cs) = some r) :
    (∃ us, readStep strict st c = .close us ∧ r = (us, cs)) ∨
      ∃ us st' r', readStep strict st c = .next us st' ∧ readBody strict st' cs = some r' ∧
        r = (us ++ r'.1, r'.2) := by
  cases hstep : readStep strict st c with
  | error =>
    rw [readBody_error hstep] at h
    cases h
  | close us =>
    rw [readBody_close hstep] at h
    cases h
    exact Or.inl ⟨us, rfl, rfl⟩
  | next us st' =>
    rw [readBody_next hstep] at h
    obtain ⟨r', hr', rfl⟩ := Option.map_eq_some_iff.1 h
    exact Or.inr ⟨us, st', r', rfl, hr', rfl⟩

end

theorem plainStep_verbatim {c : Char} (h : Verbatim c) : plainStep c = .next (utf16 c.toNat) .plain := by
  obtain ⟨hq, hb, hn, hr⟩ := h
  simp [plainStep, hq, hb, hn, hr]

/-- A letter behind a backslash stands for the character it is written for. -/
theorem escapedStep_letter {c k : Char} (strict : Bool) (h : escapeLetter c = some k) :
    escapedStep strict k = .next (utf16 c.toNat) .plain := by
  rcases escapeLetter_cases h with ⟨rfl, rfl⟩ | ⟨rfl, rfl⟩ | ⟨rfl, rfl⟩ | ⟨rfl, rfl⟩ | ⟨rfl, rfl⟩ |
    ⟨rfl, rfl⟩ | ⟨rfl, rfl⟩ <;> cases strict <;> decide

theorem readBody_kept {p : Char → Bool} {c : Char} (strict : Bool) (h : Kept p c)
    (cs : List Char) :
    readBody strict .plain (writtenChar p c ++ cs) =
      (readBody strict .plain cs).map fun r => (utf16 c.toNat ++ r.1, r.2) := by
  rcases writtenChar_cases p c with hw | ⟨k, hp, hk, hw⟩
  · have hverb : Verbatim c := by
      rcases h with h | ⟨hp, hk⟩
      · exact h
      · obtain ⟨k, hk⟩ := Option.isSome_iff_exists.1 hk
        simp [writtenChar, hk, hp] at hw
    have hstep : readStep strict .plain c = .next (utf16 c.toNat) .plain := plainStep_verbatim hverb
    rw [hw, List.singleton_append, readBody_next hstep]
  · have hb : readStep strict .plain '\\' = .next [] .escaped := rfl
    have hstep : readStep strict .escaped k = .next (utf16 c.toNat) .plain :=
      escapedStep_letter strict hk
    rw [hw, List.cons_append, List.singleton_append, readBody_next hb, readBody_next hstep]
    cases readBody strict .plain cs <;> rfl

/-! ### What a copied backslash does -/

/-- The code units that can still come out for the characters already read. -/
def pending : LiteralState → ℕ
  | .plain | .escaped | .carriageReturn => 0
  | .hex .. | .unicode | .octal .. | .zero => 1
  | .codePoint .. => 2

/-- The same, where a backslash counts for the character it is. -/
def credit : LiteralState → ℕ
  | .escaped => 1
  | st => pending st

theorem pending_le_credit (st : LiteralState) : pending st ≤ credit st := by
  cases st <;> simp [pending, credit]

theorem after_next {us vs : List ℕ} {t : ReadStep} {st : LiteralState}
    (h : t.after us = .next vs st) : ∃ ws, t = .next ws st ∧ vs = us ++ ws := by
  cases t with
  | next ws st' =>
    simp only [ReadStep.after, ReadStep.next.injEq] at h
    exact ⟨ws, by rw [h.2], h.1.symm⟩
  | close ws => cases h
  | error => cases h

theorem after_close {us vs : List ℕ} {t : ReadStep} (h : t.after us = .close vs) :
    ∃ ws, t = .close ws ∧ vs = us ++ ws := by
  cases t with
  | next ws st => cases h
  | close ws =>
    simp only [ReadStep.after, ReadStep.close.injEq] at h
    exact ⟨ws, rfl, h.symm⟩
  | error => cases h

theorem plainStep_next {c : Char} {us : List ℕ} {st : LiteralState}
    (h : plainStep c = .next us st) :
    (c = '\\' ∧ us = [] ∧ st = .escaped) ∨ (c ≠ '\\' ∧ us = utf16 c.toNat ∧ st = .plain) := by
  unfold plainStep at h
  split at h
  · cases h
  · split at h
    · rename_i hb
      cases h
      exact Or.inl ⟨hb, rfl, rfl⟩
    · rename_i hb
      split at h
      · cases h
      · cases h
        exact Or.inr ⟨hb, rfl, rfl⟩

theorem plainStep_length {c : Char} {us : List ℕ} {st : LiteralState}
    (h : plainStep c = .next us st) : us.length + credit st ≤ (utf16 c.toNat).length := by
  rcases plainStep_next h with ⟨rfl, rfl, rfl⟩ | ⟨-, rfl, rfl⟩
  · exact utf16_length_pos _
  · exact Nat.le_refl _

theorem plainStep_after_length {c : Char} {us vs : List ℕ} {st : LiteralState}
    (h : (plainStep c).after us = .next vs st) :
    vs.length + credit st ≤ (utf16 c.toNat).length + us.length := by
  obtain ⟨ws, hws, rfl⟩ := after_next h
  have hle := plainStep_length hws
  rw [List.length_append]
  omega

theorem singleEscape_length {c d : Char} (h : singleEscape c = some d) :
    (units [d]).length = 1 := by
  unfold singleEscape at h
  repeat' split at h
  all_goals cases h
  all_goals rfl

theorem digitStep_length {strict : Bool} {c : Char} {us : List ℕ} {st : LiteralState}
    (h : digitStep strict c = .next us st) : us.length + credit st ≤ (utf16 c.toNat).length := by
  have hpos := utf16_length_pos c.toNat
  unfold digitStep at h
  repeat' split at h
  all_goals cases h
  all_goals simp [credit, pending, hpos]

/-- An escape sequence stands for at most as much as its second character would alone. -/
theorem escapedStep_length {strict : Bool} {c : Char} {us : List ℕ} {st : LiteralState}
    (h : escapedStep strict c = .next us st) :
    us.length + credit st ≤ (utf16 c.toNat).length := by
  have hpos := utf16_length_pos c.toNat
  unfold escapedStep at h
  split at h
  · rename_i hs
    obtain ⟨d, hd⟩ := Option.isSome_iff_exists.1 hs
    rw [hd] at h
    cases h
    rw [Option.toList_some, singleEscape_length hd]
    exact hpos
  · repeat' split at h
    all_goals first
      | exact digitStep_length h
      | cases h; simp [credit, pending, hpos]

theorem readStep_length {strict : Bool} {st st' : LiteralState} {c : Char} {us : List ℕ}
    (h : readStep strict st c = .next us st') :
    us.length + credit st' ≤ (utf16 c.toNat).length + pending st := by
  have hpos := utf16_length_pos c.toNat
  cases st with
  | plain => exact Nat.le_add_right_of_le (plainStep_length h)
  | escaped => exact Nat.le_add_right_of_le (escapedStep_length h)
  | carriageReturn =>
    simp only [readStep] at h
    split at h
    · cases h
      simp [credit, pending]
    · exact Nat.le_add_right_of_le (plainStep_length h)
  | hex value left =>
    simp only [readStep] at h
    repeat' split at h
    all_goals cases h
    all_goals simp [credit, pending]
  | unicode =>
    simp only [readStep] at h
    repeat' split at h
    all_goals cases h
    all_goals simp [credit, pending]
    omega
  | codePoint value seen =>
    have hval := utf16_length_le value
    simp only [readStep] at h
    repeat' split at h
    all_goals cases h
    all_goals simp [credit, pending]
    omega
  | octal value left =>
    simp only [readStep] at h
    split at h
    · exact plainStep_after_length h
    · split at h <;> cases h <;> simp [credit, pending]
  | zero =>
    simp only [readStep] at h
    split at h
    · cases h
    · exact plainStep_after_length h

/-- Every state but the one behind a backslash ends what it was reading at a backslash, or refuses
it. -/
theorem readStep_backslash_cases {strict : Bool} {st : LiteralState} (hst : st ≠ .escaped) :
    readStep strict st '\\' = .error ∨
      ∃ us, us.length ≤ pending st ∧ readStep strict st '\\' = .next us .escaped := by
  cases st with
  | escaped => exact absurd rfl hst
  | plain | carriageReturn => exact Or.inr ⟨[], Nat.le_refl _, rfl⟩
  | hex | unicode | codePoint => exact Or.inl rfl
  | octal value left => exact Or.inr ⟨[value], Nat.le_refl _, rfl⟩
  | zero => exact Or.inr ⟨[0], Nat.le_refl _, rfl⟩

/-- A backslash adds nothing by itself. -/
theorem readStep_backslash {strict : Bool} {st st' : LiteralState} {us : List ℕ}
    (h : readStep strict st '\\' = .next us st') : us.length + pending st' ≤ credit st := by
  by_cases hst : st = .escaped
  · subst hst
    have hstep : readStep strict .escaped '\\' = .next [92] .plain := by cases strict <;> rfl
    rw [hstep] at h
    cases h
    exact Nat.le_refl _
  · rcases readStep_backslash_cases hst with he | ⟨vs, hvs, he⟩
    · rw [he] at h
      cases h
    · rw [he] at h
      cases h
      exact Nat.le_trans hvs (pending_le_credit st)

theorem plainStep_close {c : Char} {us : List ℕ} (h : plainStep c = .close us) :
    c = '"' ∧ us = [] := by
  unfold plainStep at h
  split at h
  · rename_i hq
    cases h
    exact ⟨hq, rfl⟩
  · split at h
    · cases h
    · split at h <;> cases h

theorem plainStep_after_close {c : Char} {us vs : List ℕ}
    (h : (plainStep c).after us = .close vs) : vs = us := by
  obtain ⟨ws, hws, rfl⟩ := after_close h
  rw [(plainStep_close hws).2, List.append_nil]

/-- Only a quote ends a literal, and only what is pending comes out at the end. -/
theorem readStep_close {strict : Bool} {st : LiteralState} {c : Char} {us : List ℕ}
    (h : readStep strict st c = .close us) : us.length ≤ pending st := by
  cases st with
  | plain => simp [(plainStep_close h).2]
  | escaped =>
    simp only [readStep, escapedStep, digitStep] at h
    repeat' split at h
    all_goals cases h
  | carriageReturn =>
    simp only [readStep] at h
    split at h
    · cases h
    · simp [(plainStep_close h).2]
  | hex value left | unicode | codePoint value seen =>
    simp only [readStep] at h
    repeat' split at h
    all_goals cases h
  | octal value left =>
    simp only [readStep] at h
    split at h
    · rw [plainStep_after_close h]
      exact Nat.le_refl 1
    · split at h <;> cases h
  | zero =>
    simp only [readStep] at h
    split at h
    · cases h
    · rw [plainStep_after_close h]
      exact Nat.le_refl 1

/-- A letter behind a backslash that was used up closes the literal, or is another character. -/
theorem plainStep_letter {c k : Char} (h : escapeLetter c = some k) :
    (∀ strict, readStep strict .plain k = .close []) ∨
      ((∀ strict, readStep strict .plain k = .next [k.toNat] .plain) ∧
        utf16 c.toNat = [c.toNat] ∧ c.toNat ≠ k.toNat) := by
  rcases escapeLetter_cases h with ⟨rfl, rfl⟩ | ⟨rfl, rfl⟩ | ⟨rfl, rfl⟩ | ⟨rfl, rfl⟩ | ⟨rfl, rfl⟩ |
    ⟨rfl, rfl⟩ | ⟨rfl, rfl⟩ <;> decide

theorem escapeLetter_length {c k : Char} (h : escapeLetter c = some k) :
    (utf16 k.toNat).length = 1 := by
  rcases escapeLetter_cases h with ⟨rfl, rfl⟩ | ⟨rfl, rfl⟩ | ⟨rfl, rfl⟩ | ⟨rfl, rfl⟩ | ⟨rfl, rfl⟩ |
    ⟨rfl, rfl⟩ | ⟨rfl, rfl⟩ <;> rfl

/-- The value of a written text is never longer than the text, but for what is pending. -/
theorem readBody_written_length {p : Char → Bool} {strict : Bool} {s : List Char} :
    ∀ {st : LiteralState} {r : List ℕ × List Char},
      readBody strict st (written p s ++ ['"']) = some r →
        r.1.length ≤ (units s).length + credit st := by
  -- the credit of the state carries the induction over the text
  induction s with
  | nil =>
    intro st r h
    have hcredit := pending_le_credit st
    rcases readBody_cons_eq_some h with ⟨us, hus, rfl⟩ | ⟨us, st', r', -, hr', -⟩
    · exact Nat.le_trans (readStep_close hus) (by simpa using hcredit)
    · cases hr'
  | cons c s ih =>
    intro st r h
    have hcredit := pending_le_credit st
    rw [written_cons, List.append_assoc] at h
    rw [units_cons, List.length_append]
    rcases writtenChar_cases p c with hw | ⟨k, -, hk, hw⟩
    · rw [hw, List.singleton_append] at h
      rcases readBody_cons_eq_some h with ⟨us, hus, rfl⟩ | ⟨us, st', r', hus, hr', rfl⟩
      · have := readStep_close hus
        simp only
        omega
      · have := readStep_length hus
        have := ih hr'
        simp only [List.length_append]
        omega
    · have hpos := utf16_length_pos c.toNat
      rw [hw, List.cons_append, List.singleton_append] at h
      rcases readBody_cons_eq_some h with ⟨us, hus, rfl⟩ | ⟨us, st', r', hus, hr', rfl⟩
      · have := readStep_close hus
        simp only
        omega
      · -- the two characters of an escape come out as one unit, or as one more than was pending
        have hb := readStep_backslash hus
        have hlen := escapeLetter_length hk
        rcases readBody_cons_eq_some hr' with ⟨vs, hvs, rfl⟩ | ⟨vs, st'', r'', hvs, hr'', rfl⟩
        · have := readStep_close hvs
          simp only [List.length_append]
          omega
        · have := readStep_length hvs
          have := ih hr''
          simp only [List.length_append]
          omega

/-- A copied character behind a copied backslash: the backslash is lost, and nothing makes up for
it. -/
theorem readBody_escaped_copied {p : Char → Bool} {strict : Bool} {d : Char} {s : List Char}
    {r : List ℕ × List Char}
    (h : readBody strict .escaped (d :: (written p s ++ ['"'])) = some r) :
    r.1.length ≤ (utf16 d.toNat).length + (units s).length := by
  have hnone : pending .escaped = 0 := rfl
  rcases readBody_cons_eq_some h with ⟨us, hus, rfl⟩ | ⟨us, st', r', hus, hr', rfl⟩
  · have hle := readStep_close hus
    simp only
    omega
  · have hle := readStep_length hus
    have hrest := readBody_written_length hr'
    simp only [List.length_append]
    omega

/-- An escaped character behind a copied backslash: the two backslashes go together, and the letter
stands alone. -/
theorem readBody_escaped_letter {p : Char → Bool} {strict : Bool} {d k : Char}
    (hk : escapeLetter d = some k) (s : List Char) :
    readBody strict .escaped ('\\' :: k :: (written p s ++ ['"'])) ≠
      some (utf16 '\\'.toNat ++ units (d :: s), []) := by
  intro h
  have hstep : readStep strict .escaped '\\' = .next (utf16 '\\'.toNat) .plain := by
    cases strict <;> rfl
  rw [readBody_next hstep] at h
  obtain ⟨r, hr, hr'⟩ := Option.map_eq_some_iff.1 h
  have hvalue : r.1 = units (d :: s) := List.append_cancel_left (congrArg Prod.fst hr')
  have hend : r.2 = [] := congrArg Prod.snd hr'
  rcases plainStep_letter hk with hclose | ⟨hnext, hd, hne⟩
  · -- the letter is a quote: the literal ends before the text does
    rw [readBody_close (hclose strict)] at hr
    cases hr
    simp at hend
  · rw [readBody_next (hnext strict)] at hr
    obtain ⟨r', -, rfl⟩ := Option.map_eq_some_iff.1 hr
    rw [units_cons, hd] at hvalue
    exact hne (List.cons.inj hvalue).1.symm

/-- Behind a copied backslash, a text does not read as the backslash and itself. -/
theorem readBody_escaped_written {p : Char → Bool} {strict : Bool} (s : List Char) :
    readBody strict .escaped (written p s ++ ['"']) ≠ some (utf16 '\\'.toNat ++ units s, []) := by
  intro h
  cases s with
  | nil =>
    -- the backslash takes the closing quote, and the literal has no end
    rcases readBody_cons_eq_some h with ⟨us, hus, -⟩ | ⟨us, st', r', -, hr', -⟩
    · exact absurd (readStep_close hus) (by cases strict <;> cases hus)
    · cases hr'
  | cons d s =>
    rw [written_cons, List.append_assoc] at h
    rcases writtenChar_cases p d with hw | ⟨k, -, hk, hw⟩
    · rw [hw, List.singleton_append] at h
      have hle := readBody_escaped_copied h
      rw [units_cons, List.length_append, List.length_append] at hle
      have hone : (utf16 '\\'.toNat).length = 1 := rfl
      omega
    · rw [hw, List.cons_append, List.singleton_append] at h
      exact readBody_escaped_letter hk s h

/-- A character that is not kept spoils the value. -/
theorem readBody_not_kept {p : Char → Bool} {c : Char} (strict : Bool) (h : ¬ Kept p c)
    (s : List Char) :
    readBody strict .plain (written p (c :: s) ++ ['"']) ≠ some (units (c :: s), []) := by
  obtain ⟨hverb, hesc⟩ := not_or.1 h
  have hw : writtenChar p c = [c] := by
    rcases writtenChar_cases p c with hw | ⟨k, hp, hk, -⟩
    · exact hw
    · exact absurd ⟨hp, by rw [hk]; rfl⟩ hesc
  rw [written_cons, hw, List.append_assoc, List.singleton_append]
  by_cases hq : c = '"'
  · subst hq
    rw [readBody_close rfl]
    simp
  by_cases hb : c = '\\'
  · subst hb
    rw [readBody_next rfl, units_cons]
    intro hread
    obtain ⟨r, hr, hr'⟩ := Option.map_eq_some_iff.1 hread
    rw [List.nil_append] at hr'
    exact readBody_escaped_written s (hr.trans (congrArg some hr'))
  have hline : readStep strict .plain c = .error := by
    have hor : c = '\n' ∨ c = '\r' := by
      by_contra hnot
      rw [not_or] at hnot
      exact hverb ⟨hq, hb, hnot.1, hnot.2⟩
    rcases hor with rfl | rfl <;> rfl
  rw [readBody_error hline]
  exact (Option.some_ne_none _).symm

theorem readBody_written_iff (p : Char → Bool) (strict : Bool) (s : List Char) :
    readBody strict .plain (written p s ++ ['"']) = some (units s, []) ↔ ∀ c ∈ s, Kept p c := by
  induction s with
  | nil =>
    rw [show written p [] ++ ['"'] = ['"'] from rfl, readBody_close rfl]
    simp
  | cons c s ih =>
    rw [List.forall_mem_cons]
    by_cases hc : Kept p c
    · rw [written_cons, List.append_assoc, readBody_kept strict hc, units_cons, ← ih]
      constructor
      · intro h
        obtain ⟨r, hr, hr'⟩ := Option.map_eq_some_iff.1 h
        have hvalue := List.append_cancel_left (congrArg Prod.fst hr')
        have hend := congrArg Prod.snd hr'
        exact ⟨hc, hr.trans (congrArg some (Prod.ext hvalue hend))⟩
      · intro h
        rw [h.2]
        rfl
    · exact iff_of_false (readBody_not_kept strict hc s) fun h => hc h.1

/-- **A written text reads back exactly when every character that a literal cannot hold as itself
is escaped.** -/
theorem unescape_written_iff (p : Char → Bool) (strict : Bool) (s : List Char) :
    unescape strict ('"' :: (written p s ++ ['"'])) = some (units s) ↔ ∀ c ∈ s, Kept p c := by
  rw [← readBody_written_iff p strict s]
  simp only [unescape]
  cases h : readBody strict .plain (written p s ++ ['"']) with
  | none => simp
  | some r =>
    obtain ⟨us, rest⟩ := r
    cases rest <;> simp

/-- An escape beyond the first 65536 characters is a surrogate pair. -/
example : unescape true ['"', 'a', '\\', 'u', '{', '1', 'f', '6', '0', '0', '}', '"'] =
    some (units ['a', '😀']) := by decide

end JavaScript
