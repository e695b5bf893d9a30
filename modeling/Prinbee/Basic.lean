import Mathlib.Tactic.Common
import Mathlib.Data.UInt

/-!
# Failures and machine words

The vocabulary every module shares: how a call of the library can fail, and the few places
where a machine word wraps.

## Main definitions

* `ErrorKind` — the exception classes of `exception.h` the modelled functions throw.
* `Failure` — an exception with its text, or undefined behaviour of the C++ program.
* `Throws`, `ThrowsOr` — a call throws; it throws or returns a value of a kind.
* `textOf` — a string of bytes in the text of an error.
* `toInt` — the `int` a 64-bit count is returned as.
* `sub64`, `sub32` — subtraction of `std::uint64_t` and of `std::uint32_t`.
* `roundDown`, `roundUp` — the functions of `utils.h`.
-/

namespace Prinbee

/-- The exception classes thrown by the modelled functions. -/
inductive ErrorKind
  | logicError
  | invalidSize
  | ioError
  | notYetImplemented
  | outOfRange
  | invalidNumber
  | invalidParameter
  | conversionUnavailable
  | corruptedData
  | fieldNotFound
  | typeMismatch
  | outOfBounds
  | rowAlreadyExists
  | columnNotFound
  | fileStillInUse
  | invalidName
  | invalidType
  | typeNotFound
  | definedTwice
  | pageNotFound
  | schemaNotFound
  | unexpectedToken
  | invalidToken
  | invalidEntity
  | fatalError
  deriving DecidableEq, Repr

/-- How a call fails: it throws, or the program leaves what C++ defines. -/
inductive Failure
  | thrown (kind : ErrorKind) (message : String)
  | undefinedBehavior
  deriving DecidableEq, Repr

@[simp] theorem ok_bind {ε α β : Type} (a : α) (f : α → Except ε β) :
    (Except.ok a >>= f) = f a := rfl

@[simp] theorem error_bind {ε α β : Type} (e : ε) (f : α → Except ε β) :
    (Except.error e >>= f) = .error e := rfl

/-- A computation that succeeds, step by step. -/
theorem bind_eq_ok {ε α β : Type} {x : Except ε α} {f : α → Except ε β} {r : β} :
    (x >>= f) = .ok r ↔ ∃ a, x = .ok a ∧ f a = .ok r := by
  cases x with
  | error e => simp
  | ok a => simp

/-- A call throws. -/
def Throws {α : Type} (x : Except Failure α) : Prop :=
  ∃ kind message, x = .error (.thrown kind message)

theorem not_throws_ok {α : Type} (a : α) : ¬ Throws (.ok a : Except Failure α) := by
  rintro ⟨kind, message, h⟩
  cases h

theorem not_throws_undefinedBehavior {α : Type} :
    ¬ Throws (.error .undefinedBehavior : Except Failure α) := by
  rintro ⟨kind, message, h⟩
  cases h

/-- What throws in the first step throws. -/
theorem Throws.bind {α β : Type} {x : Except Failure α} (h : Throws x) (f : α → Except Failure β) :
    Throws (x >>= f) := by
  obtain ⟨kind, message, rfl⟩ := h
  exact ⟨kind, message, rfl⟩

/-- What throws in two steps throws in one of them. -/
theorem Throws.of_bind {α β : Type} {x : Except Failure α} {f : α → Except Failure β}
    (h : Throws (x >>= f)) : Throws x ∨ ∃ a, x = .ok a ∧ Throws (f a) := by
  cases x with
  | error e =>
    obtain ⟨kind, message, h⟩ := h
    rw [error_bind, Except.error.injEq] at h
    exact .inl ⟨kind, message, by rw [h]⟩
  | ok a => exact .inr ⟨a, rfl, h⟩

/-- A call throws, or returns a value of a kind. -/
def ThrowsOr {α : Type} (P : α → Prop) (x : Except Failure α) : Prop :=
  Throws x ∨ ∃ a, x = .ok a ∧ P a

section ThrowsOr

variable {α β : Type} {P : α → Prop} {Q : β → Prop}

theorem ThrowsOr.ok {a : α} (h : P a) : ThrowsOr P (.ok a) := .inr ⟨a, rfl, h⟩

theorem ThrowsOr.thrown (kind : ErrorKind) (message : String) :
    ThrowsOr P (.error (.thrown kind message)) := .inl ⟨kind, message, rfl⟩

/-- Two calls, one after the other. -/
theorem ThrowsOr.bind {x : Except Failure α} {f : α → Except Failure β} (hx : ThrowsOr P x)
    (hf : ∀ a, P a → ThrowsOr Q (f a)) : ThrowsOr Q (x >>= f) := by
  rcases hx with ⟨kind, message, rfl⟩ | ⟨a, rfl, ha⟩
  · exact .thrown kind message
  · exact hf a ha

end ThrowsOr

/-- `struct_type_t`. -/
inductive StructType
  | end
  | void
  | bits8
  | bits16
  | bits32
  | bits64
  | bits128
  | bits256
  | bits512
  | int8
  | uint8
  | int16
  | uint16
  | int32
  | uint32
  | int64
  | uint64
  | int128
  | uint128
  | int256
  | uint256
  | int512
  | uint512
  | float32
  | float64
  | float128
  | magic
  | structureVersion
  | version
  | time
  | mstime
  | ustime
  | nstime
  | char
  | p8string
  | p16string
  | p32string
  | structure : StructType
  | union
  | array8
  | array16
  | array32
  | unionArray8
  | unionArray16
  | unionArray32
  | buffer8
  | buffer16
  | buffer32
  | reference
  | oid
  | renamed
  deriving DecidableEq, Repr

/-- The bytes of a `std::string`, in the text of an error. -/
def textOf (s : List UInt8) : String := String.ofList (s.map fun b => Char.ofNat b.toNat)

/-- A 64-bit count returned as an `int`. -/
def toInt (n : ℕ) : ℤ :=
  if n % 2 ^ 32 < 2 ^ 31 then (n % 2 ^ 32 : ℕ) else (n % 2 ^ 32 : ℕ) - 2 ^ 32

theorem toInt_of_lt {n : ℕ} (h : n < 2 ^ 31) : toInt n = n := by
  have hmod : n % 2 ^ 32 = n := Nat.mod_eq_of_lt (by omega)
  rw [toInt, hmod, if_pos h]

/-- `a - b` on `std::uint64_t`. -/
def sub64 (a b : ℕ) : ℕ := if b ≤ a then a - b else a + 2 ^ 64 - b

theorem sub64_of_le {a b : ℕ} (h : b ≤ a) : sub64 a b = a - b := if_pos h

/-- `a - b` on `std::uint32_t`. -/
def sub32 (a b : ℕ) : ℕ := if b ≤ a then a - b else a + 2 ^ 32 - b

theorem sub32_of_le {a b : ℕ} (h : b ≤ a) : sub32 a b = a - b := if_pos h

/-- `round_down()`. -/
def roundDown (value multiple : ℕ) : ℕ := value - value % multiple

/-- `round_up()`. -/
def roundUp (value multiple : ℕ) : ℕ := roundDown (value + multiple - 1) multiple

end Prinbee
