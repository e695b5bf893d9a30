import Prinbee.Pbql.ExpressionComplete

/-!
# Folding keeps the meaning

What the operators of PBQL mean, on 512 bits in two's complement for the integers and on three truth
values for the conditions, and that the tree that `parse_expression.cpp` folds has the value that the
expression has.  The integers leave out the divisions and shifts of negative numbers for which
`div()` and `asr()` have another answer.

## Main definitions

* `Expression.Operator.Computes` — the value of an operator on integers.
* `Expression.Evaluates` — the value of an integer expression.
* `Kleene.or`, `Kleene.and` — the operators on three truth values.
* `Expression.truth` — the truth value of a tree.
* `Expression.Means` — the truth value of a condition.

## Main results

* `Expression.fold_of_evaluates` — an integer expression is folded to its value.
* `Expression.fold_of_means` — the tree of a condition has the truth value of the condition.
* `Expression.parseTree_of_evaluates`, `Expression.parseTree_of_means` — **the parser keeps both**.
-/

namespace Prinbee

namespace Expression

open Lexer (TokenNode)
open Prinbee.Parser (word symbol tokensOf)

variable {F : Type} {lib : Library F}

/-! ### Integers -/

/-- The division truncates: the numbers for which `div()` computes it. -/
def Truncating (a b : BitVec 512) : Prop :=
  b.toInt ≠ 0 ∧ a.toInt ≠ -2 ^ 511 ∧ b.toInt ≠ -2 ^ 511 ∧
    (|a.toInt| < |b.toInt| ∨ 0 < b.toInt ∧ (0 ≤ a.toInt ∨ |a.toInt| = |b.toInt|))

/-- The shift divides by a power of two: the numbers for which `asr()` computes it. -/
def Dividing (a : BitVec 512) (count : ℕ) : Prop :=
  512 ≤ count ∨ count % 64 = 0 ∨
    if count / 64 = 1 then -2 ^ 448 ≤ a.toInt ∧ a.toInt < 2 ^ 448 else 0 ≤ a.toInt

/-- **The value of an operator on integers**, in two's complement. -/
inductive Operator.Computes : Operator → BitVec 512 → BitVec 512 → BitVec 512 → Prop
  | plus (a b : BitVec 512) : Computes (.additive .plus) a b (a + b)
  | minus (a b : BitVec 512) : Computes (.additive .minus) a b (a - b)
  | multiply (a b : BitVec 512) : Computes (.multiplicative .multiply) a b (a * b)
  | divide {a b : BitVec 512} (h : Truncating a b) : Computes (.multiplicative .divide) a b (a.sdiv b)
  | modulo {a b : BitVec 512} (h : Truncating a b) : Computes (.multiplicative .modulo) a b (a.srem b)
  | bitwiseAnd (a b : BitVec 512) : Computes (.integer .bitwiseAnd) a b (a &&& b)
  | bitwiseOr (a b : BitVec 512) : Computes (.integer .bitwiseOr) a b (a ||| b)
  | bitwiseXor (a b : BitVec 512) : Computes (.integer .bitwiseXor) a b (a ^^^ b)
  -- the count of a shift is an `int`
  | shiftLeft {a b : BitVec 512} (h : b.toNat < 2 ^ 31) :
    Computes (.integer .shiftLeft) a b (a <<< b.toNat)
  | shiftRight {a b : BitVec 512} (h : b.toNat < 2 ^ 31) (hdividing : Dividing a b.toNat) :
    Computes (.integer .shiftRight) a b (a.sshiftRight b.toNat)

/-- **The value of an integer expression.** -/
inductive Evaluates : Syntax F → BitVec 512 → Prop
  | integer (n : Int512) : Evaluates (.integer n) n.toBitVec
  | group {e : Syntax F} {v : BitVec 512} (h : Evaluates e v) : Evaluates e.group v
  | sign {e : Syntax F} {v : BitVec 512} (minus : Bool) (more : List Bool) (h : Evaluates e v) :
    Evaluates (.sign minus more e) (if more.foldl (fun negate m => negate ^^ m) minus then -v else v)
  | binary {o : Operator} {l r : Syntax F} {a b v : BitVec 512} (hl : Evaluates l a)
    (hr : Evaluates r b) (h : o.Computes a b v) : Evaluates (.binary o l r) v

/-- The count of a shift. -/
theorem toInt_low {b : Int512} (h : b.toBitVec.toNat < 2 ^ 31) :
    toInt b.words.low = (b.toBitVec.toNat : ℤ) := by
  rw [Int512.toNat_toBitVec] at h ⊢
  have hlow : b.words.low = b.words.toNat := by
    rw [UInt512.low_eq, Nat.mod_eq_of_lt (h.trans (by decide))]
  rw [hlow, toInt_of_lt h]

/-- `div()` returns where the division truncates. -/
theorem div_of_truncating {a b : Int512} (h : Truncating a.toBitVec b.toBitVec) :
    ∃ q r, a.div b = .ok (q, r) ∧ q.toBitVec = a.toBitVec.sdiv b.toBitVec ∧
      r.toBitVec = a.toBitVec.srem b.toBitVec := by
  obtain ⟨hzero, ha, hb, hrange⟩ := h
  rw [Int512.toInt_toBitVec] at hzero hb
  rw [Int512.toInt_toBitVec] at ha
  rw [Int512.toInt_toBitVec, Int512.toInt_toBitVec] at hrange
  have hdivides := (Int512.divides_iff hzero ha hb).2 hrange
  obtain ⟨q, r, hdiv, -, -⟩ := Int512.div_eq hzero ha hb
  exact ⟨q, r, hdiv, Int512.toBitVec_div hdivides hdiv⟩

/-- The tree of an operator on two integers is the integer it computes. -/
theorem fold_of_computes {o : Operator} {a b : Int512} {v : BitVec 512}
    (h : o.Computes a.toBitVec b.toBitVec v) :
    ∃ r, o.fold lib (.integer a) (.integer b) = some (.integer r) ∧ r.toBitVec = v := by
  generalize hx : a.toBitVec = x at h
  generalize hy : b.toBitVec = y at h
  cases h with
  | plus => exact ⟨a.add b, rfl, by rw [Int512.toBitVec_add, hx, hy]⟩
  | minus => exact ⟨a.sub b, rfl, by rw [Int512.toBitVec_sub, hx, hy]⟩
  | multiply => exact ⟨a.mul b, rfl, by rw [Int512.toBitVec_mul, hx, hy]⟩
  | divide h =>
    subst hx hy
    obtain ⟨q, r, hdiv, hq, -⟩ := div_of_truncating h
    refine ⟨q, ?_, hq⟩
    have hquotient : quotient a b = .ok q := by
      rw [quotient, hdiv]
      rfl
    show (quotient a b >>= fun r => Except.ok (ExprTree.integer r)).toOption = _
    rw [hquotient]
    rfl
  | modulo h =>
    subst hx hy
    obtain ⟨q, r, hdiv, -, hr⟩ := div_of_truncating h
    refine ⟨r, ?_, hr⟩
    have hremainder : remainder a b = .ok r := by
      rw [remainder, hdiv]
      rfl
    show (remainder a b >>= fun r => Except.ok (ExprTree.integer r)).toOption = _
    rw [hremainder]
    rfl
  | bitwiseAnd => exact ⟨a.and b, rfl, by rw [Int512.toBitVec_and, hx, hy]⟩
  | bitwiseOr => exact ⟨a.or b, rfl, by rw [Int512.toBitVec_or, hx, hy]⟩
  | bitwiseXor => exact ⟨a.xor b, rfl, by rw [Int512.toBitVec_xor, hx, hy]⟩
  | shiftLeft h =>
    subst hx hy
    have hshift : a.checkedLsl (toInt b.words.low) = .ok (a.lsl b.toBitVec.toNat) := by
      rw [toInt_low h, Int512.checkedLsl, if_neg (Int.natCast_nonneg _).not_gt, Int.toNat_natCast]
    refine ⟨a.lsl b.toBitVec.toNat, ?_, Int512.toBitVec_lsl a _⟩
    show (a.checkedLsl (toInt b.words.low) >>= fun r => Except.ok (ExprTree.integer r)).toOption = _
    rw [hshift]
    rfl
  | shiftRight h hdividing =>
    subst hx hy
    have hshift : a.checkedAsr (toInt b.words.low) = .ok (a.asr b.toBitVec.toNat) := by
      rw [toInt_low h, Int512.checkedAsr, if_neg (Int.natCast_nonneg _).not_gt, Int.toNat_natCast]
    rw [Dividing, Int512.toInt_toBitVec] at hdividing
    refine ⟨a.asr b.toBitVec.toNat, ?_, Int512.toBitVec_asr ((a.toInt_asr_iff _).2 hdividing)⟩
    show (a.checkedAsr (toInt b.words.low) >>= fun r => Except.ok (ExprTree.integer r)).toOption = _
    rw [hshift]
    rfl

/-- **An integer expression is folded to its value.** -/
theorem fold_of_evaluates {s : Syntax F} {v : BitVec 512} (h : Evaluates s v) :
    ∃ n, s.fold lib = some (.integer n) ∧ n.toBitVec = v := by
  induction h with
  | integer n => exact ⟨n, rfl, rfl⟩
  | group h ih =>
    obtain ⟨n, hn, hv⟩ := ih
    exact ⟨n, by rw [Syntax.fold_group, hn], hv⟩
  | @sign e v minus more h ih =>
    obtain ⟨n, hn, rfl⟩ := ih
    refine ⟨if more.foldl (fun negate m => negate ^^ m) minus then n.neg else n,
      Syntax.fold_sign_eq_some.2 ⟨_, hn, rfl⟩, ?_⟩
    split
    · exact Int512.toBitVec_neg n
    · rfl
  | @binary o l r a b v hl hr h ihl ihr =>
    obtain ⟨m, hm, rfl⟩ := ihl
    obtain ⟨n, hn, rfl⟩ := ihr
    obtain ⟨x, hx, hv⟩ := fold_of_computes h
    exact ⟨x, Syntax.fold_binary_eq_some.2 ⟨_, _, hm, hn, hx⟩, hv⟩

theorem Evaluates.one_le {s : Syntax F} {v : BitVec 512} (h : Evaluates s v) : 1 ≤ s.level := by
  cases h with
  | @binary o l r a b v hl hr h => cases h <;> simp [Syntax.level, Operator.level]
  | _ => simp [Syntax.level]

/-- **The parser computes the integer expressions**: it returns their value. -/
theorem parseTree_of_evaluates {s : Syntax F} {v : BitVec 512} {ts rest : Tokens F}
    (hlib : lib.Lawful) (hl : Leveled lib s) (hp : Plain lib s) (hs : Spells lib s ts rest)
    (h : Evaluates s v) (hfollow : Follow lib 1 rest) :
    ∃ n, (parseTree lib).run ts = .ok (.integer n, rest) ∧ n.toBitVec = v := by
  obtain ⟨n, hfold, hv⟩ := fold_of_evaluates h
  exact ⟨n, (read_of_leveled hlib hl hp).run h.one_le hs hfold hfollow, hv⟩

/-- `-(2 - 7) * 3` is 15. -/
theorem parseTree_of_evaluates_fifteen : ∃ n, (parseTree plainLibrary).run
      (tokensOf [symbol .minus, symbol .openParenthesis, symbol (.integer (.ofInt64 2)),
        symbol .minus, symbol (.integer (.ofInt64 7)), symbol .closeParenthesis, symbol .multiply,
        symbol (.integer (.ofInt64 3))]) = .ok (.integer n, .stop (symbol .eof)) ∧
    n.toBitVec = 15#512 := by
  have hvalue : (-((Int512.ofInt64 2).toBitVec - (Int512.ofInt64 7).toBitVec)) *
      (Int512.ofInt64 3).toBitVec = 15#512 := by decide +kernel
  rw [← hvalue]
  refine parseTree_of_evaluates (s := .binary (.multiplicative .multiply)
    (.sign true [] (.group (.binary (.additive .minus) (.integer (.ofInt64 2))
      (.integer (.ofInt64 7))))) (.integer (.ofInt64 3))) plainLibrary_lawful ?_ ?_ ?_ ?_
    ⟨_, _, rfl, by decide⟩
  · simp only [Leveled, Syntax.level, Operator.level]
    decide
  · simp only [Plain, Syntax.isOpen]
    decide
  · exact ⟨_, _, ⟨_, ⟨_, ⟨_, rfl, rfl⟩, rfl⟩, _, _, ⟨_, rfl, rfl⟩, ⟨_, _, ⟨_, rfl, rfl⟩, ⟨_, rfl, rfl⟩,
      ⟨_, rfl, rfl⟩⟩, ⟨_, rfl, rfl⟩⟩, ⟨_, rfl, rfl⟩, ⟨_, rfl, rfl⟩⟩
  · exact .binary (.sign true [] (.group (.binary (.integer _) (.integer _) (.minus _ _))))
      (.integer _) (.multiply _ _)

/-! ### Conditions -/

namespace Kleene

/-- `OR` on three truth values. -/
def or : Option Bool → Option Bool → Option Bool
  | some true, _ | _, some true => some true
  | some false, some false => some false
  | _, _ => none

/-- `AND` on three truth values. -/
def and : Option Bool → Option Bool → Option Bool
  | some false, _ | _, some false => some false
  | some true, some true => some true
  | _, _ => none

@[simp] theorem true_or (a : Option Bool) : or (some true) a = some true := rfl

@[simp] theorem or_true (a : Option Bool) : or a (some true) = some true := by
  rcases a with _ | _ | _ <;> rfl

@[simp] theorem false_or (a : Option Bool) : or (some false) a = a := by
  rcases a with _ | _ | _ <;> rfl

@[simp] theorem or_false (a : Option Bool) : or a (some false) = a := by
  rcases a with _ | _ | _ <;> rfl

@[simp] theorem false_and (a : Option Bool) : and (some false) a = some false := rfl

@[simp] theorem and_false (a : Option Bool) : and a (some false) = some false := by
  rcases a with _ | _ | _ <;> rfl

@[simp] theorem true_and (a : Option Bool) : and (some true) a = a := by
  rcases a with _ | _ | _ <;> rfl

@[simp] theorem and_true (a : Option Bool) : and a (some true) = a := by
  rcases a with _ | _ | _ <;> rfl

end Kleene

/-- The truth value of an operator, from those of its operands; `other` is the one it has where it is
no condition. -/
def truthOfBinary (t : BinaryToken) (isNull : Bool) (a b other : Option Bool) : Option Bool :=
  match t with
  | .logicalOr => Kleene.or a b
  | .logicalAnd => Kleene.and a b
  | .equal => if isNull then some a.isNone else other
  | .notEqual => if isNull then some a.isSome else other
  | _ => other

variable (lib) in
/-- The truth value of a tree, where NULL has none: `ρ` gives those of the trees that are no conditions
and no Boolean literals. -/
def truth (ρ : ExprTree F → Option Bool) : ExprTree F → Option Bool
  | .null => none
  | .logicalNot e => (truth ρ e).map (!·)
  | .binary t l r => truthOfBinary t r.isNull (truth ρ l) (truth ρ r) (ρ (.binary t l r))
  | e => if e.isLiteral lib .boolean then (e.getBooleanAutoConvert lib).toOption else ρ e

variable (lib) in
/-- A condition that `IS` tests: a literal is a Boolean or NULL, and anything else has a truth value
where it is compared with one. -/
def Tested (k : IsKeyword) (e : ExprTree F) (a : Option Bool) : Prop :=
  (∃ b, e = .boolean b) ∨ e = .null ∨ (e.isLiteral lib .unknown = false ∧ (k = .null ∨ a ≠ none))

/-- `IS`, on truth values. -/
def IsKeyword.test (k : IsKeyword) (a : Option Bool) : Bool :=
  match k with
  | .true => a = some Bool.true
  | .false => a = some Bool.false
  | .null => a.isNone

/-- The expression is made by `OR`, `AND`, `NOT` or `IS`. -/
def Syntax.isCondition : Syntax F → Bool
  | .group e => e.isCondition
  | .binary .logicalOr _ _ | .binary .logicalAnd _ _ | .not _ _ | .is _ _ _ => true
  | _ => false

/-- **The truth value of a condition.** -/
inductive Means (lib : Library F) (ρ : ExprTree F → Option Bool) : Syntax F → Option Bool → Prop
  | operand {s : Syntax F} {e : ExprTree F} (hs : s.isCondition = false) (h : s.fold lib = some e) :
    Means lib ρ s (truth lib ρ e)
  | group {s : Syntax F} {a : Option Bool} (h : Means lib ρ s a) : Means lib ρ s.group a
  | or {l r : Syntax F} {a b : Option Bool} (hl : Means lib ρ l a) (hr : Means lib ρ r b) :
    Means lib ρ (.binary .logicalOr l r) (Kleene.or a b)
  | and {l r : Syntax F} {a b : Option Bool} (hl : Means lib ρ l a) (hr : Means lib ρ r b) :
    Means lib ρ (.binary .logicalAnd l r) (Kleene.and a b)
  | not {s : Syntax F} {a : Option Bool} (more : ℕ) (h : Means lib ρ s a) :
    Means lib ρ (.not more s) (a.map fun b => b ^^ decide (more % 2 = 0))
  | is {s : Syntax F} {a : Option Bool} {e : ExprTree F} (negate : Bool) (k : IsKeyword)
    (h : Means lib ρ s a) (he : s.fold lib = some e) (htested : Tested lib k e a) :
    Means lib ρ (.is negate k s) (some (k.test a ^^ negate))

section

variable {ρ : ExprTree F → Option Bool} {l r e : ExprTree F}

@[simp] theorem truth_boolean (b : Bool) : truth lib ρ (.boolean b) = some b := rfl

@[simp] theorem truth_null : truth lib ρ .null = none := rfl

@[simp] theorem truth_logicalOr :
    truth lib ρ (.binary .logicalOr l r) = Kleene.or (truth lib ρ l) (truth lib ρ r) := rfl

@[simp] theorem truth_logicalAnd :
    truth lib ρ (.binary .logicalAnd l r) = Kleene.and (truth lib ρ l) (truth lib ρ r) := rfl

@[simp] theorem truth_logicalNot :
    truth lib ρ (.logicalNot e) = (truth lib ρ e).map (!·) := rfl

@[simp] theorem truth_equal_null :
    truth lib ρ (.binary .equal e .null) = some (truth lib ρ e).isNone := rfl

@[simp] theorem truth_notEqual_null :
    truth lib ρ (.binary .notEqual e .null) = some (truth lib ρ e).isSome := rfl

/-- The value of a Boolean literal. -/
theorem truth_of_isLiteral (ρ : ExprTree F → Option Bool) (h : e.isLiteral lib .boolean = true) :
    ∃ b, e.getBooleanAutoConvert lib = .ok b ∧ truth lib ρ e = some b := by
  obtain ⟨b, hb⟩ := ExprTree.getBooleanAutoConvert_of_isLiteral h
  refine ⟨b, hb, ?_⟩
  have htruth : truth lib ρ e =
      if e.isLiteral lib .boolean then (e.getBooleanAutoConvert lib).toOption else ρ e := by
    cases e with
    | string s | integer n | floatingPoint f | boolean c => rfl
    | _ => cases h
  rw [htruth, if_pos h, hb]
  rfl

theorem booleanOr_of_isLiteral (ρ : ExprTree F → Option Bool) (default : Bool)
    (h : e.isLiteral lib .boolean = true) :
    ∃ b, booleanOr lib default e = .ok b ∧ truth lib ρ e = some b := by
  obtain ⟨b, hb, htruth⟩ := truth_of_isLiteral ρ h
  exact ⟨b, by rw [booleanOr, if_pos h, hb], htruth⟩

theorem booleanOr_of_not (default : Bool) (h : e.isLiteral lib .boolean = false) :
    booleanOr lib default e = .ok default := by
  rw [booleanOr, h, if_neg Bool.false_ne_true]

/-- `OR` keeps the truth value, whatever its operands are. -/
theorem truth_foldLogicalOr (ρ : ExprTree F → Option Bool) (l r : ExprTree F) :
    ∃ x, foldLogicalOr lib l r = .ok x ∧
      truth lib ρ x = Kleene.or (truth lib ρ l) (truth lib ρ r) := by
  cases hl : l.isLiteral lib .boolean with
  | false =>
    have hlv := booleanOr_of_not false hl
    cases hr : r.isLiteral lib .boolean with
    | false =>
      have hrv := booleanOr_of_not false hr
      exact ⟨.binary .logicalOr l r, by simp [foldLogicalOr, hl, hr, hlv, hrv, bind, Except.bind],
        truth_logicalOr⟩
    | true =>
      obtain ⟨b, hrv, hb⟩ := booleanOr_of_isLiteral ρ false hr
      cases b with
      | false =>
        exact ⟨l, by simp [foldLogicalOr, hl, hr, hlv, hrv, bind, Except.bind], by simp [hb]⟩
      | true =>
        exact ⟨.boolean true, by simp [foldLogicalOr, hl, hr, hlv, hrv, bind, Except.bind],
          by simp [hb]⟩
  | true =>
    obtain ⟨a, hlv, ha⟩ := booleanOr_of_isLiteral ρ false hl
    cases hr : r.isLiteral lib .boolean with
    | false =>
      have hrv := booleanOr_of_not false hr
      cases a with
      | false =>
        exact ⟨r, by simp [foldLogicalOr, hl, hr, hlv, hrv, bind, Except.bind], by simp [ha]⟩
      | true =>
        exact ⟨.boolean true, by simp [foldLogicalOr, hl, hr, hlv, hrv, bind, Except.bind],
          by simp [ha]⟩
    | true =>
      obtain ⟨b, hrv, hb⟩ := booleanOr_of_isLiteral ρ false hr
      refine ⟨.boolean (a || b), by simp [foldLogicalOr, hl, hr, hlv, hrv, bind, Except.bind], ?_⟩
      rw [truth_boolean, ha, hb]
      cases a <;> cases b <;> rfl

/-- `AND` keeps the truth value, whatever its operands are. -/
theorem truth_foldLogicalAnd (ρ : ExprTree F → Option Bool) (l r : ExprTree F) :
    ∃ x, foldLogicalAnd lib l r = .ok x ∧
      truth lib ρ x = Kleene.and (truth lib ρ l) (truth lib ρ r) := by
  cases hl : l.isLiteral lib .boolean with
  | false =>
    have hlv := booleanOr_of_not true hl
    cases hr : r.isLiteral lib .boolean with
    | false =>
      have hrv := booleanOr_of_not true hr
      exact ⟨.binary .logicalAnd l r, by simp [foldLogicalAnd, hl, hr, hlv, hrv, bind, Except.bind],
        truth_logicalAnd⟩
    | true =>
      obtain ⟨b, hrv, hb⟩ := booleanOr_of_isLiteral ρ true hr
      cases b with
      | false =>
        exact ⟨.boolean false, by simp [foldLogicalAnd, hl, hr, hlv, hrv, bind, Except.bind],
          by simp [hb]⟩
      | true =>
        exact ⟨l, by simp [foldLogicalAnd, hl, hr, hlv, hrv, bind, Except.bind], by simp [hb]⟩
  | true =>
    obtain ⟨a, hlv, ha⟩ := booleanOr_of_isLiteral ρ true hl
    cases hr : r.isLiteral lib .boolean with
    | false =>
      have hrv := booleanOr_of_not true hr
      cases a with
      | false =>
        exact ⟨.boolean false, by simp [foldLogicalAnd, hl, hr, hlv, hrv, bind, Except.bind],
          by simp [ha]⟩
      | true =>
        exact ⟨r, by simp [foldLogicalAnd, hl, hr, hlv, hrv, bind, Except.bind], by simp [ha]⟩
    | true =>
      obtain ⟨b, hrv, hb⟩ := booleanOr_of_isLiteral ρ true hr
      refine ⟨.boolean (a && b), by simp [foldLogicalAnd, hl, hr, hlv, hrv, bind, Except.bind], ?_⟩
      rw [truth_boolean, ha, hb]
      cases a <;> cases b <;> rfl

/-- `NOT` keeps the truth value. -/
theorem truth_foldLogicalNot (ρ : ExprTree F → Option Bool) (logical_not : Bool) (e : ExprTree F) :
    ∃ x, foldLogicalNot lib logical_not e = .ok x ∧
      truth lib ρ x = (truth lib ρ e).map fun b => b ^^ logical_not := by
  by_cases hnull : e.isNull = true
  · refine ⟨e, by rw [foldLogicalNot, if_pos hnull], ?_⟩
    cases e with
    | null => simp
    | _ => cases hnull
  · by_cases hliteral : e.isLiteral lib .boolean = true
    · obtain ⟨b, hb, htruth⟩ := truth_of_isLiteral ρ hliteral
      refine ⟨.boolean (b ^^ logical_not), ?_, by simp [htruth]⟩
      rw [foldLogicalNot, if_neg hnull, if_pos hliteral, hb]
      rfl
    · cases logical_not with
      | true =>
        refine ⟨.logicalNot e, by rw [foldLogicalNot, if_neg hnull, if_neg hliteral, if_pos rfl], ?_⟩
        simp
      | false =>
        refine ⟨.logicalNot (.logicalNot e), ?_, ?_⟩
        · rw [foldLogicalNot, if_neg hnull, if_neg hliteral, if_neg Bool.false_ne_true]
        · simp [Function.comp_def]

/-- `IS` tests the truth value. -/
theorem truth_foldIs {k : IsKeyword} (negate : Bool)
    (h : Tested lib k e (truth lib ρ e)) :
    truth lib ρ (foldIs lib negate k e) = some (k.test (truth lib ρ e) ^^ negate) := by
  rcases h with ⟨b, rfl⟩ | rfl | ⟨hliteral, htested⟩
  · cases k <;> cases b <;> simp [foldIs, ExprTree.isLiteral, ExprTree.isTrue, ExprTree.isFalse,
      ExprTree.isNull, IsKeyword.test]
  · cases k <;> simp [foldIs, ExprTree.isLiteral, ExprTree.isTrue, ExprTree.isFalse,
      ExprTree.isNull, IsKeyword.test]
  · cases k with
    | true =>
      obtain ⟨b, hb⟩ := Option.ne_none_iff_exists'.1 (htested.resolve_left (by simp))
      cases negate <;> cases b <;> simp [foldIs, hliteral, hb, IsKeyword.test]
    | false =>
      obtain ⟨b, hb⟩ := Option.ne_none_iff_exists'.1 (htested.resolve_left (by simp))
      cases negate <;> cases b <;> simp [foldIs, hliteral, hb, IsKeyword.test]
    | null => cases negate <;> simp [foldIs, hliteral, IsKeyword.test]

/-- **The tree of a condition has the truth value of the condition.** -/
theorem fold_of_means {s : Syntax F} {a : Option Bool} (h : Means lib ρ s a) :
    ∃ e, s.fold lib = some e ∧ truth lib ρ e = a := by
  induction h with
  | operand hs h => exact ⟨_, h, rfl⟩
  | group h ih =>
    obtain ⟨e, he, ha⟩ := ih
    exact ⟨e, by rw [Syntax.fold_group, he], ha⟩
  | or hl hr ihl ihr =>
    obtain ⟨v, hv, rfl⟩ := ihl
    obtain ⟨w, hw, rfl⟩ := ihr
    obtain ⟨x, hx, htruth⟩ := truth_foldLogicalOr ρ v w
    exact ⟨x, Syntax.fold_binary_eq_some.2 ⟨v, w, hv, hw, Syntax.toOption_eq_some.2 hx⟩, htruth⟩
  | and hl hr ihl ihr =>
    obtain ⟨v, hv, rfl⟩ := ihl
    obtain ⟨w, hw, rfl⟩ := ihr
    obtain ⟨x, hx, htruth⟩ := truth_foldLogicalAnd ρ v w
    exact ⟨x, Syntax.fold_binary_eq_some.2 ⟨v, w, hv, hw, Syntax.toOption_eq_some.2 hx⟩, htruth⟩
  | not more h ih =>
    obtain ⟨e, he, rfl⟩ := ih
    obtain ⟨x, hx, htruth⟩ := truth_foldLogicalNot ρ (decide (more % 2 = 0)) e
    exact ⟨x, Syntax.fold_not_eq_some.2 ⟨e, he, hx⟩, htruth⟩
  | is negate k h he htested ih =>
    obtain ⟨e', he', rfl⟩ := ih
    rw [he] at he'
    cases he'
    exact ⟨_, by rw [Syntax.fold_is, he]; rfl, truth_foldIs negate htested⟩

/-- **The parser keeps the truth values of the conditions**, whatever the trees stand for that it can't
compute. -/
theorem parseTree_of_means {s : Syntax F} {a : Option Bool} {ts rest : Tokens F}
    (hlib : lib.Lawful) (hl : Leveled lib s) (hp : Plain lib s) (h1 : 1 ≤ s.level)
    (hs : Spells lib s ts rest) (h : Means lib ρ s a) (hfollow : Follow lib 1 rest) :
    ∃ e, (parseTree lib).run ts = .ok (e, rest) ∧ truth lib ρ e = a := by
  obtain ⟨e, hfold, ha⟩ := fold_of_means h
  exact ⟨e, (read_of_leveled hlib hl hp).run h1 hs hfold hfollow, ha⟩

/-- `b OR (a AND TRUE) IS NULL` is true where `a` and `b` have no truth value. -/
theorem parseTree_of_means_isNull : ∃ e, (parseTree plainLibrary).run
      (tokensOf [word "b", word "OR", symbol .openParenthesis, word "a", word "AND", word "TRUE",
        symbol .closeParenthesis, word "IS", word "NULL"]) = .ok (e, .stop (symbol .eof)) ∧
    truth plainLibrary (fun _ => none) e = some true := by
  have ha : Means plainLibrary (fun _ => none) (.word [97]) none :=
    .operand (e := .identifier [97]) rfl rfl
  have hb : Means plainLibrary (fun _ => none) (.word [98]) none :=
    .operand (e := .identifier [98]) rfl rfl
  have htrue : Means plainLibrary (fun _ => none) (.word [84, 82, 85, 69]) (some true) :=
    .operand (e := .boolean true) rfl rfl
  refine parseTree_of_means (s := .binary .logicalOr (.word [98]) (.is false .null
    (.group (.binary .logicalAnd (.word [97]) (.word [84, 82, 85, 69]))))) plainLibrary_lawful ?_ ?_
    (by decide) ?_ ?_ ⟨_, _, rfl, by decide⟩
  · simp only [Leveled, Syntax.level, Operator.level]
    decide
  · simp only [Plain, Syntax.isOpen]
    decide
  · exact ⟨_, _, ⟨_, rfl, rfl⟩, ⟨_, rfl, rfl⟩, _, _, _, ⟨_, _, ⟨_, rfl, rfl⟩, ⟨_, _, ⟨_, rfl, rfl⟩,
      ⟨_, rfl, rfl⟩, ⟨_, rfl, rfl⟩⟩, ⟨_, rfl, rfl⟩⟩, ⟨_, rfl, rfl⟩, rfl, ⟨_, rfl, _, rfl, rfl⟩⟩
  · exact .or hb (.is false .null (.group (.and ha htrue)) rfl (.inr (.inr ⟨rfl, .inl rfl⟩)))

end

end Expression

end Prinbee
