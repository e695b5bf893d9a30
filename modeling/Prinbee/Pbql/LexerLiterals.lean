import Prinbee.Pbql.Lexer

/-!
# Literals in the lexer

What `get_next_token()` makes of a string in single quotes and of an integer.  A string is read
character by character, and `s += c` keeps the low byte of each.  The digits of an integer are
accumulated in 512 bits and the result becomes a signed node value.

## Main definitions

* `Lexer.quoted` — a text between single quotes, with those in it doubled.
* `Lexer.ReadsString` — the lexer returns the UTF-8 encoding of the text.
* `Lexer.IntegerForm`, `Lexer.IntegerForm.write` — the seven forms of an integer and their texts.
* `Lexer.ReadsInteger` — the lexer throws, or returns the integer that is written.

## Main results

* `Lexer.readsString_iff` — a string is read exactly when it is ASCII.
* `Lexer.readsInteger_iff` — an integer is read exactly when it is refused or below `2 ^ 511`.
-/

namespace Prinbee

namespace Lexer

open Input

variable {F : Type} {lib : Library F} {i : Input}

/-! ### The first character -/

theorem getc_of_cons {c : Char} {cs : List Char} (h : i.upcoming = c :: cs) :
    i.getc.1 = some c ∧ i.getc.2.upcoming = cs := by
  rw [getc_fst, upcoming_getc, h]
  exact ⟨rfl, rfl⟩

/-- Characters that start a token of more than one character. -/
def isWordCharacter (c : Char) : Bool := isDigit c || isLetter c || c = '\''

theorem ne_of_isWordCharacter {c d : Char} (hc : isWordCharacter c = true)
    (hd : isWordCharacter d = false) : c ≠ d := by
  rintro rfl
  rw [hc] at hd
  cases hd

/-- A digit, a letter or a quote is no token on its own. -/
theorem oneCharacter_eq_none {c : Char} (h : isWordCharacter c = true) :
    (oneCharacter c : Option (Token F)) = none := by
  have hne : ∀ d, isWordCharacter d = false → c ≠ d := fun d => ne_of_isWordCharacter h
  rw [oneCharacter, if_neg (hne '%' (by decide)), if_neg (hne '&' (by decide)),
    if_neg (hne '(' (by decide)), if_neg (hne ')' (by decide)), if_neg (hne '[' (by decide)),
    if_neg (hne ']' (by decide)), if_neg (hne '*' (by decide)), if_neg (hne '+' (by decide)),
    if_neg (hne ',' (by decide)), if_neg (hne '.' (by decide)), if_neg (hne ';' (by decide)),
    if_neg (hne '@' (by decide)), if_neg (hne '^' (by decide)), if_neg (hne '=' (by decide)),
    if_neg (hne '~' (by decide))]

/-- At such a character, the token is the one that `parseToken` reads. -/
theorem getNextToken_of_word {c : Char} {cs : List Char} (h : i.upcoming = c :: cs)
    (hc : isWordCharacter c = true) :
    getNextToken lib i = parseToken lib i.location c i.getc.2 := by
  have hne : ∀ d, isWordCharacter d = false → c ≠ d := fun d => ne_of_isWordCharacter hc
  have hscan : scan lib i =
      (parseToken lib i.location c i.getc.2).map fun r => (some r.1, r.2) := by
    simp only [scan, (getc_of_cons h).1]
    rw [if_neg, if_neg (hne '#' (by decide)), if_neg (hne '/' (by decide)),
      if_neg (hne '-' (by decide))]
    simp only [List.mem_cons, List.not_mem_nil, or_false, not_or]
    exact ⟨hne _ (by decide), hne _ (by decide), hne _ (by decide), hne _ (by decide),
      hne _ (by decide)⟩
  rw [getNextToken, hscan]
  cases parseToken lib i.location c i.getc.2 with
  | error e => rfl
  | ok r => rfl

/-- The token, for a character that starts no operator. -/
theorem parseToken_of_word {l : Input.Location} {c : Char} (hc : isWordCharacter c = true)
    (i : Input) :
    parseToken lib l c i =
      if c = '\'' then parseString lib false l i
      else if isDigit c then parseNumber lib l c i
      else parseDefault lib l c i := by
  have hne : ∀ d, isWordCharacter d = false → c ≠ d := fun d => ne_of_isWordCharacter hc
  simp only [parseToken, oneCharacter_eq_none hc]
  rw [if_neg (hne '!' (by decide)), if_neg (hne ':' (by decide)), if_neg (hne '<' (by decide)),
    if_neg (hne '>' (by decide)), if_neg (hne '|' (by decide))]

/-! ### Strings -/

/-- The text with its quotes doubled. -/
def doubled (cs : List Char) : List Char := cs.flatMap fun c => if c = '\'' then ['\'', '\''] else [c]

/-- The text between single quotes. -/
def quoted (cs : List Char) : List Char := '\'' :: (doubled cs ++ ['\''])

/-- The characters that `s += c` adds. -/
def lowBytes (cs : List Char) : List UInt8 := cs.map fun c => byteOf (some c)

/-- One turn at a character other than a quote. -/
theorem stringLoop_char {s : List UInt8} {c : Char} {cs : List Char} (h : i.upcoming = c :: cs)
    (hquote : c ≠ '\'') (hline : c ≠ '\n') :
    stringLoop lib false s i = stringLoop lib false (push s c) i.getc.2 := by
  have hget := (getc_of_cons h).1
  rw [stringLoop]
  split
  · next hnone =>
    rw [hget] at hnone
    cases hnone
  · next d hd =>
    rw [hget] at hd
    cases hd
    rw [if_neg hquote, if_neg hline]
    rfl

/-- One turn at a doubled quote. -/
theorem stringLoop_quotes {s : List UInt8} {cs : List Char} (h : i.upcoming = '\'' :: '\'' :: cs) :
    stringLoop lib false s i = stringLoop lib false (push s '\'') i.getc.2.getc.2 := by
  obtain ⟨hget, hup⟩ := getc_of_cons h
  rw [stringLoop]
  split
  · next hnone =>
    rw [hget] at hnone
    cases hnone
  · next d hd =>
    rw [hget] at hd
    cases hd
    rw [if_pos rfl, if_pos (getc_of_cons hup).1]

/-- The quote that ends a string is not followed by another one. -/
theorem stringLoop_end {s : List UInt8} {rest : List Char} (h : i.upcoming = '\'' :: rest)
    (hrest : rest.head? ≠ some '\'') :
    ∃ j, stringLoop lib false s i = .ok (s, j) ∧ j.upcoming = rest := by
  obtain ⟨hget, hup⟩ := getc_of_cons h
  obtain ⟨j, hj, hjup⟩ := i.getc.2.ungetc_getc
  refine ⟨j, ?_, hjup.trans hup⟩
  have hnext : i.getc.2.getc.1 ≠ some '\'' := by rwa [getc_fst, hup]
  rw [stringLoop]
  split
  · next hnone =>
    rw [hget] at hnone
    cases hnone
  · next d hd =>
    rw [hget] at hd
    cases hd
    rw [if_pos rfl, if_neg hnext, hj]
    rfl

/-- A text is read up to its end, one byte for each character. -/
theorem stringLoop_doubled {cs rest : List Char} {s : List UInt8}
    (h : i.upcoming = doubled cs ++ '\'' :: rest) (hline : '\n' ∉ cs)
    (hrest : rest.head? ≠ some '\'') :
    ∃ j, stringLoop lib false s i = .ok (s ++ lowBytes cs, j) ∧ j.upcoming = rest := by
  induction cs generalizing i s with
  | nil =>
    rw [lowBytes, List.map_nil, List.append_nil]
    exact stringLoop_end h hrest
  | cons c cs ih =>
    rw [List.mem_cons, not_or] at hline
    have hbytes : s ++ lowBytes (c :: cs) = push s c ++ lowBytes cs := by simp [lowBytes, push]
    rw [hbytes]
    by_cases hquote : c = '\''
    · subst hquote
      rw [stringLoop_quotes h]
      exact ih (getc_of_cons (getc_of_cons h).2).2 hline.2
    · have hup : i.upcoming = c :: (doubled cs ++ '\'' :: rest) := by
        rw [h, doubled, List.flatMap_cons, if_neg hquote]
        rfl
      rw [stringLoop_char hup hquote (Ne.symm hline.1)]
      exact ih (getc_of_cons hup).2 hline.2

/-- A string literal is one token, with the low bytes of its characters. -/
theorem getNextToken_quoted {cs rest : List Char} (h : i.upcoming = quoted cs ++ rest)
    (hline : '\n' ∉ cs) (hrest : rest.head? ≠ some '\'') :
    ∃ j, getNextToken lib i = .ok (⟨.string (lowBytes cs), i.location⟩, j) ∧ j.upcoming = rest := by
  have hup : i.upcoming = '\'' :: (doubled cs ++ '\'' :: rest) := by
    rw [h, quoted, List.cons_append, List.append_assoc]
    rfl
  obtain ⟨j, hj, hjup⟩ : ∃ j, stringLoop lib false [] i.getc.2 = .ok ([] ++ lowBytes cs, j) ∧
      j.upcoming = rest := stringLoop_doubled (getc_of_cons hup).2 hline hrest
  refine ⟨j, ?_, hjup⟩
  rw [getNextToken_of_word hup (by decide), parseToken_of_word (by decide), if_pos rfl, parseString,
    hj]
  rfl

/-- The UTF-8 encoding of a text. -/
def utf8 (cs : List Char) : List UInt8 := cs.flatMap String.utf8EncodeChar

theorem utf8EncodeChar_of_lt {c : Char} (h : c.toNat < 128) :
    String.utf8EncodeChar c = [byteOf (some c)] := by
  rw [String.utf8EncodeChar_eq_singleton (Char.utf8Size_eq_one_iff.2 (Nat.le_of_lt_succ h))]
  rfl

/-- Other characters take two bytes or more. -/
theorem two_le_length_utf8EncodeChar {c : Char} (h : ¬ c.toNat < 128) :
    2 ≤ (String.utf8EncodeChar c).length := by
  have hpos := c.utf8Size_pos
  have hne : c.utf8Size ≠ 1 := fun hone =>
    h (Nat.lt_succ_of_le (Char.utf8Size_eq_one_iff.1 hone))
  rw [String.length_utf8EncodeChar]
  omega

theorem length_le_utf8 (cs : List Char) : cs.length ≤ (utf8 cs).length := by
  induction cs with
  | nil => exact Nat.le_refl 0
  | cons c cs ih =>
    have hpos := c.utf8Size_pos
    rw [utf8, List.flatMap_cons, List.length_append, String.length_utf8EncodeChar, List.length_cons]
    exact Nat.add_comm _ _ ▸ Nat.add_le_add hpos ih

/-- The low bytes of a text are its encoding exactly when it is ASCII. -/
theorem lowBytes_eq_utf8_iff (cs : List Char) :
    lowBytes cs = utf8 cs ↔ ∀ c ∈ cs, c.toNat < 128 := by
  induction cs with
  | nil => simp [lowBytes, utf8]
  | cons c cs ih =>
    rw [List.forall_mem_cons, ← ih, lowBytes, List.map_cons, utf8, List.flatMap_cons]
    by_cases hc : c.toNat < 128
    · rw [utf8EncodeChar_of_lt hc, List.singleton_append, List.cons.injEq]
      simp [hc, lowBytes, utf8]
    · refine iff_of_false (fun heq => ?_) fun h => hc h.1
      -- there are not enough low bytes
      have hlen := congrArg List.length heq
      have htwo := two_le_length_utf8EncodeChar hc
      have hle := length_le_utf8 cs
      rw [List.length_cons, List.length_map, List.length_append] at hlen
      unfold utf8 at hle
      omega

/-- At the text in quotes, the lexer returns one string, the encoding of the text, and what comes
behind the text is upcoming. -/
def ReadsString (lib : Library F) (i : Input) (cs rest : List Char) : Prop :=
  ∃ j, getNextToken lib i = .ok (⟨.string (utf8 cs), i.location⟩, j) ∧ j.upcoming = rest

/-- **A string literal is read exactly when all its characters are ASCII.** -/
theorem readsString_iff (lib : Library F) {i : Input} {cs rest : List Char}
    (h : i.upcoming = quoted cs ++ rest) (hline : '\n' ∉ cs) (hrest : rest.head? ≠ some '\'') :
    ReadsString lib i cs rest ↔ ∀ c ∈ cs, c.toNat < 128 := by
  obtain ⟨j, hj, hup⟩ : ∃ j, getNextToken lib i = .ok (⟨.string (lowBytes cs), i.location⟩, j) ∧
      j.upcoming = rest := getNextToken_quoted h hline hrest
  rw [← lowBytes_eq_utf8_iff]
  constructor
  · rintro ⟨j', hj', -⟩
    rw [hj, Except.ok.injEq, Prod.mk.injEq, TokenNode.mk.injEq, Token.string.injEq] at hj'
    exact hj'.1.1
  · intro heq
    exact ⟨j, by rw [hj, heq], hup⟩

theorem readsString_quotes :
    ReadsString plainLibrary (.ofScript "'it''s' x".toList "") "it's".toList " x".toList :=
  (readsString_iff plainLibrary (by decide) (by decide) (by decide)).2 (by simp)

/-- The letter `é` is the one byte 233 in the string, and not the two of its encoding. -/
theorem readsString_fails :
    (∃ j, getNextToken plainLibrary (.ofScript "'\u00e9'".toList "") =
      .ok (⟨.string [233], ⟨"", 1, 1⟩⟩, j)) ∧
    ¬ ReadsString plainLibrary (.ofScript "'\u00e9'".toList "") ['\u00e9'] [] := by
  have hupcoming : (Input.ofScript "'\u00e9'".toList "").upcoming = quoted ['\u00e9'] ++ [] := by
    decide
  obtain ⟨j, hj, -⟩ : ∃ j, getNextToken plainLibrary (.ofScript "'\u00e9'".toList "") =
      .ok (⟨.string [233], ⟨"", 1, 1⟩⟩, j) ∧ j.upcoming = [] :=
    getNextToken_quoted hupcoming (by decide) (by decide)
  refine ⟨⟨j, hj⟩, ?_⟩
  rintro ⟨j', hj', -⟩
  rw [hj] at hj'
  cases hj'

/-! ### Integers -/

/-- A base that has a letter. -/
inductive Base
  | binary
  | octal
  | hexadecimal
  deriving DecidableEq, Repr

/-- The numbers of a base. -/
def Base.radix : Base → Radix
  | binary => binaryNumber
  | octal => octalNumber
  | hexadecimal => hexadecimalNumber

/-- The letter of a base. -/
def Base.letter : Base → Bool → Char
  | binary, capital => if capital then 'B' else 'b'
  | octal, capital => if capital then 'O' else 'o'
  | hexadecimal, capital => if capital then 'X' else 'x'

/-- The forms of an integer: digits, digits behind a prefix such as `0x`, and digits in quotes
behind a letter. -/
inductive IntegerForm
  | decimal
  | prefixed (b : Base) (capital : Bool)
  | quoted (b : Base) (capital : Bool)
  deriving DecidableEq, Repr

namespace IntegerForm

def base : IntegerForm → ℕ
  | decimal => 10
  | prefixed b _ => b.radix.base
  | quoted b _ => b.radix.base

/-- The value of a digit. -/
def digit : IntegerForm → Char → Option ℕ
  | decimal, c => if isDigit c then some (digitValue c) else none
  | prefixed b _, c => b.radix.digit c
  | quoted b _, c => b.radix.digit c

/-- The integer that digits denote. -/
def value (form : IntegerForm) (digits : List Char) : ℕ :=
  digits.foldl (fun n c => n * form.base + (form.digit c).getD 0) 0

/-- The text of an integer up to its last digit. -/
def write : IntegerForm → List Char → List Char
  | decimal, digits => digits
  | prefixed b capital, digits => '0' :: b.letter capital :: digits
  | quoted b capital, digits => b.letter capital :: '\'' :: digits

/-- What is left behind the integer: of the form in quotes, the quote is a part. -/
def behind : IntegerForm → List Char → List Char
  | decimal, rest => rest
  | prefixed _ _, rest => rest
  | quoted _ _, rest => rest.tail

/-- A character that continues the digits, or makes them something else. -/
def continues (form : IntegerForm) (digits : List Char) (c : Char) : Bool :=
  (form.digit c).isSome ||
    (form = decimal &&
      (c = '.' || digits = ['0'] && c ∈ ['b', 'B', 'o', 'O', 'x', 'X']))

/-- What stands behind the digits is not accepted there. -/
def Refused : IntegerForm → List Char → Prop
  | decimal, _ => False
  | prefixed b _, rest => rest.head?.any b.radix.refused = true
  | quoted _ _, rest => rest.head? ≠ some '\''

end IntegerForm

/-- At an integer, the lexer throws, or returns one token with its value, and what comes behind the
integer is upcoming. -/
def ReadsInteger (lib : Library F) (i : Input) (form : IntegerForm) (digits rest : List Char) :
    Prop :=
  ThrowsOr (fun r => ∃ n : Int512, r.1 = ⟨.integer n, i.location⟩ ∧
    n.toInt = form.value digits ∧ r.2.upcoming = form.behind rest) (getNextToken lib i)

/-- Digits are read one after the other, and the character behind them as well. -/
theorem readWhile_eq {α : Type} {p : Char → Bool} {f : α → Char → α} {a : α} {cs rest : List Char}
    (h : i.upcoming = cs ++ rest) (hcs : ∀ c ∈ cs, p c = true)
    (hrest : ∀ c ∈ rest.head?, p c = false) :
    ∃ j : Input, j.upcoming = rest ∧ readWhile p f a i = (cs.foldl f a, j.getc.1, j.getc.2) := by
  induction cs generalizing i a with
  | nil =>
    refine ⟨i, h, ?_⟩
    rw [readWhile]
    split
    · next hnone =>
      rw [hnone]
      rfl
    · next c hc =>
      have hstop : p c = false := hrest c (by rwa [getc_fst, h] at hc)
      rw [hstop, if_neg Bool.false_ne_true, hc]
      rfl
  | cons c cs ih =>
    rw [List.forall_mem_cons] at hcs
    obtain ⟨hget, hup⟩ := getc_of_cons h
    obtain ⟨j, hj, hread⟩ := ih (a := f a c) hup hcs.2
    refine ⟨j, hj, ?_⟩
    rw [readWhile]
    split
    · next hnone =>
      rw [hget] at hnone
      cases hnone
    · next d hd =>
      rw [hget] at hd
      cases hd
      rw [if_pos hcs.1, hread]
      rfl

/-- The digits of a number, accumulated in 512 bits. -/
def accumulate (base : ℕ) (digit : Char → Option ℕ) (v : UInt512) (digits : List Char) : UInt512 :=
  digits.foldl (fun v c => (v.mul (.ofUInt64 base)).add (.ofUInt64 ((digit c).getD 0))) v

/-- The accumulator has the value of the digits modulo `2 ^ 512`. -/
theorem toNat_accumulate {base : ℕ} {digit : Char → Option ℕ} (hbase : base < 2 ^ 64)
    (hdigit : ∀ c d, digit c = some d → d < 2 ^ 64) (digits : List Char) {v : UInt512} {n : ℕ}
    (h : v.toNat ≡ n [MOD UInt512.modulus]) :
    (accumulate base digit v digits).toNat ≡
      digits.foldl (fun n c => n * base + (digit c).getD 0) n [MOD UInt512.modulus] := by
  induction digits generalizing v n with
  | nil => exact h
  | cons c digits ih =>
    apply ih
    have hd : (digit c).getD 0 < 2 ^ 64 := by
      cases hc : digit c with
      | none => simp
      | some d => exact hdigit c d hc
    rw [UInt512.toNat_add, UInt512.toNat_mul, UInt512.toNat_ofUInt64 hbase,
      UInt512.toNat_ofUInt64 hd]
    exact (Nat.mod_modEq _ _).trans
      (((Nat.mod_modEq _ _).trans (h.mul_right base)).add_right ((digit c).getD 0))

/-- A number in a base with a letter, up to its last digit. -/
theorem numberLoop_digits {r : Radix} {q found : Bool} {v : UInt512} {digits rest : List Char}
    (h : i.upcoming = digits ++ rest) (hne : digits ≠ [])
    (hdigits : ∀ c ∈ digits, (r.digit c).isSome = true) :
    ∃ j : Input, j.upcoming = rest ∧
      numberLoop r q v found i = numberLoop r q (accumulate r.base r.digit v digits) true j := by
  induction digits generalizing i v found with
  | nil => exact absurd rfl hne
  | cons c digits ih =>
    rw [List.forall_mem_cons] at hdigits
    obtain ⟨hget, hup⟩ := getc_of_cons h
    obtain ⟨d, hd⟩ := Option.isSome_iff_exists.1 hdigits.1
    have hturn : numberLoop r q v found i =
        numberLoop r q ((v.mul (.ofUInt64 r.base)).add (.ofUInt64 d)) true i.getc.2 := by
      rw [numberLoop]
      split
      · next hnone =>
        rw [hget] at hnone
        cases hnone
      · next c' hc' =>
        rw [hget] at hc'
        cases hc'
        rw [hd]
    have haccumulate : accumulate r.base r.digit v (c :: digits) =
        accumulate r.base r.digit ((v.mul (.ofUInt64 r.base)).add (.ofUInt64 d)) digits := by
      rw [accumulate, List.foldl_cons, hd]
      rfl
    rw [hturn, haccumulate]
    by_cases hnil : digits = []
    · subst hnil
      exact ⟨i.getc.2, hup, rfl⟩
    · exact ih hup hnil hdigits.2

/-- The last turn of the loop, at a character that is no digit. -/
theorem numberLoop_stop {r : Radix} {q found : Bool} {v : UInt512}
    (h : ∀ c ∈ i.upcoming.head?, r.digit c = none) :
    numberLoop r q v found i =
      if i.upcoming.head?.any r.refused then .error (.thrown .invalidNumber r.refusal)
      else numberEnd r q i >>= fun i => .ok (v, found, i) := by
  rw [numberLoop]
  split
  · next hnone =>
    rw [← getc_fst, hnone]
    rfl
  · next c hc =>
    rw [← getc_fst, hc] at h ⊢
    rw [h c rfl]
    rfl

/-- A number without quotes: what stands behind it is given back, unless it is refused. -/
theorem prefixedNumber_eq {r : Radix} {l : Input.Location} {digits rest : List Char}
    (h : i.upcoming = digits ++ rest) (hne : digits ≠ [])
    (hdigits : ∀ c ∈ digits, (r.digit c).isSome = true)
    (hrest : ∀ c ∈ rest.head?, r.digit c = none) :
    if rest.head?.any r.refused then
      (prefixedNumber r false l i : Except Failure (TokenNode F × Input)) =
        .error (.thrown .invalidNumber r.refusal)
    else ∃ j : Input, j.upcoming = rest ∧
      prefixedNumber r false l i =
        .ok (⟨(.integer ⟨accumulate r.base r.digit .zero digits⟩ : Token F), l⟩, j) := by
  obtain ⟨j, hj, hloop⟩ : ∃ j : Input, j.upcoming = rest ∧ numberLoop r false .zero false i =
      numberLoop r false (accumulate r.base r.digit .zero digits) true j :=
    numberLoop_digits h hne hdigits
  rw [← hj] at hrest
  rw [prefixedNumber, hloop, numberLoop_stop hrest, hj]
  split
  · rfl
  · obtain ⟨k, hk, hkup⟩ := j.ungetc_getc
    refine ⟨k, hkup.trans hj, ?_⟩
    rw [numberEnd, if_neg Bool.false_ne_true, hk]
    rfl

/-- A number in quotes: the quote is read as well, and there must be one. -/
theorem prefixedNumber_quoted {r : Radix} {l : Input.Location} {digits rest : List Char}
    (hquote : r.refused '\'' = false) (h : i.upcoming = digits ++ rest) (hne : digits ≠ [])
    (hdigits : ∀ c ∈ digits, (r.digit c).isSome = true)
    (hrest : ∀ c ∈ rest.head?, r.digit c = none) :
    if rest.head? = some '\'' then ∃ j : Input, j.upcoming = rest.tail ∧
      prefixedNumber r true l i =
        .ok (⟨(.integer ⟨accumulate r.base r.digit .zero digits⟩ : Token F), l⟩, j)
    else Throws (prefixedNumber r true l i : Except Failure (TokenNode F × Input)) := by
  obtain ⟨j, hj, hloop⟩ : ∃ j : Input, j.upcoming = rest ∧ numberLoop r true .zero false i =
      numberLoop r true (accumulate r.base r.digit .zero digits) true j :=
    numberLoop_digits h hne hdigits
  rw [← hj] at hrest
  rw [prefixedNumber, hloop, numberLoop_stop hrest, hj]
  split
  · next hend =>
    have hget : j.getc.1 = some '\'' := by rw [getc_fst, hj, hend]
    refine ⟨j.getc.2, by rw [upcoming_getc, hj], ?_⟩
    rw [hend, Option.any_some, hquote, if_neg Bool.false_ne_true, numberEnd, if_pos rfl, if_pos hget]
    rfl
  · next hend =>
    have hget : j.getc.1 ≠ some '\'' := by rwa [getc_fst, hj]
    split
    · exact ⟨_, _, rfl⟩
    · rw [numberEnd, if_pos rfl, if_neg hget]
      exact ⟨_, _, rfl⟩

/-- A decimal number, from behind its first digit. -/
theorem decimalNumber_eq {l : Input.Location} {c : Char} {digits rest : List Char}
    (h : i.upcoming = digits ++ rest) (hdigits : ∀ c ∈ digits, isDigit c = true)
    (hrest : ∀ c ∈ rest.head?, isDigit c = false ∧ c ≠ '.') :
    ∃ j : Input, j.upcoming = rest ∧
      decimalNumber lib l c i = .ok (⟨.integer ⟨accumulate 10 (fun c => some (digitValue c))
        (.ofUInt64 (digitValue c)) digits⟩, l⟩, j) := by
  obtain ⟨j, hj, hread⟩ := readWhile_eq
    (f := fun (value : UInt512) c => (value.mul (.ofUInt64 10)).add (.ofUInt64 (digitValue c)))
    (a := .ofUInt64 (digitValue c)) h hdigits fun c hc => (hrest c hc).1
  obtain ⟨k, hk, hkup⟩ := j.ungetc_getc
  have hperiod : j.getc.1 ≠ some '.' := by
    intro hget
    rw [getc_fst, hj] at hget
    exact (hrest '.' hget).2 rfl
  refine ⟨k, hkup.trans hj, ?_⟩
  rw [decimalNumber, hread]
  dsimp only
  rw [if_neg hperiod, hk]
  rfl

/-- A number that starts with a digit and not with a prefix is decimal. -/
theorem parseNumber_decimal {l : Input.Location} {c : Char}
    (h : c = '0' → ∀ d ∈ i.upcoming.head?, d ∉ ['b', 'B', 'o', 'O', 'x', 'X']) :
    ∃ j : Input, j.upcoming = i.upcoming ∧ parseNumber lib l c i = decimalNumber lib l c j := by
  by_cases hzero : c = '0'
  · have hnot : ∀ d ∈ ['b', 'B', 'o', 'O', 'x', 'X'], i.getc.1 ≠ some d := by
      intro d hd hget
      exact h hzero d (by rwa [getc_fst] at hget) hd
    obtain ⟨j, hj, hjup⟩ := i.ungetc_getc
    refine ⟨j, hjup, ?_⟩
    rw [parseNumber, if_pos hzero,
      if_neg (not_or.2 ⟨hnot 'b' (by simp), hnot 'B' (by simp)⟩),
      if_neg (not_or.2 ⟨hnot 'x' (by simp), hnot 'X' (by simp)⟩),
      if_neg (not_or.2 ⟨hnot 'o' (by simp), hnot 'O' (by simp)⟩), hj]
    rfl
  · exact ⟨i, rfl, by rw [parseNumber, if_neg hzero]⟩

/-- The prefix of a base. -/
theorem parseNumber_prefixed {l : Input.Location} {b : Base} {capital : Bool} {cs : List Char}
    (h : i.upcoming = b.letter capital :: cs) :
    parseNumber lib l '0' i = prefixedNumber b.radix false l i.getc.2 := by
  rw [parseNumber, if_pos rfl, (getc_of_cons h).1]
  cases b <;> cases capital <;> rfl

/-- The letter of a base in front of a quote. -/
theorem parseDefault_quoted {l : Input.Location} (b : Base) (capital : Bool) {cs : List Char}
    (h : i.upcoming = '\'' :: cs) :
    parseDefault lib l (b.letter capital) i = prefixedNumber b.radix true l i.getc.2 := by
  have hmem : b.letter capital ∈ ['b', 'B', 'e', 'E', 'o', 'O', 'x', 'X'] := by
    cases b <;> cases capital <;> decide
  rw [parseDefault, if_pos hmem, if_pos (getc_of_cons h).1]
  cases b <;> cases capital <;> rfl

/-! ### The value of an integer -/

/-- What the lexer makes of an integer: it is refused, or one token with the value modulo
`2 ^ 512`. -/
def Accumulates (lib : Library F) (i : Input) (form : IntegerForm) (digits rest : List Char) :
    Prop :=
  (form.Refused rest ∧ Throws (getNextToken lib i)) ∨
    (¬ form.Refused rest ∧ ∃ (v : UInt512) (j : Input),
      getNextToken lib i = .ok (⟨.integer ⟨v⟩, i.location⟩, j) ∧
      v.toNat ≡ form.value digits [MOD UInt512.modulus] ∧ j.upcoming = form.behind rest)

theorem digitValue_lt (c : Char) : digitValue c < 2 ^ 64 := by
  have hlt : c.toNat < 2 ^ 32 := c.val.toNat_lt
  exact (Nat.sub_le _ _).trans_lt (hlt.trans (by decide))

theorem hexdigitToNumber_lt {c : Char} {d : ℕ} (h : hexdigitToNumber c = some d) : d < 2 ^ 64 := by
  have hlt : c.toNat < 2 ^ 32 := c.val.toNat_lt
  have hten : ∀ n, c.toNat - n + 10 < 2 ^ 64 := by omega
  unfold hexdigitToNumber at h
  split_ifs at h
  · cases h
    exact digitValue_lt c
  · cases h
    exact hten _
  · cases h
    exact hten _

/-- A digit fits in a word. -/
theorem Base.digit_lt (b : Base) {c : Char} {d : ℕ} (h : b.radix.digit c = some d) :
    d < 2 ^ 64 := by
  cases b with
  | binary =>
    simp only [radix, binaryNumber] at h
    split_ifs at h
    all_goals
      cases h
      decide
  | octal =>
    simp only [radix, octalNumber, octalDigit] at h
    split_ifs at h
    cases h
    exact digitValue_lt c
  | hexadecimal => exact hexdigitToNumber_lt h

/-- The accumulator of a number in a base with a letter. -/
theorem Base.accumulate_modEq (b : Base) (digits : List Char) :
    (accumulate b.radix.base b.radix.digit .zero digits).toNat ≡
      digits.foldl (fun n c => n * b.radix.base + (b.radix.digit c).getD 0) 0
        [MOD UInt512.modulus] := by
  apply toNat_accumulate
  · cases b <;> decide
  · intro c d hd
    exact b.digit_lt hd
  · rw [UInt512.toNat_zero]

theorem accumulates_prefixed {b : Base} {capital : Bool} {digits rest : List Char}
    (h : i.upcoming = (IntegerForm.prefixed b capital).write digits ++ rest) (hne : digits ≠ [])
    (hdigits : ∀ c ∈ digits, (b.radix.digit c).isSome = true)
    (hrest : ∀ c ∈ rest.head?, b.radix.digit c = none) :
    Accumulates lib i (.prefixed b capital) digits rest := by
  have hup : i.upcoming = '0' :: b.letter capital :: (digits ++ rest) := h
  have hup' := (getc_of_cons hup).2
  have htoken : getNextToken lib i = prefixedNumber b.radix false i.location i.getc.2.getc.2 := by
    rw [getNextToken_of_word hup (by decide), parseToken_of_word (by decide),
      if_neg (by decide), if_pos (by decide), parseNumber_prefixed hup']
  have hnumber := prefixedNumber_eq (F := F) (l := i.location) (getc_of_cons hup').2 hne hdigits hrest
  rw [← htoken] at hnumber
  by_cases hrefused : rest.head?.any b.radix.refused = true
  · rw [if_pos hrefused] at hnumber
    exact .inl ⟨hrefused, _, _, hnumber⟩
  · rw [if_neg hrefused] at hnumber
    obtain ⟨j, hj, hnumber⟩ := hnumber
    exact .inr ⟨hrefused, _, j, hnumber, b.accumulate_modEq digits, hj⟩

theorem accumulates_quoted {b : Base} {capital : Bool} {digits rest : List Char}
    (h : i.upcoming = (IntegerForm.quoted b capital).write digits ++ rest) (hne : digits ≠ [])
    (hdigits : ∀ c ∈ digits, (b.radix.digit c).isSome = true)
    (hrest : ∀ c ∈ rest.head?, b.radix.digit c = none) :
    Accumulates lib i (.quoted b capital) digits rest := by
  have hup : i.upcoming = b.letter capital :: '\'' :: (digits ++ rest) := h
  have hup' := (getc_of_cons hup).2
  have htoken : getNextToken lib i = prefixedNumber b.radix true i.location i.getc.2.getc.2 := by
    rw [getNextToken_of_word hup (by cases b <;> cases capital <;> decide),
      parseToken_of_word (by cases b <;> cases capital <;> decide),
      if_neg (by cases b <;> cases capital <;> decide),
      if_neg (by cases b <;> cases capital <;> decide), parseDefault_quoted b capital hup']
  have hnumber := prefixedNumber_quoted (F := F) (l := i.location) (r := b.radix)
    (by cases b <;> decide) (getc_of_cons hup').2 hne hdigits hrest
  rw [← htoken] at hnumber
  by_cases hend : rest.head? = some '\''
  · rw [if_pos hend] at hnumber
    obtain ⟨j, hj, hnumber⟩ := hnumber
    exact .inr ⟨not_not.2 hend, _, j, hnumber, b.accumulate_modEq digits, hj⟩
  · rw [if_neg hend] at hnumber
    exact .inl ⟨hend, hnumber⟩

theorem accumulates_decimal {c : Char} {digits rest : List Char}
    (h : i.upcoming = c :: digits ++ rest) (hdigits : ∀ d ∈ c :: digits, isDigit d = true)
    (hrest : ∀ d ∈ rest.head?, isDigit d = false ∧ d ≠ '.' ∧
      (c :: digits = ['0'] → d ∉ ['b', 'B', 'o', 'O', 'x', 'X'])) :
    Accumulates lib i .decimal (c :: digits) rest := by
  rw [List.forall_mem_cons] at hdigits
  have hword : isWordCharacter c = true := by simp [isWordCharacter, hdigits.1]
  have hquote : c ≠ '\'' := by
    rintro rfl
    exact absurd hdigits.1 (by decide)
  have hup := (getc_of_cons h).2
  -- a zero is not the start of a prefix
  have hprefix : c = '0' → ∀ d ∈ i.getc.2.upcoming.head?, d ∉ ['b', 'B', 'o', 'O', 'x', 'X'] := by
    intro hzero d hd hmem
    rw [hup] at hd
    cases digits with
    | nil => exact (hrest d hd).2.2 (by rw [hzero]) hmem
    | cons e digits =>
      obtain rfl : e = d := Option.some.inj hd
      have hdigit := hdigits.2 e List.mem_cons_self
      simp only [List.mem_cons, List.not_mem_nil, or_false] at hmem
      rcases hmem with rfl | rfl | rfl | rfl | rfl | rfl
      all_goals exact absurd hdigit (by decide)
  obtain ⟨j, hj, hparse⟩ : ∃ j : Input, j.upcoming = i.getc.2.upcoming ∧
      parseNumber lib i.location c i.getc.2 = decimalNumber lib i.location c j :=
    parseNumber_decimal hprefix
  obtain ⟨k, hk, hnumber⟩ : ∃ k : Input, k.upcoming = rest ∧ decimalNumber lib i.location c j =
      .ok (⟨.integer ⟨accumulate 10 (fun d => some (digitValue d)) (.ofUInt64 (digitValue c))
        digits⟩, i.location⟩, k) :=
    decimalNumber_eq (hj.trans hup) hdigits.2 fun d hd => ⟨(hrest d hd).1, (hrest d hd).2.1⟩
  have htoken : getNextToken lib i = decimalNumber lib i.location c j := by
    rw [getNextToken_of_word h hword, parseToken_of_word hword, if_neg hquote, if_pos hdigits.1,
      hparse]
  refine .inr ⟨not_false, _, k, htoken.trans hnumber, ?_, hk⟩
  have hvalue : IntegerForm.decimal.value (c :: digits) =
      digits.foldl (fun n d => n * 10 + ((fun d => some (digitValue d)) d).getD 0)
        (digitValue c) := by
    have hdigit : ∀ d, isDigit d = true → IntegerForm.decimal.digit d = some (digitValue d) :=
      fun d hd => if_pos hd
    rw [IntegerForm.value, List.foldl_cons, Nat.zero_mul, Nat.zero_add, hdigit c hdigits.1]
    apply List.foldl_ext
    intro n d hd
    rw [hdigit d (hdigits.2 d hd)]
    rfl
  rw [hvalue]
  apply toNat_accumulate (by decide)
  · intro d n hn
    cases hn
    exact digitValue_lt d
  · rw [UInt512.toNat_ofUInt64 (digitValue_lt c)]

/-- The value of the token is the one of the integer exactly below `2 ^ 511`. -/
theorem toInt_eq_iff {v : UInt512} {n : ℕ} (h : v.toNat ≡ n [MOD UInt512.modulus]) :
    (⟨v⟩ : Int512).toInt = n ↔ n < 2 ^ 511 := by
  have hmodulus : UInt512.modulus = 2 * 2 ^ 511 := by
    rw [UInt512.modulus_eq, UInt512.bits, ← Nat.pow_succ']
  have hbmod : (⟨v⟩ : Int512).toInt = (n : ℤ).bmod UInt512.modulus := by
    apply Int512.toInt_eq_bmod
    rw [← Nat.mod_eq_of_lt v.toNat_lt, h]
    exact Int.natCast_mod n _
  have hpos := Nat.two_pow_pos 511
  rw [hbmod, hmodulus]
  generalize 2 ^ 511 = m at hpos ⊢
  constructor
  · intro heq
    have hlt := Int.bmod_lt (x := (n : ℤ)) (m := 2 * m) (by omega)
    rw [heq] at hlt
    omega
  · intro hlt
    apply Int.bmod_eq_of_le
    · omega
    · omega

/-- What the lexer makes of an integer in any form. -/
theorem accumulates (lib : Library F) {form : IntegerForm} {digits rest : List Char}
    (h : i.upcoming = form.write digits ++ rest) (hne : digits ≠ [])
    (hdigits : ∀ c ∈ digits, (form.digit c).isSome = true)
    (hrest : ∀ c ∈ rest.head?, form.continues digits c = false) :
    Accumulates lib i form digits rest := by
  have hstop : ∀ c ∈ rest.head?, form.digit c = none := by
    intro c hc
    have hcontinues := hrest c hc
    rw [IntegerForm.continues, Bool.or_eq_false_iff] at hcontinues
    simpa using hcontinues.1
  cases form with
  | prefixed b capital => exact accumulates_prefixed h hne hdigits hstop
  | quoted b capital => exact accumulates_quoted h hne hdigits hstop
  | decimal =>
    have hdigit : ∀ d, (IntegerForm.decimal.digit d).isSome = isDigit d := by
      intro d
      rw [IntegerForm.digit]
      split <;> simp_all
    obtain ⟨c, digits, rfl⟩ := List.exists_cons_of_ne_nil hne
    apply accumulates_decimal h
    · intro d hd
      rw [← hdigit]
      exact hdigits d hd
    · intro d hd
      have hcontinues := hrest d hd
      rw [IntegerForm.continues, Bool.or_eq_false_iff, hdigit, decide_eq_true rfl, Bool.true_and,
        Bool.or_eq_false_iff, decide_eq_false_iff_not] at hcontinues
      refine ⟨hcontinues.1, hcontinues.2.1, fun hzero hmem => ?_⟩
      have hletter := hcontinues.2.2
      rw [decide_eq_true hzero, decide_eq_true hmem] at hletter
      cases hletter

/-- **An integer is read exactly when it is refused or below `2 ^ 511`.** -/
theorem readsInteger_iff (lib : Library F) {i : Input} {form : IntegerForm}
    {digits rest : List Char} (h : i.upcoming = form.write digits ++ rest) (hne : digits ≠ [])
    (hdigits : ∀ c ∈ digits, (form.digit c).isSome = true)
    (hrest : ∀ c ∈ rest.head?, form.continues digits c = false) :
    ReadsInteger lib i form digits rest ↔ form.Refused rest ∨ form.value digits < 2 ^ 511 := by
  rcases accumulates lib h hne hdigits hrest with
    ⟨hrefused, hthrows⟩ | ⟨hrefused, v, j, htoken, hvalue, hj⟩
  · exact iff_of_true (.inl hthrows) (.inl hrefused)
  · rw [or_iff_right hrefused, ← toInt_eq_iff hvalue]
    constructor
    · rintro (hthrows | ⟨r, hr, n, hn, hint, -⟩)
      · rw [htoken] at hthrows
        exact absurd hthrows (not_throws_ok _)
      · rw [htoken, Except.ok.injEq] at hr
        rw [← hr, TokenNode.mk.injEq, Token.integer.injEq] at hn
        rw [hn.1]
        exact hint
    · intro hint
      exact .inr ⟨_, htoken, _, rfl, hint, hj⟩

theorem readsInteger_0x1F :
    ReadsInteger plainLibrary (.ofScript "0x1F;".toList "") (.prefixed .hexadecimal false)
      "1F".toList ";".toList :=
  (readsInteger_iff plainLibrary (by decide) (by decide) (by simp; decide) (by simp; decide)).2
    (.inr ((by decide : IntegerForm.value (.prefixed .hexadecimal false) "1F".toList < 2 ^ 8).trans_le
      (Nat.pow_le_pow_right (by decide) (by decide))))

/-- The hexadecimal digits of `2 ^ 512`. -/
def pastWords : List Char := '1' :: List.replicate 128 '0'

/-- Zeros at the end multiply the value. -/
theorem foldl_zeros (form : IntegerForm) (h : form.digit '0' = some 0) (m n : ℕ) :
    (List.replicate m '0').foldl (fun n c => n * form.base + (form.digit c).getD 0) n =
      n * form.base ^ m := by
  induction m generalizing n with
  | zero => rw [Nat.pow_zero, Nat.mul_one, List.replicate_zero, List.foldl_nil]
  | succ m ih =>
    rw [List.replicate_succ, List.foldl_cons, ih, h, Option.getD_some, Nat.add_zero, Nat.pow_succ',
      Nat.mul_assoc]

theorem value_pastWords :
    IntegerForm.value (.prefixed .hexadecimal false) pastWords = UInt512.modulus := by
  rw [IntegerForm.value, pastWords, List.foldl_cons, foldl_zeros _ (by decide), UInt512.modulus,
    ← Nat.pow_mul]
  exact (Nat.one_mul _).trans (Nat.pow_mul 2 4 128).symm

theorem digits_pastWords :
    ∀ c ∈ pastWords, (IntegerForm.digit (.prefixed .hexadecimal false) c).isSome = true := by
  intro c hc
  rw [pastWords, List.mem_cons, List.mem_replicate] at hc
  rcases hc with rfl | ⟨-, rfl⟩
  · decide
  · decide

theorem upcoming_pastWords :
    (Input.ofScript ('0' :: 'x' :: pastWords) "").upcoming = '0' :: 'x' :: pastWords := by
  apply upcoming_ofScript
  simp [pastWords]

/-- The integer `2 ^ 512` is read as zero. -/
theorem readsInteger_fails :
    (∃ v j, getNextToken plainLibrary (.ofScript ('0' :: 'x' :: pastWords) "") =
      .ok (⟨.integer ⟨v⟩, ⟨"", 1, 1⟩⟩, j) ∧ (⟨v⟩ : Int512).toInt = 0) ∧
    ¬ ReadsInteger plainLibrary (.ofScript ('0' :: 'x' :: pastWords) "")
      (.prefixed .hexadecimal false) pastWords [] := by
  have hup : (Input.ofScript ('0' :: 'x' :: pastWords) "").upcoming =
      (IntegerForm.prefixed .hexadecimal false).write pastWords ++ [] :=
    upcoming_pastWords.trans (List.append_nil _).symm
  rcases accumulates plainLibrary hup (List.cons_ne_nil _ _) digits_pastWords (by simp) with
    ⟨hrefused, -⟩ | ⟨-, v, j, htoken, hvalue, -⟩
  · cases hrefused
  have hzero : (⟨v⟩ : Int512).toInt = 0 := by
    apply (toInt_eq_iff (n := 0) _).2 (Nat.two_pow_pos 511)
    rw [value_pastWords] at hvalue
    exact hvalue.trans (Nat.mod_self _)
  refine ⟨⟨v, j, htoken, hzero⟩, ?_⟩
  rintro (hthrows | ⟨r, hr, n, hn, hint, -⟩)
  · rw [htoken] at hthrows
    exact not_throws_ok _ hthrows
  · rw [htoken, Except.ok.injEq] at hr
    rw [← hr, TokenNode.mk.injEq, Token.integer.injEq] at hn
    rw [← hn.1, hzero, value_pastWords, UInt512.modulus_eq] at hint
    have hpos := Nat.two_pow_pos UInt512.bits
    omega

end Lexer

end Prinbee
