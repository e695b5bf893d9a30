import Prinbee.Lib.NestedComment
import Prinbee.Pbql.Input

/-!
# Comments

`lexer.cpp`: the loop of `get_next_token()` that skips a comment, which starts with `/*` and may
hold other comments.  It looks for a closing pair first, then for an opening one, and keeps the
last character it read from one to the other.

Behind an opening pair it reads one more character, and drops it when it is a star: when that star
and a slash close the new level, the loop does not see it.

## Main definitions

* `skipClosing`, `skipOpening`, `skipComment` — the loops.
* `Mark`, `run` — what the loops do with the upcoming characters.
* `hasEmpty` — a comment holds an empty comment, `/**/`.

## Main results

* `skipComment_eq_run` — the loops in terms of the upcoming characters.
* `run_eq_after` — without an empty comment, the loops find the end.
* `run_overshoots` — with one, they go on behind it.
-/

namespace Prinbee

namespace Comment

open Input NestedComment

/-- The end of the script in a comment. -/
def unterminated (count : ℕ) : Failure :=
  .thrown .invalidToken ("end of script reached within a C-like comment (i.e. '*/' not found; depth: "
    ++ toString count ++ ").")

/-- How many characters are left, with the one in `c`. -/
def left (c : Option Char) (i : Input) : ℕ := c.toList.length + i.upcoming.length

theorem left_getc (i : Input) : left i.getc.1 i.getc.2 = i.upcoming.length := by
  rw [left, getc_fst, upcoming_getc]
  cases i.upcoming <;> simp [Nat.add_comm]

theorem left_some (c : Char) (i : Input) : left (some c) i = i.upcoming.length + 1 :=
  Nat.add_comm _ _

theorem left_getc_lt {c : Option Char} {d : Char} (hc : c = some d) (i : Input) :
    left i.getc.1 i.getc.2 < left c i := by
  rw [left_getc, hc, left_some]
  exact Nat.lt_succ_self _

theorem left_getc_getc_lt {c : Option Char} {d : Char} (hc : c = some d) (i : Input) :
    left i.getc.2.getc.1 i.getc.2.getc.2 < left c i := by
  rw [left_getc, upcoming_getc, hc, left_some, List.length_tail]
  omega

mutual

/-- The `for` loop of a comment. -/
def skipComment (count : ℕ) (i : Input) : Except Failure Input :=
  skipClosing count i.getc.1 i.getc.2
termination_by (i.upcoming.length, 2)
decreasing_by rw [left_getc]; decreasing_tactic

/-- `while(c == '*')`: closing pairs. -/
def skipClosing (count : ℕ) (c : Option Char) (i : Input) : Except Failure Input :=
  if hc : c = some '*' then
    if i.getc.1 = some '/' then
      if count - 1 = 0 then .ok i.getc.2
      else skipClosing (count - 1) i.getc.2.getc.1 i.getc.2.getc.2
    else skipClosing count i.getc.1 i.getc.2
  else skipOpening count c i
termination_by (left c i, 1)
decreasing_by
  · exact Prod.Lex.left _ _ (left_getc_getc_lt hc i)
  · exact Prod.Lex.left _ _ (left_getc_lt hc i)
  · exact Prod.Lex.right _ (by decide)

/-- `while(c == '/')`: opening pairs. -/
def skipOpening (count : ℕ) (c : Option Char) (i : Input) : Except Failure Input :=
  if hc : c = some '/' then
    if i.getc.1 = some '*' then skipOpening (count + 1) i.getc.2.getc.1 i.getc.2.getc.2
    else skipOpening count i.getc.1 i.getc.2
  else if c = none then .error (unterminated count)
  else skipComment count i
termination_by (left c i, 0)
decreasing_by
  · exact Prod.Lex.left _ _ (left_getc_getc_lt hc i)
  · exact Prod.Lex.left _ _ (left_getc_lt hc i)
  · obtain ⟨d, rfl⟩ := Option.ne_none_iff_exists'.1 ‹¬c = none›
    exact Prod.Lex.left _ _ (by rw [left_some]; exact Nat.lt_succ_self _)

end

/-! ### The loops over the upcoming characters -/

/-- What was just read: an ordinary character, or one that can start a pair, or an opening pair. -/
inductive Mark where
  | text
  | star
  | slash
  | opened
  deriving DecidableEq, Repr

/-- The mark of a character that is not the second one of a pair. -/
def markOf (c : Char) : Mark := if c = '*' then .star else if c = '/' then .slash else .text

/-- The loops, one character at a time: what stands behind the comment, or the depth that is
reached at the end of the script. -/
def run : Mark → ℕ → List Char → Except ℕ (List Char)
  | _, count, [] => .error count
  | .text, count, c :: cs => run (markOf c) count cs
  | .star, count, c :: cs =>
    if c = '/' then if count - 1 = 0 then .ok cs else run .text (count - 1) cs
    else run (markOf c) count cs
  | .slash, count, c :: cs =>
    if c = '*' then run .opened (count + 1) cs else run (markOf c) count cs
  -- a star behind an opening pair is lost
  | .opened, count, c :: cs => run (if c = '/' then .slash else .text) count cs

/-- The reader behind the comment, or the error. -/
def toInput (i : Input) (r : Except ℕ (List Char)) : Except Failure Input :=
  match r with
  | .ok rest => .ok (i.skipTo rest)
  | .error count => .error (unterminated count)

/-- The comment ends inside the text. -/
theorem run_suffix {m : Mark} {count : ℕ} {cs rest : List Char} (h : run m count cs = .ok rest) :
    rest <:+ cs ∧ rest.length < cs.length := by
  have hmono : ∀ {c : Char} {cs : List Char}, rest <:+ cs ∧ rest.length < cs.length →
      rest <:+ c :: cs ∧ rest.length < (c :: cs).length := fun ih =>
    ⟨ih.1.trans (List.suffix_cons _ _), Nat.lt_succ_of_lt ih.2⟩
  induction cs generalizing m count with
  | nil => cases m <;> cases h
  | cons c cs ih =>
    cases m with
    | text | opened => exact hmono (ih h)
    | star =>
      simp only [run] at h
      split at h
      · split at h
        · cases h
          exact ⟨List.suffix_cons _ _, Nat.lt_succ_self _⟩
        · exact hmono (ih h)
      · exact hmono (ih h)
    | slash =>
      simp only [run] at h
      split at h <;> exact hmono (ih h)

/-! ### The loops compute the run -/

theorem toInput_of_suffix {i : Input} {c : Char} {cs : List Char} (h : i.upcoming = c :: cs)
    {r : Except ℕ (List Char)} (hr : ∀ rest, r = .ok rest → rest <:+ cs) :
    toInput i.getc.2 r = toInput i r := by
  cases r with
  | error d => rfl
  | ok rest => rw [toInput, toInput, skipTo_getc h (hr rest rfl)]

theorem toInput_getc {i : Input} {c : Char} {cs : List Char} (h : i.upcoming = c :: cs) {m : Mark}
    {count : ℕ} : toInput i.getc.2 (run m count cs) = toInput i (run m count cs) :=
  toInput_of_suffix h fun _ hr => (run_suffix hr).1

theorem skipOpening_none (count : ℕ) (i : Input) :
    skipOpening count none i = .error (unterminated count) := by
  rw [skipOpening]
  rfl

theorem skipClosing_none (count : ℕ) (i : Input) :
    skipClosing count none i = .error (unterminated count) := by
  rw [skipClosing]
  exact skipOpening_none count i

theorem markOf_of_ne_star {c : Char} (h : c ≠ '*') :
    markOf c = if c = '/' then .slash else .text := if_neg h

section

variable {i : Input}

/-- The three loops do, with the character they are given, what `run` does. -/
def Computes (i : Input) : Prop :=
  ∀ count, skipComment count i = toInput i (run .text count i.upcoming) ∧
    (∀ c, skipClosing count (some c) i = toInput i (run (markOf c) count i.upcoming)) ∧
    ∀ c, skipOpening count (some c) i =
      toInput i (run (if c = '/' then .slash else .text) count i.upcoming)

theorem skipComment_step (ih : i.upcoming ≠ [] → Computes i.getc.2) (count : ℕ) :
    skipComment count i = toInput i (run .text count i.upcoming) := by
  rw [skipComment]
  cases h : i.upcoming with
  | nil =>
    rw [getc_of_nil h, skipClosing_none]
    rfl
  | cons c cs =>
    have hi := (ih (by rw [h]; exact List.cons_ne_nil c cs) count).2.1 c
    rw [upcoming_getc, h, List.tail_cons, toInput_getc h] at hi
    rw [getc_fst, h, List.head?_cons, hi]
    rfl

theorem skipOpening_step (ih : i.upcoming ≠ [] → Computes i.getc.2)
    (ih' : i.getc.2.upcoming ≠ [] → Computes i.getc.2.getc.2) (count : ℕ) (c : Char) :
    skipOpening count (some c) i =
      toInput i (run (if c = '/' then .slash else .text) count i.upcoming) := by
  rw [skipOpening]
  by_cases hc : c = '/'
  · rw [dif_pos (by rw [hc]), if_pos hc]
    cases h : i.upcoming with
    | nil =>
      rw [getc_of_nil h, if_neg (Option.some_ne_none _).symm, skipOpening_none]
      rfl
    | cons d cs =>
      have hne : i.upcoming ≠ [] := by rw [h]; exact List.cons_ne_nil d cs
      have hup : i.getc.2.upcoming = cs := by rw [upcoming_getc, h, List.tail_cons]
      rw [getc_fst, h, List.head?_cons]
      by_cases hd : d = '*'
      · subst hd
        rw [if_pos rfl]
        cases cs with
        | nil =>
          rw [getc_of_nil hup, skipOpening_none]
          rfl
        | cons e es =>
          have hi := (ih' (by rw [hup]; exact List.cons_ne_nil e es) (count + 1)).2.2 e
          rw [upcoming_getc, hup, List.tail_cons, toInput_getc hup] at hi
          rw [getc_fst, hup, List.head?_cons, hi]
          exact toInput_getc h (m := .opened)
      · have hi := (ih hne count).2.2 d
        rw [hup, toInput_getc h] at hi
        rw [if_neg (by simpa using hd), hi, run, if_neg hd, markOf_of_ne_star hd]
  · rw [dif_neg (by simpa using hc), if_neg (by simp), if_neg hc]
    exact skipComment_step ih count

theorem skipClosing_step
    (hopening : ∀ count c, skipOpening count (some c) i =
      toInput i (run (if c = '/' then .slash else .text) count i.upcoming))
    (ih : i.upcoming ≠ [] → Computes i.getc.2) (count : ℕ) (c : Char) :
    skipClosing count (some c) i = toInput i (run (markOf c) count i.upcoming) := by
  rw [skipClosing]
  by_cases hc : c = '*'
  · subst hc
    rw [dif_pos rfl]
    cases h : i.upcoming with
    | nil =>
      rw [getc_of_nil h, if_neg (Option.some_ne_none _).symm, skipClosing_none]
      rfl
    | cons d cs =>
      have hne : i.upcoming ≠ [] := by rw [h]; exact List.cons_ne_nil d cs
      have hup : i.getc.2.upcoming = cs := by rw [upcoming_getc, h, List.tail_cons]
      rw [getc_fst, h, List.head?_cons]
      by_cases hd : d = '/'
      · subst hd
        rw [if_pos rfl, ← skipComment, (ih hne (count - 1)).1, hup, toInput_getc h]
        have hrun : run (markOf '*') count ('/' :: cs) =
            if count - 1 = 0 then .ok cs else run .text (count - 1) cs := rfl
        rw [hrun]
        split
        · rw [toInput, ← skipTo_getc h (List.suffix_refl cs), ← hup, skipTo_self]
        · rfl
      · have hi := (ih hne count).2.1 d
        rw [hup, toInput_getc h] at hi
        have hrun : run (markOf '*') count (d :: cs) = run (markOf d) count cs := if_neg hd
        rw [if_neg (by simpa using hd), hi, hrun]
  · rw [dif_neg (by simpa using hc), hopening, markOf_of_ne_star hc]

theorem computes (i : Input) : Computes i := by
  induction hn : i.upcoming.length using Nat.strong_induction_on generalizing i with
  | _ n ih =>
    have hnext : ∀ j : Input, j.upcoming ≠ [] → j.upcoming.length ≤ n → Computes j.getc.2 := by
      intro j hj hle
      refine ih _ ?_ j.getc.2 rfl
      have hpos := List.length_pos_of_ne_nil hj
      rw [upcoming_getc, List.length_tail]
      omega
    have hnext' : i.getc.2.upcoming ≠ [] → Computes i.getc.2.getc.2 := by
      intro h
      refine hnext _ h ?_
      rw [upcoming_getc, List.length_tail]
      omega
    have hcomment := skipComment_step fun h => hnext i h hn.le
    have hopening := skipOpening_step (fun h => hnext i h hn.le) hnext'
    have hclosing := skipClosing_step hopening fun h => hnext i h hn.le
    exact fun count => ⟨hcomment count, hclosing count, hopening count⟩

/-- The loops in terms of the upcoming characters. -/
theorem skipComment_eq_run (count : ℕ) (i : Input) :
    skipComment count i = toInput i (run .text count i.upcoming) :=
  (computes i count).1

end

/-! ### The end that the loops find -/

theorem run_open (count : ℕ) (cs : List Char) :
    run .text count ('/' :: '*' :: cs) = run .opened (count + 1) cs := rfl

theorem run_close {count : ℕ} (h : 1 < count) (cs : List Char) :
    run .text count ('*' :: '/' :: cs) = run .text (count - 1) cs :=
  if_neg (by omega)

theorem run_close_one (cs : List Char) : run .text 1 ('*' :: '/' :: cs) = .ok cs := rfl

theorem run_skipped {c : Char} {cs : List Char} (h : Skipped '/' '*' c cs) (count : ℕ) :
    run .text count (c :: cs) = run .text count cs := by
  cases cs with
  | nil => exact Mark.casesOn (markOf c) rfl rfl rfl rfl
  | cons d cs =>
    simp only [Skipped, List.head?_cons, Option.some.injEq, not_and] at h
    show run (markOf c) count (d :: cs) = run (markOf d) count cs
    unfold markOf
    split
    · rename_i hc
      exact if_neg (h.2 hc)
    · split
      · rename_i hc
        exact if_neg (h.1 hc)
      · rfl

/-- A star behind an opening pair is lost, everything else is read. -/
theorem run_opened (count : ℕ) (cs : List Char) :
    (∃ ds, cs = '*' :: ds ∧ run .opened count cs = run .text count ds) ∨
      (cs.head? ≠ some '*' ∧ run .opened count cs = run .text count cs) := by
  cases cs with
  | nil => exact Or.inr ⟨by simp, rfl⟩
  | cons d cs =>
    by_cases hd : d = '*'
    · subst hd
      exact Or.inl ⟨cs, rfl, rfl⟩
    · refine Or.inr ⟨by simpa using hd, ?_⟩
      show run (if d = '/' then .slash else .text) count cs = run (markOf d) count cs
      rw [markOf_of_ne_star hd]

theorem skipped_star {cs : List Char} (h : cs.head? ≠ some '/') : Skipped '/' '*' '*' cs :=
  ⟨fun hp => absurd hp.1 (by decide), fun hp => h hp.2⟩

theorem skipped_slash {cs : List Char} (h : cs.head? ≠ some '*') : Skipped '/' '*' '/' cs :=
  ⟨fun hp => h hp.2, fun hp => absurd hp.1 (by decide)⟩

/-- Where the loops stand when they missed an end, and where they should stand: at the same place,
or before a slash that they take for the first half of a pair, or behind a star that they lost. -/
inductive Behind : List Char → List Char → Prop where
  | same (cs : List Char) : Behind cs cs
  | slash (cs : List Char) : Behind cs ('/' :: cs)
  | star (cs : List Char) : Behind ('*' :: cs) cs

/-- Once they missed an end, the loops stay too deep: they end later than the comment. -/
theorem run_behind {k count : ℕ} {as cs r : List Char} (hk : 1 ≤ k) (hcount : k < count)
    (hb : Behind as cs) (h : run .text count cs = .ok r) :
    ∃ rest, after '/' '*' k as = some rest ∧ r.length < rest.length := by
  have hne : '/' ≠ '*' := by decide
  induction hn : as.length + cs.length using Nat.strong_induction_on
    generalizing k count as cs with
  | _ n ih =>
    subst hn
    cases hb with
    | same =>
      rcases scan_cases (a := '/') (b := '*') as with rfl | ⟨ds, rfl⟩ | ⟨ds, rfl⟩ | ⟨c, ds, rfl, hs⟩
      · cases h
      · rw [run_open] at h
        rw [after_open]
        rcases run_opened (count + 1) ds with ⟨es, rfl, he⟩ | ⟨-, he⟩
        · rw [he] at h
          exact ih _ (by simp only [List.length_cons]; omega) (by omega) (by omega) (.star es) h rfl
        · rw [he] at h
          exact ih _ (by simp only [List.length_cons]; omega) (by omega) (by omega) (.same ds) h rfl
      · rw [run_close (by omega)] at h
        rcases Nat.eq_or_lt_of_le hk with rfl | hlt
        · exact ⟨ds, after_close_one hne, (run_suffix h).2⟩
        · rw [after_close hne hlt]
          exact ih _ (by simp only [List.length_cons]; omega) (by omega) (by omega) (.same ds) h rfl
      · rw [run_skipped hs] at h
        rw [after_skipped hs]
        exact ih _ (by simp only [List.length_cons]; omega) hk hcount (.same ds) h rfl
    | slash =>
      by_cases hstar : as.head? = some '*'
      · obtain ⟨ds, rfl⟩ := List.head?_eq_some_iff.1 hstar
        rw [run_open] at h
        rcases run_opened (count + 1) ds with ⟨es, rfl, he⟩ | ⟨-, he⟩
        · rw [he] at h
          rw [after_skipped (skipped_star (by simp))]
          exact ih _ (by simp only [List.length_cons]; omega) hk (by omega) (.star es) h rfl
        · rw [he] at h
          exact ih _ (by simp only [List.length_cons]; omega) hk (by omega) (.star ds) h rfl
      · rw [run_skipped (skipped_slash hstar)] at h
        exact ih _ (by simp only [List.length_cons]; omega) hk hcount (.same as) h rfl
    | star =>
      by_cases hslash : cs.head? = some '/'
      · obtain ⟨ds, rfl⟩ := List.head?_eq_some_iff.1 hslash
        rcases Nat.eq_or_lt_of_le hk with rfl | hlt
        · exact ⟨ds, after_close_one hne, (run_suffix (m := .slash) h).2⟩
        · rw [after_close hne hlt]
          exact ih _ (by simp only [List.length_cons]; omega) (by omega) (by omega) (.slash ds) h rfl
      · rw [after_skipped (skipped_star hslash)]
        exact ih _ (by simp only [List.length_cons]; omega) hk hcount (.same cs) h rfl

theorem take_two_iff {a b : Char} {cs : List Char} :
    (a :: cs).take 2 = [a, b] ↔ cs.head? = some b := by
  cases cs <;> simp

/-- Without an empty comment, the loops find the end of the comment. -/
theorem run_eq_after {level : ℕ} {cs : List Char} (hlevel : 1 ≤ level)
    (h : holdsEmpty '/' '*' level cs = false) :
    (run .text level cs).toOption = after '/' '*' level cs := by
  have hne : '/' ≠ '*' := by decide
  induction hn : cs.length using Nat.strong_induction_on generalizing level cs with
  | _ n ih =>
    subst hn
    rcases scan_cases (a := '/') (b := '*') cs with rfl | ⟨ds, rfl⟩ | ⟨ds, rfl⟩ | ⟨c, ds, rfl, hs⟩
    · rfl
    · rw [holdsEmpty_open, Bool.or_eq_false_iff, decide_eq_false_iff_not] at h
      rw [run_open, after_open]
      rcases run_opened (level + 1) ds with ⟨es, rfl, he⟩ | ⟨-, he⟩
      · have hs : Skipped '/' '*' '*' es := skipped_star (mt take_two_iff.2 h.1)
        rw [holdsEmpty_skipped hs] at h
        rw [he, after_skipped hs]
        exact ih _ (by simp only [List.length_cons]; omega) (by omega) h.2 rfl
      · rw [he]
        exact ih _ (by simp only [List.length_cons]; omega) (by omega) h.2 rfl
    · rcases Nat.eq_or_lt_of_le hlevel with rfl | hlt
      · rw [run_close_one, after_close_one hne]
        rfl
      · rw [holdsEmpty_close hne hlt] at h
        rw [run_close hlt, after_close hne hlt]
        exact ih _ (by simp only [List.length_cons]; omega) (by omega) h rfl
    · rw [holdsEmpty_skipped hs] at h
      rw [run_skipped hs, after_skipped hs]
      exact ih _ (by simp only [List.length_cons]; omega) hlevel h rfl

/-- The loops never end before the comment, and when it holds an empty comment they end behind
it. -/
theorem run_overshoots {level : ℕ} {cs r : List Char} (hlevel : 1 ≤ level)
    (h : run .text level cs = .ok r) :
    ∃ rest, after '/' '*' level cs = some rest ∧
      (holdsEmpty '/' '*' level cs = true → r.length < rest.length) := by
  have hne : '/' ≠ '*' := by decide
  induction hn : cs.length using Nat.strong_induction_on generalizing level cs with
  | _ n ih =>
    subst hn
    rcases scan_cases (a := '/') (b := '*') cs with rfl | ⟨ds, rfl⟩ | ⟨ds, rfl⟩ | ⟨c, ds, rfl, hs⟩
    · cases h
    · rw [run_open] at h
      rw [holdsEmpty_open, after_open]
      rcases run_opened (level + 1) ds with ⟨es, rfl, he⟩ | ⟨hds, he⟩
      · rw [he] at h
        by_cases hslash : es.head? = some '/'
        · -- the end of the empty comment is missed
          obtain ⟨fs, rfl⟩ := List.head?_eq_some_iff.1 hslash
          rw [after_close hne (by omega)]
          obtain ⟨rest, hrest, hlt⟩ := run_behind hlevel (Nat.lt_succ_self level) (.slash fs) h
          exact ⟨rest, hrest, fun _ => hlt⟩
        · have hs := skipped_star hslash
          rw [after_skipped hs, holdsEmpty_skipped hs, decide_eq_false (mt take_two_iff.1 hslash),
            Bool.false_or]
          exact ih _ (by simp only [List.length_cons]; omega) (by omega) h rfl
      · rw [he] at h
        have htake : ds.take 2 ≠ ['*', '/'] := by
          intro htake
          refine hds ?_
          cases ds with
          | nil => cases htake
          | cons d ds => exact congrArg some (List.cons.inj htake).1
        rw [decide_eq_false htake, Bool.false_or]
        exact ih _ (by simp only [List.length_cons]; omega) (by omega) h rfl
    · rcases Nat.eq_or_lt_of_le hlevel with rfl | hlt
      · exact ⟨ds, after_close_one hne, fun he => absurd he (by simp [holdsEmpty_close_one hne])⟩
      · rw [run_close hlt] at h
        rw [holdsEmpty_close hne hlt, after_close hne hlt]
        exact ih _ (by simp only [List.length_cons]; omega) (by omega) h rfl
    · rw [run_skipped hs] at h
      rw [holdsEmpty_skipped hs, after_skipped hs]
      exact ih _ (by simp only [List.length_cons]; omega) hlevel h rfl

end Comment

end Prinbee
