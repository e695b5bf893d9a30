import Prinbee.Pbql.ExpressionReads

/-!
# The parser reads the grammar of expressions

Each expression of the grammar, spelled by its tokens, is read by the parser, and what the parser
returns is the tree of the expression, folded from the leaves to the root.

## Main definitions

* `Expression.Read` — what is proved of an expression by induction.

## Main results

* `Expression.loops_binary`, `Expression.loops_concat`, `Expression.reads_between` and the others —
  an operator, from its operands.
* `Expression.read_of_leveled` — each expression of the grammar is read.
* `Expression.parseTree_of_spells` — **the parser returns the tree of the expression**.
-/

namespace Prinbee

namespace Expression

open TokenStream Reader
open Lexer (Token TokenNode)
open Prinbee.Parser (Parsing)

section

variable {F : Type} {lib : Library F} {s e l r : Syntax F} {d k : ℕ} {ts ts₁ rest left : Tokens F}
  {n : TokenNode F} {v w x : ExprTree F} {c : Recursion F}

/-! ### Operators before their operand -/

/-- Signs that follow each other. -/
theorem run_signs {more : List Bool} (h : Signs more ts rest) (hnext : rest.next = .ok (n, left))
    (hstop : signOfToken n = none) (b : Bool) :
    (repeatWhile (fun _ n => (signOfToken n).isSome)
      (fun negate (n : TokenNode F) => pure (negate ^^ (signOfToken n).getD false)) b).run ts =
        .ok (more.foldl (fun negate m => negate ^^ m) b, rest) := by
  induction more generalizing ts b with
  | nil =>
    cases h
    exact run_repeatWhile_of_stops hnext (by simp [hstop])
  | cons m more ih =>
    obtain ⟨ts₁, ⟨n', rfl, hn⟩, h⟩ := h
    rw [run_repeatWhile_turn (r := b ^^ m) (by simp [hn]) (by rw [hn]; rfl), ih h]
    rfl

theorem reads_sign (hlib : lib.Lawful) {minus : Bool} {more : List Bool}
    (hl : Leveled lib (.sign minus more e)) (hp : Plain lib (.sign minus more e))
    (h : Reads lib e 12) : Reads lib (.sign minus more e) 11 := by
  rintro d ts rest x hd ⟨ts₁, hsigns, hs⟩ he hfollow
  rw [Syntax.fold_sign_eq_some] at he
  obtain ⟨v, he, hfold⟩ := he
  have hlt := signs_length hsigns
  have hread := h (d := d) (by omega) hs he
    (hfollow.mono (by rw [Syntax.bound_congr rfl]; exact e.bound_mono (Nat.le_succ 11)))
  obtain ⟨n', left', rfl, hstarts⟩ := starts_of_spells hlib hl.1 hp hs (k := 11) hl.2
  have hrun := run_signs hsigns (n := n') rfl (hstarts.2.2 rfl) false
  obtain ⟨ts₂, ⟨n, rfl, hn⟩, -⟩ := hsigns
  show (parseExprUnary lib (calls lib d)).run _ = _
  rw [parseExprUnary, run_bind, run_peek_cons]
  simp only [hn, Option.isSome_some, if_true]
  rw [run_bind, hrun]
  simp only
  rw [run_bind, show (parseExprPostfix lib (calls lib d)).run _ = _ from hread]
  unfold foldSign at hfold
  split at hfold
  · cases hfold
  · next hrefused =>
    rw [Option.not_isSome_iff_eq_none] at hrefused
    simp only [hrefused, List.foldl_cons, Bool.false_bne]
    exact run_lift_eq_ok.2 ⟨x, Syntax.toOption_eq_some.1 hfold, rfl⟩

/-- `NOT` again and again. -/
theorem run_nots {m : ℕ} (h : Nots lib m ts rest) (hnext : rest.next = .ok (n, left))
    (hstop : lib.keyword n ≠ some "NOT") (b : Bool) :
    (repeatWhile (fun _ n => lib.keyword n = some "NOT")
      (fun logical_not (_ : TokenNode F) => pure !logical_not) b).run ts =
        .ok (b ^^ decide (m % 2 = 1), rest) := by
  induction m generalizing ts b with
  | zero =>
    cases h
    rw [run_repeatWhile_of_stops hnext (by simp [hstop])]
    simp
  | succ m ih =>
    obtain ⟨ts₁, ⟨n', rfl, hn⟩, h⟩ := h
    rw [run_repeatWhile_turn (r := !b) (by simp [hn]) rfl, ih h]
    have hparity : ((m + 1) % 2 = 1) ↔ ¬(m % 2 = 1) := by omega
    rw [decide_eq_decide.2 hparity, decide_not]
    cases b <;> cases decide (m % 2 = 1) <;> rfl

theorem reads_not (hlib : lib.Lawful) {more : ℕ} (hl : Leveled lib (.not more e))
    (hp : Plain lib (.not more e)) (h : Reads lib e 4) : Reads lib (.not more e) 3 := by
  rintro d ts rest x hd ⟨ts₁, hnots, hs⟩ he hfollow
  rw [Syntax.fold_not_eq_some] at he
  obtain ⟨v, he, hfold⟩ := he
  have hlt := nots_length hnots
  have hread := h (d := d) (by omega) hs he
    (hfollow.mono (by rw [Syntax.bound_congr rfl]; exact e.bound_mono (Nat.le_succ 3)))
  obtain ⟨n', left', rfl, hstarts⟩ := starts_of_spells hlib hl.1 hp hs (k := 3) hl.2
  have hrun := run_nots hnots (n := n') rfl (hstarts.1 rfl) false
  obtain ⟨ts₂, ⟨n, rfl, hn⟩, -⟩ := hnots
  show (parseExprLogicalNot lib (calls lib d)).run _ = _
  rw [parseExprLogicalNot, run_bind, run_peek_cons]
  simp only [if_pos hn]
  rw [run_bind, hrun]
  simp only
  rw [run_bind, show (parseExprIs lib (calls lib d)).run _ = _ from hread]
  have hparity : ((more + 1) % 2 = 1) ↔ (more % 2 = 0) := by omega
  simp only [Bool.false_bne, hparity]
  exact run_lift_eq_ok.2 ⟨x, hfold, rfl⟩

theorem reads_ahead {func : Function} (h : Reads lib e 7) : Reads lib (.ahead func e) 7 := by
  rintro d ts rest x hd ⟨ts₁, ⟨n, rfl, hn⟩, hs⟩ he hfollow
  rw [Syntax.fold_ahead_eq_some] at he
  obtain ⟨v, he, hfold⟩ := he
  have hcall := h.callOther (d := d) hd hs he (by rwa [Syntax.bound_congr rfl] at hfollow)
  show (parseExprOther lib (calls lib d)).run _ = _
  rw [parseExprOther, run_bind, run_peek_cons]
  simp only [hn, run_bind, run_take_cons, hcall]
  exact run_lift_eq_ok.2 ⟨x, hfold, rfl⟩

/-! ### Operators between operands -/

/-- The operator of `||` is none of the others. -/
theorem Operator.otherOf_ne_concat {o : Operator} (h : o.IsToken lib n) (h7 : o.level = 7) :
    otherOf n ≠ some .concat := by
  cases o with
  | integer t | regularExpression t =>
    intro hconcat
    rw [show otherOf n = _ from h] at hconcat
    cases hconcat
  | _ => cases h7

/-- One more operator of a level. -/
theorem run_levelRest_binary {o : Operator} (hn : o.IsToken lib n)
    (hr : (reader lib c (o.level + 1)).run left = .ok (w, rest)) (hfold : o.fold lib v w = some x) :
    (levelRest lib c v o.level).run (.cons n left) = (levelRest lib c x o.level).run rest := by
  have hlift : ∀ {y : Except Failure (ExprTree F)}, y.toOption = some x →
      (lift y : Parsing F (ExprTree F)).run rest = .ok (x, rest) :=
    fun h => run_lift_eq_ok.2 ⟨x, Syntax.toOption_eq_some.1 h, rfl⟩
  cases o with
  | logicalOr => exact run_chain_next (if_pos hn) hr (hlift hfold)
  | logicalAnd => exact run_chain_next (if_pos hn) hr (hlift hfold)
  | comparison t => exact run_chain_next hn hr (hlift hfold)
  | integer t =>
    have hn : otherOf n = some (.integer t) := hn
    refine run_repeatWhile_turn (by simp [hn]) ?_
    simp only [otherTurn, hn]
    rw [run_bind, show (parseExprAdditive lib c).run left = _ from hr]
    exact hlift hfold
  | regularExpression b =>
    have hn : otherOf n = some (.regularExpression b) := hn
    refine run_repeatWhile_turn (by simp [hn]) ?_
    simp only [otherTurn, hn]
    rw [run_bind, show (parseExprAdditive lib c).run left = _ from hr]
    exact hlift hfold
  | additive t =>
    refine run_chain_next hn hr ?_
    simp only [Operator.fold] at hfold
    split at hfold
    · cases hfold
    · next hrefused =>
      rw [if_neg hrefused]
      exact hlift hfold
  | multiplicative t => exact run_chain_next hn hr (hlift hfold)
  | power => exact run_chain_next hn hr (hlift hfold)

theorem loops_binary {o : Operator} (hp : Plain lib (.binary o l r)) (h : Loops lib l o.level)
    (hr : Reads lib r (o.level + 1)) : Loops lib (.binary o l r) o.level := by
  rintro d ts rest x hd ⟨ts₁, ts₂, hs, ⟨n, rfl, hn⟩, hsr⟩ he hfollow -
  rw [Syntax.fold_binary_eq_some] at he
  obtain ⟨v, w, he, her, hfold⟩ := he
  have hlt := spells_length hs
  rw [length] at hlt
  have hlevel : tokenLevel lib n < l.bound (o.level + 1) := by
    rw [Syntax.bound_of_closed hp.2.2, tokenLevel_of_isToken hn]
    exact Nat.lt_succ_self _
  rw [h hd hs he (follow_cons hlevel)]
  · exact run_levelRest_binary hn (hr (by omega) hsr her hfollow) hfold
  · intro h7 _ n' left' hnext
    cases hnext
    exact Operator.otherOf_ne_concat hn h7

/-- The next operand of `||`. -/
theorem run_concatRest_next {ps qs : List (ExprTree F)} (hn : otherOf n = some .concat)
    (hr : (reader lib c 8).run left = .ok (w, rest)) (hq : concatParam lib ps w = .ok qs) :
    (concatRest lib c ps).run (.cons n left) = (concatRest lib c qs).run rest := by
  have hturn : (do
      let n ← parseExprAdditive lib c
      lift (concatParam lib ps n)).run left = .ok (qs, rest) := by
    rw [run_bind, show (parseExprAdditive lib c).run left = _ from hr]
    exact run_lift_eq_ok.2 ⟨qs, hq, rfl⟩
  rw [concatRest, concatRest, run_bind, run_bind, run_repeatWhile_turn (by simp [hn]) hturn]

/-- The first operator `||`. -/
theorem run_levelRest_concat (hn : otherOf n = some .concat) :
    (levelRest lib c v 7).run (.cons n left) = (concatRest lib c [v]).run (.cons n left) := by
  rw [levelRest, run_repeatWhile_cons, if_pos (by simp [hn]), run_bind]
  rw [concatRest, run_bind, run_repeatWhile_cons, if_pos (by simp [hn]), run_bind]
  simp only [otherTurn, hn]
  rw [run_bind, run_bind]
  cases (parseExprAdditive lib c).run left with
  | error e => rfl
  | ok r =>
    simp only
    rw [run_bind, run_lift]
    cases concatParam lib [v] r.1 with
    | error e => rfl
    | ok ps =>
      simp only
      rw [run_bind]
      cases (repeatWhile (fun _ n => otherOf n = some .concat)
        (fun params _ => do
          let n ← parseExprAdditive lib c
          lift (concatParam lib params n)) ps).run r.2 with
      | error e => rfl
      | ok s =>
        simp only
        rw [run_bind]
        rfl

/-- The end of the operators `||`. -/
theorem run_concatRest_stops {ps : List (ExprTree F)} (hnext : ts.next = .ok (n, left))
    (hn : otherOf n ≠ some .concat) (hx : concatCall lib ps = .ok x) :
    (concatRest lib c ps).run ts = (levelRest lib c x 7).run ts := by
  rw [concatRest, run_bind, run_repeatWhile_of_stops hnext (by simp [hn])]
  simp only
  rw [run_bind, run_lift_eq_ok.2 ⟨x, hx, rfl⟩]

theorem Loops.operands (h : Loops lib s 7) (hs : s.isConcat = false) : ReadsOperands lib s := by
  intro d ts rest n ps hclosed hd hsp he hn
  rw [Syntax.operands_of_not_concat hs, Option.map_eq_some_iff] at he
  obtain ⟨v, he, rfl⟩ := he
  have hlevel : tokenLevel lib n < s.bound 8 := by
    rw [Syntax.bound_of_closed hclosed, tokenLevel_of_otherOf (Option.isSome_of_eq_some hn)]
    exact Nat.lt_succ_self 7
  rw [h hd hsp he (follow_cons hlevel) (by simp [hs])]
  exact run_levelRest_concat hn

theorem readsOperands_concat (hp : Plain lib (.concat l r)) (h : ReadsOperands lib l)
    (hr : Reads lib r 8) : ReadsOperands lib (.concat l r) := by
  rintro d ts rest n qs hclosed hd ⟨ts₁, ts₂, hs, ⟨m, rfl, hm⟩, hsr⟩ he hn
  rw [Syntax.operands_concat_eq_some] at he
  obtain ⟨ps, w, he, her, hq⟩ := he
  have hlt := spells_length hs
  rw [length] at hlt
  have hconcat : otherOf m = some .concat := by simp [otherOf, hm]
  have hclosed : r.isOpen = false := hclosed
  have hlevel : tokenLevel lib n < r.bound 8 := by
    rw [Syntax.bound_of_closed hclosed, tokenLevel_of_otherOf (Option.isSome_of_eq_some hn)]
    exact Nat.lt_succ_self 7
  rw [h hp.2.2 hd hs he hconcat]
  exact run_concatRest_next hconcat (hr (by omega) hsr her (follow_cons hlevel)) hq

theorem loops_concat (hp : Plain lib (.concat l r)) (h : ReadsOperands lib l) (hr : Reads lib r 8) :
    Loops lib (.concat l r) 7 := by
  rintro d ts rest x hd ⟨ts₁, ts₂, hs, ⟨m, rfl, hm⟩, hsr⟩ he hfollow hnot
  rw [Syntax.fold_concat_eq_some] at he
  obtain ⟨ps, w, qs, he, her, hq, hx⟩ := he
  have hlt := spells_length hs
  rw [length] at hlt
  have hconcat : otherOf m = some .concat := by simp [otherOf, hm]
  rw [h hp.2.2 hd hs he hconcat,
    run_concatRest_next hconcat (hr (by omega) hsr her hfollow) hq]
  obtain ⟨n, left, hnext, -⟩ := hfollow
  exact run_concatRest_stops hnext (hnot rfl rfl n left hnext) hx

/-! ### Conditions -/

/-- An optional `NOT` in front of another word. -/
theorem run_negated {negate : Bool} (h : Negated lib negate ts rest)
    (hnext : rest.next = .ok (n, left)) (hn : lib.keyword n ≠ some "NOT") :
    (takeIf fun n => lib.keyword n = some "NOT").run ts = .ok (negate, rest) := by
  cases negate with
  | false =>
    cases h
    rw [run_takeIf hnext, if_neg (by simpa using hn)]
  | true =>
    obtain ⟨m, rfl, hm⟩ := h
    rw [run_takeIf rfl, if_pos (by simpa using hm)]

theorem follow_of_negated {negate : Bool} {word : String} (h : Negated lib negate ts ts₁)
    (hw : Word lib word ts₁ rest) (hk : 6 < k) (hword : wordLevel word < k) : Follow lib k ts := by
  cases negate with
  | false =>
    cases h
    exact follow_of_word hw hword
  | true => exact follow_of_word h hk

/-- The first operand of a condition. -/
theorem run_matching (hlib : lib.Lawful) (hl : Leveled lib e) (hp : Plain lib e)
    (h : Reads lib e 7) (hclosed : e.isOpen = false) (hd : ts.length ≤ d)
    (hs : Spells lib e ts ts₁) (he : e.fold lib = some v) (hfollow : Follow lib 7 ts₁) :
    (reader lib (calls lib d) 6).run ts = (matchingTail lib (calls lib d) v).run ts₁ := by
  obtain ⟨n, left, hts, -⟩ := startsWith_of_spells hlib hl hp hs
  have hstarts : Starts lib 6 n := ⟨by simp, by simp, by simp⟩
  exact run_reader_of_next (Nat.le_of_ble_eq_true rfl) (Nat.le_of_ble_eq_true rfl) hts hstarts
    (h hd hs he (by rwa [Syntax.bound_of_closed hclosed]))

theorem reads_between (hlib : lib.Lawful) {negate : Bool} {low high : Syntax F}
    (hl : Leveled lib (.between negate e low high)) (hp : Plain lib (.between negate e low high))
    (h : Reads lib e 7) (hlow : Reads lib low 7) (hhigh : Reads lib high 7) :
    Reads lib (.between negate e low high) 6 := by
  rintro d ts rest x hd ⟨ts₁, ts₂, ts₃, ts₄, ts₅, hs, hnot, hbetween, hsl, hand, hsh⟩ he hfollow
  rw [Syntax.fold_between_eq_some] at he
  obtain ⟨v, b1, b2, he, hel, heh, hfold⟩ := he
  obtain ⟨hpe, hpl, hph, hce, hcl⟩ := hp
  have hlt := spells_length hs
  have hlt₁ := negated_length hnot
  have hlt₂ := hbetween.length
  have hlt₃ := spells_length hsl
  have hlt₄ := hand.length
  have hfirst := follow_of_negated hnot hbetween (k := 7) (by decide) (by decide)
  have hreadlow := hlow (d := d) (by omega) hsl hel
    (by rw [Syntax.bound_of_closed hcl]; exact follow_of_word hand (by decide))
  have hreadhigh := hhigh (d := d) (by omega) hsh heh
    (hfollow.mono (by rw [Syntax.bound_congr rfl]; exact high.bound_mono (Nat.le_succ 6)))
  obtain ⟨m, rfl, hm⟩ := hbetween
  obtain ⟨a, rfl, ha⟩ := hand
  rw [run_matching hlib hl.1 hpe h hce hd hs he hfirst, matchingTail, run_bind,
    run_negated hnot rfl (by simp [hm])]
  simp only
  rw [run_bind, run_peek_cons]
  simp only [if_pos hm]
  rw [run_bind, run_take_cons]
  simp only
  rw [betweenTail, run_bind, show (parseExprOther lib (calls lib d)).run ts₃ = _ from hreadlow]
  simp only
  rw [run_bind, run_peek_cons]
  simp only [if_pos ha]
  rw [run_bind, run_take_cons]
  simp only
  rw [run_bind, show (parseExprOther lib (calls lib d)).run ts₅ = _ from hreadhigh]
  exact run_lift_eq_ok.2 ⟨x, hfold, rfl⟩

theorem reads_like (hlib : lib.Lawful) {insensitive negate : Bool} {pattern : Syntax F}
    (hl : Leveled lib (.like insensitive negate e pattern))
    (hp : Plain lib (.like insensitive negate e pattern)) (h : Reads lib e 7)
    (hpattern : Reads lib pattern 7) : Reads lib (.like insensitive negate e pattern) 6 := by
  rintro d ts rest x hd ⟨ts₁, ts₂, ts₃, hs, hnot, hlike, hsp⟩ he hfollow
  rw [Syntax.fold_like_eq_some] at he
  obtain ⟨v, p, he, hep, hfold⟩ := he
  obtain ⟨hpe, hpp, hce⟩ := hp
  have hlt := spells_length hs
  have hlt₁ := negated_length hnot
  have hlt₂ := hlike.length
  have hfirst := follow_of_negated hnot hlike (k := 7) (by decide) (by cases insensitive <;> decide)
  have hread := hpattern (d := d) (by omega) hsp hep
    (hfollow.mono (by rw [Syntax.bound_congr rfl]; exact pattern.bound_mono (Nat.le_succ 6)))
  have htail : (likeTail lib (calls lib d) insensitive negate v).run ts₃ = .ok (x, rest) := by
    rw [likeTail, run_bind, show (parseExprOther lib (calls lib d)).run ts₃ = _ from hread]
    exact run_lift_eq_ok.2 ⟨x, hfold, rfl⟩
  obtain ⟨m, rfl, hm⟩ := hlike
  rw [run_matching hlib hl.1 hpe h hce hd hs he hfirst, matchingTail, run_bind,
    run_negated hnot rfl (by cases insensitive <;> simp [hm])]
  simp only
  rw [run_bind, run_peek_cons]
  cases insensitive with
  | false =>
    have hm : lib.keyword m = some "LIKE" := hm
    simp only [hm, Option.some.injEq, String.reduceEq, if_false, if_true, run_bind, run_take_cons]
    exact htail
  | true =>
    have hm : lib.keyword m = some "ILIKE" := hm
    simp only [hm, Option.some.injEq, String.reduceEq, if_false, if_true, run_bind, run_take_cons]
    exact htail

theorem loops_is {negate : Bool} {q : IsKeyword} (hp : Plain lib (.is negate q e))
    (h : Loops lib e 4) : Loops lib (.is negate q e) 4 := by
  rintro d ts rest x hd ⟨ts₁, ts₂, ts₃, hs, ⟨n, rfl, hn⟩, hnot, m, rfl, word, hm, hq⟩ he - -
  rw [Syntax.fold_is, Option.map_eq_some_iff] at he
  obtain ⟨v, he, rfl⟩ := he
  have hlevel : tokenLevel lib n < e.bound 5 := by
    rw [Syntax.bound_of_closed hp.2, tokenLevel_of_keyword hn]
    decide
  have hword : lib.keyword m ≠ some "NOT" := by
    intro h
    rw [h] at hm
    cases hm
    cases hq
  rw [h hd hs he (follow_cons hlevel) (by simp)]
  refine run_repeatWhile_turn (by simp [hn]) ?_
  rw [isTurn, run_bind, run_negated hnot rfl hword]
  simp only
  rw [run_bind, run_peek_cons]
  simp only [hm, hq]
  rw [run_bind, run_take_cons]
  rfl

/-! ### Lists -/

theorem Reads.items (h : Reads lib s 1) (h1 : 1 ≤ s.level) : ReadsItems lib s := by
  intro d ts rest ps hd hs he hfollow
  rw [Syntax.items_of_level h1, Option.map_eq_some_iff] at he
  obtain ⟨v, he, rfl⟩ := he
  rw [parseExprList, run_bind, h.call hd hs he hfollow]
  rfl

theorem readsItems_comma (h : ReadsItems lib l) (hr : Reads lib r 1) :
    ReadsItems lib (.comma l r) := by
  rintro d ts rest qs hd ⟨ts₁, ts₂, hs, hcomma, hsr⟩ he hfollow
  rw [Syntax.items_comma_eq_some] at he
  obtain ⟨ps, w, he, her, rfl⟩ := he
  have hlt := spells_length hs
  have hlt₁ := hcomma.length
  have hcall := hr.call (d := d) (by omega) hsr her hfollow
  rw [h hd hs he (follow_of_comma hcomma)]
  obtain ⟨⟨token, location⟩, rfl, rfl⟩ := hcomma
  refine run_repeatWhile_turn rfl ?_
  rw [run_bind, hcall]
  rfl

end

/-! ### The whole -/

/-- The levels with a loop. -/
def IsLoop (level : ℕ) : Prop := level ∈ [1, 2, 4, 5, 7, 8, 9, 10]

/-- **What is proved of an expression**: it is read by the function of its level and by those of the
levels below, and the loops go on behind it. -/
structure Read {F : Type} (lib : Library F) (s : Syntax F) : Prop where
  reads : ∀ ⦃k : ℕ⦄, 1 ≤ k → k ≤ s.level → Reads lib s k
  loops : ∀ ⦃k : ℕ⦄, IsLoop k → k ≤ s.level → (k = 7 → s.isAhead = false) → Loops lib s k
  atPostfix : s.level = 12 → ReadsPostfix lib s
  operands : 7 ≤ s.level → s.isAhead = false → ReadsOperands lib s
  items : ReadsItems lib s

section

variable {F : Type} {lib : Library F} {s e l r : Syntax F} {ts rest : Tokens F} {v : ExprTree F}

theorem Operator.isLoop_level (o : Operator) : IsLoop o.level := by
  cases o <;> simp [Operator.level, IsLoop]

theorem IsLoop.one_le {k : ℕ} (h : IsLoop k) : 1 ≤ k := by
  simp only [IsLoop, List.mem_cons, List.not_mem_nil, or_false] at h
  omega

/-- An expression that the function of its level reads. -/
theorem Read.of_reads (hlib : lib.Lawful) (hl : Leveled lib s) (hp : Plain lib s) (h1 : 1 ≤ s.level)
    (h : Reads lib s s.level)
    (hloops : IsLoop s.level → (s.level = 7 → s.isAhead = false) → Loops lib s s.level)
    (hafter : s.level = 12 → ReadsPostfix lib s)
    (hoperands : s.isConcat = true → ReadsOperands lib s) : Read lib s := by
  have hreads : ∀ ⦃k : ℕ⦄, 1 ≤ k → k ≤ s.level → Reads lib s k := fun k hk1 hk =>
    h.below hlib hl hp le_rfl hk1 hk
  have hloops : ∀ ⦃k : ℕ⦄, IsLoop k → k ≤ s.level → (k = 7 → s.isAhead = false) →
      Loops lib s k := by
    intro k hk hle h7
    rcases hle.lt_or_eq with hlt | rfl
    · exact (hreads (Nat.succ_pos k) hlt).loops hlib hl hp hk.one_le hlt
    · exact hloops hk h7
  refine ⟨hreads, hloops, hafter, fun h7 hahead => ?_, (hreads le_rfl h1).items h1⟩
  cases hconcat : s.isConcat with
  | false => exact (hloops (by simp [IsLoop]) h7 fun _ => hahead).operands hconcat
  | true => exact hoperands hconcat

/-- An expression of the highest level. -/
theorem Read.of_afterPrimary (hlib : lib.Lawful) (hl : Leveled lib s) (hp : Plain lib s)
    (h : ReadsPostfix lib s) (hlevel : s.level = 12) : Read lib s := by
  refine .of_reads hlib hl hp (by omega) (hlevel ▸ h.reads) (fun hloop => ?_) (fun _ => h) ?_
  · rw [hlevel] at hloop
    simp [IsLoop] at hloop
  · intro hconcat
    cases s with
    | concat l r => cases hlevel
    | _ => cases hconcat

/-- An expression of a level without a loop, or with its operator ahead. -/
theorem Read.of_ahead (hlib : lib.Lawful) (hl : Leveled lib s) (hp : Plain lib s) (h1 : 1 ≤ s.level)
    (h : Reads lib s s.level) (hlevel : s.level < 12)
    (hnot : ¬(IsLoop s.level ∧ (s.level = 7 → s.isAhead = false)))
    (hconcat : s.isConcat = false) : Read lib s :=
  .of_reads hlib hl hp h1 h (fun hloop h7 => absurd ⟨hloop, h7⟩ hnot) (fun h => absurd h hlevel.ne)
    (fun h => by rw [hconcat] at h; cases h)

/-- An operator with a loop. -/
theorem Read.of_loops (hlib : lib.Lawful) (hl : Leveled lib s) (hp : Plain lib s) (h1 : 1 ≤ s.level)
    (hlevel : s.level < 12) (h : Loops lib s s.level)
    (hoperands : s.isConcat = true → ReadsOperands lib s) : Read lib s :=
  .of_reads hlib hl hp h1 (h.reads h1) (fun _ _ => h) (fun h => absurd h hlevel.ne) hoperands

/-- **Each expression of the grammar is read.** -/
theorem read_of_leveled (hlib : lib.Lawful) (hl : Leveled lib s) (hp : Plain lib s) : Read lib s := by
  induction s with
  | word s => exact .of_afterPrimary hlib hl hp (readsPostfix_word hl) rfl
  | string s more => exact .of_afterPrimary hlib hl hp readsPostfix_string rfl
  | integer m => exact .of_afterPrimary hlib hl hp readsPostfix_integer rfl
  | floatingPoint f => exact .of_afterPrimary hlib hl hp readsPostfix_floatingPoint rfl
  | allFields => exact .of_afterPrimary hlib hl hp readsPostfix_allFields rfl
  | group e ih =>
    have he := (ih hl.1 hp).reads le_rfl hl.2
    exact .of_afterPrimary hlib hl hp (readsPostfix_group he) rfl
  | castGroup t e ih =>
    have he := (ih hl.1 hp).reads le_rfl hl.2
    exact .of_afterPrimary hlib hl hp (readsPostfix_castGroup he) rfl
  | castBare t e ih =>
    have he := (ih hl.1 hp.1).reads le_rfl hl.2
    exact .of_afterPrimary hlib hl hp (readsPostfix_castBare hlib hl.1 hp he) rfl
  | field e name ih =>
    have he := (ih hl.1 hp.1).atPostfix (le_antisymm e.level_le hl.2.1)
    exact .of_afterPrimary hlib hl hp (readsPostfix_field hl hp he) rfl
  | fieldsOf e ih =>
    have he := (ih hl.1 hp.1).atPostfix (le_antisymm e.level_le hl.2.1)
    exact .of_afterPrimary hlib hl hp (readsPostfix_fieldsOf hl hp he) rfl
  | scope e t ih =>
    have he := (ih hl.1 hp.1).atPostfix (le_antisymm e.level_le hl.2)
    exact .of_afterPrimary hlib hl hp (readsPostfix_scope hp he) rfl
  | element e i ih ihi =>
    have he := (ih hl.1 hp.1).atPostfix (le_antisymm e.level_le hl.2.2.1)
    have hi := (ihi hl.2.1 hp.2.1).reads le_rfl hl.2.2.2
    exact .of_afterPrimary hlib hl hp (readsPostfix_element hp he hi) rfl
  | callNone e ih =>
    have he := (ih hl.1 hp.1).atPostfix (le_antisymm e.level_le hl.2)
    exact .of_afterPrimary hlib hl hp (readsPostfix_callNone hp he) rfl
  | call e params ih ihi =>
    have he := (ih hl.1 hp.1).atPostfix (le_antisymm e.level_le hl.2.2)
    exact .of_afterPrimary hlib hl hp (readsPostfix_call hlib hl hp he (ihi hl.2.1 hp.2.1).items) rfl
  | sign minus more e ih =>
    have he := (ih hl.1 hp).reads (by decide) hl.2
    exact .of_ahead hlib hl hp (by simp [Syntax.level]) (reads_sign hlib hl hp he)
      (by simp [Syntax.level]) (by simp [Syntax.level, IsLoop]) rfl
  | binary o l r ihl ihr =>
    obtain ⟨hll, hlr, hle, hlt, hahead⟩ := hl
    have hleft := (ihl hll hp.1).loops o.isLoop_level hle hahead
    have hright := (ihr hlr hp.2.1).reads (Nat.succ_pos _) hlt
    have hlevel := r.level_le
    exact .of_loops hlib ⟨hll, hlr, hle, hlt, hahead⟩ hp o.isLoop_level.one_le
      (by simp only [Syntax.level]; omega) (loops_binary hp hleft hright) (fun h => by cases h)
  | concat l r ihl ihr =>
    obtain ⟨hll, hlr, hle, hlt, hahead⟩ := hl
    have hleft := (ihl hll hp.1).operands hle hahead
    have hright := (ihr hlr hp.2.1).reads (by decide) hlt
    exact .of_loops hlib ⟨hll, hlr, hle, hlt, hahead⟩ hp (by simp [Syntax.level])
      (by simp [Syntax.level])
      (loops_concat hp hleft hright) (fun _ => readsOperands_concat hp hleft hright)
  | ahead func e ih =>
    have he := (ih hl.1 hp).reads (by decide) hl.2.1
    exact .of_ahead hlib hl hp (by simp [Syntax.level]) (reads_ahead he)
      (by simp [Syntax.level])
      (by simp [Syntax.level, Syntax.isAhead]) rfl
  | between negate e low high ih ihl ihh =>
    have he := (ih hl.1 hp.1).reads (by decide) hl.2.2.2.1
    have hlow := (ihl hl.2.1 hp.2.1).reads (by decide) hl.2.2.2.2.1
    have hhigh := (ihh hl.2.2.1 hp.2.2.1).reads (by decide) hl.2.2.2.2.2
    exact .of_ahead hlib hl hp (by simp [Syntax.level]) (reads_between hlib hl hp he hlow hhigh)
      (by simp [Syntax.level])
      (by simp [Syntax.level, IsLoop]) rfl
  | like insensitive negate e pattern ih ihp =>
    have he := (ih hl.1 hp.1).reads (by decide) hl.2.2.1
    have hpattern := (ihp hl.2.1 hp.2.1).reads (by decide) hl.2.2.2
    exact .of_ahead hlib hl hp (by simp [Syntax.level]) (reads_like hlib hl hp he hpattern)
      (by simp [Syntax.level])
      (by simp [Syntax.level, IsLoop]) rfl
  | is negate q e ih =>
    have he := (ih hl.1 hp.1).loops (k := 4) (by simp [IsLoop]) hl.2 (by simp)
    exact .of_loops hlib hl hp (by simp [Syntax.level])
      (by simp [Syntax.level]) (loops_is hp he)
      (fun h => by cases h)
  | not more e ih =>
    have he := (ih hl.1 hp).reads (by decide) hl.2
    exact .of_ahead hlib hl hp (by simp [Syntax.level]) (reads_not hlib hl hp he)
      (by simp [Syntax.level])
      (by simp [Syntax.level, IsLoop]) rfl
  | comma l r ihl ihr =>
    have hr := (ihr hl.2.1 hp.2).reads le_rfl hl.2.2
    refine ⟨fun k h1 hk => ?_, fun k h1 hk => ?_, fun h => ?_, fun h7 => ?_,
      readsItems_comma (ihl hl.1 hp.1).items hr⟩
    · exact absurd (h1.trans hk) (Nat.not_succ_le_zero 0)
    · exact absurd (h1.one_le.trans hk) (Nat.not_succ_le_zero 0)
    · cases h
    · exact absurd h7 (Nat.not_succ_le_zero 6)

/-- What a level reads is what the parser returns. -/
theorem Read.run (h : Read lib s) (h1 : 1 ≤ s.level) (hs : Spells lib s ts rest)
    (he : s.fold lib = some v) (hfollow : Follow lib 1 rest) :
    (parseTree lib).run ts = .ok (v, rest) := by
  have hread : Reads lib s 1 := h.reads le_rfl h1
  rw [run_parseTree]
  exact hread le_rfl hs he (by rwa [Syntax.bound_one])

/-- **The parser returns the tree of the expression**, and leaves the tokens behind it. -/
theorem parseTree_of_spells (hlib : lib.Lawful) (hl : Leveled lib s) (hp : Plain lib s)
    (h1 : 1 ≤ s.level) (hs : Spells lib s ts rest) (he : s.fold lib = some v)
    (hfollow : Follow lib 1 rest) : (parseTree lib).run ts = .ok (v, rest) :=
  (read_of_leveled hlib hl hp).run h1 hs he hfollow

end

/-! ### An expression -/

open Prinbee.Parser (word symbol tokensOf)

/-- `NOT a = 3 OR FALSE`. -/
def notOrFalse : Syntax Unit :=
  .binary .logicalOr (.not 0 (.binary (.comparison .equal) (.word [97]) (.integer (.ofInt64 3))))
    (.word [70, 65, 76, 83, 69])

/-- The tokens of `NOT a = 3 OR FALSE`. -/
def notOrFalseTokens : Tokens Unit :=
  tokensOf [word "NOT", word "a", symbol .equal, symbol (.integer (.ofInt64 3)), word "OR",
    word "FALSE"]

/-- The tree of `NOT a = 3 OR FALSE`. -/
def notOrFalseTree : ExprTree Unit :=
  .logicalNot (.binary .equal (.identifier [97]) (.integer (.ofInt64 3)))

theorem leveled_notOrFalse : Leveled plainLibrary notOrFalse := by
  simp only [notOrFalse, Leveled, Syntax.level, Operator.level]
  decide

theorem plain_notOrFalse : Plain plainLibrary notOrFalse := by
  simp only [notOrFalse, Plain, Syntax.isOpen]
  decide

theorem spells_notOrFalse :
    Spells plainLibrary notOrFalse notOrFalseTokens (.stop (symbol .eof)) := by
  have hcomparison : Spells plainLibrary
      (.binary (.comparison .equal) (.word [97]) (.integer (.ofInt64 3)))
      (tokensOf [word "a", symbol .equal, symbol (.integer (.ofInt64 3)), word "OR", word "FALSE"])
      (tokensOf [word "OR", word "FALSE"]) :=
    ⟨_, _, ⟨_, rfl, rfl⟩, ⟨_, rfl, rfl⟩, ⟨_, rfl, rfl⟩⟩
  exact ⟨_, _, ⟨_, ⟨_, ⟨_, rfl, rfl⟩, rfl⟩, hcomparison⟩, ⟨_, rfl, rfl⟩, ⟨_, rfl, rfl⟩⟩

theorem parseTree_of_spells_notOrFalse :
    (parseTree plainLibrary).run notOrFalseTokens = .ok (notOrFalseTree, .stop (symbol .eof)) :=
  parseTree_of_spells plainLibrary_lawful leveled_notOrFalse plain_notOrFalse (by decide)
    spells_notOrFalse rfl ⟨_, _, rfl, by decide⟩

end Expression

end Prinbee
