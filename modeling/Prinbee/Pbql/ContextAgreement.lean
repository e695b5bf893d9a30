import Prinbee.Pbql.CreateContext

/-!
# CREATE CONTEXT, as the grammar says

Tokens are read as a statement in one way, with the keywords and features that are not known.  The
parser does what the grammar says unless it skips one of these, or lets a path without segments or a
second OWNER or COMMENT pass; and it does not take the word IF as a name.

## Main definitions

* `Parser.FollowsContextGrammar` — the parser accepts what the grammar says, with its command.
* `Parser.PlainContext` — nothing of the above occurs.

## Main results

* `Parser.readsContext_unique` — a statement is read in one way.
* `Parser.followsContextGrammar_iff` — the parser follows the grammar exactly on plain tokens.
-/

namespace Prinbee

namespace Parser

open TokenStream Reader
open Lexer (TokenNode)

variable {F : Type}

section

variable (lib : Library F) (ts : Tokens F)

/-- The parser accepts the statements of the grammar, and makes their commands. -/
def FollowsContextGrammar : Prop :=
  ∀ command rest, (parseCreateContext lib).run ts = .ok (command, rest) ↔
    ∃ s, ReadsContext lib ts s rest ∧ s.WellFormed ∧ s.command = command

/-- What the parser does not check: every path has a segment, there is no second OWNER or COMMENT,
and nothing is unknown. -/
structure ContextStatement.Strict (s : ContextStatement) : Prop where
  segments : ∀ p ∈ s.paths, 1 ≤ (pathSegments p).length
  users : s.users.length ≤ 1
  comments : s.comments.length ≤ 1
  known : ContextSetting.unknown ∉ s.settings

/-- Tokens that are not a statement with the name IF, nor one that passes the checks of the parser
and is not strict. -/
def PlainContext : Prop :=
  ∀ s rest, ReadsContext lib ts s rest →
    (s.namedIf = true → ¬ s.WellFormed) ∧ (s.namedIf = false → s.Checked → s.Strict)

end

theorem wellFormed_iff (s : ContextStatement) : s.WellFormed ↔ s.Checked ∧ s.Strict := by
  constructor
  · rintro ⟨hname, hpaths, hsegments, husers, hcomments, hknown⟩
    refine ⟨⟨hname, hpaths, fun p hp => ⟨?_, ?_⟩, emptyButLast_of_length_le husers,
      emptyButLast_of_length_le hcomments⟩, fun p hp => (hsegments p hp).1, husers, hcomments, hknown⟩
    · rintro rfl
      have hlength := (hsegments [] hp).1
      simp [pathSegments] at hlength
    · exact Nat.lt_of_le_of_lt (hsegments p hp).2 (by decide)
  · rintro ⟨hchecked, hstrict⟩
    exact ⟨hchecked.name, hchecked.paths, fun p hp =>
      ⟨hstrict.segments p hp, Nat.le_pred_of_lt (hchecked.segments p hp).2⟩, hstrict.users,
      hstrict.comments, hstrict.known⟩

/-! ### A statement is read in one way -/

section

variable {lib : Library F} {ts ts₁ rest rest' : Tokens F} {n : TokenNode F}

theorem ReadsEqual.unique (h : ReadsEqual ts rest) (h' : ReadsEqual ts rest') : rest = rest' := by
  cases h with
  | none hnext hn =>
    cases h' with
    | none => rfl
    | equal hnext' hn' =>
      cases hnext.symm.trans hnext'
      rw [hn] at hn'
      cases hn'
  | equal hnext hn =>
    cases h' with
    | none hnext' hn' =>
      cases hnext.symm.trans hnext'
      rw [hn] at hn'
      cases hn'
    | equal hnext' hn' =>
      cases hnext.symm.trans hnext'
      rfl

theorem UserText.unique {text text' : Bytes} (h : UserText n text) (h' : UserText n text') :
    text = text' := by
  have htext := userName_eq_some_iff.2 h
  rw [userName_eq_some_iff.2 h'] at htext
  exact (Except.ok.inj (Option.some.inj htext)).symm

theorem readsOwner_deterministic : Deterministic (ReadsOwner (F := F)) := by
  intro ts a rest a' rest' h h'
  cases h with
  | string hnext hn =>
    cases h' with
    | string hnext' hn' =>
      cases hnext.symm.trans hnext'
      exact ⟨rfl, rfl⟩
    | user hnext' hn' hbehind hm =>
      cases hnext.symm.trans hnext'
      exact absurd hn' (not_userText_of_isString hn _)
    | userGroup hnext' hn' hcolon hm hgroup hk =>
      cases hnext.symm.trans hnext'
      exact absurd hn' (not_userText_of_isString hn _)
  | user hnext hn hbehind hm =>
    cases h' with
    | string hnext' hn' =>
      cases hnext.symm.trans hnext'
      exact absurd hn (not_userText_of_isString hn' _)
    | user hnext' hn' hbehind' hm' =>
      cases hnext.symm.trans hnext'
      obtain rfl := hn.unique hn'
      exact ⟨rfl, rfl⟩
    | userGroup hnext' hn' hcolon hm' hgroup hk =>
      cases hnext.symm.trans hnext'
      cases hbehind.symm.trans hcolon
      rw [hm] at hm'
      cases hm'
  | userGroup hnext hn hcolon hm hgroup hk =>
    cases h' with
    | string hnext' hn' =>
      cases hnext.symm.trans hnext'
      exact absurd hn (not_userText_of_isString hn' _)
    | user hnext' hn' hbehind' hm' =>
      cases hnext.symm.trans hnext'
      cases hbehind'.symm.trans hcolon
      rw [hm] at hm'
      cases hm'
    | userGroup hnext' hn' hcolon' hm' hgroup' hk' =>
      cases hnext.symm.trans hnext'
      cases hcolon.symm.trans hcolon'
      cases hgroup.symm.trans hgroup'
      obtain rfl := hn.unique hn'
      obtain rfl := hk.unique hk'
      exact ⟨rfl, rfl⟩

theorem readsFeature_deterministic : Deterministic (ReadsFeature lib) := by
  intro ts a rest a' rest' h h'
  cases h with
  | owner hkeyword hequal howner =>
    cases h' with
    | owner hkeyword' hequal' howner' =>
      obtain ⟨-, rfl⟩ := hkeyword.unique hkeyword'
      obtain rfl := hequal.unique hequal'
      exact readsOwner_deterministic howner howner'
    | comment hkeyword' hequal' hnext' hn' =>
      exact absurd (hkeyword.unique hkeyword').1 (by decide)
    | unknown hkeyword' howner' hcomment' hequal' =>
      exact absurd (hkeyword'.unique hkeyword).1 howner'
  | comment hkeyword hequal hnext hn =>
    cases h' with
    | owner hkeyword' hequal' howner' => exact absurd (hkeyword.unique hkeyword').1 (by decide)
    | comment hkeyword' hequal' hnext' hn' =>
      obtain ⟨-, rfl⟩ := hkeyword.unique hkeyword'
      obtain rfl := hequal.unique hequal'
      cases hnext.symm.trans hnext'
      exact ⟨rfl, rfl⟩
    | unknown hkeyword' howner' hcomment' hequal' =>
      exact absurd (hkeyword'.unique hkeyword).1 hcomment'
  | unknown hkeyword howner hcomment hequal =>
    cases h' with
    | owner hkeyword' hequal' howner' => exact absurd (hkeyword.unique hkeyword').1 howner
    | comment hkeyword' hequal' hnext' hn' => exact absurd (hkeyword.unique hkeyword').1 hcomment
    | unknown hkeyword' howner' hcomment' hequal' =>
      obtain ⟨-, rfl⟩ := hkeyword.unique hkeyword'
      exact ⟨rfl, hequal.unique hequal'⟩

theorem notComma_of_isCloseParenthesis {m : TokenNode F} (hnext : ts.next = .ok (m, rest))
    (hm : m.isCloseParenthesis = true) : NotComma ts := by
  refine ⟨m, rest, hnext, ?_⟩
  obtain ⟨token, location⟩ := m
  cases token with
  | closeParenthesis => rfl
  | _ => cases hm

theorem readsOption_deterministic : Deterministic (ReadsOption lib) := by
  intro ts a rest a' rest' h h'
  cases h with
  | using_ hkeyword hnext hn =>
    cases h' with
    | using_ hkeyword' hnext' hn' =>
      obtain ⟨-, rfl⟩ := hkeyword.unique hkeyword'
      cases hnext.symm.trans hnext'
      exact ⟨rfl, rfl⟩
    | with_ hkeyword' hopen' hn' hfeatures' hclose' hm' =>
      exact absurd (hkeyword.unique hkeyword').1 (by decide)
    | unknown rest' hk husing hwith =>
      cases (hkeyword.next_eq rfl).1.symm.trans hk
      exact absurd rfl husing
  | with_ hkeyword hopen hn hfeatures hclose hm =>
    cases h' with
    | using_ hkeyword' hnext' hn' => exact absurd (hkeyword.unique hkeyword').1 (by decide)
    | with_ hkeyword' hopen' hn' hfeatures' hclose' hm' =>
      obtain ⟨-, rfl⟩ := hkeyword.unique hkeyword'
      cases hopen.symm.trans hopen'
      obtain ⟨rfl, rfl⟩ := hfeatures.unique readsFeature_deterministic
        (notComma_of_isCloseParenthesis hclose hm).isComma
        (notComma_of_isCloseParenthesis hclose' hm').isComma hfeatures'
      cases hclose.symm.trans hclose'
      exact ⟨rfl, rfl⟩
    | unknown rest' hk husing hwith =>
      cases (hkeyword.next_eq rfl).1.symm.trans hk
      exact absurd rfl hwith
  | unknown rest hk husing hwith =>
    cases h' with
    | using_ hkeyword' hnext' hn' =>
      cases (hkeyword'.next_eq rfl).1.symm.trans hk
      exact absurd rfl husing
    | with_ hkeyword' hopen' hn' hfeatures' hclose' hm' =>
      cases (hkeyword'.next_eq rfl).1.symm.trans hk
      exact absurd rfl hwith
    | unknown rest' hk' husing' hwith' => exact ⟨rfl, rfl⟩

theorem not_readsOption_of_semiColon (hsemi : SemiColon ts rest) (settings : List ContextSetting)
    (rest' : Tokens F) : ¬ ReadsOption lib ts settings rest' := by
  intro h
  obtain ⟨n, left, rfl, hn⟩ := h.next
  rw [(kind_of_isSemiColon (hsemi.next_eq rfl).1).1] at hn
  cases hn

/-- The options up to the end of the statement. -/
theorem options_unique {options options' : List (List ContextSetting)} {ts₂ : Tokens F}
    (h : Many (ReadsOption lib) ts options ts₁) (hsemi : SemiColon ts₁ rest)
    (h' : Many (ReadsOption lib) ts options' ts₂) (hsemi' : SemiColon ts₂ rest') :
    options = options' ∧ rest = rest' := by
  obtain ⟨rfl, rfl⟩ := h.unique readsOption_deterministic (not_readsOption_of_semiColon hsemi)
    (not_readsOption_of_semiColon hsemi') h'
  exact ⟨rfl, hsemi.unique hsemi'⟩

/-- **A statement with another name than IF is read in one way.** -/
theorem readsContext_unique {s s' : ContextStatement} (h : ReadsContext lib ts s rest)
    (h' : ReadsContext lib ts s' rest') (hif : s.namedIf = false) (hif' : s'.namedIf = false) :
    s = s' ∧ rest = rest' := by
  cases h with
  | ifNotExists hkeywords hid hoptions hsemi =>
    cases h' with
    | ifNotExists hkeywords' hid' hoptions' hsemi' =>
      obtain rfl := hkeywords.unique hkeywords'
      cases hid.1.symm.trans hid'.1
      obtain ⟨rfl, rfl⟩ := options_unique hoptions hsemi hoptions' hsemi'
      exact ⟨rfl, rfl⟩
    | plain hid' hoptions' hsemi' =>
      obtain ⟨left, hkeyword, -⟩ := hkeywords.first
      exact absurd (hkeyword.next_eq hid'.1).1 (of_decide_eq_false hif')
  | plain hid hoptions hsemi =>
    cases h' with
    | ifNotExists hkeywords' hid' hoptions' hsemi' =>
      obtain ⟨left, hkeyword, -⟩ := hkeywords'.first
      exact absurd (hkeyword.next_eq hid.1).1 (of_decide_eq_false hif)
    | plain hid' hoptions' hsemi' =>
      cases hid.1.symm.trans hid'.1
      obtain ⟨rfl, rfl⟩ := options_unique hoptions hsemi hoptions' hsemi'
      exact ⟨rfl, rfl⟩

/-- Tokens that are a statement of the grammar with the name IF are not one with another name. -/
theorem not_readsContext_of_namedIf {s s' : ContextStatement} (h : ReadsContext lib ts s rest)
    (hif : s.namedIf = true) (hs : s.WellFormed) (h' : ReadsContext lib ts s' rest') :
    s'.namedIf = true := by
  cases h with
  | ifNotExists hkeywords hid hoptions hsemi => cases hif
  | plain hid hoptions hsemi =>
    cases h' with
    | plain hid' hoptions' hsemi' =>
      cases hid.1.symm.trans hid'.1
      exact hif
    | ifNotExists hkeywords' hid' hoptions' hsemi' =>
      exfalso
      obtain ⟨left, hkeyword, hkeywords⟩ := hkeywords'.first
      obtain ⟨left', hnot, -⟩ := hkeywords.first
      obtain ⟨-, rfl⟩ := hkeyword.next_eq hid.1
      cases hoptions with
      | nil => exact hsemi.not_keyword hnot
      | cons hfirst hrest =>
        cases hfirst with
        | using_ husing hnext hn => exact absurd (hnot.unique husing).1 (by decide)
        | with_ hwith hopen hn hfeatures hclose hm =>
          exact absurd (hnot.unique hwith).1 (by decide)
        | unknown left hk husing hwith => exact hs.known List.mem_cons_self

/-- **The parser follows the grammar exactly on plain tokens.** -/
theorem followsContextGrammar_iff : FollowsContextGrammar lib ts ↔ PlainContext lib ts := by
  constructor
  · intro hfollows s rest hs
    refine ⟨fun hif hwell => ?_, fun hif hchecked => ?_⟩
    · obtain ⟨s', hs', hif', -⟩ :=
        run_parseCreateContext_eq_ok.1 ((hfollows s.command rest).2 ⟨s, hs, hwell, rfl⟩)
      rw [not_readsContext_of_namedIf hs hif hwell hs'] at hif'
      cases hif'
    · obtain ⟨s', hs', hwell, -⟩ := (hfollows s.command rest).1
        (run_parseCreateContext_eq_ok.2 ⟨s, hs, hif, hchecked, rfl⟩)
      have hif' : s'.namedIf = false := by
        by_contra hif'
        rw [not_readsContext_of_namedIf hs' (Bool.eq_true_of_not_eq_false hif') hwell hs] at hif
        cases hif
      obtain ⟨rfl, -⟩ := readsContext_unique hs hs' hif hif'
      exact ((wellFormed_iff s).1 hwell).2
  · intro hplain command rest
    rw [run_parseCreateContext_eq_ok]
    constructor
    · rintro ⟨s, hs, hif, hchecked, rfl⟩
      exact ⟨s, hs, (wellFormed_iff s).2 ⟨hchecked, (hplain s rest hs).2 hif hchecked⟩, rfl⟩
    · rintro ⟨s, hs, hwell, rfl⟩
      refine ⟨s, hs, ?_, ((wellFormed_iff s).1 hwell).1, rfl⟩
      by_contra hif
      exact (hplain s rest hs).1 (Bool.eq_true_of_not_eq_false hif) hwell

end

/-! ### A keyword that is skipped -/

/-- `foo USNIG ;`. -/
def unknownOption : Tokens Unit := tokensOf [word "foo", word "USNIG", symbol .semiColon]

/-- A statement with an unknown keyword is accepted, and the grammar does not have it. -/
theorem unknownOption_not_followed :
    (∃ command, (parseCreateContext plainLibrary).run unknownOption =
      .ok (command, tokensOf [])) ∧
    ¬ FollowsContextGrammar plainLibrary unknownOption := by
  have hread : ReadsContext plainLibrary unknownOption
      ⟨false, [102, 111, 111], false, [.unknown]⟩ (tokensOf []) := by
    have hoptions : Many (ReadsOption plainLibrary)
        (tokensOf [word "USNIG", symbol .semiColon]) [[.unknown]] (tokensOf [symbol .semiColon]) :=
      .cons (.unknown (k := "USNIG") _ (by decide) (by decide) (by decide)) (.nil _)
    exact .plain (n := word "foo") ⟨rfl, rfl⟩ hoptions ⟨_, rfl, rfl⟩
  have hchecked : ContextStatement.Checked ⟨false, [102, 111, 111], false, [.unknown]⟩ := by
    refine ⟨by decide, by decide, ?_, ?_, ?_⟩
    · exact List.forall_mem_nil _
    · exact List.forall_mem_nil _
    · exact List.forall_mem_nil _
  have hrun := run_parseCreateContext_eq_ok.2 ⟨_, hread, rfl, hchecked, rfl⟩
  refine ⟨⟨_, hrun⟩, fun hfollows => ?_⟩
  obtain ⟨s, hs, hwell, -⟩ := (hfollows _ _).1 hrun
  have hif : s.namedIf = false := by
    by_contra hif
    have hnamed := not_readsContext_of_namedIf hs (Bool.eq_true_of_not_eq_false hif) hwell hread
    cases hnamed
  obtain ⟨rfl, -⟩ := readsContext_unique hs hread hif rfl
  exact hwell.known List.mem_cons_self

end Parser

end Prinbee
