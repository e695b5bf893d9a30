import Prinbee.Pbql.Grammar

/-!
# CREATE CONTEXT

The grammar of a CREATE CONTEXT, with what the command records of it, and what
`parse_create_context()` accepts.  The parser skips a keyword it does not know where an option stands,
and a feature it does not know between the parentheses of a WITH; it refuses a second OWNER or
COMMENT only when the one before it was not empty, and accepts a path without segments.

## Main definitions

* `Parser.ContextSetting`, `Parser.ContextStatement` — a statement, as a list of settings.
* `Parser.ReadsContext` — the statements, with unknown keywords and features.
* `Parser.ContextStatement.WellFormed` — the statements of the grammar.
* `Parser.ContextStatement.Checked` — the statements that the parser accepts.

## Main results

* `Parser.run_parseCreateContext_eq_ok` — the parser returns the commands of the statements that it
  accepts.
-/

namespace Prinbee

namespace Parser

open TokenStream Reader
open Lexer (TokenNode)

variable {F : Type}

/-! ### The statement -/

/-- What an option sets; a WITH sets what its features set. -/
inductive ContextSetting
  | path (path : Bytes)
  | owner (user : Bytes) (group : Option Bytes)
  | comment (text : Bytes)
  | unknown
  deriving DecidableEq

namespace ContextSetting

def path? : ContextSetting → Option Bytes
  | path p => some p
  | _ => none

def user? : ContextSetting → Option Bytes
  | owner u _ => some u
  | _ => none

def group? : ContextSetting → Option Bytes
  | owner _ g => g
  | _ => none

def comment? : ContextSetting → Option Bytes
  | comment t => some t
  | _ => none

end ContextSetting

/-- A statement.  The word IF is a name where no NOT EXISTS is behind it; the parser takes it for
the beginning of `IF NOT EXISTS`. -/
structure ContextStatement where
  ifNotExists : Bool
  name : Bytes
  namedIf : Bool
  settings : List ContextSetting

namespace ContextStatement

variable (s : ContextStatement)

def paths : List Bytes := s.settings.filterMap ContextSetting.path?

def users : List Bytes := s.settings.filterMap ContextSetting.user?

def groups : List Bytes := s.settings.filterMap ContextSetting.group?

def comments : List Bytes := s.settings.filterMap ContextSetting.comment?

/-- The command records what is given; what is not given is empty. -/
def command : Command where
  command := .createContext
  params
    | .ifExists => some (!s.ifNotExists)
    | .name => some s.name
    | .path => some (s.paths.getLast?.getD [])
    | .user => some (s.users.getLast?.getD [])
    | .group => some (s.groups.getLast?.getD [])
    | .description => some (s.comments.getLast?.getD [])
    | _ => none

/-- The statements of the grammar: no option stands twice, and none is unknown. -/
structure WellFormed : Prop where
  name : validName s.name = true
  paths : s.paths.length ≤ 1
  segments : ∀ p ∈ s.paths, 1 ≤ (pathSegments p).length ∧
    (pathSegments p).length ≤ ContextSetup.maxSegments - 1
  users : s.users.length ≤ 1
  comments : s.comments.length ≤ 1
  known : ContextSetting.unknown ∉ s.settings

end ContextStatement

/-- All of these but the last one are empty. -/
def EmptyButLast (texts : List Bytes) : Prop := ∀ t ∈ texts.dropLast, t = []

/-- What the parser checks: the name, that USING stands once, with a path that is neither empty nor
too long, and that an OWNER or a COMMENT does not stand behind one that is not empty. -/
structure ContextStatement.Checked (s : ContextStatement) : Prop where
  name : validName s.name = true
  paths : s.paths.length ≤ 1
  segments : ∀ p ∈ s.paths, p ≠ [] ∧ (pathSegments p).length < ContextSetup.maxSegments
  users : EmptyButLast s.users
  comments : EmptyButLast s.comments

/-! ### The grammar -/

/-- The text of a user or a group: an identifier or an integer. -/
def UserText (n : TokenNode F) (text : Bytes) : Prop :=
  (n.isIdentifier = true ∧ text = n.string) ∨
    ∃ v, n.integer = some v ∧ v.toText 10 false false = .ok text

/-- `[=]`. -/
inductive ReadsEqual : Tokens F → Tokens F → Prop
  | none {ts : Tokens F} {n : TokenNode F} {left : Tokens F} (hnext : ts.next = .ok (n, left))
    (hn : n.isEqual = false) : ReadsEqual ts ts
  | equal {ts rest : Tokens F} {n : TokenNode F} (hnext : ts.next = .ok (n, rest))
    (hn : n.isEqual = true) : ReadsEqual ts rest

/-- A string, which may have a user and a group with a colon between them. -/
def ownerOfString (s : Bytes) : ContextSetting :=
  match s.idxOf? 58 with
  | some pos => .owner (s.take pos) (some (s.drop (pos + 1)))
  | none => .owner s none

/-- A string, or `user[:group]`. -/
inductive ReadsOwner : Grammar Failure (TokenNode F) ContextSetting
  | string {ts rest : Tokens F} {n : TokenNode F} (hnext : ts.next = .ok (n, rest))
    (hn : n.isString = true) : ReadsOwner ts (ownerOfString n.string) rest
  | user {ts rest : Tokens F} {n : TokenNode F} {user : Bytes} (hnext : ts.next = .ok (n, rest))
    (hn : UserText n user) {m : TokenNode F} {behind : Tokens F}
    (hbehind : rest.next = .ok (m, behind)) (hm : m.isColon = false) :
    ReadsOwner ts (.owner user none) rest
  | userGroup {ts ts₁ ts₂ rest : Tokens F} {n m k : TokenNode F} {user group : Bytes}
    (hnext : ts.next = .ok (n, ts₁)) (hn : UserText n user) (hcolon : ts₁.next = .ok (m, ts₂))
    (hm : m.isColon = true) (hgroup : ts₂.next = .ok (k, rest)) (hk : UserText k group) :
    ReadsOwner ts (.owner user (some group)) rest

section

variable (lib : Library F)

/-- `OWNER [=] owner`, `COMMENT [=] string`, or a feature with another name. -/
inductive ReadsFeature : Grammar Failure (TokenNode F) ContextSetting
  | owner {ts ts₁ ts₂ rest : Tokens F} {setting : ContextSetting}
    (hkeyword : Keyword lib "OWNER" ts ts₁) (hequal : ReadsEqual ts₁ ts₂)
    (howner : ReadsOwner ts₂ setting rest) : ReadsFeature ts setting rest
  | comment {ts ts₁ ts₂ rest : Tokens F} {n : TokenNode F} (hkeyword : Keyword lib "COMMENT" ts ts₁)
    (hequal : ReadsEqual ts₁ ts₂) (hnext : ts₂.next = .ok (n, rest)) (hn : n.isString = true) :
    ReadsFeature ts (.comment n.string) rest
  | unknown {ts ts₁ rest : Tokens F} {k : String} (hkeyword : Keyword lib k ts ts₁)
    (howner : k ≠ "OWNER") (hcomment : k ≠ "COMMENT") (hequal : ReadsEqual ts₁ rest) :
    ReadsFeature ts .unknown rest

/-- `USING path`, `WITH ( feature, ... )`, or another keyword. -/
inductive ReadsOption : Grammar Failure (TokenNode F) (List ContextSetting)
  | using_ {ts ts₁ rest : Tokens F} {n : TokenNode F} (hkeyword : Keyword lib "USING" ts ts₁)
    (hnext : ts₁.next = .ok (n, rest)) (hn : n.isString = true) :
    ReadsOption ts [.path (lib.toLower n.string)] rest
  | with_ {ts ts₁ ts₂ ts₃ rest : Tokens F} {n m : TokenNode F} {settings : List ContextSetting}
    (hkeyword : Keyword lib "WITH" ts ts₁) (hopen : ts₁.next = .ok (n, ts₂))
    (hn : n.isOpenParenthesis = true)
    (hfeatures : Separated TokenNode.isComma (ReadsFeature lib) ts₂ settings ts₃)
    (hclose : ts₃.next = .ok (m, rest)) (hm : m.isCloseParenthesis = true) :
    ReadsOption ts settings rest
  | unknown {n : TokenNode F} (rest : Tokens F) {k : String} (hkeyword : lib.keyword n = some k)
    (husing : k ≠ "USING") (hwith : k ≠ "WITH") : ReadsOption (.cons n rest) [.unknown] rest

/-- **A statement**, from behind CREATE CONTEXT. -/
inductive ReadsContext : Grammar Failure (TokenNode F) ContextStatement
  | ifNotExists {ts ts₁ ts₂ ts₃ rest : Tokens F} {n : TokenNode F}
    {options : List (List ContextSetting)} (hif : Keywords lib ["IF", "NOT", "EXISTS"] ts ts₁)
    (hname : Identifier ts₁ n ts₂) (hoptions : Many (ReadsOption lib) ts₂ options ts₃)
    (hsemi : SemiColon ts₃ rest) :
    ReadsContext ts ⟨true, lib.toLower n.string, false, options.flatten⟩ rest
  | plain {ts ts₁ ts₂ rest : Tokens F} {n : TokenNode F} {options : List (List ContextSetting)}
    (hname : Identifier ts n ts₁) (hoptions : Many (ReadsOption lib) ts₁ options ts₂)
    (hsemi : SemiColon ts₂ rest) :
    ReadsContext ts ⟨false, lib.toLower n.string, lib.keyword n = some "IF", options.flatten⟩ rest

end

/-! ### The options -/

/-- What the parser does with a setting. -/
def ContextOptions.apply (s : ContextOptions) : ContextSetting → Option ContextOptions
  | .path p =>
    if s.contextPath = [] ∧ p ≠ [] ∧ (pathSegments p).length < ContextSetup.maxSegments then
      some { s with contextPath := p }
    else none
  | .owner user group =>
    if s.owner = [] then some { s with owner := user, group := group.getD s.group } else none
  | .comment text => if s.description = [] then some { s with description := text } else none
  | .unknown => some s

section

variable {lib : Library F} {ts rest : Tokens F} {s s' : ContextOptions} {n : TokenNode F}

theorem apply_path (p : Bytes) : s.apply (.path p) =
    if s.contextPath = [] ∧ p ≠ [] ∧ (pathSegments p).length < ContextSetup.maxSegments then
      some { s with contextPath := p }
    else none := rfl

theorem apply_owner (user : Bytes) (group : Option Bytes) : s.apply (.owner user group) =
    if s.owner = [] then some { s with owner := user, group := group.getD s.group } else none := rfl

theorem apply_comment (text : Bytes) : s.apply (.comment text) =
    if s.description = [] then some { s with description := text } else none := rfl

theorem exists_toText (v : Int512) : ∃ text, v.toText 10 false false = .ok text := by
  have hwords : ∀ w : UInt512, ∃ text, w.toText 10 false false = .ok text := by
    intro w
    unfold UInt512.toText
    have hlarge : ∃ text, w.largeText 10 false false = .ok text := by
      unfold UInt512.largeText
      rw [if_neg (by decide), if_neg (by decide), if_neg (by decide), dif_neg (by decide)]
      exact ⟨_, rfl⟩
    split
    · split
      · exact ⟨_, rfl⟩
      · rw [if_pos (by decide)]
        exact ⟨_, rfl⟩
    · exact hlarge
  obtain ⟨text, htext⟩ := hwords (if v.isNegative then v.words.neg else v.words)
  unfold Int512.toText
  rw [htext]
  exact ⟨_, rfl⟩

/-- An identifier or an integer has a text. -/
theorem userName_eq_some_iff {text : Bytes} : userName n = some (.ok text) ↔ UserText n text := by
  unfold userName UserText
  split
  · next hn => simp [hn, (kind_of_isIdentifier hn).2.2.2.2.2, eq_comm]
  · next hn => simp [hn]

theorem userName_ne_error (e : Failure) : userName n ≠ some (.error e) := by
  unfold userName
  split
  · simp
  · intro h
    obtain ⟨v, -, hv⟩ := Option.map_eq_some_iff.1 h
    obtain ⟨text, htext⟩ := exists_toText v
    rw [htext] at hv
    cases hv

theorem run_takeEqual_bind {α : Type} {x : Parsing F α} {r : α × Tokens F} :
    (takeIf TokenNode.isEqual >>= fun _ => x).run ts = .ok r ↔
      ∃ ts₁, ReadsEqual ts ts₁ ∧ x.run ts₁ = .ok r := by
  rw [run_takeIf_bind_eq_ok]
  constructor
  · rintro ⟨n, left, hnext, h⟩
    cases hn : n.isEqual with
    | true =>
      rw [hn, if_pos rfl] at h
      exact ⟨left, .equal hnext hn, h⟩
    | false =>
      rw [hn, if_neg Bool.false_ne_true] at h
      exact ⟨ts, .none hnext hn, h⟩
  · rintro ⟨ts₁, hequal, h⟩
    cases hequal with
    | none hnext hn =>
      refine ⟨_, _, hnext, ?_⟩
      rw [hn, if_neg Bool.false_ne_true]
      exact h
    | equal hnext hn =>
      refine ⟨_, _, hnext, ?_⟩
      rw [hn, if_pos rfl]
      exact h

theorem run_contextGroup_eq_ok :
    (contextGroup s).run ts = .ok (s', rest) ↔
      ∃ n group, ts.next = .ok (n, rest) ∧ UserText n group ∧ s' = { s with group := group } := by
  unfold contextGroup
  rw [run_peek_bind_eq_ok]
  constructor
  · rintro ⟨n, left, hnext, h⟩
    cases huser : userName n with
    | none =>
      rw [huser] at h
      exact absurd h (run_unexpected _ _ _)
    | some r =>
      rw [huser] at h
      cases r with
      | error e => exact absurd huser (userName_ne_error e)
      | ok group =>
        obtain ⟨n', left', hnext', h⟩ := run_take_bind_eq_ok.1 h
        rw [hnext] at hnext'
        cases hnext'
        cases h
        exact ⟨n, group, hnext, userName_eq_some_iff.1 huser, rfl⟩
  · rintro ⟨n, group, hnext, hn, rfl⟩
    refine ⟨n, rest, hnext, ?_⟩
    rw [userName_eq_some_iff.2 hn]
    exact run_take_bind_eq_ok.2 ⟨n, rest, hnext, rfl⟩

/-- A string is neither an identifier nor an integer. -/
theorem not_userText_of_isString (hn : n.isString = true) (text : Bytes) : ¬ UserText n text := by
  obtain ⟨token, location⟩ := n
  cases token with
  | string t =>
    rintro (⟨hid, -⟩ | ⟨v, hv, -⟩)
    · cases hid
    · cases hv
  | _ => cases hn

/-- An owner that is a string. -/
theorem run_ownerOfString_eq_ok (hs : s.owner = []) (text : Bytes) :
    (match text.idxOf? 58 with
      | some pos => pure { s with owner := text.take pos, group := text.drop (pos + 1) }
      | none => pure { s with owner := text } : Parsing F ContextOptions).run ts = .ok (s', rest) ↔
      ts = rest ∧ s.apply (ownerOfString text) = some s' := by
  unfold ownerOfString
  cases text.idxOf? 58 with
  | none => simp [apply_owner, hs, and_comm]
  | some pos => simp [apply_owner, hs, and_comm]

theorem ReadsOwner.owner_eq_nil {setting : ContextSetting} (h : ReadsOwner ts setting rest)
    (hs' : s.apply setting = some s') : s.owner = [] := by
  by_contra hs
  cases h with
  | string hnext hn =>
    unfold ownerOfString at hs'
    split at hs' <;> exact absurd hs' (by simp [apply_owner, hs])
  | user hnext hn hbehind hm => simp [apply_owner, hs] at hs'
  | userGroup hnext hn hcolon hm hgroup hk => simp [apply_owner, hs] at hs'

theorem run_contextOwner_eq_ok :
    (contextOwner s).run ts = .ok (s', rest) ↔
      ∃ setting, ReadsOwner ts setting rest ∧ s.apply setting = some s' := by
  unfold contextOwner
  rw [run_peek_bind_eq_ok]
  constructor
  · rintro ⟨n, left, hnext, h⟩
    rw [run_ite] at h
    split at h
    · exact absurd h (run_unexpected _ _ _)
    · next hs =>
      rw [run_ite] at h
      split at h
      · next hn =>
        obtain ⟨n', left', hnext', h⟩ := run_take_bind_eq_ok.1 h
        rw [hnext] at hnext'
        cases hnext'
        obtain ⟨rfl, hs'⟩ := (run_ownerOfString_eq_ok (not_not.1 hs) n.string).1 h
        exact ⟨_, .string hnext hn, hs'⟩
      · cases huser : userName n with
        | none =>
          rw [huser] at h
          exact absurd h (run_unexpected _ _ _)
        | some r =>
          rw [huser] at h
          cases r with
          | error e => exact absurd huser (userName_ne_error e)
          | ok user =>
            have htext := userName_eq_some_iff.1 huser
            obtain ⟨n', left', hnext', h⟩ := run_take_bind_eq_ok.1 h
            rw [hnext] at hnext'
            cases hnext'
            obtain ⟨m, behind, hm, h⟩ := run_peek_bind_eq_ok.1 h
            rw [run_ite] at h
            split at h
            · next hcolon =>
              obtain ⟨m', behind', hm', h⟩ := run_take_bind_eq_ok.1 h
              rw [hm] at hm'
              cases hm'
              obtain ⟨k, group, hk, hgroup, rfl⟩ := run_contextGroup_eq_ok.1 h
              exact ⟨_, .userGroup hnext htext hm hcolon hk hgroup, if_pos (not_not.1 hs)⟩
            · next hcolon =>
              cases h
              exact ⟨_, .user hnext htext hm (Bool.eq_false_iff.2 hcolon), if_pos (not_not.1 hs)⟩
  · rintro ⟨setting, howner, hs'⟩
    have hs := howner.owner_eq_nil hs'
    cases howner with
    | string hnext hn =>
      refine ⟨_, _, hnext, ?_⟩
      rw [run_ite, if_neg (not_not.2 hs), run_ite, if_pos hn]
      exact run_take_bind_eq_ok.2 ⟨_, _, hnext, (run_ownerOfString_eq_ok hs _).2 ⟨rfl, hs'⟩⟩
    | user hnext hn hbehind hm =>
      refine ⟨_, _, hnext, ?_⟩
      rw [run_ite, if_neg (not_not.2 hs), run_ite,
        if_neg fun hstring => not_userText_of_isString hstring _ hn, userName_eq_some_iff.2 hn]
      refine run_take_bind_eq_ok.2 ⟨_, _, hnext, run_peek_bind_eq_ok.2 ⟨_, _, hbehind, ?_⟩⟩
      rw [run_ite, if_neg (Bool.eq_false_iff.1 hm)]
      rw [apply_owner, if_pos hs] at hs'
      cases hs'
      rfl
    | userGroup hnext hn hcolon hm hgroup hk =>
      refine ⟨_, _, hnext, ?_⟩
      rw [run_ite, if_neg (not_not.2 hs), run_ite,
        if_neg fun hstring => not_userText_of_isString hstring _ hn, userName_eq_some_iff.2 hn]
      refine run_take_bind_eq_ok.2 ⟨_, _, hnext, run_peek_bind_eq_ok.2 ⟨_, _, hcolon, ?_⟩⟩
      rw [run_ite, if_pos hm]
      rw [apply_owner, if_pos hs] at hs'
      cases hs'
      exact run_take_bind_eq_ok.2
        ⟨_, _, hcolon, run_contextGroup_eq_ok.2 ⟨_, _, hgroup, hk, rfl⟩⟩

theorem run_contextComment_eq_ok :
    (contextComment s).run ts = .ok (s', rest) ↔
      ∃ n, ts.next = .ok (n, rest) ∧ n.isString = true ∧ s.apply (.comment n.string) = some s' := by
  unfold contextComment
  rw [run_peek_bind_eq_ok]
  constructor
  · rintro ⟨n, left, hnext, h⟩
    rw [run_ite] at h
    split at h
    · exact absurd h (run_unexpected _ _ _)
    · next hs =>
      rw [run_ite] at h
      split at h
      · next hn =>
        obtain ⟨n', left', hnext', h⟩ := run_take_bind_eq_ok.1 h
        rw [hnext] at hnext'
        cases hnext'
        cases h
        exact ⟨n, hnext, hn, if_pos (not_not.1 hs)⟩
      · exact absurd h (run_unexpected _ _ _)
  · rintro ⟨n, hnext, hn, hs'⟩
    refine ⟨n, rest, hnext, ?_⟩
    rw [ContextOptions.apply] at hs'
    split at hs'
    · next hs =>
      cases hs'
      rw [run_ite, if_neg (not_not.2 hs), run_ite, if_pos hn]
      exact run_take_bind_eq_ok.2 ⟨n, rest, hnext, rfl⟩
    · cases hs'

theorem run_contextFeature_eq_ok :
    (contextFeature lib s).run ts = .ok (s', rest) ↔
      ∃ setting, ReadsFeature lib ts setting rest ∧ s.apply setting = some s' := by
  unfold contextFeature
  rw [run_peek_bind_eq_ok]
  constructor
  · rintro ⟨n, left, hnext, h⟩
    cases hk : lib.keyword n with
    | none =>
      rw [hk] at h
      exact absurd h (run_unexpected _ _ _)
    | some k =>
      rw [hk] at h
      obtain ⟨n', left', hnext', h⟩ := run_take_bind_eq_ok.1 h
      rw [hnext] at hnext'
      cases hnext'
      obtain ⟨ts₁, hequal, h⟩ := run_takeEqual_bind.1 h
      rw [run_ite] at h
      split at h
      · next howner =>
        rw [howner] at hk
        obtain ⟨setting, hread, hs'⟩ := run_contextOwner_eq_ok.1 h
        exact ⟨setting, .owner ⟨n, hnext, hk⟩ hequal hread, hs'⟩
      · next howner =>
        rw [run_ite] at h
        split at h
        · next hcomment =>
          rw [hcomment] at hk
          obtain ⟨m, hm, hstring, hs'⟩ := run_contextComment_eq_ok.1 h
          exact ⟨_, .comment ⟨n, hnext, hk⟩ hequal hm hstring, hs'⟩
        · next hcomment =>
          cases h
          exact ⟨.unknown, .unknown ⟨n, hnext, hk⟩ howner hcomment hequal, rfl⟩
  · rintro ⟨setting, hread, hs'⟩
    cases hread with
    | owner hkeyword hequal howner =>
      obtain ⟨n, hnext, hk⟩ := hkeyword
      refine ⟨n, _, hnext, ?_⟩
      rw [hk]
      refine run_take_bind_eq_ok.2 ⟨n, _, hnext, run_takeEqual_bind.2 ⟨_, hequal, ?_⟩⟩
      rw [if_pos rfl]
      exact run_contextOwner_eq_ok.2 ⟨setting, howner, hs'⟩
    | comment hkeyword hequal hm hstring =>
      obtain ⟨n, hnext, hk⟩ := hkeyword
      refine ⟨n, _, hnext, ?_⟩
      rw [hk]
      refine run_take_bind_eq_ok.2 ⟨n, _, hnext, run_takeEqual_bind.2 ⟨_, hequal, ?_⟩⟩
      rw [if_neg (by decide), if_pos rfl]
      exact run_contextComment_eq_ok.2 ⟨_, hm, hstring, hs'⟩
    | unknown hkeyword howner hcomment hequal =>
      obtain ⟨n, hnext, hk⟩ := hkeyword
      refine ⟨n, _, hnext, ?_⟩
      rw [hk]
      refine run_take_bind_eq_ok.2 ⟨n, _, hnext, run_takeEqual_bind.2 ⟨_, hequal, ?_⟩⟩
      rw [if_neg howner, if_neg hcomment]
      cases hs'
      rfl

theorem ReadsFeature.next {setting : ContextSetting} (h : ReadsFeature lib ts setting rest) :
    ∃ n left, Identifier ts n left := by
  cases h with
  | owner hkeyword hequal howner =>
    obtain ⟨n, hnext, hk⟩ := hkeyword
    exact ⟨n, _, hnext, isIdentifier_of_keyword hk⟩
  | comment hkeyword hequal hm hstring =>
    obtain ⟨n, hnext, hk⟩ := hkeyword
    exact ⟨n, _, hnext, isIdentifier_of_keyword hk⟩
  | unknown hkeyword howner hcomment hequal =>
    obtain ⟨n, hnext, hk⟩ := hkeyword
    exact ⟨n, _, hnext, isIdentifier_of_keyword hk⟩

/-- The features behind the first one. -/
theorem run_repeat_contextFeature_eq_ok :
    (repeatWhile (fun _ n => n.isComma) (fun s _ => contextFeature lib s) s).run ts =
        .ok (s', rest) ↔
      ∃ settings, Many (After TokenNode.isComma (ReadsFeature lib)) ts settings rest ∧
        settings.foldlM ContextOptions.apply s = some s' ∧
        Stops (fun (_ : ContextOptions) n => TokenNode.isComma n) s' rest := by
  refine run_repeatWhile_many (I := fun _ => True) ?_ (fun _ _ => trivial) ?_ trivial
  · intro s n left s' rest _ hn
    rw [run_contextFeature_eq_ok]
    refine exists_congr fun setting => and_congr_left fun _ => ?_
    constructor
    · intro h
      exact ⟨n, left, rfl, hn, h⟩
    · rintro ⟨n', left', hnext, -, h⟩
      cases hnext
      exact h
  · rintro s ts setting rest - ⟨n, left, hnext, hn, h⟩
    obtain ⟨m, left', hm, hid⟩ := h.next
    refine ⟨n, left, eq_cons_of_next_ne hnext hm ?_, hn⟩
    rintro rfl
    rw [(kind_of_isIdentifier hid).2.1] at hn
    cases hn

theorem run_contextWith_eq_ok :
    (contextWith lib s).run ts = .ok (s', rest) ↔
      ∃ settings n m ts₁ ts₂, ts.next = .ok (n, ts₁) ∧ n.isOpenParenthesis = true ∧
        Separated TokenNode.isComma (ReadsFeature lib) ts₁ settings ts₂ ∧
        ts₂.next = .ok (m, rest) ∧ m.isCloseParenthesis = true ∧
        settings.foldlM ContextOptions.apply s = some s' := by
  unfold contextWith
  rw [run_peek_bind_eq_ok]
  constructor
  · rintro ⟨n, left, hnext, h⟩
    rw [run_ite] at h
    split at h
    · next hn =>
      obtain ⟨n', left', hnext', h⟩ := run_take_bind_eq_ok.1 h
      rw [hnext] at hnext'
      cases hnext'
      obtain ⟨s₁, ts₁, hfirst, h⟩ := run_bind_eq_ok.1 h
      obtain ⟨s₂, ts₂, hloop, h⟩ := run_bind_eq_ok.1 h
      obtain ⟨m, behind, hm, h⟩ := run_peek_bind_eq_ok.1 h
      rw [run_ite] at h
      split at h
      · next hclose =>
        obtain ⟨m', behind', hm', h⟩ := run_take_bind_eq_ok.1 h
        rw [hm] at hm'
        cases hm'
        cases h
        obtain ⟨setting, hread, hs₁⟩ := run_contextFeature_eq_ok.1 hfirst
        obtain ⟨settings, hmany, hfold, -⟩ := run_repeat_contextFeature_eq_ok.1 hloop
        refine ⟨setting :: settings, n, m, left, ts₂, hnext, hn,
          ⟨setting, settings, ts₁, rfl, hread, hmany⟩, hm, hclose, ?_⟩
        rw [List.foldlM_cons, hs₁]
        exact hfold
      · exact absurd h (run_unexpected _ _ _)
    · exact absurd h (run_unexpected _ _ _)
  · rintro ⟨_, n, m, ts₁, ts₂, hnext, hn, ⟨setting, settings, ts₃, rfl, hread, hmany⟩, hm, hclose,
      hfold⟩
    rw [List.foldlM_cons, Option.bind_eq_bind, Option.bind_eq_some_iff] at hfold
    obtain ⟨s₁, hs₁, hfold⟩ := hfold
    refine ⟨n, ts₁, hnext, ?_⟩
    rw [run_ite, if_pos hn]
    have hcomma : m.isComma = false := by
      obtain ⟨token, location⟩ := m
      cases token <;> first | rfl | cases hclose
    refine run_take_bind_eq_ok.2 ⟨n, ts₁, hnext, run_bind_eq_ok.2 ⟨s₁, ts₃,
      run_contextFeature_eq_ok.2 ⟨setting, hread, hs₁⟩, run_bind_eq_ok.2 ⟨s', ts₂,
        run_repeat_contextFeature_eq_ok.2 ⟨settings, hmany, hfold, stops_of_next hm hcomma⟩,
          run_peek_bind_eq_ok.2 ⟨m, rest, hm, ?_⟩⟩⟩⟩
    rw [run_ite, if_pos hclose]
    exact run_take_bind_eq_ok.2 ⟨m, rest, hm, rfl⟩

theorem run_contextUsing_eq_ok :
    (contextUsing lib s n).run ts = .ok (s', rest) ↔
      ∃ m, ts.next = .ok (m, rest) ∧ m.isString = true ∧
        s.apply (.path (lib.toLower m.string)) = some s' := by
  unfold contextUsing
  rw [run_ite]
  constructor
  · intro h
    split at h
    · exact absurd h (run_unexpected _ _ _)
    · next hs =>
      obtain ⟨m, left, hnext, h⟩ := run_peek_bind_eq_ok.1 h
      rw [run_ite] at h
      split at h
      · next hm =>
        dsimp only at h
        rw [run_ite] at h
        split at h
        · exact absurd h (run_unexpected _ _ _)
        · next hpath =>
          rw [run_ite] at h
          split at h
          · exact absurd h (run_unexpected _ _ _)
          · next hmax =>
            obtain ⟨m', left', hnext', h⟩ := run_take_bind_eq_ok.1 h
            rw [hnext] at hnext'
            cases hnext'
            cases h
            exact ⟨m, hnext, hm, if_pos ⟨not_not.1 hs, hpath, Nat.lt_of_not_le hmax⟩⟩
      · exact absurd h (run_unexpected _ _ _)
  · rintro ⟨m, hnext, hm, hs'⟩
    rw [ContextOptions.apply] at hs'
    split at hs'
    · next hs =>
      obtain ⟨hs, hpath, hmax⟩ := hs
      cases hs'
      rw [if_neg (not_not.2 hs)]
      refine run_peek_bind_eq_ok.2 ⟨m, rest, hnext, ?_⟩
      rw [run_ite, if_pos hm]
      dsimp only
      rw [run_ite, if_neg hpath, run_ite, if_neg (Nat.not_le_of_lt hmax)]
      exact run_take_bind_eq_ok.2 ⟨m, rest, hnext, rfl⟩
    · cases hs'

/-- **A turn of the loop over the options.** -/
theorem run_contextOption_eq_ok (hn : n.isIdentifier = true) :
    (contextOption lib s n).run ts = .ok (s', rest) ↔
      ∃ settings, ReadsOption lib (.cons n ts) settings rest ∧
        settings.foldlM ContextOptions.apply s = some s' := by
  obtain ⟨k, hk⟩ : ∃ k, lib.keyword n = some k := exists_keyword hn
  unfold contextOption
  rw [hk]
  constructor
  · intro h
    rw [run_ite] at h
    split at h
    · next husing =>
      rw [husing] at hk
      obtain ⟨m, hnext, hm, hs'⟩ := run_contextUsing_eq_ok.1 h
      refine ⟨_, .using_ ⟨n, rfl, hk⟩ hnext hm, ?_⟩
      rw [List.foldlM_cons, hs']
      rfl
    · next husing =>
      rw [run_ite] at h
      split at h
      · next hwith =>
        rw [hwith] at hk
        obtain ⟨settings, m, m', ts₁, ts₂, hopen, hm, hfeatures, hclose, hm', hfold⟩ :=
          run_contextWith_eq_ok.1 h
        exact ⟨settings, .with_ ⟨n, rfl, hk⟩ hopen hm hfeatures hclose hm', hfold⟩
      · next hwith =>
        cases h
        exact ⟨_, .unknown ts hk (fun h => husing (congrArg some h)) fun h =>
          hwith (congrArg some h), rfl⟩
  · rintro ⟨settings, hread, hfold⟩
    cases hread with
    | using_ hkeyword hnext hm =>
      have husing := (hkeyword.next_eq rfl).1
      obtain ⟨-, rfl⟩ := hkeyword.next_eq rfl
      rw [hk] at husing
      rw [if_pos husing]
      refine run_contextUsing_eq_ok.2 ⟨_, hnext, hm, ?_⟩
      rw [List.foldlM_cons, Option.bind_eq_bind, Option.bind_eq_some_iff] at hfold
      obtain ⟨s₁, hs₁, hfold⟩ := hfold
      cases hfold
      exact hs₁
    | with_ hkeyword hopen hm hfeatures hclose hm' =>
      have hwith := (hkeyword.next_eq rfl).1
      obtain ⟨-, rfl⟩ := hkeyword.next_eq rfl
      rw [hk] at hwith
      rw [if_neg (by rw [hwith]; decide), if_pos hwith]
      exact run_contextWith_eq_ok.2 ⟨settings, _, _, _, _, hopen, hm, hfeatures, hclose, hm', hfold⟩
    | unknown rest hkeyword husing hwith =>
      cases hk.symm.trans hkeyword
      rw [if_neg fun h => husing (Option.some.inj h), if_neg fun h => hwith (Option.some.inj h)]
      cases hfold
      rfl

theorem ReadsOption.next {settings : List ContextSetting} (h : ReadsOption lib ts settings rest) :
    ∃ n left, ts = .cons n left ∧ n.isIdentifier = true := by
  cases h with
  | using_ hkeyword hnext hm =>
    obtain ⟨n, hn, hk⟩ := hkeyword
    have hid := isIdentifier_of_keyword hk
    refine ⟨n, _, eq_cons_of_next_ne hn hnext fun heq => ?_, hid⟩
    rw [heq, (kind_of_isIdentifier hid).2.2.1] at hm
    cases hm
  | with_ hkeyword hopen hm hfeatures hclose hm' =>
    obtain ⟨n, hn, hk⟩ := hkeyword
    have hid := isIdentifier_of_keyword hk
    refine ⟨n, _, eq_cons_of_next_ne hn hopen fun heq => ?_, hid⟩
    rw [heq] at hm
    obtain ⟨token, location⟩ := n
    cases token with
    | identifier t => cases hm
    | _ => cases hid
  | unknown rest hkeyword husing hwith => exact ⟨_, rest, rfl, isIdentifier_of_keyword hkeyword⟩

theorem foldlM_flatten {α σ : Type} (f : σ → α → Option σ) (ls : List (List α)) (s : σ) :
    ls.foldlM (fun s l => l.foldlM f s) s = ls.flatten.foldlM f s := by
  induction ls generalizing s with
  | nil => rfl
  | cons l ls ih =>
    rw [List.foldlM_cons, List.flatten_cons, List.foldlM_append]
    exact congrArg (Option.bind (l.foldlM f s)) (funext ih)

/-- The loop over the options. -/
theorem run_repeat_contextOption_eq_ok :
    (repeatWhile (fun _ n => n.isIdentifier) (contextOption lib) s).run ts = .ok (s', rest) ↔
      ∃ options, Many (ReadsOption lib) ts options rest ∧
        options.flatten.foldlM ContextOptions.apply s = some s' ∧
        Stops (fun (_ : ContextOptions) n => TokenNode.isIdentifier n) s' rest := by
  simp only [← foldlM_flatten]
  refine run_repeatWhile_many (I := fun _ => True) (fun _ hn => run_contextOption_eq_ok hn)
    (fun _ _ => trivial) ?_ trivial
  intro s ts settings rest _ h
  exact h.next

/-! ### The checks -/

theorem emptyButLast_cons_cons {t u : Bytes} {texts : List Bytes} :
    EmptyButLast (t :: u :: texts) ↔ t = [] ∧ EmptyButLast (u :: texts) := by
  simp [EmptyButLast]

theorem emptyButLast_nil_cons {texts : List Bytes} :
    EmptyButLast ([] :: texts) ↔ EmptyButLast texts := by
  cases texts with
  | nil => simp [EmptyButLast]
  | cons t texts => simp [emptyButLast_cons_cons]

theorem emptyButLast_of_length_le {texts : List Bytes} (h : texts.length ≤ 1) :
    EmptyButLast texts := by
  intro t ht
  have hnil : texts.dropLast = [] := by
    rw [← List.length_eq_zero_iff, List.length_dropLast]
    omega
  rw [hnil] at ht
  cases ht

/-- The variables behind the options, from those before them. -/
def ContextOptions.after (s : ContextOptions) (settings : List ContextSetting) : ContextOptions where
  contextPath := (settings.filterMap ContextSetting.path?).getLast?.getD s.contextPath
  owner := (settings.filterMap ContextSetting.user?).getLast?.getD s.owner
  group := (settings.filterMap ContextSetting.group?).getLast?.getD s.group
  description := (settings.filterMap ContextSetting.comment?).getLast?.getD s.description

/-- The options are accepted behind those before them. -/
structure ContextOptions.Accepts (s : ContextOptions) (settings : List ContextSetting) : Prop where
  paths : EmptyButLast (s.contextPath :: settings.filterMap ContextSetting.path?)
  segments : ∀ p ∈ settings.filterMap ContextSetting.path?,
    p ≠ [] ∧ (pathSegments p).length < ContextSetup.maxSegments
  users : EmptyButLast (s.owner :: settings.filterMap ContextSetting.user?)
  comments : EmptyButLast (s.description :: settings.filterMap ContextSetting.comment?)

theorem accepts_path {p : Bytes} {settings : List ContextSetting} :
    s.Accepts (.path p :: settings) ↔
      (s.contextPath = [] ∧ p ≠ [] ∧ (pathSegments p).length < ContextSetup.maxSegments) ∧
        ContextOptions.Accepts { s with contextPath := p } settings := by
  constructor
  · rintro ⟨hpaths, hsegments, husers, hcomments⟩
    obtain ⟨hempty, hpaths⟩ := emptyButLast_cons_cons.1 hpaths
    obtain ⟨hp, hsegments⟩ := List.forall_mem_cons.1 hsegments
    exact ⟨⟨hempty, hp⟩, hpaths, hsegments, husers, hcomments⟩
  · rintro ⟨⟨hempty, hp⟩, hpaths, hsegments, husers, hcomments⟩
    exact ⟨emptyButLast_cons_cons.2 ⟨hempty, hpaths⟩, List.forall_mem_cons.2 ⟨hp, hsegments⟩, husers,
      hcomments⟩

theorem accepts_owner {user : Bytes} {group : Option Bytes} {settings : List ContextSetting} :
    s.Accepts (.owner user group :: settings) ↔ s.owner = [] ∧
      ContextOptions.Accepts { s with owner := user, group := group.getD s.group } settings := by
  constructor
  · rintro ⟨hpaths, hsegments, husers, hcomments⟩
    obtain ⟨hempty, husers⟩ := emptyButLast_cons_cons.1 husers
    exact ⟨hempty, hpaths, hsegments, husers, hcomments⟩
  · rintro ⟨hempty, hpaths, hsegments, husers, hcomments⟩
    exact ⟨hpaths, hsegments, emptyButLast_cons_cons.2 ⟨hempty, husers⟩, hcomments⟩

theorem accepts_comment {text : Bytes} {settings : List ContextSetting} :
    s.Accepts (.comment text :: settings) ↔ s.description = [] ∧
      ContextOptions.Accepts { s with description := text } settings := by
  constructor
  · rintro ⟨hpaths, hsegments, husers, hcomments⟩
    obtain ⟨hempty, hcomments⟩ := emptyButLast_cons_cons.1 hcomments
    exact ⟨hempty, hpaths, hsegments, husers, hcomments⟩
  · rintro ⟨hempty, hpaths, hsegments, husers, hcomments⟩
    exact ⟨hpaths, hsegments, husers, emptyButLast_cons_cons.2 ⟨hempty, hcomments⟩⟩

theorem accepts_unknown {settings : List ContextSetting} :
    s.Accepts (.unknown :: settings) ↔ s.Accepts settings :=
  ⟨fun h => ⟨h.paths, h.segments, h.users, h.comments⟩,
    fun h => ⟨h.paths, h.segments, h.users, h.comments⟩⟩

/-- The last text of a list, with its first text for the one before it. -/
theorem getD_getLast?_cons (t : Bytes) (texts : List Bytes) (before : Bytes) :
    (t :: texts).getLast?.getD before = texts.getLast?.getD t := by
  rw [List.getLast?_cons, Option.getD_some]

theorem after_path (p : Bytes) (settings : List ContextSetting) :
    s.after (.path p :: settings) =
      ContextOptions.after { s with contextPath := p } settings :=
  congrArg (fun path => { s.after settings with contextPath := path })
    (getD_getLast?_cons p _ s.contextPath)

theorem after_owner (user : Bytes) (group : Option Bytes) (settings : List ContextSetting) :
    s.after (.owner user group :: settings) =
      ContextOptions.after { s with owner := user, group := group.getD s.group } settings := by
  have howner := getD_getLast?_cons user (settings.filterMap ContextSetting.user?) s.owner
  cases group with
  | none => exact congrArg (fun owner => { s.after settings with owner }) howner
  | some group =>
    exact congrArg₂ (fun owner group => { s.after settings with owner, group }) howner
      (getD_getLast?_cons group _ s.group)

theorem after_comment (text : Bytes) (settings : List ContextSetting) :
    s.after (.comment text :: settings) =
      ContextOptions.after { s with description := text } settings :=
  congrArg (fun description => { s.after settings with description })
    (getD_getLast?_cons text _ s.description)

/-- A check, and what follows. -/
theorem exists_ite_eq_some {α : Type} {p : Prop} [Decidable p] {t : α} {q : α → Prop} :
    (∃ a, (if p then some t else none) = some a ∧ q a) ↔ p ∧ q t := by
  split
  · next hp => simp [hp]
  · next hp => simp [hp]

/-- **The options that are accepted, and what they set.** -/
theorem foldlM_apply_eq_some_iff {settings : List ContextSetting} :
    settings.foldlM ContextOptions.apply s = some s' ↔
      s.Accepts settings ∧ s' = s.after settings := by
  induction settings generalizing s with
  | nil =>
    have haccepts : s.Accepts [] :=
      ⟨by simp [EmptyButLast], by simp, by simp [EmptyButLast], by simp [EmptyButLast]⟩
    constructor
    · intro h
      cases h
      exact ⟨haccepts, rfl⟩
    · rintro ⟨-, rfl⟩
      rfl
  | cons setting settings ih =>
    rw [List.foldlM_cons, Option.bind_eq_bind, Option.bind_eq_some_iff]
    simp only [ih]
    cases setting with
    | path p => rw [accepts_path, after_path, and_assoc, apply_path, exists_ite_eq_some]
    | owner user group =>
      rw [accepts_owner, after_owner, and_assoc, apply_owner, exists_ite_eq_some]
    | comment text =>
      rw [accepts_comment, after_comment, and_assoc, apply_comment, exists_ite_eq_some]
    | unknown =>
      rw [accepts_unknown]
      constructor
      · rintro ⟨s₁, hs₁, h⟩
        cases hs₁
        exact h
      · intro h
        exact ⟨s, rfl, h⟩

end

/-- What the checks of the parser come to. -/
theorem checked_iff (s : ContextStatement) :
    s.Checked ↔ validName s.name = true ∧ ContextOptions.Accepts {} s.settings := by
  constructor
  · rintro ⟨hname, hpaths, hsegments, husers, hcomments⟩
    exact ⟨hname, emptyButLast_nil_cons.2 (emptyButLast_of_length_le hpaths), hsegments,
      emptyButLast_nil_cons.2 husers, emptyButLast_nil_cons.2 hcomments⟩
  · rintro ⟨hname, hpaths, hsegments, husers, hcomments⟩
    refine ⟨hname, ?_, hsegments, emptyButLast_nil_cons.1 husers, emptyButLast_nil_cons.1 hcomments⟩
    -- a second path stands behind one that is not empty
    have hempty := emptyButLast_nil_cons.1 hpaths
    by_contra hlength
    obtain ⟨p, hp⟩ := List.exists_mem_of_length_pos (l := s.paths.dropLast)
      (by rw [List.length_dropLast]; omega)
    exact (hsegments p (List.mem_of_mem_dropLast hp)).1 (hempty p hp)

theorem contextCommand_after (s : ContextStatement) :
    contextCommand s.ifNotExists s.name (ContextOptions.after {} s.settings) = s.command := by
  refine Command.ext rfl (funext fun p => ?_)
  cases p <;> rfl

theorem run_contextNamed_eq_ok {lib : Library F} {ts rest : Tokens F} {command : Command}
    {ifNotExists : Bool} :
    (contextNamed lib ifNotExists).run ts = .ok (command, rest) ↔
      ∃ n options ts₁ ts₂, ts.next = .ok (n, ts₁) ∧ Many (ReadsOption lib) ts₁ options ts₂ ∧
        SemiColon ts₂ rest ∧ validName (lib.toLower n.string) = true ∧
        ContextOptions.Accepts {} options.flatten ∧
        command = contextCommand ifNotExists (lib.toLower n.string)
          (ContextOptions.after {} options.flatten) := by
  unfold contextNamed
  rw [run_peek_bind_eq_ok]
  constructor
  · rintro ⟨n, left, hnext, h⟩
    dsimp only at h
    rw [run_ite] at h
    split at h
    · next hname =>
      obtain ⟨n', ts₁, hnext', h⟩ := run_take_bind_eq_ok.1 h
      obtain ⟨s, ts₂, hloop, h⟩ := run_bind_eq_ok.1 h
      obtain ⟨u, ts₃, hsemi, h⟩ := run_bind_eq_ok.1 h
      cases h
      obtain ⟨options, hoptions, hfold, -⟩ := run_repeat_contextOption_eq_ok.1 hloop
      obtain ⟨haccepts, rfl⟩ := foldlM_apply_eq_some_iff.1 hfold
      rw [hnext] at hnext'
      cases hnext'
      exact ⟨n, options, left, ts₂, hnext, hoptions, run_expectSemiColon_eq_ok.1 hsemi, hname,
        haccepts, rfl⟩
    · exact absurd h (run_unexpected _ _ _)
  · rintro ⟨n, options, ts₁, ts₂, hnext, hoptions, hsemi, hname, haccepts, rfl⟩
    refine ⟨n, ts₁, hnext, ?_⟩
    dsimp only
    rw [run_ite, if_pos hname]
    have hstops : Stops (fun (_ : ContextOptions) n => TokenNode.isIdentifier n)
        (ContextOptions.after {} options.flatten) ts₂ := by
      obtain ⟨m, hm, hs⟩ := hsemi
      exact stops_of_next hm (kind_of_isSemiColon hs).1
    exact run_take_bind_eq_ok.2 ⟨n, ts₁, hnext, run_bind_eq_ok.2 ⟨_, ts₂,
      run_repeat_contextOption_eq_ok.2
        ⟨options, hoptions, foldlM_apply_eq_some_iff.2 ⟨haccepts, rfl⟩, hstops⟩,
      run_bind_eq_ok.2 ⟨(), rest, run_expectSemiColon_eq_ok.2 hsemi, rfl⟩⟩⟩

/-- **The parser returns the commands of the statements that it accepts.** -/
theorem run_parseCreateContext_eq_ok {lib : Library F} {ts rest : Tokens F} {command : Command} :
    (parseCreateContext lib).run ts = .ok (command, rest) ↔
      ∃ s, ReadsContext lib ts s rest ∧ s.namedIf = false ∧ s.Checked ∧ s.command = command := by
  unfold parseCreateContext
  rw [run_peek_bind_eq_ok]
  constructor
  · rintro ⟨n, left, hnext, h⟩
    rw [run_ite] at h
    split at h
    · next hid =>
      obtain ⟨ifNotExists, ts₁, hif, h⟩ := run_bind_eq_ok.1 h
      obtain ⟨m, options, ts₂, ts₃, hm, hoptions, hsemi, hname, haccepts, rfl⟩ :=
        run_contextNamed_eq_ok.1 h
      rcases run_ifKeywords_eq_ok.1 hif with ⟨rfl, hif, k, left', hk, hkid⟩ |
        ⟨rfl, rfl, k, left', hk, hif⟩
      · rw [hm] at hk
        cases hk
        exact ⟨_, .ifNotExists hif ⟨hm, hkid⟩ hoptions hsemi, rfl,
          (checked_iff _).2 ⟨hname, haccepts⟩, (contextCommand_after _).symm⟩
      · rw [hm] at hk hnext
        cases hk
        cases hnext
        exact ⟨_, .plain ⟨hm, hid⟩ hoptions hsemi, decide_eq_false hif,
          (checked_iff _).2 ⟨hname, haccepts⟩, (contextCommand_after _).symm⟩
    · exact absurd h (run_unexpected _ _ _)
  · rintro ⟨s, hread, hif, hchecked, rfl⟩
    obtain ⟨hname, haccepts⟩ := (checked_iff s).1 hchecked
    cases hread with
    | ifNotExists hkeywords hid hoptions hsemi =>
      obtain ⟨left, ⟨n, hnext, hn⟩, -⟩ := hkeywords.first
      refine ⟨n, _, hnext, ?_⟩
      rw [run_ite, if_pos (isIdentifier_of_keyword hn)]
      exact run_bind_eq_ok.2 ⟨true, _,
        run_ifKeywords_eq_ok.2 (.inl ⟨rfl, hkeywords, _, _, hid⟩), run_contextNamed_eq_ok.2
          ⟨_, _, _, _, hid.1, hoptions, hsemi, hname, haccepts, (contextCommand_after _).symm⟩⟩
    | plain hid hoptions hsemi =>
      refine ⟨_, _, hid.1, ?_⟩
      rw [run_ite, if_pos hid.2]
      exact run_bind_eq_ok.2 ⟨false, ts,
        run_ifKeywords_eq_ok.2 (.inr ⟨rfl, rfl, _, _, hid.1, of_decide_eq_false hif⟩),
          run_contextNamed_eq_ok.2
            ⟨_, _, _, _, hid.1, hoptions, hsemi, hname, haccepts, (contextCommand_after _).symm⟩⟩

end Parser

end Prinbee
