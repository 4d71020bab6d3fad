import Cindral.Base.Table
import Cindral.Dispatch.Frame
import Cindral.Dispatch.Webhook
import Cindral.Routing.Targets

/-!
# The allow list

An allow list is a set of entries: which entry governs a repository depends neither on the order of
the file nor on the case the repository is written in. `Governs` and `Covers` say what entries and
ref patterns mean, and the checks of the policy decide exactly that.
-/

namespace Cindral.Dispatch
open Base Routing Script

def ownerDefault (repository : String) : String :=
  String.ofList ((lower repository).toList.takeWhile (· ≠ '/') ++ ['/', '*'])

/-- The entry that speaks for a repository: its own, or else its owner's. -/
inductive Governs (entries : Set DispatchTarget) (repository : String) : DispatchTarget → Prop
  | own {entry : DispatchTarget} (member : entry ∈ entries)
      (same : lower entry.repository = lower repository) :
      Governs entries repository entry
  | owner {entry : DispatchTarget} (unnamed : ∀ other ∈ entries, lower other.repository ≠ lower
      repository)
      (member : entry ∈ entries) (same : lower entry.repository = ownerDefault repository) :
      Governs entries repository entry

/-- A name under `refs/heads/`, free of what git refuses in one. -/
def IsBranch (ref : String) : Prop :=
  (∃ name, name ≠ "" ∧ ref = branchRefRoot ++ name) ∧ ∀ fragment ∈ invalidRefFragments,
  ¬ fragment.toList <:+: ref.toList

inductive Covers (ref : String) : String → Prop
  | exact (literal : '*' ∉ ref.toList) : Covers ref ref
  | below (directory name : String) (inside : ref = directory ++ "/" ++ name) :
      Covers ref (directory ++ "/*")

/-- A ref that a governing entry grants to a workflow. -/
structure Granted (target : DispatchTarget) (workflow ref : String) : Prop where
  dispatches : target.dispatches = true
  workflow : workflow ∈ target.workflows
  branch : IsBranch ref
  covered : ∃ pattern ∈ target.refs, Covers ref pattern

variable {p q : Policy} {data : Json} {repository workflow ref : String} {target : DispatchTarget}

/-- The entries of a policy, by the name a request is compared with. -/
abbrev Entries := Table fun target : DispatchTarget => lower target.repository

/-- The entries have distinct names, and each is well formed. -/
structure Accepted (p : Policy) where
  entries : Entries
  listed : entries.rows = p.dispatchTargets
  formed : ∀ target ∈ p.dispatchTargets, WellFormed target

/-- A policy file that loads gives an accepted policy. -/
def accepted_of_load (loaded : loadDispatchTargets data = .ok p.dispatchTargets) : Accepted p where
  entries := ⟨p.dispatchTargets, by
    obtain ⟨_, _, _, unlike⟩ := loadDispatchTargets_ok_iff.mp loaded
    exact unlike⟩
  listed := rfl
  formed target member := by
    obtain ⟨entries, _, read, _⟩ := loadDispatchTargets_ok_iff.mp loaded
    obtain ⟨value, _, parsed⟩ := mem_of_mapM_ok read member
    exact parseTarget_ok parsed

theorem targetFor_iff (accepted : Accepted p) :
    p.targetFor repository = some target ↔ Governs {entry | entry ∈ p.dispatchTargets} repository
    target := by
  obtain ⟨entries, listed, -⟩ := accepted
  have found (name : String) (entry : DispatchTarget) :
      p.dispatchTargets.find? (fun entry => lower entry.repository = name) = some entry ↔
        entry ∈ p.dispatchTargets ∧ lower entry.repository = name := by
    rw [← listed]
    constructor
    · exact Table.find?_some
    · rintro ⟨member, rfl⟩
      exact Table.find?_of_mem member
  simp only [Policy.targetFor, Option.or_eq_some_iff, found, List.find?_eq_none, decide_eq_true_eq]
  constructor
  · rintro (⟨member, same⟩ | ⟨unnamed, member, same⟩)
    · exact .own member same
    · exact .owner unnamed member same
  · intro governs
    cases governs with
    | own member same => exact Or.inl ⟨member, same⟩
    | owner unnamed member same => exact Or.inr ⟨unnamed, member, same⟩

theorem governs_of_lower {entries : Set DispatchTarget} {spelled : String}
    (same : lower repository = lower spelled)
    (governs : Governs entries repository target) : Governs entries spelled target := by
  cases governs with
  | own member named => exact .own member (named.trans same)
  | owner unnamed member named =>
    refine .owner (fun other inside => by rw [← same]; exact unnamed other inside) member ?_
    rw [named, ownerDefault, ownerDefault, same]

/-- The entries decide as a set, and a repository by its name in lower case. -/
theorem targetFor_congr {spelled : String} (first : Accepted p) (second : Accepted q)
    (entries : ∀ entry, entry ∈ p.dispatchTargets ↔ entry ∈ q.dispatchTargets)
    (same : lower repository = lower spelled) :
    p.targetFor repository = q.targetFor spelled := by
  have sets : {entry | entry ∈ p.dispatchTargets} = {entry | entry ∈ q.dispatchTargets} := Set.ext entries
  ext target
  rw [targetFor_iff first, targetFor_iff second, sets]
  exact ⟨governs_of_lower same, governs_of_lower same.symm⟩

/-- Two policies say the same, each of its own spelling of a repository. -/
structure Agree (p q : Policy) (repository spelled : String) : Prop where
  dispatch : ∀ workflow ref, p.checkDispatch repository workflow ref = q.checkDispatch spelled
    workflow ref
  pushLane : p.pushLane repository = q.pushLane spelled
  device : p.permitsDevice repository = q.permitsDevice spelled

theorem agree_of_targetFor {spelled : String} (same : p.targetFor repository = q.targetFor spelled) :
    Agree p q repository spelled where
  dispatch workflow ref := by rw [Policy.checkDispatch, Policy.checkDispatch, same]
  pushLane := by rw [Policy.pushLane, Policy.pushLane, same]
  device := by rw [Policy.permitsDevice, Policy.permitsDevice, same]

/-! ## Refs -/

theorem isBranch_iff : IsBranch ref ↔
    (hasPrefix ref branchRefRoot && ref ≠ branchRefRoot && !invalidRefFragments.any
    (hasInfix ref)) = true := by
  have under : (∃ name, name ≠ "" ∧ ref = branchRefRoot ++ name) ↔
      hasPrefix ref branchRefRoot = true ∧ ref ≠ branchRefRoot := by
    rw [hasPrefix_iff]
    constructor
    · rintro ⟨name, some_, rfl⟩
      refine ⟨⟨name.toList, (String.toList_append ..).symm⟩, fun none => some_ ?_⟩
      have same := congrArg String.toList none
      rw [String.toList_append] at same
      exact String.toList_inj.mp (List.append_right_eq_self.mp same)
    · rintro ⟨⟨rest, same⟩, some_⟩
      have whole : ref = branchRefRoot ++ String.ofList rest := String.toList_inj.mp (by
        rw [String.toList_append, String.toList_ofList, same])
      refine ⟨String.ofList rest, fun none => some_ ?_, whole⟩
      rw [whole, none, String.append_empty]
  simp only [IsBranch, under, ← hasInfix_iff, Bool.and_eq_true, decide_eq_true_eq, Bool.not_eq_true',
    List.any_eq_false, Bool.not_eq_true]

theorem hasSuffix_star (pattern : String) : hasSuffix (pattern ++ "/*") "*" = true :=
  hasSuffix_iff.mpr ⟨pattern.toList ++ ['/'], by rw [String.toList_append]; exact List.append_assoc ..⟩

theorem not_hasSuffix_star {pattern : String} (literal : '*' ∉ pattern.toList) :
    hasSuffix pattern "*" = false := by
  rw [Bool.eq_false_iff]
  intro star
  obtain ⟨front, same⟩ := hasSuffix_iff.mp star
  exact literal (by rw [← same]; exact List.mem_append_right _ List.mem_cons_self)

theorem star_mem (directory : String) : '*' ∈ (directory ++ "/*").toList := by
  rw [String.toList_append]
  exact List.mem_append_right _ (by decide)

theorem sliceTo_star (directory : String) :
    sliceTo (directory ++ "/*") ((directory ++ "/*").length - 1) = directory ++ "/" := by
  apply String.toList_inj.mp
  have parts : (directory ++ "/*").toList = (directory ++ "/").toList ++ ['*'] := by
    rw [String.toList_append, String.toList_append, List.append_assoc]
    rfl
  rw [toList_sliceTo, ← String.length_toList, parts, List.length_append]
  exact List.take_left' rfl

theorem covers_iff {pattern : String} (shape : RefPattern pattern) : Covers ref pattern ↔
    (if hasSuffix pattern "*" then hasPrefix ref (sliceTo pattern (pattern.length - 1)) else decide
    (ref = pattern)) = true := by
  cases shape with
  | branch literal =>
    rw [not_hasSuffix_star literal, if_neg Bool.false_ne_true, decide_eq_true_eq]
    constructor
    · intro covers
      cases covers with
      | exact _ => rfl
      | below directory name inside => exact absurd (star_mem directory) literal
    · rintro rfl
      exact .exact literal
  | below directory =>
    rw [hasSuffix_star, if_pos rfl, sliceTo_star, hasPrefix_iff]
    constructor
    · intro covers
      generalize same : directory ++ "/*" = pattern at covers
      cases covers with
      | exact literal => exact absurd (same ▸ star_mem directory) literal
      | below other name inside =>
        have whole := congrArg String.toList same
        rw [String.toList_append, String.toList_append] at whole
        obtain rfl := String.toList_inj.mp (List.append_cancel_right whole)
        exact ⟨name.toList, by simp only [inside, String.toList_append]⟩
    · rintro ⟨rest, same⟩
      exact .below directory (String.ofList rest) (String.toList_inj.mp (by
        rw [String.toList_append, String.toList_ofList, same]))

theorem refPermitted_iff {patterns : List String} (shapes : ∀ pattern ∈ patterns, RefPattern pattern) :
    refPermitted ref patterns = true ↔ IsBranch ref ∧ ∃ pattern ∈ patterns, Covers ref pattern := by
  rw [refPermitted, Bool.and_eq_true, isBranch_iff, List.any_eq_true]
  refine and_congr_right fun _ => exists_congr fun pattern => and_congr_right fun member => ?_
  exact (covers_iff (shapes pattern member)).symm

/-- The check of a dispatch lets through what the governing entry grants, and nothing else. -/
theorem checkDispatch_iff (accepted : Accepted p) : p.checkDispatch repository workflow ref = .ok () ↔
    ∃ target, Governs {entry | entry ∈ p.dispatchTargets} repository target ∧
    Granted target workflow (canonicalRef ref) := by
  simp only [← targetFor_iff accepted]
  unfold Policy.checkDispatch
  cases named : p.targetFor repository with
  | none => exact ⟨fun h => (by cases h), fun ⟨_, found, _⟩ => (by cases found)⟩
  | some target =>
    have member : target ∈ p.dispatchTargets := by
      cases (targetFor_iff accepted).mp named with
      | own member _ | owner _ member _ => exact member
    have refs : refPermitted (canonicalRef ref) target.refs = true ↔ IsBranch (canonicalRef ref) ∧ _ :=
      refPermitted_iff (accepted.formed target member).refs
    simp only [Option.some_inj, exists_eq_left']
    constructor
    · intro h
      split at h
      · cases h
      · rename_i dispatches
        split at h
        · cases h
        · rename_i listed
          split at h
          · cases h
          · rename_i permitted
            have granted := refs.mp (by simpa using permitted)
            exact ⟨by simpa using dispatches, not_not.mp listed, granted.1, granted.2⟩
    · intro granted
      have permitted := refs.mpr ⟨granted.branch, granted.covered⟩
      rw [if_neg (by simp [granted.dispatches]), if_neg (not_not.mpr granted.workflow),
        if_neg (by simp [permitted])]

/-! ## The checkout ref that goes out -/

theorem canonicalRef_canonicalRef (ref : String) :
    canonicalRef (canonicalRef ref) = canonicalRef ref := by
  unfold canonicalRef
  by_cases full : hasPrefix ref "refs/" = true
  · rw [if_pos full, if_pos full]
  · rw [if_neg full]
    have rooted : hasPrefix (branchRefRoot ++ ref) "refs/" = true :=
      hasPrefix_iff.mpr ⟨"heads/".toList ++ ref.toList, by rw [String.toList_append]; rfl⟩
    rw [if_pos rooted]

/-- An input that is blank, or a ref that is as git writes it and that the policy lets through. -/
def Checkout (p : Policy) (repository workflow : String) (input : Option String) : Prop :=
  strip (input.getD "") = "" ∨
    ∃ ref, input = some ref ∧ canonicalRef ref = ref ∧ p.checkDispatch repository workflow ref = .ok ()

theorem lookup_update (inputs : List (String × String)) (name value asked : String) :
    (inputs.map fun field => if field.1 = name then (name, value) else field).lookup asked =
      if asked = name then (inputs.lookup name).map fun _ => value else inputs.lookup asked := by
  induction inputs with
  | nil => simp only [List.map_nil, List.lookup_nil, Option.map_none, ite_self]
  | cons field rest ih =>
    obtain ⟨key, held⟩ := field
    rw [List.map_cons]
    by_cases here : key = name
    · subst here
      rw [if_pos rfl]
      by_cases wanted : asked = key
      · subst wanted
        rw [List.lookup_cons_self, List.lookup_cons_self, if_pos rfl, Option.map_some]
      · have other : (asked == key) = false := beq_false_of_ne wanted
        simp only [List.lookup_cons, other, ih, if_neg wanted]
    · rw [if_neg here]
      by_cases wanted : asked = key
      · subst wanted
        rw [List.lookup_cons_self, List.lookup_cons_self, if_neg here]
      · have other : (asked == key) = false := beq_false_of_ne wanted
        have later : (name == key) = false := beq_false_of_ne (Ne.symm here)
        simp only [List.lookup_cons, other, later, ih]

theorem lookup_setInput (inputs : List (String × String)) (name value asked : String) :
    (setInput inputs name value).lookup asked = if asked = name then some value else inputs.lookup
    asked := by
  have held : inputs.any (·.1 = name) = (inputs.lookup name).isSome := by
    rw [Bool.eq_iff_iff, List.lookup_isSome_iff]
    simp only [List.any_eq_true, decide_eq_true_eq, beq_iff_eq]
    exact exists_congr fun field => and_congr_right fun _ => eq_comm
  unfold setInput
  split
  · rename_i some_
    obtain ⟨old, found⟩ := Option.isSome_iff_exists.mp (held.symm.trans some_)
    rw [lookup_update, found, Option.map_some]
  · rename_i fresh
    have absent : inputs.lookup name = none := Option.not_isSome_iff_eq_none.mp (held ▸ fresh)
    rw [List.lookup_append, List.lookup_singleton]
    by_cases wanted : asked = name
    · subst wanted
      rw [absent, if_pos rfl, if_pos (beq_self_eq_true _), Option.none_or]
    · rw [if_neg wanted, if_neg (by simpa using wanted), Option.or_none]

theorem checkDispatch_canonical (p : Policy) (repository workflow ref : String) :
    p.checkDispatch repository workflow (canonicalRef ref) = p.checkDispatch repository workflow ref := by
  rw [Policy.checkDispatch, Policy.checkDispatch, canonicalRef_canonicalRef]

theorem checkedDispatchRef_checkout {inputs sent : List (String × String)}
    (h : checkedDispatchRef p repository workflow inputs = .ok sent) :
    Checkout p repository workflow (sent.lookup "cindral_ref") := by
  unfold checkedDispatchRef at h
  dsimp only at h
  split at h
  · rename_i blank
    obtain rfl := Except.ok.inj h
    exact Or.inl blank
  · generalize strip ((inputs.lookup "cindral_ref").getD "") = named at h
    cases allowed : p.checkDispatch repository workflow named with
    | error e => rw [allowed] at h; cases h
    | ok _ =>
      rw [allowed] at h
      obtain rfl := Except.ok.inj h
      refine Or.inr ⟨canonicalRef named, ?_, canonicalRef_canonicalRef named, ?_⟩
      · rw [lookup_setInput, if_pos rfl]
      · rw [checkDispatch_canonical, allowed]

/-- A call that starts a workflow run does so with a checked checkout ref. -/
def Call.checkedOut (p : Policy) : Call → Prop
  | .dispatch sent => Checkout p sent.repository sent.workflow (sent.inputs.lookup "cindral_ref")
  | _ => True

theorem sideline_checkedOut {p : Policy} {c : Call} (h : c.sideline) : c.checkedOut p := by
  cases c with
  | dispatch _ => exact h.elim
  | _ => trivial

theorem only_checkedOut (server : Server) (request : DispatchRequest) :
    (dispatchEndpoint server request).Only (Call.checkedOut server.policy) := by
  have quiet {α : Type} {s : Program α} (only : s.Only Call.sideline) :
      s.Only (Call.checkedOut server.policy) :=
    only_mono only fun _ => sideline_checkedOut
  have aside {α : Type} {s : Program α} (only : s.Only Call.aside) :
      s.Only (Call.checkedOut server.policy) :=
    aside_only (fun _ => sideline_checkedOut) only
  unfold dispatchEndpoint
  split
  · exact aside (only_sendError _ _)
  · split
    · exact aside (only_sendError _ _)
    · split
      · exact aside (only_sendError _ _)
      · exact aside (only_sendError _ _)
      · exact aside (only_sendError _ _)
      · split
        · exact aside (only_sendError _ _)
        · split
          · exact aside (only_sendError _ _)
          · rename_i checked
            refine only_bind (only_attempt (quiet (only_dispatchDecision _ _ _ _))) fun outcome => ?_
            split
            · exact aside (only_sendError _ _)
            · exact aside (only_sendError _ _)
            · trivial
            · -- the broker's own three inputs leave the checkout ref as it was checked
              have kept := checkedDispatchRef_checkout checked
              refine only_bind (only_attempt (only_call ?_)) fun answered => ?_
              · simpa [Call.checkedOut, lookup_setInput] using kept
              · split
                · exact only_bind (aside (only_nameHold mute_aside _ _ _ _ _)) fun _ =>
                    aside (only_send _ _)
                · refine only_bind (aside (only_releaseIf mute_aside _ _ _)) fun _ => ?_
                  exact only_bind (quiet (only_dropRunner _)) fun _ => aside (only_sendError _ _)
                · exact only_bind (quiet (only_dropRunner _)) fun _ => aside (only_sendError _ _)

/-- The entries of a file in another order load too, as the same entries. -/
theorem load_perm {data' : Json} {entries entries' : List Json} {targets : List DispatchTarget}
    (loaded : loadDispatchTargets data = .ok targets) (listed : dispatchEntries data = .ok entries)
    (listed' : dispatchEntries data' = .ok entries') (perm : entries.Perm entries') :
    ∃ targets', loadDispatchTargets data' = .ok targets' ∧ targets.Perm targets' := by
  obtain ⟨read, same, parsed, unlike⟩ := loadDispatchTargets_ok_iff.mp loaded
  obtain rfl := Except.ok.inj (listed.symm.trans same)
  obtain ⟨targets', reordered, back⟩ := List.perm_comp_forall₂ perm.symm (mapM_ok_iff.mp parsed)
  exact ⟨targets', loadDispatchTargets_ok_iff.mpr ⟨entries', listed', mapM_ok_iff.mpr reordered,
    (back.map _).nodup_iff.mpr unlike⟩, back.symm⟩

/-- What a loaded policy file lets through: whatever the order of its entries and the case of a
repository, by a repository's own entry first, and only a branch that a pattern covers, which is
also the one that is checked out. -/
theorem allow_list {data : Json} {p : Policy}
    (loaded : loadDispatchTargets data = .ok p.dispatchTargets) :
    (∀ (data' : Json) (entries entries' : List Json), dispatchEntries data = .ok entries →
      dispatchEntries data' = .ok entries' → entries.Perm entries' →
      ∃ targets, loadDispatchTargets data' = .ok targets ∧ ∀ q : Policy, q.dispatchTargets = targets →
        ∀ repository spelled, lower repository = lower spelled → Agree p q repository spelled) ∧
    (∀ entry ∈ p.dispatchTargets, ∀ repository, lower entry.repository = lower repository →
      p.targetFor repository = some entry) ∧
    (∀ repository workflow ref, p.checkDispatch repository workflow ref = .ok () ↔
      ∃ target, Governs {entry | entry ∈ p.dispatchTargets} repository target ∧
        Granted target workflow (canonicalRef ref)) ∧
    (∀ repository workflow inputs sent, checkedDispatchRef p repository workflow inputs = .ok sent →
      Checkout p repository workflow (sent.lookup "cindral_ref")) ∧
    ∀ (server : Server) (request : DispatchRequest), server.policy = p →
      (dispatchEndpoint server request).Only (Call.checkedOut p) := by
  have accepted := accepted_of_load loaded
  refine ⟨?_, ?_, fun _ _ _ => checkDispatch_iff accepted, fun _ _ _ _ => checkedDispatchRef_checkout, ?_⟩
  · intro data' entries entries' listed listed' perm
    obtain ⟨targets, again, same⟩ := load_perm loaded listed listed' perm
    refine ⟨targets, again, fun q holds repository spelled lowered => agree_of_targetFor ?_⟩
    refine targetFor_congr accepted (accepted_of_load (holds ▸ again)) (fun entry => ?_) lowered
    rw [holds]
    exact same.mem_iff
  · intro entry member repository same
    exact (targetFor_iff accepted).mpr (.own member same)
  · rintro server request rfl
    exact only_checkedOut server request

/-- The section of the shipped policy file, with the account's default before it. -/
def listedTwice : Json :=
  .obj [("dispatch", .obj [("repositories", .arr [
    .obj [("mode", .str "dispatch"), ("repository", .str "example-org/*"),
      ("workflows", .arr [.str "other.yml"]),
      ("refs", .arr [.str "refs/heads/feature/*"])],
    .obj [("mode", .str "both"), ("repository", .str "Example-Org/example-app"),
      ("workflows", .arr [.str "cindral-dispatch.yml"]), ("refs", .arr [.str "refs/heads/main"]),
      ("push_lane", .str "auto")]])])]

def listedPolicy : Policy :=
  { Policy.shipped with dispatchTargets :=
    [{ mode := .dispatch, repository := "example-org/*", workflows := ["other.yml"], refs := ["refs/heads/feature/*"] },
     { mode := .both, repository := "Example-Org/example-app", workflows := ["cindral-dispatch.yml"]
       refs := ["refs/heads/main"], pushLane := .auto }] }

theorem listed_own_entry : (listedPolicy.targetFor "example-org/Example-App").map
    DispatchTarget.pushLane = some .auto := by
  have own := (@allow_list listedTwice listedPolicy (by rfl)).2.1 _
    (List.mem_cons_of_mem _ List.mem_cons_self) "example-org/Example-App" (by decide)
  rw [own]
  rfl

end Cindral.Dispatch
