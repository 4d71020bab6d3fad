import Cindral.Base.Json
import Cindral.Base.Outcome
import Cindral.Routing.Policy
import Mathlib.Data.List.Infix
import Mathlib.Data.List.Perm.Basic

/-! Which repositories the policy file lets the broker dispatch to, and which refs of each. -/

namespace Cindral.Routing
open Base

/-- A `ValueError`: its text, and the value that the source puts after it with `!r`. -/
structure Refusal where
  text : String
  shown : Option Json := none

def refuseIf (fault : Prop) [Decidable fault] (text : String) : Except Refusal Unit :=
  if fault then .error { text := text } else .ok ()

def servedModes : List (String × ServedMode) :=
  [("dispatch", .dispatch), ("device", .device), ("both", .both)]

def pushLanes : List (String × PushLane) := [("auto", .auto), ("device", .device), ("hosted", .hosted)]

/-- `owner/*`, which stands for every repository of an account. -/
def isOwnerDefault (repository : String) : Bool :=
  hasSuffix repository "/*" &&
    let owner := repository.toList.take (repository.length - 2)
    owner ≠ [] && owner.all slugChar

def isWorkflowName (workflow : String) : Bool :=
  (hasSuffix workflow ".yml" || hasSuffix workflow ".yaml") && !hasInfix workflow "/" && !hasPrefix
  workflow "."

/-- What a ref has to start with to be under a pattern. -/
def patternStart (pattern : String) : String :=
  if hasSuffix pattern "*" then sliceTo pattern (pattern.length - 1) else pattern

/-- `_check_ref_pattern`, with the pattern it lets through. -/
def checkRefPattern (repository : String) (value : Json) : Except Refusal String :=
  let outside := Refusal.mk s!"{repository} dispatch refs must be branches under {branchRefRoot}" value
  match value with
  | .str pattern =>
    if !hasPrefix pattern branchRefRoot then .error outside
    else if hasInfix pattern "*" && !(hasSuffix pattern "*" && pattern.toList.count '*' = 1) then
      .error ⟨s!"{repository} dispatch ref takes one trailing *", value⟩
    else if hasSuffix pattern "*" && !hasSuffix pattern "/*" then
      -- without the slash `refs/heads/feature*` would reach `refs/heads/featureXYZ`
      .error ⟨s!"{repository} dispatch ref wildcard must follow a slash, as in {patternStart pattern}/*", value⟩
    else if invalidRefFragments.any (hasInfix (patternStart pattern)) then
      .error ⟨s!"{repository} dispatch ref is not a branch name", value⟩
    else .ok pattern
  | _ => .error outside

def checkWorkflow (repository : String) (value : Json) : Except Refusal String :=
  let refused := Except.error ⟨s!"{repository} dispatch workflow must be a workflow file name", value⟩
  match value with
  | .str workflow => if isWorkflowName workflow then .ok workflow else refused
  | _ => refused

/-- `value.get(key, [])`, which has to be a list. -/
def listField (value : Json) (key text : String) : Except Refusal (List Json) :=
  match value.get key with
  | .null => .ok []
  | .arr items => .ok items
  | _ => .error { text := text }

def repositoryField (value : Json) : Except Refusal String :=
  let refused text := Except.error ⟨text, value.get "repository"⟩
  match value.get "repository" with
  | .str repository =>
    if hasSuffix repository "/*" then
      if isOwnerDefault repository then .ok repository
      else refused "dispatch repository default must be owner/*"
    else if isRepositorySlug repository then .ok repository
    else refused "dispatch repository must be owner/name or owner/*"
  | _ => refused "dispatch repository must be owner/name or owner/*"

def pushLaneField (repository : String) (value : Json) : Except Refusal (Option PushLane) :=
  let refused := Except.error ⟨s!"{repository} push_lane must be one of auto, device, hosted",
    value.get "push_lane"⟩
  match value.get "push_lane" with
  | .null => .ok none
  | .str name => match pushLanes.lookup name with
    | some lane => .ok lane
    | none => refused
  | _ => refused

def modeField (value : Json) : Except Refusal ServedMode :=
  let refused := Except.error ⟨"dispatch repository must set mode to one of dispatch, device, both",
    value.get "mode"⟩
  match value.get "mode" with
  | .str name => match servedModes.lookup name with
    | some mode => .ok mode
    | none => refused
  | _ => refused

def parseTarget (value : Json) : Except Refusal DispatchTarget := do
  refuseIf (value.isObj = false) "[[dispatch.repositories]] entries must be tables"
  let mode ← modeField value
  let repository ← repositoryField value
  let workflows ← listField value "workflows"
    s!"{repository} dispatch workflows must be an array of strings"
  -- a device-only repository cannot dispatch, so it has no workflow to name
  refuseIf ((mode = .dispatch ∨ mode = .both) ∧ workflows = []) s!"{repository} must name at least one dispatch workflow"
  let workflows ← workflows.mapM (checkWorkflow repository)
  let refs ← listField value "refs" s!"{repository} dispatch refs must be an array of strings"
  let refs ← refs.mapM (checkRefPattern repository)
  let lane ← pushLaneField repository value
  let target : DispatchTarget :=
    { mode := mode, repository := repository, workflows := workflows, refs := refs }
  return match lane with
    | some lane => { target with pushLane := lane }
    | none => target

/-- The entries of the policy file, which has none when the section is missing. -/
def dispatchEntries (data : Json) : Except Refusal (List Json) :=
  match data.get "dispatch" with
  | .null => .ok []
  | .obj fields => listField (.obj fields) "repositories"
      "[[dispatch.repositories]] must be an array of tables"
  | _ => .error { text := "[dispatch] must be a table" }

def loadDispatchTargets (data : Json) : Except Refusal (List DispatchTarget) := do
  let targets ← (← dispatchEntries data).mapM parseTarget
  let seen := (targets.map fun target => lower target.repository).dedup
  refuseIf (seen.length ≠ targets.length) "[[dispatch.repositories]] names a repository more than once"
  return targets

/-! ## What an accepted policy names -/

inductive RefPattern : String → Prop
  | branch {pattern : String} (literal : '*' ∉ pattern.toList) : RefPattern pattern
  | below (directory : String) : RefPattern (directory ++ "/*")

theorem hasInfix_iff {s part : String} : hasInfix s part = true ↔ part.toList <:+: s.toList := by
  rw [hasInfix, List.any_eq_true, List.infix_iff_prefix_suffix]
  simp only [List.mem_tails, List.isPrefixOf_iff_prefix, and_comm]

theorem hasPrefix_iff {s start : String} : hasPrefix s start = true ↔ start.toList <+: s.toList :=
  List.isPrefixOf_iff_prefix

theorem hasSuffix_iff {s ending : String} : hasSuffix s ending = true ↔ ending.toList <:+ s.toList :=
  List.isSuffixOf_iff_suffix

theorem hasSuffix_append {s ending : String} (h : hasSuffix s ending = true) :
    ∃ start, s = start ++ ending := by
  obtain ⟨front, same⟩ := hasSuffix_iff.mp h
  refine ⟨.ofList front, String.toList_inj.mp ?_⟩
  rw [String.toList_append, String.toList_ofList, same]

theorem checkRefPattern_ok {repository pattern : String} {value : Json}
    (h : checkRefPattern repository value = .ok pattern) : RefPattern pattern := by
  unfold checkRefPattern at h
  split at h
  · rename_i given
    split at h
    · cases h
    · split at h
      · cases h
      · rename_i single
        split at h
        · cases h
        · rename_i slashed
          split at h
          · cases h
          · obtain rfl := Except.ok.inj h
            by_cases star : hasSuffix given "*" = true
            · have ending : hasSuffix given "/*" = true := by simpa [star] using slashed
              obtain ⟨directory, rfl⟩ := hasSuffix_append ending
              exact .below directory
            · have none : hasInfix given "*" = false := by simpa [star] using single
              refine .branch fun member => ?_
              have inside : hasInfix given "*" = true :=
                hasInfix_iff.mpr ((List.singleton_infix_iff _ _).mpr member)
              rw [none] at inside
              cases inside
  · cases h

structure WellFormed (target : DispatchTarget) : Prop where
  named : isRepositorySlug target.repository = true ∨ isOwnerDefault target.repository = true
  reachable : target.dispatches = true → target.workflows ≠ []
  files : ∀ workflow ∈ target.workflows, isWorkflowName workflow = true
  refs : ∀ pattern ∈ target.refs, RefPattern pattern

theorem checkWorkflow_ok {repository workflow : String} {value : Json}
    (h : checkWorkflow repository value = .ok workflow) : isWorkflowName workflow = true := by
  unfold checkWorkflow at h
  split at h
  · split at h
    · rename_i allowed
      obtain rfl := Except.ok.inj h
      exact allowed
    · cases h
  · cases h

theorem repositoryField_ok {repository : String} {value : Json}
    (h : repositoryField value = .ok repository) :
    isRepositorySlug repository = true ∨ isOwnerDefault repository = true := by
  unfold repositoryField at h
  split at h
  · split at h
    · split at h
      · rename_i owner
        obtain rfl := Except.ok.inj h
        exact Or.inr owner
      · cases h
    · split at h
      · rename_i slug
        obtain rfl := Except.ok.inj h
        exact Or.inl slug
      · cases h
  · cases h

theorem refuseIf_ok {fault : Prop} [Decidable fault] {text : String} {u : Unit}
    (h : refuseIf fault text = .ok u) :
    ¬ fault := by
  unfold refuseIf at h
  split at h
  · cases h
  · assumption

/-- A list whose every item passed its check holds only what the check lets through. -/
theorem mapM_all {check : Json → Except Refusal String} {values : List Json} {passed : List String}
    {P : String → Prop} (sound : ∀ value text, check value = .ok text → P text)
    (h : values.mapM check = .ok passed) : passed.length = values.length ∧ ∀ text ∈ passed, P text := by
  have each := mapM_ok_iff.mp h
  refine ⟨each.length_eq.symm, fun text member => ?_⟩
  obtain ⟨value, -, checked⟩ := mem_of_mapM_ok h member
  exact sound value text checked

theorem parseTarget_ok {value : Json} {target : DispatchTarget} (h : parseTarget value = .ok target) :
    WellFormed target := by
  unfold parseTarget at h
  obtain ⟨-, -, h⟩ := bind_ok h
  obtain ⟨mode, -, h⟩ := bind_ok h
  obtain ⟨repository, named, h⟩ := bind_ok h
  obtain ⟨listed, -, h⟩ := bind_ok h
  obtain ⟨⟨⟩, reaches, h⟩ := bind_ok h
  obtain ⟨workflows, files, h⟩ := bind_ok h
  obtain ⟨patterns, -, h⟩ := bind_ok h
  obtain ⟨refs, checked, h⟩ := bind_ok h
  obtain ⟨lane, -, h⟩ := bind_ok h
  obtain ⟨size, files⟩ := mapM_all (fun _ _ => checkWorkflow_ok) files
  have refs := (mapM_all (fun _ _ => checkRefPattern_ok) checked).2
  have reachable : (mode = .dispatch ∨ mode = .both) → workflows ≠ [] := by
    rintro dispatches rfl
    exact refuseIf_ok reaches ⟨dispatches, List.length_eq_zero_iff.mp size.symm⟩
  cases lane <;> obtain rfl := Except.ok.inj h <;>
    exact ⟨repositoryField_ok named, by simpa [DispatchTarget.dispatches] using reachable, files, refs⟩

theorem loadDispatchTargets_ok_iff {data : Json} {targets : List DispatchTarget} :
    loadDispatchTargets data = .ok targets ↔ ∃ entries, dispatchEntries data = .ok entries ∧
      entries.mapM parseTarget = .ok targets ∧
      (targets.map fun target => lower target.repository).Nodup := by
  have single : ∀ parsed : List DispatchTarget,
      ((parsed.map fun target => lower target.repository).dedup.length = parsed.length) ↔
        (parsed.map fun target => lower target.repository).Nodup := by
    intro parsed
    rw [← List.dedup_eq_self]
    constructor
    · intro size
      exact (List.dedup_sublist _).eq_of_length (size.trans (List.length_map _).symm)
    · intro same
      rw [same, List.length_map]
  unfold loadDispatchTargets
  constructor
  · intro h
    obtain ⟨entries, listed, h⟩ := bind_ok h
    obtain ⟨parsed, read, h⟩ := bind_ok h
    obtain ⟨⟨⟩, unlike, h⟩ := bind_ok h
    obtain rfl := Except.ok.inj h
    exact ⟨entries, listed, read, (single _).mp (not_not.mp (refuseIf_ok unlike))⟩
  · rintro ⟨entries, listed, read, unlike⟩
    have passes := (single _).mpr unlike
    rw [listed]
    show entries.mapM parseTarget >>= _ = _
    rw [read]
    simp only [bind, Except.bind, refuseIf, passes, ne_eq, not_true_eq_false, if_false]
    rfl

end Cindral.Routing
