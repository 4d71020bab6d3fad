import Cindral.Executor.Docker

/-!
# What a run of the executor keeps to

Whatever its processes exit with and whatever fails, the job's container starts only from the commit
that was asked for and under the contract that was found there, a run says that it passed only if
that container did, and containers, network and timer are gone at its end.
-/

namespace Cindral.Executor
open Base Script
open Actions (hostedLabelShape)
open Device (resultFor runScript)
open Workflow (Contract JobSpec Service)

/-- Every label of the job that names hardware is one of the device's. -/
def DockerExecutor.Satisfies (x : DockerExecutor) (contract : Contract) : Prop :=
  ∀ label ∈ contract.labels, hostedLabelShape label = true ∨ ∃ held ∈ x.deviceLabels,
  lower (strip held) = lower (strip label)

theorem DockerExecutor.satisfies_of_missing {x : DockerExecutor} {contract : Contract}
    (all : x.missing contract = []) :
    x.Satisfies contract := by
  intro label member
  have held := List.filter_eq_nil_iff.mp all label member
  rw [Bool.and_eq_true, not_and_or, Bool.not_eq_true', Bool.not_eq_false, Bool.not_eq_true',
    Bool.not_eq_false,
    List.contains_iff_mem, advertised, List.mem_map] at held
  exact held

/-- What a run has learnt and done. A network or a service is up where its process exited with 0,
and the job's own container from the moment it was started. -/
structure Ground where
  nonce : String := ""
  checkedOut : Option String := none
  contract : Option Contract := none
  images : List String := []
  script : String := ""
  networks : List String := []
  containers : List String := []
  healthy : List String := []
  timer : Option Int := none
  /-- How the job's container ended, and what the first look at the cancellation saw after it. -/
  ran : Option (Except Raised Int) := none
  cancelled : Option Bool := none
  /-- A command of the clean-up has failed, or the timer could not be started or stopped. -/
  abandoned : Bool := false

def Ground.record (g : Ground) : (c : Call) → Except Raised (Ans c) → Ground
  | .token, .ok nonce => { g with nonce }
  | .run (.checkout sha), .ok code => if code = 0 then { g with checkedOut := some sha } else g
  | .run (.inspect image), .ok code | .run (.pull image), .ok code | .run (.build _ image _), .ok code =>
    if code = 0 then { g with images := image :: g.images } else g
  | .resolveContract, .ok (_, .ok contract) => { g with contract := some contract }
  | .writeScript text, .ok _ => { g with script := text }
  | .run (.networkCreate network), .ok code =>
      if code = 0 then { g with networks := network :: g.networks } else g
  | .run (.service _ name _), .ok code =>
      if code = 0 then { g with containers := g.containers ++ [name] } else g
  | .run (.job network ..), r =>
      { g with containers := g.containers ++ [s!"{network}-job"], ran := some r }
  | .run (.rm name), .ok _ => { g with containers := g.containers.filter (· ≠ name) }
  | .run (.networkRm network), .ok _ => { g with networks := g.networks.filter (· ≠ network) }
  | .startTimer seconds, .ok _ => { g with timer := some seconds }
  | .stopTimer, .ok _ => { g with timer := none }
  | .run (.rm _), .error _ | .run (.networkRm _), .error _ | .startTimer _, .error _ | .stopTimer,
      .error _ =>
    { g with abandoned := true }
  | .inspectHealth name, .ok (code, status) => if code = 0 ∧
      strip status = "healthy" then { g with healthy := name :: g.healthy } else g
  | .cancelled, .ok seen => if g.ran.isSome &&
      g.cancelled.isNone then { g with cancelled := some seen } else g
  | _, _ => g

/-- The job's container passed, and nobody had cancelled the run. -/
def Ground.Passed (g : Ground) : Prop := g.ran = some (.ok 0) ∧ g.cancelled = some false

structure Ground.Clear (g : Ground) : Prop where
  containers : g.containers = []
  networks : g.networks = []
  timer : g.timer = none

/-- The job's container may start: its commit is checked out, its contract is one that the device is
for, its image is there, and its services are up, the ones with a check after they passed it. -/
structure Ground.Ready (x : DockerExecutor) (spec : JobSpec) (image : String) (contract : Contract)
    (g : Ground) : Prop where
  committed : g.checkedOut = some spec.sha
  found : g.contract = some contract
  advertised : x.Satisfies contract
  image : image ∈ g.images
  script : g.script = runScript contract.steps g.nonce
  networks : g.networks = [network spec]
  services : g.containers = contract.services.map (serviceName spec)
  healthy : ∀ service ∈ contract.services, service.healthCmd.isSome → serviceName spec service ∈ g.healthy
  timer : g.timer = timeLimit spec contract

def orderly (x : DockerExecutor) (spec : JobSpec) : Protocol Call Ans Raised Ground where
  may g c := g.abandoned = true ∨ match c with
    | .resolveContract => g.checkedOut = some spec.sha
    | .run (.networkCreate name) => name = network spec ∧ g.Clear
    | .run (.service name _ _) => name = network spec ∧ g.networks = [name]
    | .run (.job name image job _ _ _) => name = network spec ∧ job = spec ∧ g.ran = none ∧
        ∃ contract, g.Ready x spec image contract
    | .run (.networkRm _) => g.containers = []
    | .uploadCache _ => g.Passed
    | .run (.sweep _) | .removeWorkspace => g.Clear
    | _ => True
  note := Ground.record

/-- Calls that change nothing of what is recorded. -/
def quiet : Call → Prop
  | .run (.init) | .run (.remote _) | .run (.fetch _) | .run (.fetchRef _) | .run (.readable ..) => True
  | .run _ | .token | .resolveContract | .writeScript _ | .startTimer _ | .stopTimer |
      .inspectHealth _ | .cancelled | .uploadCache _
  | .removeWorkspace => False
  | _ => True

section Parts
variable {x : DockerExecutor} {spec : JobSpec} {g : Ground}

theorem quiet_idle (c : Call) (free : quiet c) :
    (orderly x spec).may g c ∧ ∀ r, (orderly x spec).note g c r = g := by
  cases c with
  | run command =>
    cases command with
    | init | remote | fetch | fetchRef | readable => exact ⟨Or.inr trivial, fun r => by cases r <;> rfl⟩
    | _ => exact free.elim
  | token | resolveContract | writeScript | startTimer | stopTimer | inspectHealth | cancelled |
      uploadCache | removeWorkspace =>
    exact free.elim
  | _ => exact ⟨Or.inr trivial, fun r => by cases r <;> rfl⟩

theorem record_abandoned (c : Call) (r : Except Raised (Ans c)) (off : g.abandoned = true) :
    (g.record c r).abandoned = true := by
  unfold Ground.record
  split <;> first | exact off | rfl | (split <;> exact off)

theorem orderly_void : Voided (orderly x spec) (fun g => g.abandoned = true) where
  may := fun _ _ off => Or.inl off
  note := fun _ c r off => record_abandoned c r off

/-- A script of quiet calls. -/
theorem follows_quiet {α : Type} {s : Exec α} {post : Ground → Except Raised α → Prop}
    (only : s.Only quiet) (done : ∀ r, post g r) :
    s.Follows (orderly x spec) (fun g r => g.abandoned = true ∨ post g r) g :=
  follows_of_only quiet_idle only fun r => Or.inr (done r)

theorem check_follows {command : Command} {post : Ground → Except Raised Unit → Prop}
    (may : (orderly x spec).may g (.run command))
    (failed : ∀ e, post (g.record (.run command) (.error e)) (.error e))
    (exited : ∀ code e, code ≠ 0 → post (g.record (.run command) (.ok code)) (.error e))
    (passed : post (g.record (.run command) (.ok 0)) (.ok ())) :
    (check x spec command).Follows (orderly x spec) post g := by
  apply follows_seq
  apply follows_call may
  intro r
  cases r with
  | error e => exact failed e
  | ok code =>
    by_cases zero : code = 0
    · subst zero
      exact passed
    · simp only [if_pos zero]
      exact exited code _ zero

theorem quiet_check {command : Command} (free : quiet (.run command)) :
    (check x spec command).Only quiet := by
  apply only_bind (only_call free)
  intro code
  split <;> trivial

theorem quiet_makeReadable (image path : String) : (makeReadable x spec image path).Only quiet := by
  have free : quiet (.run (.readable path image)) := trivial
  apply only_bind (only_attempt (quiet_check free))
  intro outcome
  split
  · trivial
  · split <;> trivial

/-- What follows a script of quiet calls. -/
theorem quiet_seq {α β : Type} {s : Exec α} {f : α → Exec β}
    {post : Ground → Except Raised β → Prop} (only : s.Only quiet)
    (next : ∀ a, (f a).Follows (orderly x spec) (fun g r => g.abandoned = true ∨ post g r) g)
    (failed : ∀ e, post g (.error e)) :
    (s.bind f).Follows (orderly x spec) (fun g r => g.abandoned = true ∨ post g r) g := by
  have unchanged : s.Follows (orderly x spec) (fun g' _ => g'.abandoned = true ∨ g' = g) g :=
    follows_quiet only fun _ => rfl
  apply seq_unless orderly_void unchanged
  · rintro g' a rfl
    exact next a
  · rintro g' e rfl
    exact failed e

theorem quiet_ask {c : Call} (free : quiet c) : (ask c).Only quiet := only_call free

/-! ## Before the containers -/

theorem checkout_follows : (checkout x spec).Follows (orderly x spec) (fun g' r => g'.abandoned = true ∨
    ∃ sha, g' = { g with checkedOut := sha } ∧ (r = .ok () → sha = some spec.sha)) g := by
  have unchanged (e : Raised) : ∃ sha, g = { g with checkedOut := sha } ∧
      (Except.error e = .ok () → sha = some spec.sha) :=
    ⟨g.checkedOut, rfl, nofun⟩
  have detach : (check x spec (.checkout spec.sha)).Follows (orderly x spec)
      (fun g' r => g'.abandoned = true ∨
      ∃ sha, g' = { g with checkedOut := sha } ∧ (r = .ok () → sha = some spec.sha)) g := by
    apply check_follows (Or.inr trivial)
    · exact fun e => Or.inr (unchanged e)
    · intro code e failed
      refine Or.inr ⟨g.checkedOut, ?_, nofun⟩
      simp only [Ground.record, if_neg failed]
    · exact Or.inr ⟨some spec.sha, rfl, fun _ => rfl⟩
  have init : quiet (.run .init) := trivial
  have remote : quiet (.run (.remote s!"{x.githubBase}/{spec.repository}.git")) := trivial
  have fetchRef : quiet (.run (.fetchRef spec.ref)) := trivial
  apply quiet_seq (quiet_ask (by trivial)) _ unchanged
  intro _
  apply quiet_seq (quiet_check init) _ unchanged
  intro _
  apply quiet_seq (quiet_check remote) _ unchanged
  intro _
  apply quiet_seq (quiet_ask (by trivial)) _ unchanged
  intro fetched
  split
  · exact quiet_seq (quiet_check fetchRef) (fun _ => detach) unchanged
  · exact detach

theorem loadContract_follows (committed : g.checkedOut = some spec.sha) :
    (loadContract x).Follows (orderly x spec) (fun g' r => g'.abandoned = true ∨
      ∃ contract, g' = { g with contract := contract } ∧ ∀ found, r = .ok found →
      contract = some found ∧ x.Satisfies found) g := by
  refine catch_unless orderly_void (show Follows _ _ (fun g' r => g'.abandoned = true ∨
    ∃ contract, g' = { g with contract := contract } ∧ ∀ found, r = .ok found →
    contract = some found) g from ?_) ?_
  · apply follows_seq
    apply follows_call (Or.inr committed)
    intro r
    cases r with
    | error e => exact Or.inr ⟨g.contract, rfl, nofun⟩
    | ok answer =>
      obtain ⟨notes, resolved⟩ := answer
      have written : (forEach notes fun note => ask (.write note)).Only quiet :=
        only_forEach fun note _ => quiet_ask (by trivial)
      cases resolved with
      | error e =>
        apply quiet_seq written
        · exact fun _ => Or.inr ⟨g.contract, rfl, nofun⟩
        · exact fun e => ⟨g.contract, rfl, nofun⟩
      | ok contract =>
        apply quiet_seq written
        · exact fun _ => Or.inr ⟨some contract, rfl, fun found same => congrArg some (Except.ok.inj same)⟩
        · exact fun e => ⟨some contract, rfl, nofun⟩
  · rintro g' r ⟨contract, rfl, found⟩
    cases r with
    | error e =>
      dsimp only
      split <;> exact Or.inr ⟨contract, rfl, nofun⟩
    | ok value =>
      obtain rfl := found value rfl
      dsimp only
      unfold checkLabels
      split
      · exact Or.inr ⟨some value, rfl, nofun⟩
      · rename_i all
        refine Or.inr ⟨some value, rfl, fun other same => ?_⟩
        obtain rfl := Except.ok.inj same
        exact ⟨rfl, DockerExecutor.satisfies_of_missing (not_not.mp all)⟩

theorem quiet_buildLimitArgs : (buildLimitArgs x).Only quiet := by
  have styled : buildStyle.Only quiet := by
    apply only_bind (quiet_ask (by trivial))
    intro known
    split
    · trivial
    · apply only_bind (quiet_ask (by trivial))
      intro help
      apply only_bind (quiet_ask (by trivial))
      intro _
      trivial
  apply only_bind (only_forEach fun note _ => quiet_ask (by trivial))
  intro _
  split
  · trivial
  · apply only_bind styled
    intro style
    split
    · exact only_bind (quiet_ask trivial) fun _ => trivial
    · trivial

theorem image_follows (contract : Contract) :
    (image x spec contract).Follows (orderly x spec) (fun g' r => g'.abandoned = true ∨
      ∃ images, g' = { g with images := images } ∧ ∀ image, r = .ok image → image ∈ images) g := by
  have unchanged (e : Raised) : ∃ images, g = { g with images := images } ∧
      ∀ image : String, Except.error e = .ok image → image ∈ images := ⟨g.images, rfl, nofun⟩
  have made {command : Command} {name : String} (may : (orderly x spec).may g (.run command))
      (failed : ∀ r, r ≠ .ok 0 → g.record (.run command) r = g)
      (passed : g.record (.run command) (.ok 0) = { g with images := name :: g.images }) :
      ((check x spec command).bind fun _ => pure name).Follows (orderly x spec)
        (fun g' r => g'.abandoned = true ∨
        ∃ images, g' = { g with images := images } ∧ ∀ image, r = .ok image → image ∈ images) g := by
    apply follows_seq
    apply check_follows may
    · intro e
      dsimp only
      rw [failed (.error e) nofun]
      exact Or.inr (unchanged e)
    · intro code e nonzero
      dsimp only
      rw [failed (.ok code) fun same => nonzero (Except.ok.inj same)]
      exact Or.inr (unchanged e)
    · dsimp only
      rw [passed]
      refine Or.inr ⟨name :: g.images, rfl, fun image same => ?_⟩
      obtain rfl := Except.ok.inj same
      exact List.mem_cons_self
  have nonzero {code : Int} {other : Ground} (failed : (Except.ok code : Except Raised Int) ≠ .ok
      0) : (if code = 0 then other else g) = g :=
    if_neg fun zero => failed (congrArg Except.ok zero)
  unfold image
  split
  · rename_i dockerfile named
    apply quiet_seq (quiet_ask (by trivial)) _ unchanged
    intro there
    split
    · exact Or.inr (unchanged _)
    · apply quiet_seq quiet_buildLimitArgs _ unchanged
      intro caps
      apply made (Or.inr trivial)
      · intro r failed
        cases r with
        | error e => rfl
        | ok code => exact nonzero failed
      · rfl
  · split
    · exact Or.inr (unchanged _)
    · rename_i name given
      apply follows_seq
      apply follows_call (Or.inr trivial)
      intro r
      cases r with
      | error e => exact Or.inr (unchanged e)
      | ok code =>
        by_cases zero : code = 0
        · subst zero
          refine Or.inr ⟨name :: g.images, rfl, fun image same => ?_⟩
          obtain rfl := Except.ok.inj same
          exact List.mem_cons_self
        · have same : (orderly x spec).note g (.run (.inspect name)) (.ok code) = g := if_neg zero
          simp only [if_pos zero, same]
          apply made (Or.inr trivial)
          · intro r failed
            cases r with
            | error e => rfl
            | ok code => exact nonzero failed
          · rfl

/-! ## The containers -/

theorem startServices_follows (services : List Service) (connected : g.networks = [network spec]) :
    (startServices x spec services).Follows (orderly x spec) (fun g' r => g'.abandoned = true ∨
      ∃ started failed, r = .ok (started, failed) ∧
        g' = { g with containers := g.containers ++ started.map (serviceName spec) } ∧
        (failed = none → started = services)) g := by
  induction services generalizing g with
  | nil => exact Or.inr ⟨[], none, rfl, by simp, fun _ => rfl⟩
  | cons service rest ih =>
    have stopped (e : Raised) : ∃ started failed,
        (Except.ok ([], some e) : Except Raised (List Service × Option Raised)) = .ok (started, failed) ∧
        g = { g with containers := g.containers ++ started.map (serviceName spec) } ∧
        (failed = none → started = service :: rest) :=
      ⟨[], some e, rfl, by simp, nofun⟩
    have may : (orderly x spec).may g
      (.run (.service (network spec) (serviceName spec service) service)) := Or.inr ⟨rfl, connected⟩
    apply follows_catch
    apply check_follows may
    · exact fun e => Or.inr (stopped e)
    · intro code e failed
      have same : g.record (.run (.service (network spec) (serviceName spec service) service))
        (.ok code) = g := if_neg failed
      rw [same]
      exact Or.inr (stopped e)
    · apply seq_unless orderly_void
        (ih (g := { g with containers := g.containers ++ [serviceName spec service] }) connected)
      · rintro g' ⟨started, failed⟩ ⟨_, _, same, rfl, all⟩
        obtain ⟨rfl, rfl⟩ := Prod.mk.inj (Except.ok.inj same)
        refine Or.inr ⟨service :: started, failed, rfl, ?_, fun fine => congrArg (service :: ·)
          (all fine)⟩
        simp
      · rintro g' e ⟨_, _, same, -⟩
        cases same

theorem stillWaiting_follows (pending : List Service) :
    (stillWaiting spec pending).Follows (orderly x spec) (fun g' r => g'.abandoned = true ∨
    ∃ healthy, g' = { g with healthy := healthy } ∧ g.healthy ⊆ healthy ∧
      ∀ rest, r = .ok rest → ∀ service ∈ pending, service ∈ rest ∨
      serviceName spec service ∈ healthy) g := by
  induction pending generalizing g with
  | nil => exact Or.inr ⟨g.healthy, rfl, List.Subset.refl _, fun _ _ _ member => nomatch member⟩
  | cons service rest ih =>
    have looked : (healthy spec service).Follows (orderly x spec) (fun g' r => g'.abandoned = true ∨
        ∃ healthy, g' = { g with healthy := healthy } ∧ g.healthy ⊆ healthy ∧
        (r = .ok true → serviceName spec service ∈ healthy)) g := by
      apply follows_seq
      apply follows_call (Or.inr trivial)
      intro r
      cases r with
      | error e => exact Or.inr ⟨g.healthy, rfl, List.Subset.refl _, nofun⟩
      | ok answer =>
        obtain ⟨code, status⟩ := answer
        by_cases up : code = 0 ∧ strip status = "healthy"
        · have same : (orderly x spec).note g (.inspectHealth (serviceName spec service))
            (.ok (code, status)) =
            { g with healthy := serviceName spec service :: g.healthy } := if_pos up
          rw [same]
          exact Or.inr ⟨_, rfl, List.subset_cons_self _ _, fun _ => List.mem_cons_self⟩
        · have same : (orderly x spec).note g (.inspectHealth (serviceName spec service))
            (.ok (code, status)) = g := if_neg up
          rw [same]
          refine Or.inr ⟨g.healthy, rfl, List.Subset.refl _, fun fine => ?_⟩
          exact absurd (by simpa using Except.ok.inj fine) up
    apply seq_unless orderly_void looked
    · rintro g' up ⟨healthy, rfl, more, passed⟩
      apply seq_unless orderly_void (ih (g := { g with healthy := healthy }))
      · rintro g' others ⟨later, rfl, grown, kept⟩
        refine Or.inr ⟨later, rfl, List.Subset.trans more grown, fun left same s member => ?_⟩
        obtain rfl := Except.ok.inj same
        rcases List.mem_cons.mp member with rfl | other
        · cases up with
          | true => exact Or.inr (grown (passed rfl))
          | false => exact Or.inl List.mem_cons_self
        · rcases kept others rfl s other with waiting | fine
          · cases up with
            | true => exact Or.inl waiting
            | false => exact Or.inl (List.mem_cons_of_mem _ waiting)
          · exact Or.inr fine
      · rintro g' e ⟨later, rfl, grown, -⟩
        exact ⟨later, rfl, List.Subset.trans more grown, nofun⟩
    · rintro g' e ⟨healthy, rfl, more, -⟩
      exact ⟨healthy, rfl, more, nofun⟩

/-- What a wait may leave behind: a look at the cancellation does not count before the job's
container has run. -/
def Waited (spec : JobSpec) (g : Ground) (waiting : List Service) (g' : Ground)
    (r : Except Raised Bool) : Prop :=
  ∃ healthy, g' = { g with healthy := healthy } ∧
  (r = .ok true → ∀ service ∈ waiting, serviceName spec service ∈ healthy)

theorem poll_follows {waiting : List Service} (deadline : ℚ) (fuel : Nat) (pending : List Service)
    (fresh : g.ran = none)
    (checked : ∀ service ∈ waiting, service ∈ pending ∨ serviceName spec service ∈ g.healthy) :
    (poll spec deadline fuel pending).Follows (orderly x spec)
    (fun g' r => g'.abandoned = true ∨ Waited spec g waiting g' r) g := by
  induction fuel generalizing g pending with
  | zero => exact Or.inr ⟨g.healthy, rfl, nofun⟩
  | succ fuel ih =>
    apply seq_unless orderly_void (stillWaiting_follows pending)
    · rintro g' rest ⟨healthy, rfl, more, kept⟩
      have unchanged (r : Except Raised Bool) (not : r ≠ .ok true) :
          Waited spec g waiting { g with healthy := healthy } r :=
        ⟨healthy, rfl, fun fine => absurd fine not⟩
      have later : ∀ service ∈ waiting, service ∈ rest ∨ serviceName spec service ∈ healthy := by
        intro service member
        rcases checked service member with waits | fine
        · exact kept rest rfl service waits
        · exact Or.inr (more fine)
      split
      · rename_i none
        refine Or.inr ⟨healthy, rfl, fun _ service member => ?_⟩
        rcases later service member with waits | fine
        · rw [none] at waits
          cases waits
        · exact fine
      · have looks (r : Except Raised Bool) : (orderly x spec).note { g with healthy := healthy }
          .cancelled r = { g with healthy := healthy } := by
          cases r with
          | error e => rfl
          | ok seen => exact if_neg (by simp [fresh])
        apply follows_seq
        apply follows_call (Or.inr trivial)
        intro r
        rw [looks]
        cases r with
        | error e => exact Or.inr (unchanged _ nofun)
        | ok seen =>
          dsimp only
          split
          · exact Or.inr (unchanged _ nofun)
          · apply quiet_seq (quiet_ask (by trivial)) _ fun e => unchanged _ nofun
            intro now
            split
            · exact Or.inr (unchanged _ nofun)
            · apply quiet_seq (quiet_ask (by trivial)) _ fun e => unchanged _ nofun
              intro _
              refine follows_mono (ih (g := { g with healthy := healthy }) rest fresh later)
                fun g' r left => left.imp_right ?_
              rintro ⟨healthy', rfl, fine⟩
              exact ⟨healthy', rfl, fine⟩
    · rintro g' e ⟨healthy, rfl, -⟩
      exact ⟨healthy, rfl, nofun⟩

theorem waitForServices_follows (waiting : List Service) (fresh : g.ran = none) :
    (waitForServices spec waiting).Follows (orderly x spec)
    (fun g' r => g'.abandoned = true ∨ Waited spec g waiting g' r) g := by
  unfold waitForServices
  split
  · rename_i none
    refine Or.inr ⟨g.healthy, rfl, fun _ service member => ?_⟩
    rw [none] at member
    cases member
  · have failed (e : Raised) : Waited spec g waiting g (.error e) := ⟨g.healthy, rfl, nofun⟩
    apply quiet_seq (only_forEach fun service _ => quiet_ask (by trivial)) _ failed
    intro _
    apply quiet_seq (quiet_ask (by trivial)) _ failed
    intro start
    exact poll_follows (start + 90) 46 waiting fresh fun service member => Or.inl member

/-- What the job's container leaves behind while its services are still up. -/
structure Ended (spec : JobSpec) (g g' : Ground) (r : Except Raised Int) : Prop where
  networks : g'.networks = g.networks
  timer : g'.timer = g.timer
  containers : ∀ name ∈ g'.containers, name = jobName spec ∨ name ∈ g.containers
  passed : r = .ok 0 → g'.Passed

structure Ground.Staged (x : DockerExecutor) (spec : JobSpec) (contract : Contract) (image : String)
    (services : List Service)
    (g : Ground) : Prop where
  committed : g.checkedOut = some spec.sha
  found : g.contract = some contract
  advertised : x.Satisfies contract
  built : image ∈ g.images
  script : g.script = runScript contract.steps g.nonce
  networks : g.networks = [network spec]
  services : g.containers = services.map (serviceName spec)
  timer : g.timer = timeLimit spec contract
  fresh : g.ran = none
  unseen : g.cancelled = none

theorem runJob_follows {contract : Contract} {image : String} {mounts : List String} {cache : Bool}
    {environment : List (String × String)}
    (staged : g.Staged x spec contract image contract.services) :
    (runJob spec contract image mounts cache environment).Follows (orderly x spec)
      (fun g' r => g'.abandoned = true ∨ Ended spec g g' r) g := by
  obtain ⟨committed, found, advertised, built, script, networks, services, timer, fresh, unseen⟩ := staged
  apply seq_unless orderly_void (waitForServices_follows _ fresh)
  · rintro g' up ⟨healthy, rfl, fine⟩
    have same : Ended spec g { g with healthy := healthy } (.ok 130) :=
      ⟨rfl, rfl, fun name there => Or.inr there, nofun⟩
    split
    · exact Or.inr same
    · rename_i checked
      have ready : Ground.Ready x spec image contract { g with healthy := healthy } :=
        ⟨committed, found, advertised, built, script, networks, services, fun service member guarded =>
          fine (by simpa using checked) service (List.mem_filter.mpr ⟨member, guarded⟩), timer⟩
      apply follows_seq
      apply follows_call (Or.inr ⟨rfl, rfl, fresh, contract, ready⟩)
      intro r
      have held : ∀ name ∈ g.containers ++ [jobName spec], name = jobName spec ∨ name ∈ g.containers := by
        intro name member
        rcases List.mem_append.mp member with old | new
        · exact Or.inr old
        · exact Or.inl (List.mem_singleton.mp new)
      cases r with
      | error e => exact Or.inr ⟨rfl, rfl, held, nofun⟩
      | ok code =>
        have looks (r : Except Raised Bool) :
            ((orderly x spec).note ((orderly x spec).note { g with healthy := healthy }
            (.run (.job (network spec) image spec mounts cache (Actions.overlay contract.env environment))) (.ok code)) .cancelled r) =
            { g with
              healthy := healthy, containers := g.containers ++ [jobName spec], ran := some (.ok code)
              cancelled := r.toOption } := by
          cases r with
          | error e =>
            change { g with healthy := healthy, containers := g.containers ++ [jobName spec], ran := some (.ok code) } = _
            rw [unseen]
            rfl
          | ok seen => exact if_pos (by simp [Ground.record, orderly, unseen])
        apply follows_seq
        apply follows_call (Or.inr trivial)
        intro r
        rw [looks]
        cases r with
        | error e => exact Or.inr ⟨rfl, rfl, held, nofun⟩
        | ok seen =>
          dsimp only
          split
          · exact Or.inr ⟨rfl, rfl, held, nofun⟩
          · rename_i quiet
            refine Or.inr ⟨rfl, rfl, held, fun passed => ⟨?_, ?_⟩⟩
            · rw [Except.ok.inj passed]
            · simpa [Except.toOption] using quiet
  · rintro g' e ⟨healthy, rfl, -⟩
    exact ⟨rfl, rfl, fun name there => Or.inr there, nofun⟩

theorem removeAll_follows (names : List String) : (forEach names fun name => do
      let _ ← ask (.run (.rm name))
      pure () : Exec Unit).Follows (orderly x spec) (fun g' r => g'.abandoned = true ∨ r = .ok () ∧
        ∃ left, g' = { g with containers := left } ∧ ∀ name ∈ left, name ∈ g.containers ∧
        name ∉ names) g := by
  induction names generalizing g with
  | nil => exact Or.inr ⟨rfl, g.containers, rfl, fun name there => ⟨there, List.not_mem_nil⟩⟩
  | cons first rest ih =>
    apply follows_seq
    apply follows_seq
    apply follows_call (Or.inr trivial)
    intro r
    cases r with
    | error e => exact Or.inl rfl
    | ok code =>
      apply follows_mono (ih (g := { g with containers := g.containers.filter (· ≠ first) }))
      rintro g' r (off | ⟨fine, left, rfl, kept⟩)
      · exact Or.inl off
      refine Or.inr ⟨fine, left, rfl, fun name there => ?_⟩
      obtain ⟨inside, others⟩ := kept name there
      obtain ⟨old, apart⟩ := List.mem_filter.mp inside
      exact ⟨old, fun member => (List.mem_cons.mp member).elim (fun same => by simp [same] at apart)
        others⟩

theorem takeDown_follows {services : List Service} (networks : g.networks = [network spec])
    {timer : Option Int} (timed : g.timer = timer)
    (containers : ∀ name ∈ g.containers, name = jobName spec ∨ name ∈ services.map (serviceName spec)) :
    (takeDown spec timer services).Follows (orderly x spec) (fun g' r => g'.abandoned = true ∨
      r = .ok () ∧ g' = { g with containers := [], networks := [], timer := none }) g := by
  have stopped : (forEach timer.toList fun _ => ask .stopTimer).Follows (orderly x spec)
      (fun g' r => g'.abandoned = true ∨ r = .ok () ∧ g' = { g with timer := none }) g := by
    cases timer with
    | none =>
      refine Or.inr ⟨rfl, ?_⟩
      rw [← timed]
    | some seconds =>
      apply follows_seq
      apply follows_call (Or.inr trivial)
      intro r
      cases r with
      | error e => exact Or.inl rfl
      | ok _ => exact Or.inr ⟨rfl, rfl⟩
  apply seq_unless orderly_void stopped
  · rintro g' _ ⟨-, rfl⟩
    apply seq_unless orderly_void (removeAll_follows _)
    · rintro g' _ ⟨-, left, rfl, kept⟩
      obtain rfl : left = [] := by
        refine List.eq_nil_iff_forall_not_mem.mpr fun name there => ?_
        obtain ⟨old, gone⟩ := kept name there
        exact gone (List.mem_cons.mpr (containers name old))
      apply follows_seq
      apply follows_call (Or.inr rfl)
      intro r
      cases r with
      | error e => exact Or.inl rfl
      | ok code =>
        have empty : g.networks.filter (· ≠ network spec) = [] := by simp [networks]
        refine Or.inr ⟨rfl, ?_⟩
        change { g with containers := [], networks := g.networks.filter (· ≠ network spec), timer := none } = _
        rw [empty]
    · exact fun g' e failed => nomatch failed.1
  · exact fun g' e failed => nomatch failed.1

/-- The outcome of a run of the steps: everything is down again, and an exit code of 0 is the job's
own. -/
structure Settled (g' : Ground) (r : Except Raised Int) : Prop where
  clear : g'.Clear
  passed : r = .ok 0 → g'.Passed

/-- However the job ends, what was up is taken down. -/
theorem up_follows {contract : Contract} {image : String} {mounts : List String} {cache : Bool}
    {environment : List (String × String)}
    {services : List Service} {stopped : Option Raised} (staged : g.Staged x spec contract image services)
    (all : stopped = none → services = contract.services) :
    ((runUp spec stopped contract image mounts cache environment).ensure
      (takeDown spec (timeLimit spec contract) services)).Follows
      (orderly x spec) (fun g' r => g'.abandoned = true ∨ Settled g' r) g := by
  have ended : (runUp spec stopped contract image mounts cache environment).Follows (orderly x spec)
      (fun g' r => g'.abandoned = true ∨ Ended spec g g' r) g := by
    cases stopped with
    | some e => exact Or.inr ⟨rfl, rfl, fun name there => Or.inr there, nofun⟩
    | none =>
      obtain rfl := all rfl
      exact runJob_follows staged
  apply ensure_unless orderly_void ended
  intro g' r ended
  have held : ∀ name ∈ g'.containers, name = jobName spec ∨ name ∈ services.map (serviceName spec) := by
    intro name there
    rw [← staged.services]
    exact ended.containers name there
  apply follows_mono (takeDown_follows (ended.networks.trans staged.networks)
    (ended.timer.trans staged.timer) held)
  rintro g'' r' (off | ⟨rfl, rfl⟩)
  · exact Or.inl off
  · exact Or.inr ⟨⟨rfl, rfl, rfl⟩, fun fine => ended.passed fine⟩

/-- The ground a job's steps start from. -/
structure Ground.Prepared (x : DockerExecutor) (spec : JobSpec) (contract : Contract)
    (image : String) (g : Ground) : Prop where
  clear : g.Clear
  committed : g.checkedOut = some spec.sha
  found : g.contract = some contract
  advertised : x.Satisfies contract
  built : image ∈ g.images
  fresh : g.ran = none
  unseen : g.cancelled = none

theorem quiet_dockerMounts (contract : Contract) : (dockerMounts contract).Only quiet := by
  unfold dockerMounts
  split
  · apply only_bind (only_attempt (quiet_ask (by trivial)))
    intro outcome
    split
    · trivial
    · split <;> trivial
  · trivial

theorem runSteps_follows {contract : Contract} {image : String} {cache : Bool}
    {environment : List (String × String)}
    (prepared : g.Prepared x spec contract image) :
      (runSteps x spec contract image g.nonce cache environment).Follows (orderly x spec)
      (fun g' r => g'.abandoned = true ∨ Settled g' r) g := by
  obtain ⟨clear, committed, found, advertised, built, fresh, unseen⟩ := prepared
  have failed (e : Raised) : Settled g (.error e) := ⟨clear, nofun⟩
  apply quiet_seq (quiet_dockerMounts contract) _ failed
  intro mounts
  apply follows_seq
  apply follows_call (Or.inr trivial)
  intro r
  cases r with
  | error e => exact Or.inr (failed e)
  | ok _ =>
    change Follows _ _ _ { g with script := runScript contract.steps g.nonce }
    have unmade (e : Raised) : Settled { g with script := runScript contract.steps g.nonce } (.error e) :=
      ⟨⟨clear.containers, clear.networks, clear.timer⟩, nofun⟩
    have may : (orderly x spec).may { g with script := runScript contract.steps g.nonce }
        (.run (.networkCreate (network spec))) :=
      Or.inr ⟨rfl, clear.containers, clear.networks, clear.timer⟩
    apply follows_seq
    apply check_follows may
    · exact fun e => Or.inr (unmade e)
    · intro code e nonzero
      have same : Ground.record { g with script := runScript contract.steps g.nonce }
        (.run (.networkCreate (network spec))) (.ok code) =
        { g with script := runScript contract.steps g.nonce } := if_neg nonzero
      dsimp only
      rw [same]
      exact Or.inr (unmade e)
    · have made : Ground.record { g with script := runScript contract.steps g.nonce }
          (.run (.networkCreate (network spec))) (.ok 0) =
          { g with script := runScript contract.steps g.nonce, networks := [network spec] } := by
        change { g with script := runScript contract.steps g.nonce, networks := network spec :: g.networks } = _
        rw [clear.networks]
      dsimp only
      rw [made]
      have timed : (startTimer (timeLimit spec contract)).Follows (orderly x spec) (fun g' r => g'.abandoned = true ∨ r = .ok () ∧
          g' = { g with script := runScript contract.steps g.nonce, networks := [network spec], timer := timeLimit spec contract })
          { g with script := runScript contract.steps g.nonce, networks := [network spec] } := by
        cases limit : timeLimit spec contract with
        | none =>
          refine Or.inr ⟨rfl, ?_⟩
          rw [clear.timer]
        | some seconds =>
          apply follows_call (Or.inr trivial)
          intro r
          cases r with
          | error e => exact Or.inl rfl
          | ok _ => exact Or.inr ⟨rfl, rfl⟩
      apply seq_unless orderly_void timed
      · rintro g' _ ⟨-, rfl⟩
        apply seq_unless orderly_void (startServices_follows contract.services rfl)
        · rintro g' ⟨started, stopped⟩ ⟨_, _, same, rfl, all⟩
          obtain ⟨rfl, rfl⟩ := Prod.mk.inj (Except.ok.inj same)
          exact up_follows ⟨committed, found, advertised, built, rfl,
            rfl, by simp [clear.containers], rfl, fresh, unseen⟩ all
        · rintro g' e ⟨_, _, same, -⟩
          cases same
      · exact fun g' e failed => nomatch failed.1

/-! ## The whole run -/

theorem quiet_detectPlans : detectPlans.Only quiet := by
  apply only_bind (only_attempt (quiet_ask (by trivial)))
  intro outcome
  split
  · trivial
  · split
    · exact only_bind (quiet_ask trivial) fun _ => trivial
    · trivial

theorem quiet_restoreCache (plan : CachePlan) : (restoreCache x plan).Only quiet := by
  unfold restoreCache
  split
  · trivial
  · apply only_bind (only_attempt (only_bind (quiet_ask (by trivial)) fun key => ?_))
    · intro outcome
      split
      · trivial
      · split
        · exact quiet_ask trivial
        · trivial
    · split <;> exact quiet_ask trivial

theorem quiet_restoreCaches (plans : List CachePlan) : (restoreCaches x plans).Only quiet := by
  induction plans with
  | nil => trivial
  | cons plan rest ih =>
    apply only_bind (only_attempt (quiet_ask (by trivial)))
    intro outcome
    split
    · split
      · exact only_bind (quiet_ask trivial) fun _ => ih
      · trivial
    · exact only_bind (quiet_restoreCache plan) fun _ => only_bind ih fun _ => trivial

/-- The calls that leave a run that passed as it is. -/
def storing (c : Call) : Prop := quiet c ∨ ∃ plan, c = .uploadCache plan

theorem storing_idle (passed : g.Passed) (c : Call) (free : storing c) :
    (orderly x spec).may g c ∧ ∀ r, (orderly x spec).note g c r = g := by
  rcases free with free | ⟨plan, rfl⟩
  · exact quiet_idle c free
  · exact ⟨Or.inr passed, fun r => by cases r <;> rfl⟩

theorem storing_storeCaches (image : String) (plans : List CachePlan) :
    (storeCaches x spec image plans).Only storing := by
  have asks {c : Call} (free : quiet c) : (ask c).Only storing := only_call (Or.inl free)
  have archived (plan : CachePlan) : (createArchive x spec image plan).Only storing := by
    apply only_bind (only_attempt (asks (by trivial)))
    intro outcome
    split
    · trivial
    · split
      · exact only_bind (only_mono (quiet_makeReadable image plan.path) fun _ => Or.inl) fun _ =>
          asks trivial
      · trivial
  unfold storeCaches
  split
  · trivial
  · apply only_forEach
    intro plan _
    apply only_bind (only_attempt (only_bind (archived plan) fun held => ?_))
    · intro outcome
      split
      · trivial
      · split
        · exact asks trivial
        · trivial
    · split
      · exact only_bind (only_call (Or.inr ⟨_, rfl⟩)) fun _ => asks trivial
      · trivial

theorem runCachedJob_follows {contract : Contract} {image : String}
    (prepared : g.Prepared x spec contract image) :
    (runCachedJob x spec contract image g.nonce).Follows (orderly x spec)
    (fun g' r => g'.abandoned = true ∨ Settled g' r) g := by
  have failed (e : Raised) : Settled g (.error e) := ⟨prepared.clear, nofun⟩
  apply quiet_seq quiet_detectPlans _ failed
  intro plans
  apply quiet_seq (quiet_restoreCaches plans) _ failed
  intro environment
  apply seq_unless orderly_void (runSteps_follows prepared)
  · intro g' result settled
    split
    · rename_i zero
      subst zero
      have passed := settled.passed rfl
      have looks (r : Except Raised Bool) : (orderly x spec).note g' .cancelled r = g' := by
        cases r with
        | error e => rfl
        | ok seen => exact if_neg (by simp [passed.2])
      apply follows_seq
      apply follows_call (Or.inr trivial)
      intro r
      rw [looks]
      cases r with
      | error e => exact Or.inr ⟨settled.clear, nofun⟩
      | ok seen =>
        dsimp only
        split
        · exact Or.inr settled
        · apply follows_seq
          apply follows_of_only (storing_idle passed) (storing_storeCaches image plans)
          intro r
          cases r with
          | error e => exact Or.inr ⟨settled.clear, nofun⟩
          | ok _ => exact Or.inr settled
    · exact Or.inr settled
  · exact fun g' e settled => ⟨settled.clear, nofun⟩

theorem quiet_packArtifacts (image : String) : (packArtifacts x spec image).Only quiet := by
  have packed : (packFiles x spec image).Only quiet := by
    apply only_bind (only_attempt (quiet_ask (by trivial)))
    intro outcome
    split
    · trivial
    · split
      · exact only_bind (quiet_ask trivial) fun _ => only_bind (quiet_makeReadable _ _) fun _ =>
          quiet_ask trivial
      · trivial
  apply only_bind (quiet_ask (by trivial))
  intro there
  split
  · exact only_bind (quiet_ask trivial) fun _ => trivial
  · apply only_bind (only_attempt packed)
    intro outcome
    split
    · exact only_bind (quiet_ask trivial) fun _ => only_bind (quiet_ask trivial) fun _ => trivial
    · split
      · exact only_bind (quiet_ask trivial) fun _ => only_bind (quiet_ask trivial) fun _ => trivial
      · exact only_bind (quiet_ask trivial) fun _ => only_bind (quiet_ask trivial) fun _ => trivial

/-- A part of the run leaves nothing up, and where it has it that the job passed the job's container
did. -/
def Sincere {α : Type} (good : α → Prop) (g : Ground) (r : Except Raised α) : Prop :=
  g.Clear ∧ ∀ a, r = .ok a → good a → g.Passed

/-- The way to the image of a job. -/
theorem prepare_follows (clear : g.Clear) (fresh : g.ran = none) (unseen : g.cancelled = none)
    (line : String) :
    (do
      ask (.write line)
      checkout x spec
      let contract ← loadContract x
      let image ← image x spec contract
      pure (contract, image) : Exec (Contract × String)).Follows (orderly x spec)
        (fun g' r => g'.abandoned = true ∨
        g'.Clear ∧ g'.nonce = g.nonce ∧ ∀ contract image, r = .ok (contract, image) →
        g'.Prepared x spec contract image) g := by
  apply quiet_seq (quiet_ask (by trivial)) _ fun e => ⟨clear, rfl, nofun⟩
  intro _
  apply seq_unless orderly_void checkout_follows
  · rintro g' _ ⟨sha, rfl, committed⟩
    obtain rfl := committed rfl
    apply seq_unless orderly_void (loadContract_follows rfl)
    · rintro g' contract ⟨_, rfl, found⟩
      obtain ⟨rfl, advertised⟩ := found contract rfl
      apply seq_unless orderly_void (image_follows contract)
      · rintro g' image ⟨images, rfl, built⟩
        refine Or.inr ⟨⟨clear.containers, clear.networks, clear.timer⟩, rfl,
          fun contract' image' same => ?_⟩
        obtain ⟨rfl, rfl⟩ := Prod.mk.inj (Except.ok.inj same)
        exact ⟨⟨clear.containers, clear.networks, clear.timer⟩, rfl, rfl, advertised,
          built image rfl, fresh, unseen⟩
      · rintro g' e ⟨images, rfl, -⟩
        exact ⟨⟨clear.containers, clear.networks, clear.timer⟩, rfl, nofun⟩
    · rintro g' e ⟨contract, rfl, -⟩
      exact ⟨⟨clear.containers, clear.networks, clear.timer⟩, rfl, nofun⟩
  · rintro g' e ⟨sha, rfl, -⟩
    exact ⟨⟨clear.containers, clear.networks, clear.timer⟩, rfl, nofun⟩

theorem executeJob_follows (clear : g.Clear) (fresh : g.ran = none) (unseen : g.cancelled = none) :
    (executeJob x spec g.nonce).Follows (orderly x spec) (fun g' r => g'.abandoned = true ∨
      Sincere (fun answer => ∃ archive, answer.2 = .ok (0, archive)) g' r) g := by
  apply catch_unless orderly_void (prepare_follows clear fresh unseen _)
  rintro g' r ⟨clear', nonce, prepared⟩
  cases r with
  | error e => exact Or.inr ⟨clear', fun a same ⟨archive, fine⟩ => by cases same; cases fine⟩
  | ok answer =>
    obtain ⟨contract, image⟩ := answer
    have ready := prepared contract image rfl
    rw [← nonce]
    have ran : (do
        let code ← runCachedJob x spec contract image g'.nonce
        let archive ← packArtifacts x spec image
        pure (code, archive) : Exec (Int × String)).Follows (orderly x spec)
          (fun g r => g.abandoned = true ∨
          Sincere (fun answer => answer.1 = 0) g r) g' := by
      apply seq_unless orderly_void (runCachedJob_follows ready)
      · intro g'' code settled
        apply quiet_seq (quiet_packArtifacts image)
        · intro archive
          refine Or.inr ⟨settled.clear, fun a same zero => settled.passed ?_⟩
          obtain rfl := Except.ok.inj same
          exact congrArg Except.ok zero
        · exact fun e => ⟨settled.clear, nofun⟩
      · exact fun g'' e settled => ⟨settled.clear, nofun⟩
    apply catch_unless orderly_void ran
    rintro g'' r ⟨clear'', passed⟩
    refine Or.inr ⟨clear'', fun a same ⟨archive, fine⟩ => ?_⟩
    obtain rfl := Except.ok.inj same
    exact passed _ fine rfl

theorem execute_follows (clear : g.Clear) (fresh : g.ran = none) (unseen : g.cancelled = none) :
    (execute x spec g.nonce).Follows (orderly x spec) (fun g' r => g'.abandoned = true ∨
      Sincere (fun answer => answer.1 = 0) g' r) g := by
  have failed (e : Raised) : Sincere (fun answer : Int × Option String × String => answer.1 = 0) g
    (.error e) := ⟨clear, nofun⟩
  apply quiet_seq (quiet_ask (by trivial)) _ failed
  intro _
  apply quiet_seq (quiet_ask (by trivial)) _ failed
  intro _
  apply quiet_seq (quiet_ask (by trivial)) _ failed
  intro _
  apply seq_unless orderly_void (executeJob_follows clear fresh unseen)
  · rintro g' ⟨image, outcome⟩ ⟨clear', passed⟩
    cases outcome with
    | ok answer =>
      obtain ⟨code, archive⟩ := answer
      refine Or.inr ⟨clear', fun a same zero => passed _ rfl ⟨archive, ?_⟩⟩
      obtain rfl := Except.ok.inj same
      exact congrArg (fun code => Except.ok (code, archive)) zero
    | error e =>
      apply quiet_seq (quiet_ask (by trivial))
      · intro _
        refine Or.inr ⟨clear', fun a same zero => ?_⟩
        obtain rfl := Except.ok.inj same
        cases zero
      · exact fun e => ⟨clear', nofun⟩
  · exact fun g' e left => ⟨left.1, nofun⟩

end Parts
end Cindral.Executor
