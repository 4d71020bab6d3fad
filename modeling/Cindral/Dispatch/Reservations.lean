import Mathlib.Logic.Relation
import Cindral.Base.Matching
import Cindral.Dispatch.Frame
import Cindral.Dispatch.Site

/-!
# Runners held for dispatches

Reservations with different labels compete for the same runners. Whatever is granted, dropped or expires
under the capacity lock, each reservation of a repository can have an idle online runner of its own.
-/

namespace Cindral.Dispatch
open Base Routing Script

/-- A place among a repository's runners that a reservation can be served in. -/
def Fits (runners : List RepositoryRunner) (reservation : Reservation) (place : Nat) : Prop :=
  ∃ runner, runners[place]? = some runner ∧ idleOnline runner ∧ carries runner.labels reservation.labels

def Call.unreserving : Call → Prop
  | .expireReservations _ _ | .reserveRunner _ | .dropReservation _ _ => False
  | _ => True

/-- One use of the capacity lock, or a call beside it, while the repositories' runners stay as they
are. -/
inductive CapacityStep (inventory : String → List RepositoryRunner) (w w' : World) : Prop where
  | decide (server : Server) (request : RouteRequest) (repository : String) (allowBusy : Bool) (now : ℚ)
      (outcome : Except Raised (RouteDecision × Option (String × Nat)))
      (ran : Ran perform (holding .lockCapacity .unlockCapacity
        (decideUnderCapacity server request repository allowBusy (inventory repository) now)) w
        outcome w')
  | release (reservation : Option (String × Nat)) (outcome : Except Raised Unit)
      (ran : Ran perform (dropRunner reservation) w outcome w')
  | expire (repository : String) (now : ℚ) (outcome : Except Raised Unit)
      (ran : Ran perform (holding .lockCapacity .unlockCapacity
      (ask (.expireReservations repository now))) w outcome w')
  | aside (k : Choice) (c : Call) (r : Except Raised (Ans c)) (free : c.unreserving)
      (made : perform k w c = some (r, w'))

/-- The reservations of each repository fit into its runners. -/
def Served (inventory : String → List RepositoryRunner) (w : World) : Prop :=
  ∀ repository, Assignable (Fits (inventory repository))
  (w.reservations.filter (·.repository = repository))

variable {inventory : String → List RepositoryRunner} {w w' : World}

theorem served_of_sublist (fewer : w'.reservations.Sublist w.reservations) (h : Served inventory w) :
    Served inventory w' :=
  fun repository => assignable_sublist (fewer.filter _) (h repository)

/-! ## Places -/

/-- The places of the runners that satisfy a condition. -/
def placesOf (wanted : RepositoryRunner → Bool) (runners : List RepositoryRunner) : List Nat :=
  (runners.zipIdx.filter fun entry => wanted entry.1).map Prod.snd

theorem length_placesOf (wanted : RepositoryRunner → Bool) (runners : List RepositoryRunner) :
    (placesOf wanted runners).length = runners.countP wanted := by
  rw [placesOf, List.length_map, ← List.countP_eq_length_filter]
  conv_rhs => rw [← List.zipIdx_map_fst 0 runners, List.countP_map]
  rfl

theorem nodup_placesOf (wanted : RepositoryRunner → Bool) (runners : List RepositoryRunner) :
    (placesOf wanted runners).Nodup := by
  have all : (runners.zipIdx.map Prod.snd).Nodup := by
    rw [List.zipIdx_map_snd]
    exact List.nodup_range'
  exact all.sublist (List.filter_sublist.map _)

theorem mem_placesOf {wanted : RepositoryRunner → Bool} {runners : List RepositoryRunner} {place : Nat}
    (h : place ∈ placesOf wanted runners) : ∃ runner, runners[place]? = some runner ∧ wanted runner := by
  obtain ⟨⟨runner, i⟩, member, rfl⟩ := List.mem_map.mp h
  obtain ⟨listed, want⟩ := List.mem_filter.mp member
  exact ⟨runner, List.mk_mem_zipIdx_iff_getElem?.mp listed, want⟩

/-- A reservation more, where fewer reservations overlap with it than runners could take it. -/
theorem assignable_reserved {runners : List RepositoryRunner} {held : List Reservation} {r : Reservation}
    (h : Assignable (Fits runners) held)
    (free : overlappingReservations runners r.labels held <
      runners.countP fun runner => idleOnline runner && carries runner.labels r.labels) :
    Assignable (Fits runners) (held ++ [r]) := by
  rw [← length_placesOf] at free
  refine assignable_concat h (nodup_placesOf _ runners) (fun place member => ?_)
    (fun other _ place member fits => ?_) free
  · obtain ⟨runner, listed, wanted⟩ := mem_placesOf member
    obtain ⟨idle, able⟩ := (Bool.and_eq_true _ _).mp wanted
    exact ⟨runner, listed, idle, able⟩
  · obtain ⟨runner, listed, wanted⟩ := mem_placesOf member
    obtain ⟨idle, able⟩ := (Bool.and_eq_true _ _).mp wanted
    obtain ⟨same, again, -, carried⟩ := fits
    obtain rfl := Option.some.inj (listed.symm.trans again)
    refine List.any_eq_true.mpr ⟨runner, List.mem_filter.mpr ⟨List.mem_of_getElem? listed, idle⟩, ?_⟩
    rw [carries, List.all_append]
    exact (Bool.and_eq_true _ _).mpr ⟨carried, able⟩

/-! ## What the calls do -/

theorem metering_unreserving {c : Call} (h : c.metering) : c.unreserving := by
  cases c with
  | quotaReading | countMetered | reserve _ _ | release _ | lockBudget | unlockBudget => trivial
  | _ => exact h.elim

variable {k : Choice}

theorem unreserving_keeps {c : Call} {r : Except Raised (Ans c)} (free : c.unreserving)
    (h : perform k w c = some (r, w')) :
    w'.reservations = w.reservations := by
  rcases perform_cases h with ⟨e, _, _, _, rfl⟩ | ⟨_, answered⟩
  · rfl
  · cases c with
    | expireReservations _ _ | reserveRunner _ | dropReservation _ _ => exact free.elim
    | lockBudget | lockCapacity =>
      have same := take_world answered
      subst same
      rfl
    | enqueue _ | finish _ _ _ _ =>
      simp only [answer] at answered
      split at answered
      · obtain ⟨-, rfl⟩ := Prod.mk.inj (Option.some.inj answered)
        rfl
      · obtain ⟨-, rfl⟩ := Prod.mk.inj (Option.some.inj answered)
        rfl
    | _ =>
      obtain ⟨-, rfl⟩ := Prod.mk.inj (Option.some.inj answered)
      rfl

theorem ran_unreserving {α : Type} {s : Program α} {x : Except Raised α} (only : s.Only Call.unreserving)
    (h : Ran perform s w x w') : w'.reservations = w.reservations := by
  have keep (k : Choice) (u : World) (c : Call) (r : Except Raised (Ans c)) (v : World)
      (free : c.unreserving)
      (same : u.reservations = w.reservations) (performed : perform k u c = some (r, v)) :
      v.reservations = w.reservations := (unreserving_keeps free performed).trans same
  exact ran_only (I := fun v => v.reservations = w.reservations) keep only rfl h

theorem ran_asked {c : Call} {x : Except Raised (Ans c)} (free : c.unreserving)
    (h : Ran perform (ask c) w x w') :
    w'.reservations = w.reservations := ran_unreserving (only_call free) h

theorem served_of_same (same : w'.reservations = w.reservations) (h : Served inventory w) :
    Served inventory w' :=
  served_of_sublist (by rw [same]) h

theorem ran_expire {repository : String} {now : ℚ} {x : Except Raised Unit}
    (h : Ran perform (ask (.expireReservations repository now)) w x w') (served : Served inventory w) :
    Served inventory w' := by
  obtain ⟨k, performed⟩ := ran_call h
  rcases perform_cases performed with ⟨e, _, possible, _, _⟩ | ⟨_, answered⟩
  · cases possible
  · obtain ⟨-, rfl⟩ := Prod.mk.inj (Option.some.inj answered)
    exact served_of_sublist List.filter_sublist served

theorem ran_drop {repository : String} {id : Nat} {x : Except Raised Unit}
    (h : Ran perform (ask (.dropReservation repository id)) w x w') (served : Served inventory w) :
    Served inventory w' := by
  obtain ⟨k, performed⟩ := ran_call h
  rcases perform_cases performed with ⟨e, _, possible, _, _⟩ | ⟨_, answered⟩
  · cases possible
  · obtain ⟨-, rfl⟩ := Prod.mk.inj (Option.some.inj answered)
    exact served_of_sublist List.filter_sublist served

/-- What goes on under the capacity lock is all that moves the reservations. -/
theorem ran_holding {α : Type} {body : Program α} {x : Except Raised α}
    (h : Ran perform (holding .lockCapacity .unlockCapacity body) w x w') (served : Served inventory w)
    (keeps : ∀ v v' x, Ran perform body v x v' → Served inventory v → Served inventory v') :
    Served inventory w' := by
  have start {v : World} {x : Except Raised Unit} (taken : Ran perform (ask .lockCapacity) w x v) :
      Served inventory v :=
    served_of_same (ran_asked (c := .lockCapacity) trivial taken) served
  rcases ran_bind h with ⟨_, v, taken, rest⟩ | ⟨e, taken, -⟩
  · obtain ⟨outcome, u, ran, rest⟩ := ran_try rest
    have after := keeps v u outcome ran (start taken)
    have given : (Script.bind (ask Call.unlockCapacity) fun _ => lift outcome).Only Call.unreserving :=
      only_bind (only_call (c := Call.unlockCapacity) trivial) fun _ => only_lift _
    exact served_of_same (ran_unreserving given rest) after
  · exact start taken

theorem ran_reserve {r : Reservation} {x : Except Raised Unit}
    (h : Ran perform (ask (.reserveRunner r)) w x w')
    (served : Served inventory w)
    (free : overlappingReservations (inventory r.repository) r.labels
      (w.reservations.filter (·.repository = r.repository)) <
      (inventory r.repository).countP fun runner => idleOnline runner && carries runner.labels r.labels) :
    Served inventory w' := by
  obtain ⟨k, performed⟩ := ran_call h
  rcases perform_cases performed with ⟨e, _, possible, _, _⟩ | ⟨_, answered⟩
  · cases possible
  obtain ⟨-, rfl⟩ := Prod.mk.inj (Option.some.inj answered)
  intro repository
  have fewer :
      ((w.reservations.filter fun other =>
      ¬(other.repository = r.repository ∧ other.id = r.id)).filter
      (·.repository = repository)).Sublist (w.reservations.filter (·.repository = repository)) :=
    List.filter_sublist.filter _
  rw [List.filter_append]
  by_cases here : r.repository = repository
  · subst here
    rw [List.filter_cons_of_pos (by simp), List.filter_nil]
    exact assignable_reserved (assignable_sublist fewer (served _))
      (Nat.lt_of_le_of_lt fewer.countP_le free)
  · rw [List.filter_cons_of_neg (by simpa using here), List.filter_nil, List.append_nil]
    exact assignable_sublist fewer (served repository)

theorem ran_decide {server : Server} {request : RouteRequest} {repository : String}
    {allowBusy : Bool} {now : ℚ}
    {x : Except Raised (RouteDecision × Option (String × Nat))}
    (h : Ran perform (decideUnderCapacity server request repository allowBusy (inventory repository)
    now) w x w')
    (served : Served inventory w) : Served inventory w' := by
  unfold decideUnderCapacity at h
  rcases ran_bind h with ⟨_, v, expired, rest⟩ | ⟨e, expired, -⟩
  · have served := ran_expire expired served
    rcases ran_bind rest with ⟨decision, u, chosen, rest⟩ | ⟨e, chosen, -⟩
    · have served := served_of_same
        (ran_unreserving (only_mono (only_chooseWebhookLane _ _ _ _) fun _ => metering_unreserving)
        chosen) served
      rcases ran_bind rest with ⟨held, t, read, rest⟩ | ⟨e, read, -⟩
      · obtain ⟨k, performed⟩ := ran_call read
        rcases perform_cases performed with ⟨e, _, possible, _, _⟩ | ⟨_, answered⟩
        · cases possible
        obtain ⟨same, rfl⟩ := Prod.mk.inj (Option.some.inj answered)
        obtain rfl := Except.ok.inj same
        simp only at rest
        split at rest
        · obtain ⟨-, rfl⟩ := ran_fail rest
          exact served
        · split at rest
          · rename_i wanted
            rcases ran_bind rest with ⟨id, s, ticket, rest⟩ | ⟨e, ticket, -⟩
            · have same := ran_asked (c := .monotonicNs) trivial ticket
              have room : overlappingReservations (inventory repository)
                    (decision.runsOn.insertionSort (· ≤ ·))
                    (s.reservations.filter (·.repository = repository)) <
                  (inventory repository).countP fun runner =>
                    idleOnline runner && carries runner.labels
                      (decision.runsOn.insertionSort (· ≤ ·)) := by
                have available := wanted.2.2
                rw [same]
                omega
              have served := served_of_same same served
              rcases ran_bind rest with ⟨_, s', reserved, rest⟩ | ⟨e, reserved, -⟩
              · obtain ⟨-, rfl⟩ := ran_done rest
                exact ran_reserve reserved served room
              · exact ran_reserve reserved served room
            · exact served_of_same (ran_asked (c := .monotonicNs) trivial ticket) served
          · obtain ⟨-, rfl⟩ := ran_done rest
            exact served
      · exact served_of_same (ran_asked (c := .reservations repository) trivial read) served
    · exact served_of_same (ran_unreserving
        (only_mono (only_chooseWebhookLane _ _ _ _) fun _ => metering_unreserving) chosen) served
  · exact ran_expire expired served

/-- The reservations that stand can be given idle online runners that carry their labels, one each,
in whatever order runners were granted, dropped and expired. -/
theorem reservations_served {inventory : String → List RepositoryRunner} {w w' : World}
    (start : w.reservations = [])
    (h : Relation.ReflTransGen (CapacityStep inventory) w w') (repository : String) :
    Assignable (Fits (inventory repository)) (w'.reservations.filter (·.repository = repository)) := by
  have served : Served inventory w' := by
    induction h with
    | refl =>
      intro repository
      rw [start]
      exact assignable_nil
    | tail _ taken ih =>
      cases taken with
      | decide server request repository allowBusy now outcome ran =>
        exact ran_holding ran ih fun _ _ _ body served => ran_decide body served
      | release reservation outcome ran =>
        unfold dropRunner at ran
        split at ran
        · obtain ⟨-, rfl⟩ := ran_done ran
          exact ih
        · exact ran_holding ran ih fun _ _ _ body served => ran_drop body served
      | expire repository now outcome ran =>
        exact ran_holding ran ih fun _ _ _ body served => ran_expire body served
      | aside k c r free made => exact served_of_same (unreserving_keeps free made) ih
  exact served repository

/-! ## Two dispatches for two runners -/

def twoRunners : List RepositoryRunner :=
  [⟨"a", "online", ["self-hosted", "Linux", "ARM64", "fallback", "burst"], false⟩,
    ⟨"b", "online", ["self-hosted", "Linux", "ARM64", "fallback"], false⟩]

/-- A dispatch on a named lane, under the lock. -/
def grantLane (lane : String) (ticket : Nat) (w : World) : Option World :=
  ((holding .lockCapacity .unlockCapacity (decideUnderCapacity
    ⟨Policy.shipped, [], true, true, true, true, "cindral-dispatch.yml", 3600, 10⟩
      { requestedLane := lane }
      "example-org/example-app" false twoRunners 0)).play
      (fun w c => perform { ticket := ticket } w c) w).map Prod.snd

theorem grantLane_step {lane : String} {ticket : Nat} (h : grantLane lane ticket w = some w') :
    CapacityStep (fun _ => twoRunners) w w' := by
  obtain ⟨x, played, rfl⟩ := Option.map_eq_some_iff.mp h
  have ran := ran_of_play _ played
  exact .decide _ _ _ _ _ _ ran

/-- The runner that can take both lanes stays with the one that needs it. -/
theorem twoLanes_served : ∃ w : World, w.reservations.length = 2 ∧ Assignable (Fits twoRunners)
    (w.reservations.filter (·.repository = "example-org/example-app")) := by
  have ends : ((grantLane "burst" 1 World.empty).bind (grantLane "fallback" 2)).map
      (·.reservations.length) = some 2 := by
    decide +kernel
  obtain ⟨w, granted, two⟩ := Option.map_eq_some_iff.mp ends
  obtain ⟨v, first, second⟩ := Option.bind_eq_some_iff.mp granted
  have grants : Relation.ReflTransGen (CapacityStep fun _ => twoRunners) World.empty w :=
    .tail (.single (grantLane_step first)) (grantLane_step second)
  exact ⟨w, two, reservations_served rfl grants "example-org/example-app"⟩

end Cindral.Dispatch
