import Cindral.Check.Protocol
import Cindral.Queue.Lifecycle

/-!
# One check for a run

Every number a publish holds is that of a check its own job opened. While the publishes of one check
do not overlap, there is one such check at most, each publish knows whether it is finished, and none
reopens it.
-/

namespace Cindral.Check
open Base Queue

/-! ## The records of a job -/

/-- A later record of the same job. -/
structure Successor (job job' : Job) : Prop where
  id : job'.id = job.id
  repository : job'.repository = job.repository
  head : headShaFor job'.sha job'.statusSha = headShaFor job.sha job.statusSha
  conclusion : ∀ x, conclusionFor job = some x → conclusionFor job' = some x

theorem Successor.refl (job : Job) : Successor job job := ⟨rfl, rfl, rfl, fun _ same => same⟩

theorem Successor.trans {job₁ job₂ job₃ : Job} (h : Successor job₁ job₂)
    (h' : Successor job₂ job₃) : Successor job₁ job₃ :=
  ⟨h'.id.trans h.id, h'.repository.trans h.repository, h'.head.trans h.head, fun x same =>
  h'.conclusion x (h.conclusion x same)⟩

theorem concluded_terminal {r : Row} {x : Conclusion} (h : conclusionFor r.job = some x) :
    r.status.terminal = true := by
  cases status : r.status with
  | pending | running => simp [conclusionFor, stateFor, Row.job, status] at h
  | success | failure | dead => rfl

theorem step_successor {s : Store} {op : Store.Op} {r r' : Row} (step : RowStep s op r r') :
    Successor r.job r'.job := by
  have unfinished {status : JobStatus} (at_ : r.status = status) (open_ : status.terminal = false)
      {x : Conclusion}
      (concluded : conclusionFor r.job = some x) : conclusionFor r'.job = some x := by
    have ended := concluded_terminal concluded
    rw [at_, open_] at ended
    cases ended
  cases step with
  | same => exact Successor.refl _
  | taken _ _ waiting => exact ⟨rfl, rfl, rfl, fun _ => unfinished waiting rfl⟩
  | renewed _ _ running _ _ | failed _ running _ _ _ | settled _ running _ _ _ _ | lapsed running _ =>
    exact ⟨rfl, rfl, rfl, fun _ => unfinished running rfl⟩
  | drained _ | restored _ _ _ | owed _ | cleared _ => exact Successor.refl _

/-! ## Checks by their owner -/

def IsFor (id name : String) (c : CheckRun) : Prop := c.externalId = id ∧ c.name = name

instance (id name : String) (c : CheckRun) : Decidable (IsFor id name c) :=
  inferInstanceAs (Decidable (_ ∧ _))

/-- The number is that of a check the key's job opened, if it is there at all. -/
structure Points (g : GitHub) (key : Key) (number : Nat) : Prop where
  used : number < g.next
  owner : ∀ c ∈ g.checks, c.number = number → c.repository = key.repository ∧ IsFor key.job key.name c

structure Numbered (g : GitHub) : Prop where
  used : ∀ c ∈ g.checks, c.number < g.next
  nodup : (g.checks.map CheckRun.number).Nodup

def CheckPayload.IsBy (key : Key) (payload : CheckPayload) : Prop :=
  payload.externalId = key.job ∧ payload.name = key.name

/-- GitHub changes by a new check or by the owner of a check. -/
inductive Changed (g : GitHub) : GitHub → Prop where
  | same : Changed g g
  | create (repository sha : String) (payload : CheckPayload) :
      Changed g (g.create repository sha payload)
  | update {key : Key} {number : Nat} {payload : CheckPayload} : Points g key number → payload.IsBy key →
      Changed g (g.update key.repository number payload)
  | lose (number : Nat) : Changed g (g.lose number)

variable {g g' : GitHub} {key : Key} {number : Nat} {payload : CheckPayload}

theorem mem_create {repository sha : String} {c : CheckRun} :
    c ∈ (g.create repository sha payload).checks ↔
    c = ⟨g.next, repository, sha, payload.name, payload.externalId, payload.status, payload.conclusion,
      if payload.annotated then 1 else 0⟩ ∨ c ∈ g.checks := List.mem_cons

theorem mem_lose {c : CheckRun} : c ∈ (g.lose number).checks ↔ c ∈ g.checks ∧ c.number ≠ number := by
  simp [GitHub.lose]

def updated (repository : String) (number : Nat) (payload : CheckPayload) (c : CheckRun) : CheckRun :=
  if c.repository = repository ∧ c.number = number then GitHub.edited payload c else c

theorem mem_update {repository : String} {c : CheckRun} :
    c ∈ (g.update repository number payload).checks ↔
    ∃ before ∈ g.checks, updated repository number payload before = c := List.mem_map

/-- An update by its owner leaves a check its place and its owner. -/
theorem updated_owner (points : Points g key number) (own : payload.IsBy key) {c : CheckRun}
    (member : c ∈ g.checks) :
    (updated key.repository number payload c).number = c.number ∧
      (updated key.repository number payload c).repository = c.repository ∧
      (updated key.repository number payload c).sha = c.sha ∧
      (updated key.repository number payload c).externalId = c.externalId ∧
      (updated key.repository number payload c).name = c.name := by
  unfold updated
  split
  · rename_i hit
    obtain ⟨-, owner, name⟩ := points.owner c member hit.2
    exact ⟨rfl, rfl, rfl, own.1.trans owner.symm, own.2.trans name.symm⟩
  · exact ⟨rfl, rfl, rfl, rfl, rfl⟩

theorem Numbered.distinct (h : Numbered g) : ∀ c ∈ g.checks, ∀ c' ∈ g.checks, c.number = c'.number →
    c = c' :=
  fun _ member _ member' same => List.inj_on_of_nodup_map h.nodup member member' same

theorem changed_numbered (h : Numbered g) (changed : Changed g g') : Numbered g' := by
  cases changed with
  | same => exact h
  | create repository sha payload =>
    refine ⟨fun c member => ?_, List.nodup_cons.mpr ⟨fun taken => ?_, h.nodup⟩⟩
    · rcases mem_create.mp member with rfl | old
      · exact Nat.lt_succ_self _
      · exact Nat.lt_succ_of_lt (h.used c old)
    · obtain ⟨c, member, same⟩ := List.mem_map.mp taken
      exact absurd same (Nat.ne_of_lt (h.used c member))
  | @update key number payload points own =>
    refine ⟨fun c member => ?_, ?_⟩
    · obtain ⟨before, inside, rfl⟩ := mem_update.mp member
      rw [(updated_owner points own inside).1]
      exact h.used before inside
    · have numbers : (g.checks.map (updated key.repository number payload)).map CheckRun.number =
        g.checks.map CheckRun.number := by
        rw [List.map_map]
        exact List.map_congr_left fun c member => (updated_owner points own member).1
      exact numbers.symm ▸ h.nodup
  | lose number =>
    exact ⟨fun c member => h.used c (mem_lose.mp member).1, h.nodup.sublist (List.filter_sublist.map _)⟩

/-- No change opens a check under a number that was used before. -/
theorem changed_origin (changed : Changed g g') {c : CheckRun} (member : c ∈ g'.checks)
    (used : c.number < g.next) :
    ∃ before ∈ g.checks, before.number = c.number := by
  cases changed with
  | same => exact ⟨c, member, rfl⟩
  | create repository sha payload =>
    rcases mem_create.mp member with rfl | old
    · exact absurd used (Nat.lt_irrefl _)
    · exact ⟨c, old, rfl⟩
  | update points own =>
    obtain ⟨before, inside, rfl⟩ := mem_update.mp member
    exact ⟨before, inside, (updated_owner points own inside).1.symm⟩
  | lose number => exact ⟨c, (mem_lose.mp member).1, rfl⟩

theorem changed_next (changed : Changed g g') : g.next ≤ g'.next := by
  cases changed with
  | create => exact Nat.le_succ _
  | same | update | lose => exact le_refl _

theorem changed_points {key' : Key} {number' : Nat} (h : Points g key' number')
    (changed : Changed g g') : Points g' key' number' := by
  cases changed with
  | same => exact h
  | create repository sha payload =>
    refine ⟨Nat.lt_succ_of_lt h.used, fun c member same => ?_⟩
    rcases mem_create.mp member with rfl | old
    · exact absurd same.symm (Nat.ne_of_lt h.used)
    · exact h.owner c old same
  | update points own =>
    refine ⟨h.used, fun c member same => ?_⟩
    obtain ⟨before, inside, rfl⟩ := mem_update.mp member
    obtain ⟨number, repository, -, owner, name⟩ := updated_owner points own inside
    obtain ⟨place, mine⟩ := h.owner before inside (number.symm.trans same)
    exact ⟨repository.trans place, owner.trans mine.1, name.trans mine.2⟩
  | lose number => exact ⟨h.used, fun c member => h.owner c (mem_lose.mp member).1⟩

/-! ## What every publish holds -/

def Stage.held? : Stage → Option Held
  | .found held | .holds held | .wrote held => some held
  | .fresh | .searching _ | .absent | .failed | .closed => none

theorem Told.Writes.isBy {t : Told} (h : t.Writes payload) : payload.IsBy t.key := by
  rw [h.body]
  unfold payloadFor
  split <;> exact ⟨rfl, rfl⟩

theorem Told.Writes.concludes {t : Told} (h : t.Writes payload) :
    payload.conclusion = conclusionFor t.job ∧
    (payload.status = .completed ↔ conclusionFor t.job ≠ none) := by
  rw [h.body]
  unfold payloadFor
  cases conclusion : conclusionFor t.job with
  | none =>
    rw [show (verdictFor t.job).conclusion = none from conclusion]
    by_cases running : t.job.status = .running <;> simp [running]
  | some x =>
    rw [show (verdictFor t.job).conclusion = some x from conclusion]
    simp

section Turned
variable {d d' : Desk} {t t' : Told} {answer : Answer}

theorem turned_same (turned : Turned d t answer d' t') : t'.job = t.job ∧ t'.name = t.name := by
  cases turned <;> exact ⟨rfl, rfl⟩

theorem turned_key (turned : Turned d t answer d' t') : t'.key = t.key := by
  rw [Told.key, Told.key, (turned_same turned).1, (turned_same turned).2]

theorem turned_changed (points : ∀ held, t.stage.held? = some held → Points d.github t.key held.number)
    (turned : Turned d t answer d' t') : Changed d.github d'.github := by
  cases turned with
  | created | createLost => exact .create _ _ _
  | updated at_ writes | updateLost at_ writes => exact .update (points _ (by rw [at_]; rfl)) writes.isBy
  | missed | recalled | kept | closed | forgot | found | absent | paged | refused => exact .same

/-- A page only shows checks of the listing it is a page of. -/
theorem page_found {g : GitHub} {repository sha name externalId : String} {page : Nat} {run : CheckRun}
    (seen : (g.page repository sha name page).find? (·.externalId = externalId) = some run) :
    run ∈ g.checks ∧ run.repository = repository ∧ run.sha = sha ∧ IsFor externalId name run := by
  have inside := List.mem_of_mem_drop (List.mem_of_mem_take (List.mem_of_find?_eq_some seen))
  obtain ⟨member, place⟩ := List.mem_filter.mp inside
  simp only [Bool.and_eq_true, decide_eq_true_eq] at place
  have owner := List.find?_some seen
  simp only [decide_eq_true_eq] at owner
  exact ⟨member, place.1.1, place.1.2, owner, place.2⟩

/-- A number a publish comes to hold is that of a check of its job. -/
theorem turned_points (numbered : Numbered d.github)
    (opened : ∀ key held, d.opened key = some held → Points d.github key held.number)
    (points : ∀ held, t.stage.held? = some held → Points d.github t.key held.number)
    (turned : Turned d t answer d' t') :
    ∀ held, t'.stage.held? = some held → Points d'.github t.key held.number := by
  have changed := turned_changed points turned
  intro held holds
  cases turned with
  | recalled _ known =>
    obtain rfl := Option.some.inj holds
    exact opened _ _ known
  | kept at_ =>
    obtain rfl := Option.some.inj holds
    exact points _ (by rw [at_]; rfl)
  | found _ seen =>
    obtain rfl := Option.some.inj holds
    obtain ⟨member, place, -, owner⟩ := page_found seen
    exact ⟨numbered.used _ member,
      fun c inside same => by rw [numbered.distinct c inside _ member same]; exact ⟨place, owner⟩⟩
  | created _ writes =>
    obtain rfl := Option.some.inj holds
    refine ⟨Nat.lt_succ_self _, fun c member same => ?_⟩
    rcases mem_create.mp member with rfl | old
    · exact ⟨rfl, writes.isBy.1, writes.isBy.2⟩
    · exact absurd same (Nat.ne_of_lt (numbered.used c old))
  | @updated _ before at_ =>
    obtain rfl := Option.some.inj holds
    exact changed_points (points before (by rw [at_]; rfl)) changed
  | missed | closed | forgot | absent | paged | createLost | updateLost | refused => cases holds

theorem turned_opened (opened : ∀ key held, d.opened key = some held → Points d.github key held.number)
    (points : ∀ held, t.stage.held? = some held → Points d.github t.key held.number)
    (turned : Turned d t answer d' t') :
    ∀ key held, d'.opened key = some held → Points d'.github key held.number := by
  have changed := turned_changed points turned
  intro key held known
  have record {before : Option Held} (at_ : ∀ held, before = some held → t.stage.held? = some held)
      (known : (d.recording t.key before).opened key = some held) : Points d.github key held.number := by
    by_cases same : key = t.key
    · subst same
      rw [Desk.recording_self] at known
      exact points held (at_ held known)
    · rw [d.recording_ne before same] at known
      exact opened key held known
  cases turned with
  | kept at_ | closed at_ => exact record (fun held same => by rw [at_]; exact same) known
  | forgot => exact record (fun held none_ => by cases none_) known
  | missed | recalled | found | absent | paged | refused => exact opened key held known
  | created | createLost | updated | updateLost => exact changed_points (opened key held known) changed

end Turned

/-! ## What the publishes of one check know -/

/-- A check of the job, if there is one, has this number, and is unfinished if it is held to be. -/
def Tracks (g : GitHub) (id name : String) (held : Held) : Prop :=
  ∀ c ∈ g.checks, IsFor id name c → c.number = held.number ∧
  (held.finished = false → c.status ≠ .completed)

/-- What a publish was told is so. -/
structure Knows (d : Desk) (t : Told) : Prop where
  seen : t.openSeen = true → ∀ c ∈ d.github.checks, IsFor t.job.id t.name c → c.status ≠ .completed
  searched : ∀ pages, t.stage = .searching pages →
    ∀ c ∈ (d.github.listing t.job.repository t.sha t.name).take (perPage * pages), c.externalId ≠ t.job.id
  absent : t.stage = .absent → ∀ c ∈ d.github.checks, ¬IsFor t.job.id t.name c
  holds : ∀ held, t.stage.held? = some held → Tracks d.github t.job.id t.name held
  unrecorded : t.stage = .absent ∨ (∃ pages, t.stage = .searching pages) → d.opened t.key = none

/-- The checks of one job under one name: at most one, on the commit of the job, annotated at most
once and with the conclusion of its record. -/
structure Kept (id : String) (job : Job) (name : String) (g : GitHub) : Prop where
  one : ∀ c ∈ g.checks, ∀ c' ∈ g.checks, IsFor id name c → IsFor id name c' → c = c'
  placed : ∀ c ∈ g.checks, IsFor id name c → c.repository = job.repository ∧
    c.sha = headShaFor job.sha job.statusSha
  counted : ∀ c ∈ g.checks, IsFor id name c → c.annotations ≤ 1 ∧
    (c.status ≠ .completed → c.annotations = 0)
  concluded : ∀ c ∈ g.checks, IsFor id name c → c.status = .completed →
    c.conclusion = conclusionFor job ∧ conclusionFor job ≠ none

/-- A finished check stays so, with its conclusion, as long as it is there. -/
def Stays (id name : String) (g g' : GitHub) : Prop :=
  ∀ c ∈ g.checks, IsFor id name c → c.status = .completed →
    ∀ c' ∈ g'.checks, c'.number = c.number → IsFor id name c' ∧ c'.status = .completed ∧
    c'.conclusion = c.conclusion

/-- Nothing happens to the checks of one job under one name, and none moves to the front of a listing. -/
structure Aside (id name : String) (g g' : GitHub) : Prop where
  same : ∀ c, IsFor id name c → (c ∈ g'.checks ↔ c ∈ g.checks)
  behind : ∀ repository sha n c, c.externalId = id → c ∈ (g'.listing repository sha name).take n →
    c ∈ (g.listing repository sha name).take n

theorem Aside.refl (id name : String) (g : GitHub) : Aside id name g g :=
  ⟨fun _ _ => Iff.rfl, fun _ _ _ _ _ inside => inside⟩

theorem aside_create {id name repository sha : String}
    (other : ¬(payload.externalId = id ∧ payload.name = name)) :
    Aside id name g (g.create repository sha payload) := by
  refine ⟨fun c mine => ?_, fun repository' sha' n c mine inside => ?_⟩
  · rw [mem_create]
    refine ⟨fun either => either.resolve_left fun new => other ?_, Or.inr⟩
    subst new
    exact mine
  · unfold GitHub.listing GitHub.create at inside
    simp only [List.filter_cons] at inside
    split at inside
    · rename_i listed
      cases n with
      | zero => simp at inside
      | succ n =>
        rw [List.take_succ_cons] at inside
        rcases List.mem_cons.mp inside with rfl | inside
        · simp only [Bool.and_eq_true, decide_eq_true_eq] at listed
          exact absurd ⟨mine, listed.2⟩ other
        · exact (List.take_subset_take_left _ (Nat.le_succ n)) inside
    · exact inside

theorem aside_update {id name : String} (points : Points g key number) (own : payload.IsBy key)
    (other : ¬(key.job = id ∧ key.name = name)) :
    Aside id name g (g.update key.repository number payload) := by
  have untouched {c : CheckRun} (member : c ∈ g.checks) (mine : IsFor id name c) :
      updated key.repository number payload c = c := by
    unfold updated
    split
    · rename_i hit
      obtain ⟨-, owner⟩ := points.owner c member hit.2
      exact absurd ⟨owner.1.symm.trans mine.1, owner.2.symm.trans mine.2⟩ other
    · rfl
  refine ⟨fun c mine => ?_, fun repository' sha' n c mine inside => ?_⟩
  · rw [mem_update]
    constructor
    · rintro ⟨before, inside, rfl⟩
      obtain ⟨-, -, -, owner, name⟩ := updated_owner points own inside
      rwa [untouched inside ⟨owner.symm.trans mine.1, name.symm.trans mine.2⟩]
    · exact fun inside => ⟨c, inside, untouched inside mine⟩
  · have listed : (g.update key.repository number payload).listing repository' sha' name =
        (g.listing repository' sha' name).map (updated key.repository number payload) := by
      unfold GitHub.listing GitHub.update
      simp only [List.filter_map]
      refine congrArg (List.map _) (List.filter_congr fun x member => ?_)
      obtain ⟨-, repository, sha, -, name⟩ := updated_owner points own member
      simp only [Function.comp_apply]
      change (decide ((updated key.repository number payload x).repository = repository') &&
        decide ((updated key.repository number payload x).sha = sha') &&
        decide ((updated key.repository number payload x).name = _)) = _
      rw [repository, sha, name]
    rw [listed, ← List.map_take] at inside
    obtain ⟨before, there, rfl⟩ := List.mem_map.mp inside
    obtain ⟨member, place⟩ := List.mem_filter.mp (List.mem_of_mem_take there)
    simp only [Bool.and_eq_true, decide_eq_true_eq] at place
    obtain ⟨-, -, -, owner, -⟩ := updated_owner points own member
    rwa [untouched member ⟨owner.symm.trans mine, place.2⟩]

section Own
variable {d d' : Desk} {t t' : Told} {answer : Answer} {job : Job}

/-- Past its lookup and before its write a publish relies on nothing but what it has seen. -/
theorem knows_seen (none_ : t.stage.held? = none) (found : t.stage ≠ .absent)
    (still : ∀ pages, t.stage ≠ .searching pages)
    (seen : t.openSeen = true → ∀ c ∈ d.github.checks, IsFor t.job.id t.name c →
    c.status ≠ .completed) : Knows d t := by
  refine ⟨seen, fun pages at_ => absurd at_ (still pages), fun at_ => absurd at_ found,
    fun held holds => ?_, ?_⟩
  · rw [none_] at holds
    cases holds
  · rintro (at_ | ⟨pages, at_⟩)
    · exact absurd at_ found
    · exact absurd at_ (still pages)

theorem knows_holds {held : Held} (holds : t.stage.held? = some held)
    (tracks : Tracks d.github t.job.id t.name held)
    (seen : t.openSeen = true → ∀ c ∈ d.github.checks, IsFor t.job.id t.name c →
    c.status ≠ .completed) : Knows d t := by
  have other {stage : Stage} (at_ : t.stage = stage) (none_ : stage.held? = none) : False := by
    rw [at_, none_] at holds
    cases holds
  refine ⟨seen, fun pages at_ => (other at_ rfl).elim, fun at_ => (other at_ rfl).elim,
    fun held' holds' => ?_, ?_⟩
  · rwa [← Option.some.inj (holds.symm.trans holds')]
  · rintro (at_ | ⟨pages, at_⟩) <;> exact (other at_ rfl).elim

/-- The first check of a job. -/
theorem created_kept (succ : Successor t.job job) (writes : t.Writes payload)
    (none_ : ∀ c ∈ g.checks, ¬IsFor t.job.id t.name c) :
    Kept t.job.id job t.name (g.create t.job.repository t.sha payload) := by
  have only {c : CheckRun} (member : c ∈ (g.create t.job.repository t.sha payload).checks)
      (mine : IsFor t.job.id t.name c) :
      c = ⟨g.next, t.job.repository, t.sha, payload.name, payload.externalId, payload.status,
        payload.conclusion,
        if payload.annotated then 1 else 0⟩ := (mem_create.mp member).resolve_right fun old =>
          none_ c old mine
  obtain ⟨conclusion, completed⟩ := writes.concludes
  refine ⟨fun c member c' member' mine mine' => (only member mine).trans (only member' mine').symm,
    fun c member mine => ?_, fun c member mine => ?_, fun c member mine finished => ?_⟩
  · rw [only member mine]
    exact ⟨succ.repository.symm, succ.head.symm⟩
  · rw [only member mine]
    refine ⟨by simp only; split <;> simp, fun unfinished => ?_⟩
    have unannotated : ¬payload.annotated = true := fun annotated =>
      unfinished (completed.mpr (writes.annotated annotated))
    exact if_neg unannotated
  · rw [only member mine] at finished ⊢
    obtain ⟨x, some_⟩ := Option.ne_none_iff_exists'.mp (completed.mp finished)
    simp only
    rw [conclusion, some_, succ.conclusion x some_]
    exact ⟨rfl, by simp⟩

/-- The checks of a job after an update of them by a publish that holds the number. -/
theorem updated_kept (succ : Successor t.job job) (kept : Kept t.job.id job t.name g)
    (points : Points g t.key number)
    (writes : t.Writes payload) (unannotated : payload.annotated = true → ∀ c ∈ g.checks,
      IsFor t.job.id t.name c →
      c.status ≠ .completed)
    (seen : conclusionFor t.job = none → ∀ c ∈ g.checks, IsFor t.job.id t.name c → c.status ≠ .completed)
    (tracks : ∀ c ∈ g.checks, IsFor t.job.id t.name c → c.number = number) :
    Kept t.job.id job t.name (g.update t.job.repository number payload) := by
  obtain ⟨conclusion, completed⟩ := writes.concludes
  -- every check of the job is the one that is edited
  have edit {c : CheckRun} (member : c ∈ (g.update t.job.repository number payload).checks)
      (mine : IsFor t.job.id t.name c) :
      ∃ before ∈ g.checks, IsFor t.job.id t.name before ∧ c = GitHub.edited payload before := by
    obtain ⟨before, inside, rfl⟩ := mem_update.mp member
    obtain ⟨-, -, -, owner, name⟩ := updated_owner points writes.isBy inside
    have was : IsFor t.job.id t.name before := ⟨owner.symm.trans mine.1, name.symm.trans mine.2⟩
    refine ⟨before, inside, was, if_pos ⟨?_, tracks before inside was⟩⟩
    exact (kept.placed before inside was).1.trans succ.repository
  refine ⟨fun c member c' member' mine mine' => ?_, fun c member mine => ?_, fun c member mine => ?_,
    fun c member mine finished => ?_⟩
  · obtain ⟨before, inside, was, rfl⟩ := edit member mine
    obtain ⟨before', inside', was', rfl⟩ := edit member' mine'
    rw [kept.one before inside before' inside' was was']
  · obtain ⟨before, inside, was, rfl⟩ := edit member mine
    exact kept.placed before inside was
  · obtain ⟨before, inside, was, rfl⟩ := edit member mine
    obtain ⟨once, unfinished⟩ := kept.counted before inside was
    by_cases annotated : payload.annotated = true
    · have zero := unfinished (unannotated annotated before inside was)
      refine ⟨by simp only [GitHub.edited, annotated, zero]; simp, fun open_ => ?_⟩
      exact absurd (completed.mpr (writes.annotated annotated)) open_
    · refine ⟨by simp only [GitHub.edited, if_neg annotated]; exact once, fun open_ => ?_⟩
      have none_ : conclusionFor t.job = none := by
        by_contra concluded
        exact open_ (completed.mpr concluded)
      simp only [GitHub.edited, if_neg annotated, unfinished (seen none_ before inside was)]
  · obtain ⟨before, inside, was, rfl⟩ := edit member mine
    obtain ⟨x, some_⟩ := Option.ne_none_iff_exists'.mp (completed.mp finished)
    simp only [GitHub.edited]
    rw [conclusion, some_, succ.conclusion x some_]
    exact ⟨rfl, by simp⟩

theorem updated_stays (succ : Successor t.job job) (kept : Kept t.job.id job t.name g)
    (numbered : Numbered g)
    (points : Points g t.key number) (writes : t.Writes payload)
    (seen : conclusionFor t.job = none → ∀ c ∈ g.checks, IsFor t.job.id t.name c → c.status ≠ .completed)
    (tracks : ∀ c ∈ g.checks, IsFor t.job.id t.name c → c.number = number) :
    Stays t.job.id t.name g (g.update t.job.repository number payload) := by
  intro c member mine finished c' member' same
  obtain ⟨before, inside, rfl⟩ := mem_update.mp member'
  obtain ⟨kept_number, -, -, owner, name⟩ := updated_owner points writes.isBy inside
  have itself : before = c := numbered.distinct before inside c member (kept_number.symm.trans same)
  subst itself
  have edited : updated t.job.repository number payload before = GitHub.edited payload before :=
    if_pos ⟨(kept.placed before inside mine).1.trans succ.repository, tracks before inside mine⟩
  obtain ⟨conclusion, completed⟩ := writes.concludes
  obtain ⟨concluded, -⟩ := kept.concluded before inside mine finished
  cases some_ : conclusionFor t.job with
  | none => exact absurd finished (seen some_ before inside mine)
  | some x =>
    rw [some_] at conclusion completed
    refine ⟨⟨owner.trans mine.1, name.trans mine.2⟩, ?_, ?_⟩
    · rw [edited]
      exact completed.mpr (by simp)
    · rw [edited, concluded, succ.conclusion x some_]
      exact conclusion

theorem listing_take (g : GitHub) (repository sha name : String) (pages : Nat) :
    (g.listing repository sha name).take (perPage * (pages + 1)) =
      (g.listing repository sha name).take (perPage * pages) ++ g.page repository sha name
      (pages + 1) := by
  rw [GitHub.page, Nat.add_sub_cancel, Nat.mul_succ, List.take_add]

theorem listing_whole {repository sha name : String} {pages : Nat}
    (last : (g.page repository sha name (pages + 1)).length < perPage) :
    (g.listing repository sha name).take (perPage * (pages + 1)) = g.listing repository sha name := by
  refine List.take_of_length_le ?_
  rw [GitHub.page, Nat.add_sub_cancel, List.length_take, List.length_drop] at last
  rw [perPage] at last ⊢
  omega

theorem unfinished_status (writes : t.Writes payload) (none_ : conclusionFor t.job = none) :
    payload.status ≠ .completed :=
  fun finished => writes.concludes.2.mp finished none_

/-- The checks of a job after an update are all the one that was written. -/
theorem updated_own (succ : Successor t.job job) (kept : Kept t.job.id job t.name g)
    (points : Points g t.key number)
    (writes : t.Writes payload) (tracks : ∀ c ∈ g.checks, IsFor t.job.id t.name c →
    c.number = number) {c : CheckRun}
    (member : c ∈ (g.update t.job.repository number payload).checks) (mine : IsFor t.job.id t.name c) :
    c.number = number ∧ c.status = payload.status := by
  obtain ⟨before, inside, rfl⟩ := mem_update.mp member
  obtain ⟨same, -, -, owner, name⟩ := updated_owner points writes.isBy inside
  have was : IsFor t.job.id t.name before := ⟨owner.symm.trans mine.1, name.symm.trans mine.2⟩
  refine ⟨same.trans (tracks before inside was), ?_⟩
  rw [updated, if_pos ⟨(kept.placed before inside was).1.trans succ.repository, tracks before inside was⟩]
  rfl

/-- After its write a publish knows the check it wrote. -/
theorem knows_written (writes : t.Writes payload)
    (own : ∀ c ∈ d.github.checks, IsFor t.job.id t.name c → c.number = number ∧
    c.status = payload.status) :
    Knows d (t.written number) := by
  refine knows_holds rfl (fun c member mine => ⟨(own c member mine).1, fun unfinished => ?_⟩)
    fun seen c member mine => ?_
  · rw [(own c member mine).2]
    exact unfinished_status writes (by simpa using unfinished)
  · rw [(own c member mine).2]
    exact unfinished_status writes (by simpa using ((Bool.and_eq_true ..).mp seen).2)

/-- What one call of a publish does while no other publish of the check is under way. -/
structure Turn (job : Job) (d d' : Desk) (t t' : Told) : Prop where
  kept : Kept t.job.id job t.name d'.github
  stays : Stays t.job.id t.name d.github d'.github
  knows : Knows d' t'
  memory : t'.Settled → ∀ held, d'.opened t.key = some held → Tracks d'.github t.job.id t.name held

theorem stays_refl (id name : String) (numbered : Numbered g) : Stays id name g g := by
  intro c member mine finished c' member' same
  rw [numbered.distinct c' member' c member same]
  exact ⟨mine, finished, rfl⟩

theorem own_turned (succ : Successor t.job job) (kept : Kept t.job.id job t.name d.github)
    (numbered : Numbered d.github) (points : ∀ held, t.stage.held? = some held →
    Points d.github t.key held.number)
    (knows : Knows d t) (memory : t.Settled → ∀ held, d.opened t.key = some held →
    Tracks d.github t.job.id t.name held)
    (heard : answer = .lost → (t.stage = .absent ∨ ∃ held, t.stage = .holds held) →
    conclusionFor t.job = none)
    (turned : Turned d t answer d' t') : Turn job d d' t t' := by
  have stays := stays_refl t.job.id t.name numbered
  have record {held held' : Held}
      (known : (d.recording t.key (some held)).opened t.key = some held') : held = held' := by
    rw [Desk.recording_self] at known
    exact Option.some.inj known
  cases turned with
  | missed at_ forgotten =>
    refine ⟨kept, stays, ⟨knows.seen, fun pages same => ?_, fun none_ => (by cases none_),
      fun _ none_ => (by cases none_),
      fun _ => forgotten⟩, fun _ => memory (settled_of_stage at_ (by simp))⟩
    obtain rfl := Stage.searching.inj same
    simp
  | @recalled _ held at_ known =>
    have tracks := memory (settled_of_stage at_ (by simp)) held known
    refine ⟨kept, stays, knows_holds rfl tracks fun seen c member mine => ?_, fun _ =>
      memory (settled_of_stage at_ (by simp))⟩
    rcases (Bool.or_eq_true ..).mp seen with before | unfinished
    · exact knows.seen before c member mine
    · exact (tracks c member mine).2 (by simpa using unfinished)
  | @kept _ held at_ =>
    have tracks := knows.holds held (by rw [at_]; rfl)
    exact ⟨kept, stays, knows_holds rfl tracks knows.seen, fun _ held' known => record known ▸ tracks⟩
  | @closed _ held at_ =>
    have tracks := knows.holds held (by rw [at_]; rfl)
    exact ⟨kept, stays, knows_seen rfl (by simp) (by simp) knows.seen, fun _ held' known =>
      record known ▸ tracks⟩
  | forgot at_ =>
    refine ⟨kept, stays, knows_seen rfl (by simp) (by simp) knows.seen, fun _ held' known => ?_⟩
    rw [Desk.recording_self] at known
    cases known
  | @found pages run at_ listed =>
    obtain ⟨member, -, -, mine⟩ := page_found listed
    have tracks : Tracks d.github t.job.id t.name ⟨run.number, run.status = .completed⟩ := by
      intro c inside own
      rw [kept.one c inside run member own mine]
      exact ⟨rfl, fun unfinished => by simpa using unfinished⟩
    refine ⟨kept, stays, knows_holds rfl tracks fun seen c inside own => ?_, fun _ =>
      memory (settled_of_stage at_ (by simp))⟩
    rcases (Bool.or_eq_true ..).mp seen with before | unfinished
    · exact knows.seen before c inside own
    · rw [kept.one c inside run member own mine]
      simpa using unfinished
  | @absent pages at_ none_ last =>
    have nowhere : ∀ c ∈ d.github.checks, ¬IsFor t.job.id t.name c := by
      intro c member mine
      have place := kept.placed c member mine
      have inside : c ∈ d.github.listing t.job.repository t.sha t.name := by
        refine List.mem_filter.mpr ⟨member, ?_⟩
        rw [place.1, place.2, mine.2, succ.repository, succ.head]
        simp [Told.sha]
      rw [← listing_whole last, listing_take] at inside
      rcases List.mem_append.mp inside with before | page
      · exact knows.searched pages at_ c before mine.1
      · exact absurd (List.find?_eq_none.mp none_ c page) (by simpa using mine.1)
    exact ⟨kept, stays, ⟨fun _ => fun c member mine => absurd mine (nowhere c member), fun _ same =>
      (by cases same),
      fun _ => nowhere, fun _ none_ => (by cases none_), fun _ => knows.unrecorded (Or.inr ⟨pages, at_⟩)⟩,
      fun _ => memory (settled_of_stage at_ (by simp))⟩
  | @paged pages at_ none_ =>
    refine ⟨kept, stays, ⟨knows.seen, fun pages' same => ?_, fun same => (by cases same),
      fun _ none_ => (by cases none_),
      fun _ => knows.unrecorded (Or.inr ⟨pages, at_⟩)⟩, fun _ => memory (settled_of_stage at_ (by simp))⟩
    obtain rfl := Stage.searching.inj same
    intro c inside
    rw [listing_take] at inside
    rcases List.mem_append.mp inside with before | page
    · exact knows.searched pages at_ c before
    · simpa using List.find?_eq_none.mp none_ c page
  | @created payload at_ writes =>
    have nowhere := knows.absent at_
    refine ⟨created_kept succ writes nowhere, fun c member mine => absurd mine (nowhere c member),
      knows_written writes (fun c member mine => ?_), fun settled => absurd rfl (settled _)⟩
    rcases mem_create.mp member with rfl | old
    · exact ⟨rfl, rfl⟩
    · exact absurd mine (nowhere c old)
  | @createLost payload at_ writes =>
    have nowhere := knows.absent at_
    have open_ : payload.status ≠ .completed := unfinished_status writes (heard rfl (Or.inl at_))
    refine ⟨created_kept succ writes nowhere, fun c member mine => absurd mine (nowhere c member),
      knows_seen rfl (by simp) (by simp) fun _ c member mine => ?_, fun _ held known => ?_⟩
    · rcases mem_create.mp member with rfl | old
      · exact open_
      · exact absurd mine (nowhere c old)
    · rw [knows.unrecorded (Or.inl at_)] at known
      cases known
  | @updated payload held at_ writes fresh =>
    have tracks := knows.holds held (by rw [at_]; rfl)
    have points := points held (by rw [at_]; rfl)
    have numbers : ∀ c ∈ d.github.checks, IsFor t.job.id t.name c → c.number = held.number :=
        fun c member mine =>
      (tracks c member mine).1
    have seen (none_ : conclusionFor t.job = none) := knows.seen (writes.open_ none_)
    refine ⟨updated_kept succ kept points writes
      (fun annotated c member mine => (tracks c member mine).2 (fresh annotated))
      seen numbers, updated_stays succ kept numbered points writes seen numbers,
      knows_written writes fun c member mine => ?_,
      fun settled => absurd rfl (settled _)⟩
    exact updated_own succ kept points writes numbers member mine
  | @updateLost payload held at_ writes =>
    have tracks := knows.holds held (by rw [at_]; rfl)
    have points := points held (by rw [at_]; rfl)
    have numbers : ∀ c ∈ d.github.checks, IsFor t.job.id t.name c → c.number = held.number :=
        fun c member mine =>
      (tracks c member mine).1
    have none_ := heard rfl (Or.inr ⟨held, at_⟩)
    have seen := knows.seen (writes.open_ none_)
    have open_ : payload.status ≠ .completed := unfinished_status writes none_
    have own {c : CheckRun} (member : c ∈ (d.github.update t.job.repository held.number payload).checks)
        (mine : IsFor t.job.id t.name c) := updated_own succ kept points writes numbers member mine
    have unannotated : payload.annotated = true → ∀ c ∈ d.github.checks, IsFor t.job.id t.name c →
        c.status ≠ .completed :=
      fun _ => seen
    refine ⟨updated_kept succ kept points writes unannotated (fun _ => seen) numbers,
      updated_stays succ kept numbered points writes (fun _ => seen) numbers,
      knows_seen rfl (by simp) (by simp) fun _ c member mine => ?_, fun _ held' known c member mine => ?_⟩
    · rw [(own member mine).2]
      exact open_
    · obtain ⟨before, inside, rfl⟩ := mem_update.mp member
      obtain ⟨same, -, -, owner, name⟩ := updated_owner points writes.isBy inside
      have was : IsFor t.job.id t.name before := ⟨owner.symm.trans mine.1, name.symm.trans mine.2⟩
      have settled : t.Settled := settled_of_stage at_ (by simp)
      refine ⟨same.trans (memory settled held' known before inside was).1, fun _ => ?_⟩
      rw [(own member mine).2]
      exact open_
  | refused settled =>
    exact ⟨kept, stays, knows_seen rfl (by simp) (by simp) knows.seen, fun _ => memory settled⟩

end Own

section Other
variable {d d' : Desk} {t t' : Told} {answer : Answer} {id name : String}

theorem tracks_aside {held : Held} (aside : Aside id name g g') (tracks : Tracks g id name held) :
    Tracks g' id name held :=
  fun c member mine => tracks c ((aside.same c mine).mp member) mine

theorem kept_aside {job : Job} (aside : Aside id name g g') (kept : Kept id job name g) :
    Kept id job name g' := by
  have old {c : CheckRun} (member : c ∈ g'.checks) (mine : IsFor id name c) :=
    (aside.same c mine).mp member
  exact ⟨fun c member c' member' mine mine' => kept.one c (old member mine) c' (old member' mine')
    mine mine',
    fun c member mine => kept.placed c (old member mine) mine, fun c member mine =>
    kept.counted c (old member mine) mine,
    fun c member mine => kept.concluded c (old member mine) mine⟩

theorem stays_aside (aside : Aside id name g g') (numbered : Numbered g') : Stays id name g g' := by
  intro c member mine finished c' member' same
  rw [numbered.distinct c' member' c ((aside.same c mine).mpr member) same]
  exact ⟨mine, finished, rfl⟩

theorem knows_aside (aside : Aside t.job.id t.name d.github d'.github)
    (opened : d'.opened t.key = d.opened t.key)
    (knows : Knows d t) : Knows d' t := by
  have old {c : CheckRun} (member : c ∈ d'.github.checks) (mine : IsFor t.job.id t.name c) :=
    (aside.same c mine).mp member
  refine ⟨fun seen c member mine => knows.seen seen c (old member mine) mine,
    fun pages at_ c inside own => ?_,
    fun at_ c member mine => knows.absent at_ c (old member mine) mine,
    fun held holds => tracks_aside aside (knows.holds held holds), fun at_ =>
    opened.trans (knows.unrecorded at_)⟩
  exact knows.searched pages at_ c (aside.behind _ _ _ c own inside) own

theorem turned_aside (points : ∀ held, t.stage.held? = some held → Points d.github t.key held.number)
    (other : ¬(t.job.id = id ∧ t.name = name)) (turned : Turned d t answer d' t') :
    Aside id name d.github d'.github := by
  have apart {payload : CheckPayload} (writes : t.Writes payload) :
      ¬(payload.externalId = id ∧ payload.name = name) := by
    rw [writes.isBy.1, writes.isBy.2]
    exact other
  cases turned with
  | created _ writes | createLost _ writes => exact aside_create (apart writes)
  | updated at_ writes | updateLost at_ writes => exact aside_update (points _ (by rw [at_]; rfl)) writes.isBy other
  | missed | recalled | kept | closed | forgot | found | absent | paged | refused => exact Aside.refl ..

theorem turned_elsewhere (other : key ≠ t.key) (turned : Turned d t answer d' t') :
    d'.opened key = d.opened key := by
  cases turned with
  | kept | closed | forgot => exact Desk.recording_ne _ _ other
  | missed | recalled | found | absent | paged | refused | created | createLost | updated |
      updateLost => rfl

theorem kept_successor {job job' : Job} (succ : Successor job job') (kept : Kept id job name g) :
    Kept id job' name g := by
  refine ⟨kept.one, fun c member mine => ?_, kept.counted, fun c member mine finished => ?_⟩
  · rw [succ.repository, succ.head]
    exact kept.placed c member mine
  · obtain ⟨conclusion, concluded⟩ := kept.concluded c member mine finished
    obtain ⟨x, some_⟩ := Option.ne_none_iff_exists'.mp concluded
    rw [conclusion, some_, succ.conclusion x some_]
    exact ⟨rfl, by simp⟩

theorem kept_none {job : Job} (none_ : ∀ c ∈ g.checks, ¬IsFor id name c) : Kept id job name g :=
  ⟨fun c member _ _ mine => absurd mine (none_ c member), fun c member mine =>
    absurd mine (none_ c member),
    fun c member mine => absurd mine (none_ c member), fun c member mine => absurd mine (none_ c member)⟩

end Other

/-! ## Along a run -/

def Call.completes : Call → Bool
  | .create _ _ payload | .update _ _ payload => payload.status = .completed
  | .opened _ | .remember .. | .forget _ | .page .. => false

theorem heard_unfinished {t : Told} {c : Call} (may : t.may c) (unheard : c.completes = false)
    (at_ : t.stage = .absent ∨ ∃ held, t.stage = .holds held) : conclusionFor t.job = none := by
  have stops {payload : CheckPayload} (writes : t.Writes payload)
      (open_ : decide (payload.status = .completed) = false) :
      conclusionFor t.job = none := by
    by_contra concluded
    exact of_decide_eq_false open_ (writes.concludes.2.mpr concluded)
  have nowhere {stage : Stage} (here : t.stage = stage) (apart : stage ≠ .absent)
      (empty : ∀ held, stage ≠ .holds held) :
      conclusionFor t.job = none := by
    rcases at_ with absent | ⟨held, holds⟩
    · exact absurd (here.symm.trans absent) apart
    · exact absurd (here.symm.trans holds) (empty held)
  cases c with
  | create => exact stops may.2.2.2 unheard
  | update => exact stops may.2.1 unheard
  | opened => exact nowhere may.2 (by simp) (by simp)
  | forget => exact nowhere may.2 (by simp) (by simp)
  | remember =>
    rcases may.2 with found | wrote
    · exact nowhere found (by simp) (by simp)
    · exact nowhere wrote (by simp) (by simp)
  | page =>
    obtain ⟨-, -, -, pages, searching, -⟩ := may
    exact nowhere searching (by simp) (by simp)

namespace Board
variable {b c : Board} {told : Nat → Told} {p : Nat} {id name : String}

def Publishes (b : Board) (id name : String) (p : Nat) : Prop :=
  ∃ job, b.subject p = some (job, name) ∧ job.id = id

/-- The thread has made a call and has one to make. -/
def Begun (b : Board) (p : Nat) : Prop :=
  (∃ call next, b.crew.task p = some (.ask call next)) ∧ b.crew.made p ≠ []

/-- The publishes of one check come one after the other, GitHub answers the writes that finish it
and loses checks only between two publishes, and nobody else opens a check in its name. -/
structure Apart (id name : String) (b : Board) (a : Move) : Prop where
  serial : ∀ p answer, a = .turn p answer → b.Publishes id name p → ∀ q, q ≠ p →
    b.Publishes id name q → ¬b.Begun q
  answered : ∀ p call next, a = .turn p .lost → b.Publishes id name p →
    b.crew.task p = some (.ask call next) →
    call.completes = false
  foreign : ∀ repository sha payload, a = .foreign repository sha payload → payload.externalId ≠ id
  lost : ∀ number, a = .lose number → ∀ q, b.Publishes id name q → ¬b.Begun q

/-- What holds of every publish, whatever the others do. -/
structure Owned (b : Board) (told : Nat → Told) : Prop where
  obeys : Crew.Obeys publishing (fun t _ => t.Settled) told b.crew
  unused : b.crew.Unused
  subject : ∀ p, b.subject p = (b.crew.task p).map fun _ => ((told p).job, (told p).name)
  unbegun : ∀ p, b.crew.task p ≠ none → b.crew.made p = [] → (told p).stage = .fresh ∧
    (told p).openSeen = false
  numbered : Numbered b.desk.github
  opened : ∀ key held, b.desk.opened key = some held → Points b.desk.github key held.number
  points : ∀ p held, (told p).stage.held? = some held → Points b.desk.github (told p).key held.number

theorem publishes_told (h : Owned b told) (own : b.Publishes id name p) :
    (told p).job.id = id ∧ (told p).name = name := by
  obtain ⟨job, subject, rfl⟩ := own
  rw [h.subject] at subject
  obtain ⟨_, -, same⟩ := Option.map_eq_some_iff.mp subject
  obtain ⟨rfl, rfl⟩ := Prod.mk.inj same
  exact ⟨rfl, rfl⟩

theorem told_publishes (h : Owned b told) (there : b.crew.task p ≠ none) :
    b.Publishes (told p).job.id (told p).name p := by
  obtain ⟨s, task⟩ := Option.ne_none_iff_exists'.mp there
  exact ⟨(told p).job, by rw [h.subject, task]; rfl, rfl⟩

/-- A turn is one call of a publish from what it was told. -/
theorem turn_turned (h : Owned b told) {answer : Answer} (taken : b.step (.turn p answer) = some c) :
    ∃ call next t', b.crew.task p = some (.ask call next) ∧ (told p).may call ∧
      Turned b.desk (told p) answer c.desk t' ∧
      c.queue = b.queue ∧ c.subject = b.subject ∧
      (∃ s, c.crew.task = Function.update b.crew.task p (some s)) ∧
      c.crew.made = Function.update b.crew.made p (b.crew.made p ++ [call]) ∧ c.crew.Unused ∧
      Crew.Obeys publishing (fun t _ => t.Settled) (Function.update told p t') c.crew := by
  obtain ⟨crew, turned, rfl⟩ := Option.map_eq_some_iff.mp taken
  obtain ⟨call, next, r, task, performed, tasks, made⟩ := Crew.turn_eq turned
  obtain ⟨may, obeys⟩ := Crew.obeys_answer h.obeys task tasks
  exact ⟨call, next, _, task, may, turned_of_perform may performed, rfl, rfl, ⟨_, tasks⟩, made,
    Crew.unused_turn h.unused turned, obeys⟩

theorem owned_turn (h : Owned b told) {answer : Answer} {call : Call} {t' : Told}
    (turned : Turned b.desk (told p) answer c.desk t') (subject : c.subject = b.subject)
    (tasks : ∃ s, c.crew.task = Function.update b.crew.task p (some s)) (busy : b.crew.task p ≠ none)
    (made : c.crew.made = Function.update b.crew.made p (b.crew.made p ++ [call]))
    (unused : c.crew.Unused)
    (obeys : Crew.Obeys publishing (fun t _ => t.Settled) (Function.update told p t') c.crew) :
    Owned c (Function.update told p t') := by
  have changed := turned_changed (h.points p) turned
  obtain ⟨s, tasks⟩ := tasks
  refine ⟨obeys, unused, fun q => ?_, fun q there none_ => ?_, changed_numbered h.numbered changed,
    turned_opened h.opened (h.points p) turned, fun q held holds => ?_⟩
  · rw [subject, h.subject, tasks]
    by_cases same : q = p
    · subst same
      obtain ⟨s', before⟩ := Option.ne_none_iff_exists'.mp busy
      rw [Function.update_self, Function.update_self, before, Option.map_some, Option.map_some,
        (turned_same turned).1,
        (turned_same turned).2]
    · rw [Function.update_of_ne same, Function.update_of_ne same]
  · by_cases same : q = p
    · subst same
      rw [made, Function.update_self] at none_
      exact absurd none_ (by simp)
    · rw [made, Function.update_of_ne same] at none_
      rw [tasks, Function.update_of_ne same] at there
      rw [Function.update_of_ne same]
      exact h.unbegun q there none_
  · by_cases same : q = p
    · subst same
      rw [Function.update_self] at holds ⊢
      rw [turned_key turned]
      exact turned_points h.numbered h.opened (h.points q) turned held holds
    · rw [Function.update_of_ne same] at holds ⊢
      exact changed_points (h.points q held holds) changed

/-- What holds of the checks of one job under one name while its publishes do not overlap. -/
structure Sole (id name : String) (b : Board) (told : Nat → Told) : Prop where
  owned : Owned b told
  reads : ∀ p, b.Publishes id name p → ∃ row, b.queue.row? id = some row ∧ Successor (told p).job row.job
  kept : ∀ row, b.queue.row? id = some row → Kept id row.job name b.desk.github
  unopened : b.queue.row? id = none → ∀ c ∈ b.checks, ¬IsFor id name c
  memory : ∀ repository held, b.desk.opened ⟨repository, id, name⟩ = some held →
    (∃ row, b.queue.row? id = some row ∧ row.repository = repository) ∧
      ((∃ p written, b.Publishes id name p ∧ b.Begun p ∧ (told p).stage = .wrote written) ∨
        Tracks b.desk.github id name held)
  knows : ∀ p, b.Publishes id name p → b.Begun p → Knows b.desk (told p)

theorem queue_sole (h : Sole id name b told) (op : Store.Op) :
    Sole id name { b with queue := b.queue.apply op } told := by
  have later {row : Row} (found : b.queue.row? id = some row) :
      ∃ row', (b.queue.apply op).row? id = some row' ∧ Successor row.job row'.job := by
    obtain ⟨row', there, step⟩ := Store.apply_row op found
    exact ⟨row', there, step_successor step⟩
  refine ⟨⟨h.owned.obeys, h.owned.unused, h.owned.subject, h.owned.unbegun, h.owned.numbered,
    h.owned.opened,
    h.owned.points⟩, fun p own => ?_, fun row' found => ?_, fun gone => h.unopened ?_,
    fun repository held known => ?_, h.knows⟩
  · obtain ⟨row, found, succ⟩ := h.reads p own
    obtain ⟨row', there, succ'⟩ := later found
    exact ⟨row', there, succ.trans succ'⟩
  · cases before : b.queue.row? id with
    | none => exact kept_none (h.unopened before)
    | some row =>
      obtain ⟨row'', there, succ⟩ := later before
      obtain rfl := Option.some.inj (there.symm.trans found)
      exact kept_successor succ (h.kept row before)
  · cases before : b.queue.row? id with
    | none => rfl
    | some row =>
      obtain ⟨row', there, -⟩ := later before
      rw [show (b.queue.apply op).row? id = none from gone] at there
      cases there
  · obtain ⟨⟨row, found, same⟩, tracks⟩ := h.memory repository held known
    obtain ⟨row', there, succ⟩ := later found
    exact ⟨⟨row', there, succ.repository.trans same⟩, tracks⟩

theorem publish_owned (h : Owned b told) {job : Job} {name : String}
    (spawned : b.crew.spawn p ((publishCheckRunQuietly job name).bind fun _ => .done ()) = some c.crew)
    (subject : c.subject = Function.update b.subject p (some (job, name))) :
    Owned c (Function.update told p ⟨job, name, .fresh, false⟩) := by
  obtain ⟨state, obeys⟩ := Crew.obeys_spawn h.obeys (publish_follows job name) spawned
  have same : c.desk = b.desk := state
  obtain ⟨unused, crew⟩ := Crew.spawn_eq spawned
  refine ⟨obeys, Crew.unused_spawn h.unused spawned, fun q => ?_, fun q there none_ =>
    ?_, same ▸ h.numbered,
    same ▸ h.opened, fun q held holds => ?_⟩
  · rw [subject, crew]
    by_cases here : q = p
    · subst here
      simp only [Function.update_self, Option.map_some]
    · simp only [Function.update_of_ne here]
      exact h.subject q
  · by_cases here : q = p
    · subst here
      rw [Function.update_self]
      exact ⟨rfl, rfl⟩
    · rw [crew] at there none_
      simp only [Function.update_of_ne here] at there ⊢
      exact h.unbegun q there none_
  · by_cases here : q = p
    · subst here
      rw [Function.update_self] at holds
      cases holds
    · rw [Function.update_of_ne here] at holds ⊢
      exact same ▸ h.points q held holds

theorem publishes_congr {q : Nat} (subject : c.subject q = b.subject q) :
    c.Publishes id name q ↔ b.Publishes id name q := by
  rw [Publishes, Publishes, subject]

theorem begun_congr {q : Nat} (task : c.crew.task q = b.crew.task q)
    (made : c.crew.made q = b.crew.made q) :
    c.Begun q ↔ b.Begun q := by
  rw [Begun, Begun, task, made]

/-- A thread that starts to publish has read the record, and knows nothing yet. -/
theorem publish_sole (h : Sole id name b told) {jobId name' : String}
    (taken : b.step (.publish p jobId name') = some c) :
    ∃ told', Sole id name c told' ∧ c.desk = b.desk := by
  simp only [step] at taken
  split at taken
  · cases taken
  rename_i job read
  obtain ⟨crew, spawned, same⟩ := Option.map_eq_some_iff.mp taken
  obtain ⟨row, found, rfl⟩ := Option.map_eq_some_iff.mp read
  obtain ⟨unused, made⟩ := Crew.spawn_eq spawned
  have queue : c.queue = b.queue := by rw [← same]
  have subject : c.subject = Function.update b.subject p (some (row.job, name')) := by rw [← same]
  have crew : c.crew = { b.crew with
      task := Function.update b.crew.task p (some ((publishCheckRunQuietly row.job name').bind fun _ => .done ())) } := by
    rw [← same, made]
  have desk : c.desk = b.desk := by rw [desk, crew, Board.desk]
  have checks : c.checks = b.checks := by rw [Board.checks, desk, Board.checks]
  have owned := publish_owned (c := c) h.owned (by rw [spawned, ← same]) subject
  have published {q : Nat} (here : q ≠ p) : c.Publishes id name q ↔ b.Publishes id name q :=
    publishes_congr (by rw [subject, Function.update_of_ne here])
  have begun {q : Nat} (here : q ≠ p) : c.Begun q ↔ b.Begun q :=
    begun_congr (by rw [crew]; exact Function.update_of_ne here ..) (by rw [crew])
  have idle : ¬c.Begun p := by
    rintro ⟨-, calls⟩
    rw [crew] at calls
    exact calls (h.owned.unused p unused)
  refine ⟨_, ⟨owned, fun q own => ?_, fun row found => ?_, fun gone => ?_,
    fun repository held known => ?_, fun q own live => ?_⟩,
    desk⟩
  · by_cases here : q = p
    · subst here
      obtain ⟨job, named, rfl⟩ := own
      rw [subject, Function.update_self] at named
      obtain ⟨rfl, rfl⟩ := Prod.mk.inj (Option.some.inj named)
      refine ⟨row, ?_, ?_⟩
      · rw [queue, Row.job_id, (Store.row?_some found).2]
        exact found
      · rw [Function.update_self]
        exact Successor.refl _
    · rw [queue, Function.update_of_ne here]
      exact h.reads q ((published here).mp own)
  · rw [desk]
    exact h.kept row (queue ▸ found)
  · rw [checks]
    exact h.unopened (queue ▸ gone)
  · rw [desk] at known ⊢
    obtain ⟨row, tracks⟩ := h.memory repository held known
    refine ⟨queue ▸ row, tracks.imp_left ?_⟩
    rintro ⟨q, written, own, live, wrote⟩
    have here : q ≠ p := by
      rintro rfl
      obtain ⟨⟨call, next, task⟩, -⟩ := live
      rw [unused] at task
      cases task
    refine ⟨q, written, (published here).mpr own, (begun here).mpr live, ?_⟩
    rw [Function.update_of_ne here]
    exact wrote
  · have here : q ≠ p := by
      rintro rfl
      exact idle live
    rw [desk, Function.update_of_ne here]
    exact h.knows q ((published here).mp own) ((begun here).mp live)

/-- A step under which the finished checks of the job stay so. -/
def Moved (id name : String) (b c : Board) : Prop :=
  ∃ told, Sole id name c told ∧ Stays id name b.desk.github c.desk.github ∧
  Changed b.desk.github c.desk.github

/-- A turn of a publish of the check, the only one under way. -/
theorem turn_own (h : Sole id name b told) {answer : Answer} (apart : Apart id name b (.turn p answer))
    (own : b.Publishes id name p) (taken : b.step (.turn p answer) = some c) : Moved id name b c := by
  obtain ⟨call, next, t', task, may, turned, queue, subject, tasks, made, unused, obeys⟩ :=
    turn_turned h.owned taken
  have busy : b.crew.task p ≠ none := by simp [task]
  have owned := owned_turn h.owned turned subject tasks busy made unused obeys
  obtain ⟨rfl, rfl⟩ := publishes_told h.owned own
  have alone {q : Nat} (here : q ≠ p) (other : b.Publishes (told p).job.id (told p).name q) :
      ¬b.Begun q :=
    apart.serial p answer rfl own q here other
  obtain ⟨row, found, succ⟩ := h.reads p own
  have key : (told p).key = ⟨row.repository, (told p).job.id, (told p).name⟩ := by
    rw [Told.key, keyOf, show row.repository = (told p).job.repository from succ.repository]
  have knows : Knows b.desk (told p) := by
    by_cases first : b.crew.made p = []
    · obtain ⟨stage, seen⟩ := h.owned.unbegun p busy first
      refine knows_seen (by rw [stage]; rfl) (by rw [stage]; simp) (by rw [stage]; simp) fun open_ => ?_
      rw [seen] at open_
      cases open_
    · exact h.knows p own ⟨⟨call, next, task⟩, first⟩
  have memory (settled : (told p).Settled) (held : Held)
      (known : b.desk.opened (told p).key = some held) :
      Tracks b.desk.github (told p).job.id (told p).name held := by
    rw [key] at known
    refine (h.memory row.repository held known).2.resolve_left ?_
    rintro ⟨q, written, other, live, wrote⟩
    by_cases here : q = p
    · subst here
      exact settled written wrote
    · exact alone here other live
  have heard (lost : answer = .lost) (at_ : (told p).stage = .absent ∨
      ∃ held, (told p).stage = .holds held) :
      conclusionFor (told p).job = none := by
    subst lost
    exact heard_unfinished may (apart.answered p call next rfl own task) at_
  have turn := own_turned succ (h.kept row found) h.owned.numbered (h.owned.points p) knows memory
    heard turned
  refine ⟨_, ⟨owned, fun q other => ?_, fun row' there => ?_, fun gone => ?_,
    fun repository held known => ?_,
    fun q other live => ?_⟩, turn.stays, turned_changed (h.owned.points p) turned⟩
  · rw [queue]
    have before : b.Publishes _ _ q := (publishes_congr (by rw [subject])).mp other
    obtain ⟨row', there, successor⟩ := h.reads q before
    refine ⟨row', there, ?_⟩
    by_cases here : q = p
    · subst here
      rw [Function.update_self, (turned_same turned).1]
      exact successor
    · rw [Function.update_of_ne here]
      exact successor
  · rw [queue] at there
    obtain rfl := Option.some.inj (found.symm.trans there)
    exact turn.kept
  · rw [queue, found] at gone
    cases gone
  · by_cases here : repository = row.repository
    · subst here
      refine ⟨⟨row, by rw [queue]; exact found, rfl⟩, ?_⟩
      by_cases settled : t'.Settled
      · exact Or.inr (turn.memory settled held (by rw [key]; exact known))
      · -- the publish has written and will note it
        obtain ⟨written, wrote⟩ := not_forall_not.mp settled
        refine Or.inl ⟨p, written, (publishes_congr (by rw [subject])).mpr own, ⟨?_, ?_⟩, ?_⟩
        · obtain ⟨s, tasks⟩ := tasks
          have follows := obeys p s (by rw [tasks, Function.update_self])
          rw [Function.update_self] at follows
          cases s with
          | done _ => exact absurd follows settled
          | fail _ => exact absurd follows settled
          | ask call next => exact ⟨call, next, by rw [tasks, Function.update_self]⟩
        · rw [made, Function.update_self]
          simp
        · rw [Function.update_self]
          exact wrote
    · have apart : (⟨repository, (told p).job.id, (told p).name⟩ : Key) ≠ (told p).key := by
        rw [key]
        intro same
        exact here (congrArg Key.repository same)
      rw [turned_elsewhere apart turned] at known
      obtain ⟨⟨row', there, same⟩, -⟩ := h.memory repository held known
      obtain rfl := Option.some.inj (found.symm.trans there)
      exact absurd same.symm here
  · by_cases here : q = p
    · subst here
      rw [Function.update_self]
      exact turn.knows
    · obtain ⟨s, tasks⟩ := tasks
      have before : b.Publishes _ _ q := (publishes_congr (by rw [subject])).mp other
      exact absurd ((begun_congr (by rw [tasks, Function.update_of_ne here])
        (by rw [made, Function.update_of_ne here])).mp live)
        (alone here before)

/-- A turn of another publish. -/
theorem turn_other (h : Sole id name b told) {answer : Answer} (other : ¬b.Publishes id name p)
    (taken : b.step (.turn p answer) = some c) : Moved id name b c := by
  obtain ⟨call, next, t', task, may, turned, queue, subject, tasks, made, unused, obeys⟩ :=
    turn_turned h.owned taken
  have busy : b.crew.task p ≠ none := by simp [task]
  have owned := owned_turn h.owned turned subject tasks busy made unused obeys
  have apart : ¬((told p).job.id = id ∧ (told p).name = name) := by
    rintro ⟨rfl, rfl⟩
    exact other (told_publishes h.owned busy)
  have aside := turned_aside (h.owned.points p) apart turned
  have opened (repository : String) : c.desk.opened ⟨repository, id, name⟩ = b.desk.opened
      ⟨repository, id, name⟩ := by
    refine turned_elsewhere (fun same => apart ?_) turned
    exact ⟨(congrArg Key.job same).symm, (congrArg Key.name same).symm⟩
  have publishes (q : Nat) : c.Publishes id name q ↔ b.Publishes id name q :=
    publishes_congr (by rw [subject])
  have elsewhere {q : Nat} (own : b.Publishes id name q) : q ≠ p := by
    rintro rfl
    exact other own
  have begun {q : Nat} (own : b.Publishes id name q) : c.Begun q ↔ b.Begun q := by
    obtain ⟨s, tasks⟩ := tasks
    exact begun_congr (by rw [tasks, Function.update_of_ne (elsewhere own)])
      (by rw [made, Function.update_of_ne (elsewhere own)])
  refine ⟨_, ⟨owned, fun q own => ?_, fun row found => ?_, fun gone c' member mine => ?_,
    fun repository held known => ?_,
    fun q own live => ?_⟩, stays_aside aside owned.numbered, turned_changed (h.owned.points p) turned⟩
  · have before := (publishes q).mp own
    rw [queue, Function.update_of_ne (elsewhere before)]
    exact h.reads q before
  · exact kept_aside aside (h.kept row (queue ▸ found))
  · exact h.unopened (queue ▸ gone) c' ((aside.same c' mine).mp member) mine
  · rw [opened] at known
    obtain ⟨row, tracks⟩ := h.memory repository held known
    refine ⟨queue ▸ row, tracks.imp ?_ (tracks_aside aside)⟩
    rintro ⟨q, written, own, live, wrote⟩
    refine ⟨q, written, (publishes q).mpr own, (begun own).mpr live, ?_⟩
    rw [Function.update_of_ne (elsewhere own)]
    exact wrote
  · have before := (publishes q).mp own
    rw [Function.update_of_ne (elsewhere before)]
    obtain ⟨rfl, rfl⟩ := publishes_told h.owned before
    exact knows_aside aside (opened _) (h.knows q before ((begun before).mp live))

theorem elsewhere_owned (h : Owned b told) {github : GitHub} (changed : Changed b.desk.github github) :
    Owned (b.elsewhere github) told :=
  ⟨h.obeys, h.unused, h.subject, h.unbegun, changed_numbered h.numbered changed,
    fun key held known => changed_points (h.opened key held known) changed,
    fun p held holds => changed_points (h.points p held holds) changed⟩

theorem foreign_sole (h : Sole id name b told) {repository sha : String} {payload : CheckPayload}
    (other : payload.externalId ≠ id) :
    Moved id name b (b.elsewhere (b.desk.github.create repository sha payload)) := by
  have owned := elsewhere_owned h.owned (.create repository sha payload)
  have aside : Aside id name b.desk.github (b.desk.github.create repository sha payload) :=
    aside_create fun same => other same.1
  refine ⟨told, ⟨owned, h.reads, fun row found => kept_aside aside (h.kept row found),
    fun gone c member mine => h.unopened gone c ((aside.same c mine).mp member) mine,
    fun repository held known => ?_,
    fun p own live => ?_⟩, stays_aside aside owned.numbered, .create repository sha payload⟩
  · obtain ⟨row, tracks⟩ := h.memory repository held known
    exact ⟨row, tracks.imp_right (tracks_aside aside)⟩
  · obtain ⟨rfl, rfl⟩ := publishes_told h.owned own
    exact knows_aside aside rfl (h.knows p own live)

theorem lose_sole (h : Sole id name b told) {number : Nat}
    (quiet : ∀ p, b.Publishes id name p → ¬b.Begun p) :
    Moved id name b (b.elsewhere (b.desk.github.lose number)) := by
  have owned := elsewhere_owned h.owned (.lose number)
  have left {c : CheckRun} (member : c ∈ (b.desk.github.lose number).checks) : c ∈ b.desk.github.checks :=
    (mem_lose.mp member).1
  refine ⟨told, ⟨owned, h.reads, fun row found => ?_, fun gone c member =>
    h.unopened gone c (left member),
    fun repository held known => ?_, fun p own live => absurd live (quiet p own)⟩,
    fun c member mine finished c' member' same => ?_,
    .lose number⟩
  · have kept := h.kept row found
    exact ⟨fun c member c' member' => kept.one c (left member) c' (left member'), fun c member =>
      kept.placed c (left member),
      fun c member => kept.counted c (left member), fun c member => kept.concluded c (left member)⟩
  · obtain ⟨row, tracks⟩ := h.memory repository held known
    refine ⟨row, Or.inr fun c member mine => ?_⟩
    refine tracks.resolve_left ?_ c (left member) mine
    rintro ⟨p, written, own, live, -⟩
    exact quiet p own live
  · rw [h.owned.numbered.distinct c' (left member') c member same]
    exact ⟨mine, finished, rfl⟩

theorem restart_sole (h : Sole id name b told) (taken : b.step .restart = some c) :
    ∃ told', Sole id name c told' ∧ c.desk.github = b.desk.github := by
  obtain rfl := Option.some.inj taken
  have idle {p : Nat} {b' : Board}
      (crew : b'.crew = b.crew.stop { b.desk with opened := fun _ => none }) : ¬b'.Begun p := by
    rintro ⟨⟨call, next, task⟩, -⟩
    rw [crew] at task
    obtain ⟨_, -, ended⟩ := Option.map_eq_some_iff.mp task
    cases ended
  refine ⟨fun p => { told p with stage := .fresh, openSeen := false },
    ⟨⟨fun p s task => ?_, Crew.unused_stop h.owned.unused _,
    fun p => ?_, fun p _ _ => ⟨rfl, rfl⟩, h.owned.numbered, fun key held known => (by cases known),
    fun p held holds => (by cases holds)⟩, h.reads, h.kept, h.unopened, fun repository held known =>
    (by cases known),
    fun p own live => absurd live (idle rfl)⟩, rfl⟩
  · obtain ⟨_, -, rfl⟩ := Option.map_eq_some_iff.mp task
    exact settled_of_stage rfl (by simp)
  · have subject := h.owned.subject p
    show b.subject p = _
    rw [subject]
    cases task : b.crew.task p with
    | none => simp [Crew.stop, task]
    | some s => simp [Crew.stop, task]

theorem start_sole (id name : String) : ∃ told, Sole id name start told := by
  let nobody : Told :=
    ⟨⟨"", "", "", "", [], 0, 0, .pending, [], none, none, none, 0, none, none, "", none, []⟩, "",
    .fresh, false⟩
  refine ⟨fun _ => nobody,
    ⟨⟨fun p s task => (by cases task), Crew.unused_fresh _, fun p => rfl, fun p there =>
    (by cases there rfl),
    ⟨fun c member => (by cases member), List.nodup_nil⟩, fun key held known => (by cases known),
    fun p held holds => (by cases holds)⟩, fun p own => ?_, fun row found => (by cases found),
    fun _ c member => (by cases member),
    fun repository held known => (by cases known), fun p own live => ?_⟩⟩
  · obtain ⟨job, subject, -⟩ := own
    cases subject
  · obtain ⟨⟨call, next, task⟩, -⟩ := live
    cases task

theorem step_sole (h : ∃ told, Sole id name b told) {a : Move} (apart : Apart id name b a)
    (taken : b.step a = some c) :
    Moved id name b c := by
  obtain ⟨told, h⟩ := h
  have stays := stays_refl id name h.owned.numbered
  cases a with
  | queue op =>
    obtain rfl := Option.some.inj taken
    exact ⟨told, queue_sole h op, stays, .same⟩
  | publish p jobId name' =>
    obtain ⟨told', sole, same⟩ := publish_sole h taken
    rw [Moved, same]
    exact ⟨told', sole, stays, .same⟩
  | turn p answer =>
    by_cases own : b.Publishes id name p
    · exact turn_own h apart own taken
    · exact turn_other h own taken
  | foreign repository sha payload =>
    obtain rfl := Option.some.inj taken
    exact foreign_sole h (apart.foreign repository sha payload rfl)
  | lose number =>
    obtain rfl := Option.some.inj taken
    exact lose_sole h (apart.lost number rfl)
  | restart =>
    obtain ⟨told', sole, same⟩ := restart_sole h taken
    rw [Moved, same]
    exact ⟨told', sole, stays, .same⟩

theorem run_sole {actions : List Move} (apart : Along step (Apart id name) b actions)
    (h : ∃ told, Sole id name b told)
    (ran : run step b actions = some c) : ∃ told, Sole id name c told := by
  refine along_invariant (P := fun x => ∃ told, Sole id name x told)
    (fun x a y sole apart taken => ?_) apart h ran
  obtain ⟨told, moved, -⟩ := step_sole sole apart taken
  exact ⟨told, moved⟩

theorem sole_one (h : Sole id name b told) :
    (b.checks.filter fun c => IsFor id name c).length ≤ 1 ∧ ∀ c ∈ b.checks, IsFor id name c →
    c.annotations ≤ 1 := by
  cases found : b.queue.row? id with
  | none =>
    have none_ := h.unopened found
    refine ⟨?_, fun c member mine => absurd mine (none_ c member)⟩
    rw [List.filter_eq_nil_iff.mpr fun c member => by simpa using none_ c member]
    exact Nat.zero_le _
  | some row =>
    have kept := h.kept row found
    refine ⟨?_, fun c member mine => (kept.counted c member mine).1⟩
    have nodup : (b.checks.filter fun c => IsFor id name c).Nodup :=
      h.owned.numbered.nodup.of_map.filter _
    have same {c c' : CheckRun} (member : c ∈ b.checks.filter fun c => IsFor id name c)
        (member' : c' ∈ b.checks.filter fun c => IsFor id name c) : c = c' := by
      obtain ⟨inside, mine⟩ := List.mem_filter.mp member
      obtain ⟨inside', mine'⟩ := List.mem_filter.mp member'
      exact kept.one c inside c' inside' (of_decide_eq_true mine) (of_decide_eq_true mine')
    cases list : b.checks.filter fun c => IsFor id name c with
    | nil => exact Nat.zero_le _
    | cons c rest =>
      cases rest with
      | nil => exact le_refl _
      | cons c' rest =>
        rw [list] at nodup same
        exact absurd (same List.mem_cons_self (List.mem_cons_of_mem _ List.mem_cons_self))
          (fun equal => (List.nodup_cons.mp nodup).1 (equal ▸ List.mem_cons_self))

/-! ### Runs that can be checked -/

def underWay (b : Board) (id name : String) (p : Nat) : Bool :=
  (b.subject p).any (fun s => s.1.id = id && s.2 = name) &&
    match b.crew.task p with
    | some (.ask ..) => b.crew.made p ≠ []
    | _ => false

/-- Nobody below the bound is under way with the check, one thread apart. -/
def quiet (b : Board) (id name : String) (bound : Nat) (but : Option Nat) : Bool :=
  (List.range bound).all fun q => but = some q || !b.underWay id name q

/-- `Apart`, where all threads are below a bound. -/
def apartBelow (id name : String) (bound : Nat) (b : Board) : Move → Bool
  | .turn p answer => answer ≠ .lost && b.quiet id name bound (some p)
  | .publish p _ _ => p < bound
  | .foreign _ _ payload => payload.externalId ≠ id
  | .lose _ => b.quiet id name bound none
  | .queue _ | .restart => true

def alongApart (id name : String) (bound : Nat) : Board → List Move → Bool
  | _, [] => true
  | b, a :: rest => b.apartBelow id name bound a && (b.step a).all fun c => alongApart id name bound
      c rest

theorem quiet_apart {bound : Nat} {but : Option Nat} (below : ∀ q, bound ≤ q → b.subject q = none)
    (quiet : b.quiet id name bound but = true) (own : b.Publishes id name p)
    (other : but ≠ some p) : ¬b.Begun p := by
  rintro ⟨⟨call, next, task⟩, made⟩
  obtain ⟨job, subject, rfl⟩ := own
  have inside : p < bound := by
    by_contra beyond
    rw [below p (Nat.not_lt.mp beyond)] at subject
    cases subject
  have at_ := List.all_eq_true.mp quiet p (List.mem_range.mpr inside)
  simp [underWay, subject, task, made, other] at at_

theorem apart_of_below {bound : Nat} {a : Move} (below : ∀ q, bound ≤ q → b.subject q = none)
    (check : b.apartBelow id name bound a = true) : Apart id name b a := by
  cases a with
  | turn p answer =>
    obtain ⟨heard, quiet⟩ := (Bool.and_eq_true ..).mp check
    refine ⟨fun p' answer' same own q other busy => ?_, fun p' call next same => ?_, by simp, by simp⟩
    · obtain ⟨rfl, rfl⟩ := Move.turn.inj same
      exact quiet_apart below quiet busy (by simpa using Ne.symm other)
    · obtain ⟨rfl, rfl⟩ := Move.turn.inj same
      simp at heard
  | foreign repository sha payload =>
    refine ⟨by simp, by simp, fun repository' sha' payload' same => ?_, by simp⟩
    obtain ⟨rfl, rfl, rfl⟩ := Move.foreign.inj same
    exact of_decide_eq_true check
  | lose number =>
    refine ⟨by simp, by simp, by simp, fun number' _ q own => quiet_apart below check own (by simp)⟩
  | queue op => exact ⟨by simp, by simp, by simp, by simp⟩
  | publish p jobId name' => exact ⟨by simp, by simp, by simp, by simp⟩
  | restart => exact ⟨by simp, by simp, by simp, by simp⟩

theorem step_below {bound : Nat} {a : Move} (below : ∀ q, bound ≤ q → b.subject q = none)
    (check : b.apartBelow id name bound a = true) (taken : b.step a = some c) :
    ∀ q, bound ≤ q → c.subject q = none := by
  cases a with
  | publish p jobId name' =>
    simp only [step] at taken
    split at taken
    · cases taken
    obtain ⟨crew, -, rfl⟩ := Option.map_eq_some_iff.mp taken
    intro q beyond
    have apart : q ≠ p := fun same => absurd (of_decide_eq_true check) (Nat.not_lt.mpr (same ▸ beyond))
    simp only [Function.update_of_ne apart]
    exact below q beyond
  | turn p answer =>
    obtain ⟨crew, -, rfl⟩ := Option.map_eq_some_iff.mp taken
    exact below
  | queue | foreign | lose | restart =>
    obtain rfl := Option.some.inj taken
    exact below

theorem along_apart {bound : Nat} {actions : List Move} (below : ∀ q, bound ≤ q → b.subject q = none)
    (check : alongApart id name bound b actions = true) : Along step (Apart id name) b actions := by
  induction actions generalizing b with
  | nil => trivial
  | cons a rest ih =>
    obtain ⟨first, later⟩ := (Bool.and_eq_true ..).mp check
    refine ⟨apart_of_below below first, fun c taken => ih (step_below below first taken) ?_⟩
    rw [taken] at later
    exact later

/-- However GitHub answers the publishes of a job and whenever the broker restarts, there is one
check of the job at most, and no check is given its annotations twice. -/
theorem one_check_per_run {actions : List Move} (apart : Along step (Apart id name) start actions)
    (h : run step start actions = some b) :
    (b.checks.filter fun c => IsFor id name c).length ≤ 1 ∧ ∀ c ∈ b.checks, IsFor id name c →
    c.annotations ≤ 1 := by
  obtain ⟨told, sole⟩ := run_sole apart (start_sole id name) h
  exact sole_one sole

/-- A run fails, the broker restarts, and its check is published once more, after GitHub has said it
is gone. -/
def restartedRun : List Move :=
  [.queue (.enqueue { repository := "acme/app", sha := "c0ffee", ref := "main" } "job" 0),
    .publish 0 "job" defaultCheckName] ++
    List.replicate 4 (.turn 0 .accepted) ++
    [.queue (.claim "mini" [] 300 0 none), .queue (.report "job" "mini" { exitCode := some 1 } 60),
      .restart,
      .publish 1 "job" defaultCheckName] ++
    List.replicate 5 (.turn 1 .accepted) ++ [.publish 2 "job" defaultCheckName, .turn 2 .accepted,
    .turn 2 (.refused (some 404))] ++
    List.replicate 6 (.turn 2 .accepted)

theorem restartedRun_one : ∃ b, run step start restartedRun = some b ∧
    (b.checks.filter fun c => IsFor "job" defaultCheckName c).length ≤ 1 ∧
      ∀ c ∈ b.checks, IsFor "job" defaultCheckName c → c.annotations ≤ 1 := by
  obtain ⟨b, ran⟩ := Option.isSome_iff_exists.mp
    (show (run step start restartedRun).isSome by decide +kernel)
  have apart : alongApart "job" defaultCheckName 3 start restartedRun = true := by decide +kernel
  exact ⟨b, ran, one_check_per_run (along_apart (fun _ _ => rfl) apart) ran⟩

/-- The check under this number is finished, with this conclusion, if it is still there. -/
structure Closed (id name : String) (number : Nat) (conclusion : Option Conclusion) (g : GitHub) :
    Prop where
  used : number < g.next
  closed : ∀ c ∈ g.checks, c.number = number → IsFor id name c ∧ c.status = .completed ∧
    c.conclusion = conclusion

theorem moved_closed {number : Nat} {conclusion : Option Conclusion} (moved : Moved id name b c)
    (h : Closed id name number conclusion b.desk.github) :
    Closed id name number conclusion c.desk.github := by
  obtain ⟨-, -, stays, changed⟩ := moved
  refine ⟨h.used.trans_le (changed_next changed), fun x member same => ?_⟩
  obtain ⟨before, inside, number_⟩ := changed_origin changed member (same ▸ h.used)
  obtain ⟨mine, finished, concluded⟩ := h.closed before inside (number_.trans same)
  obtain ⟨mine', finished', concluded'⟩ := stays before inside mine finished x member number_.symm
  exact ⟨mine', finished', concluded'.trans concluded⟩

/-- As long as its publishes do not overlap and GitHub answers the write that finishes it, a
finished check of a job stays finished, with its conclusion. -/
theorem completed_check_stays {before after : List Move}
    (apart : Along step (Apart id name) start (before ++ after))
    (h : run step start before = some b) (h' : run step b after = some c) :
    ∀ x ∈ b.checks, IsFor id name x → x.status = .completed →
      ∀ y ∈ c.checks, y.number = x.number → y.status = .completed ∧ y.conclusion = x.conclusion := by
  intro x member mine finished y member' same
  obtain ⟨first, second⟩ := along_split apart h
  have sole := run_sole first (start_sole id name) h
  have closed : Closed id name x.number x.conclusion b.desk.github := by
    obtain ⟨told, sole⟩ := sole
    refine ⟨sole.owned.numbered.used x member, fun z inside number => ?_⟩
    rw [sole.owned.numbered.distinct z inside x member number]
    exact ⟨mine, finished, rfl⟩
  have last := along_invariant (P := fun z => (∃ told, Sole id name z told) ∧
    Closed id name x.number x.conclusion z.desk.github)
    (fun s a t holds apart taken => by
      have moved := step_sole holds.1 apart taken
      exact ⟨moved.imp fun _ sole => sole.1, moved_closed moved holds.2⟩) second ⟨sole, closed⟩ h'
  exact (last.2.closed y member' same).2

def republished : List Move := .publish 3 "job" defaultCheckName :: List.replicate 3 (.turn 3 .accepted)

theorem restartedRun_stays : ∃ b c, run step start restartedRun = some b ∧
    run step b republished = some c ∧
    ∀ x ∈ b.checks, IsFor "job" defaultCheckName x → x.status = .completed →
      ∀ y ∈ c.checks, y.number = x.number → y.status = .completed ∧ y.conclusion = x.conclusion := by
  obtain ⟨c, ran⟩ := Option.isSome_iff_exists.mp
    (show (run step start (restartedRun ++ republished)).isSome by decide +kernel)
  obtain ⟨b, first, second⟩ := run_split ran
  have apart : alongApart "job" defaultCheckName 4 start (restartedRun ++ republished) = true := by
    decide +kernel
  exact ⟨b, c, first, second, completed_check_stays (along_apart (fun _ _ => rfl) apart) first second⟩

/-- A check is opened for a run that is then lost and claimed again, and a drain looks the check up
to publish the loss. -/
def lostRun : List Move :=
  [.queue (.enqueue { repository := "acme/app", sha := "c0ffee", ref := "main" } "job" 0),
    .publish 0 "job" defaultCheckName] ++
    List.replicate 4 (.turn 0 .accepted) ++
    [.queue (.claim "mini" [] 300 0 none), .queue (.reclaimExpired 400 none),
      .publish 1 "job" defaultCheckName,
      .turn 1 .accepted]

def passed : List Move :=
  [.queue (.claim "mini" [] 300 500 none), .queue (.report "job" "mini" { exitCode := some 0 } 510),
    .publish 2 "job" defaultCheckName] ++ List.replicate 3 (.turn 2 .accepted)

theorem passed_checks : (run step start (lostRun ++ passed)).map checks =
    some [⟨0, "acme/app", "c0ffee", defaultCheckName, "job", .completed, some .success, 0⟩] := by
  decide +kernel

theorem drained_checks : (run step start ((lostRun ++ passed) ++ [.turn 1 .accepted])).map checks =
    some [⟨0, "acme/app", "c0ffee", defaultCheckName, "job", .queued, none, 0⟩] := by
  decide +kernel

/-- The drain's update, sent last, reopens the check. -/
theorem completed_check_reopened :
    ¬∀ id name before after b c, run step start before = some b → run step b after = some c →
      ∀ x ∈ b.checks, IsFor id name x → x.status = .completed →
        ∀ y ∈ c.checks, y.number = x.number → y.status = .completed ∧ y.conclusion = x.conclusion := by
  intro always
  obtain ⟨c, ran, reopened⟩ := Option.map_eq_some_iff.mp drained_checks
  obtain ⟨b, first, second⟩ := run_split ran
  obtain ⟨b', first', finished⟩ := Option.map_eq_some_iff.mp passed_checks
  obtain rfl := Option.some.inj (first.symm.trans first')
  have stays := always "job" defaultCheckName _ _ b c first second
  rw [finished, reopened] at stays
  obtain ⟨status, -⟩ := stays _ (List.mem_singleton_self _) ⟨rfl, rfl⟩ rfl _
    (List.mem_singleton_self _) rfl
  cases status

end Board
end Cindral.Check
