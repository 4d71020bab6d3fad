import Cindral.Queue.Frame

/-!
# One job for a delivery

The queue holds at most one job for a delivery id, and an enqueue that repeats the id is answered
with that job whatever it asks for.
-/

namespace Cindral.Queue
open Base

/-- The code a job runs is the code a request asks for. -/
structure Serves (job : Job) (req : EnqueueRequest) : Prop where
  repository : job.repository = req.repository
  sha : job.sha = req.sha
  head : headShaFor job.sha job.statusSha = headShaFor req.sha req.statusSha
  ref : job.ref = req.ref

/-- A request the queue turns down, whatever it holds. -/
def EnqueueRequest.Refused (req : EnqueueRequest) : Prop :=
  req.sha = "" ∨ Store.integer req.timeout = false ∨ req.delivery = some ""

/-- The columns of a row that its request filled and that nothing writes again. -/
structure Asked (r r' : Row) : Prop where
  repository : r'.repository = r.repository
  sha : r'.sha = r.sha
  statusSha : r'.statusSha = r.statusSha
  ref : r'.ref = r.ref
  delivery : r'.delivery = r.delivery

theorem step_asked {s : Store} {op : Store.Op} {r r' : Row} (step : RowStep s op r r') : Asked r r' := by
  cases step <;> exact ⟨rfl, rfl, rfl, rfl, rfl⟩

namespace Store
variable {s t : Store} {r : Row} {req : EnqueueRequest} {jobId delivery : String} {now : ℚ} {job : Job}

def OnePerDelivery (s : Store) : Prop :=
  ∀ a ∈ s.jobs.rows, ∀ b ∈ s.jobs.rows, a.delivery.isSome → a.delivery = b.delivery → a = b

theorem byDelivery?_some (h : s.byDelivery? delivery = some r) :
    r ∈ s.jobs.rows ∧ r.delivery = some delivery :=
  ⟨List.mem_of_find?_eq_some h, by simpa using List.find?_some h⟩

theorem byDelivery?_of_mem (single : s.OnePerDelivery) (member : r ∈ s.jobs.rows)
    (used : r.delivery = some delivery) :
    s.byDelivery? delivery = some r := by
  cases found : s.byDelivery? delivery with
  | none => exact absurd (decide_eq_true used) (List.find?_eq_none.mp found r member)
  | some x =>
    obtain ⟨there, same⟩ := byDelivery?_some found
    rw [single x there r member (by rw [same]; rfl) (same.trans used.symm)]

/-- An insert goes through only under a delivery that no row has. -/
theorem insertJob?_unused {row x : Row} (h : s.insertJob? row = some t) (member : x ∈ s.jobs.rows)
    (asked : row.delivery = some delivery) : x.delivery ≠ some delivery := by
  intro used
  unfold insertJob? at h
  split at h
  · cases h
  · rename_i free
    rw [asked, Option.bind_some, Option.not_isSome_iff_eq_none] at free
    exact List.find?_eq_none.mp free x member (decide_eq_true used)

theorem enqueue_inserted (h : s.enqueue req jobId now = .ok (job, t)) :
    s.insertJob? (req.row jobId now) = some t ∨ t = s := by
  unfold enqueue at h
  split at h
  · cases h
  split at h
  · cases h
  split at h
  · rename_i inserted
    obtain ⟨-, rfl⟩ := Prod.mk.inj (Except.ok.inj h)
    exact Or.inl inserted
  · split at h
    · cases h
    split at h
    · cases h
    split at h
    · obtain ⟨-, rfl⟩ := Prod.mk.inj (Except.ok.inj h)
      exact Or.inr rfl
    · cases h

/-- An enqueue that adds a row does so under a delivery of its own. -/
theorem enqueue_unused (rows : (s.apply (.enqueue req jobId now)).jobs.rows = s.jobs.rows ++
    [req.row jobId now]) :
    ∀ x ∈ s.jobs.rows, (req.row jobId now).delivery.isSome →
    x.delivery ≠ (req.row jobId now).delivery := by
  have grown : ∀ u : Store, u = s → u.jobs.rows ≠ s.jobs.rows ++ [req.row jobId now] := by
    rintro u rfl same
    exact absurd (congrArg List.length same) (by simp)
  intro x member some_ same
  obtain ⟨delivery, asked⟩ := Option.isSome_iff_exists.mp some_
  rcases kept_cases (s := s) (s.enqueue req jobId now) with kept | ⟨job, t, done, kept⟩
  · exact grown _ (by rw [apply, kept]) rows
  · rcases enqueue_inserted done with inserted | rfl
    · exact insertJob?_unused inserted member asked (same.trans asked)
    · exact grown _ (by rw [apply, kept]) rows

theorem apply_onePerDelivery (op : Op) (single : s.OnePerDelivery) : (s.apply op).OnePerDelivery := by
  rcases apply_rows s op with ⟨req, jobId, now, rfl, -, rows⟩ | ⟨e, rows, each⟩
  · have free := enqueue_unused rows
    intro a ha b hb some_ same
    rw [rows] at ha hb
    rcases List.mem_append.mp ha with ha | ha <;> rcases List.mem_append.mp hb with hb | hb
    · exact single a ha b hb some_ same
    · obtain rfl := List.mem_singleton.mp hb
      exact absurd same (free a ha (same ▸ some_))
    · obtain rfl := List.mem_singleton.mp ha
      exact absurd same.symm (free b hb some_)
    · rw [List.mem_singleton.mp ha, List.mem_singleton.mp hb]
  · intro a ha b hb some_ same
    rw [rows] at ha hb
    obtain ⟨x, hx, rfl⟩ := List.mem_map.mp ha
    obtain ⟨y, hy, rfl⟩ := List.mem_map.mp hb
    rw [(step_asked (each x hx)).delivery] at some_ same
    rw [(step_asked (each y hy)).delivery] at same
    rw [single x hx y hy some_ same]

theorem runs_onePerDelivery (ops : List Op) (single : s.OnePerDelivery) :
    (ops.foldl apply s).OnePerDelivery := by
  induction ops generalizing s with
  | nil => exact single
  | cons op rest ih => exact ih (apply_onePerDelivery op single)

/-- What an enqueue under a used delivery is answered with, where it is answered. -/
theorem enqueue_used (jobId : String) (now : ℚ) (found : s.byDelivery? delivery = some r)
    (asked : req.delivery = some delivery) :
    req.Refused ∧ (∃ e, s.enqueue req jobId now = .error e) ∨ ¬ req.Refused ∧
    s.enqueue req jobId now = .ok (r.job, s) := by
  have taken : s.insertJob? (req.row jobId now) = none := by
    have held : ((req.row jobId now).delivery.bind s.byDelivery?).isSome := by
      change (req.delivery.bind s.byDelivery?).isSome
      rw [asked, Option.bind_some, found]
      rfl
    rw [insertJob?, if_pos held]
  unfold enqueue
  rw [taken, asked]
  by_cases blank : req.sha = ""
  · exact Or.inl ⟨Or.inl blank, by rw [if_pos blank]; exact ⟨_, rfl⟩⟩
  rw [if_neg blank]
  by_cases fits : integer req.timeout = true
  · rw [fits]
    by_cases empty : delivery = ""
    · refine Or.inl ⟨Or.inr (Or.inr (by rw [asked, empty])), ?_⟩
      simp only [empty, Bool.not_true, Bool.false_eq_true, if_false, if_true]
      exact ⟨_, rfl⟩
    · refine Or.inr ⟨?_, by simp only [empty, found, Bool.not_true, Bool.false_eq_true, if_false]⟩
      rintro (none | unfit | unnamed)
      · exact blank none
      · rw [fits] at unfit
        cases unfit
      · exact empty (Option.some.inj (asked.symm.trans unnamed))
  · have unfit : integer req.timeout = false := Bool.eq_false_iff.mpr fits
    exact Or.inl ⟨Or.inr (Or.inl unfit), by rw [unfit]; exact ⟨_, rfl⟩⟩

/-- An enqueue under a used delivery gets a job for the code it asks for, or is refused, exactly
when the job that has the delivery runs that code or the request is one the queue turns down. -/
theorem enqueue_reused (ops : List Op) {row : Row} (member : row ∈ (ops.foldl apply empty).jobs.rows)
    (used : row.delivery = some delivery) (asked : req.delivery = some delivery) :
    (∀ jobId now job t, (ops.foldl apply empty).enqueue req jobId now = .ok (job, t) → Serves job req) ↔
      Serves row.job req ∨ req.Refused := by
  have single : (ops.foldl apply empty).OnePerDelivery :=
    runs_onePerDelivery ops fun a member => absurd member List.not_mem_nil
  have found := byDelivery?_of_mem single member used
  constructor
  · intro serves
    rcases enqueue_used "" 0 found asked with ⟨refused, -⟩ | ⟨-, answered⟩
    · exact Or.inr refused
    · exact Or.inl (serves "" 0 row.job _ answered)
  · intro either jobId now job t answered
    rcases enqueue_used jobId now found asked with ⟨-, e, refused⟩ | ⟨accepted, held⟩
    · rw [refused] at answered
      cases answered
    · obtain ⟨rfl, -⟩ := Prod.mk.inj (Except.ok.inj (held.symm.trans answered))
      exact either.resolve_right accepted

def firstRequest : EnqueueRequest :=
  { repository := "acme/app", sha := "c0ffee", ref := "main", delivery := some "delivery" }

def otherRequest : EnqueueRequest :=
  { repository := "acme/other", sha := "decade", ref := "main", delivery := some "delivery" }

theorem firstRequest_again : ∃ job t, ([Op.enqueue firstRequest "job" 0].foldl apply empty).enqueue
    firstRequest "next" 1 =
    .ok (job, t) ∧ Serves job firstRequest := by
  have member : firstRequest.row "job" 0 ∈
      ([Op.enqueue firstRequest "job" 0].foldl apply empty).jobs.rows :=
    List.mem_singleton_self _
  have again : ([Op.enqueue firstRequest "job" 0].foldl apply empty).enqueue firstRequest "next" 1 =
      .ok ((firstRequest.row "job" 0).job, [Op.enqueue firstRequest "job" 0].foldl apply empty) := by rfl
  have serves := (enqueue_reused [.enqueue firstRequest "job" 0] member rfl rfl).mpr
    (Or.inl ⟨rfl, rfl, rfl, rfl⟩)
  exact ⟨_, _, again, serves "next" 1 _ _ again⟩

/-- The other repository is answered with the first one's job. -/
theorem otherRequest_answered :
    ∃ job t, ([Op.enqueue firstRequest "job" 0].foldl apply empty).enqueue otherRequest "next" 1 =
    .ok (job, t) ∧ job.repository = "acme/app" ∧ job.sha = "c0ffee" ∧ ¬ Serves job otherRequest := by
  refine ⟨(firstRequest.row "job" 0).job, [Op.enqueue firstRequest "job" 0].foldl
    apply empty, by rfl, rfl, rfl, fun serves => ?_⟩
  exact absurd serves.repository (by decide)

end Store
end Cindral.Queue
