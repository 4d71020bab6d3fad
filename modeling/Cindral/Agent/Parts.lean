import Cindral.Agent.Api

/-!
# The parts of a handler

The parts that no device is named in and no device hears of, under any predicate that such calls have.
-/

namespace Cindral.Agent
open Base Script
open Queue (Job Owed Verdict)

/-- A call that is made in no device's name and tells a device nothing. -/
def Call.inward : Call → Prop
  | .recordHeartbeat _ | .claim _ _ _ _ | .renew _ _ _ | .settle _ _ _ | .put _ _ _ _ | .holdsLease
      _ _ | .send _ => False
  | _ => True

variable {δ : Type} {server : Server δ} {free : Call → Prop} (quiet : ∀ c, c.inward → free c)
include quiet

theorem only_inward {c : Call} (inward : c.inward) : (ask c).Only free := only_call (quiet c inward)

theorem only_discardArtifact (jobId : String) (digest : Option String) (createdAt : Option ℚ) :
    (discardArtifact jobId digest createdAt).Only free := by
  refine only_bind (only_attempt (only_inward quiet trivial)) fun outcome => ?_
  unfold orNothing
  split <;> trivial

theorem only_releaseExpired : releaseExpired.Only free :=
  only_bind (only_inward quiet trivial) fun _ => only_forEach fun _ _ =>
    only_bind (only_attempt (only_discardArtifact quiet _ _ _)) fun _ => trivial

theorem only_postStatus (job : Job) (status : Verdict) : (postStatus server job status).Only free := by
  unfold postStatus
  split
  · refine only_bind (only_attempt (only_inward quiet trivial)) fun outcome => ?_
    split <;> trivial
  · trivial

theorem only_postVerdict (job : Job) (status : Verdict) : (postVerdict server job status).Only free := by
  refine only_bind (only_postStatus quiet job status) fun failure => ?_
  split <;> trivial

theorem only_publishCheckRun (job : Job) : (publishCheckRun server job).Only free := by
  unfold publishCheckRun
  split
  · exact only_inward quiet trivial
  · trivial

theorem only_closeCheck (job : Job) : (closeCheck server job).Only free := by
  refine only_bind (only_publishCheckRun quiet job) fun published => ?_
  split <;> trivial

theorem only_postIfCurrent (owed : Owed) : (postIfCurrent server owed).Only free := by
  refine only_bind (only_inward quiet trivial) fun seq => ?_
  split
  · trivial
  · refine only_bind (only_attempt (only_postVerdict quiet _ _)) fun outcome => ?_
    split
    · trivial
    · exact only_bind (only_inward quiet trivial) fun _ => trivial

theorem only_drainOne (owed : Owed) : (drainOne server owed).Only free := by
  refine only_bind (only_attempt (only_bind (only_postIfCurrent quiet owed) fun posted => ?_))
    fun outcome => ?_
  · split
    · exact only_closeCheck quiet owed.job
    · trivial
  · split
    · trivial
    · exact only_bind (only_attempt (only_inward quiet trivial)) fun _ => trivial

theorem only_drainStatuses : (drainStatuses server).Only free :=
  only_bind (only_inward quiet trivial) fun _ => only_forEach fun owed _ => only_drainOne quiet owed

theorem only_artifactOf (job : Job) : (artifactOf job).Only free := by
  refine only_bind (only_attempt (only_inward quiet trivial)) fun outcome => ?_
  split <;> trivial

theorem only_withdraw (jobId : String) (record : Archive.Artifact) (created : Bool) :
    (withdraw jobId record created).Only free := by
  unfold withdraw
  split
  · exact only_discardArtifact quiet _ _ _
  · trivial

theorem only_evicted (jobId : String) (created : Bool) : (evicted jobId created).Only free := by
  unfold evicted
  split
  · exact only_bind (only_inward quiet trivial) fun _ => trivial
  · trivial

end Cindral.Agent
