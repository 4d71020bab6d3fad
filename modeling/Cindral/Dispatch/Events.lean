import Cindral.Base.Json
import Cindral.Base.Text

/-! The push and pull request events a webhook carries, read from the decoded body, and the trust rule on them. -/

namespace Cindral.Dispatch
open Base

/-- The text a `WebhookError` refuses a body with. -/
abbrev WebhookError := String

structure PushEvent where
  repository : String
  isPrivate : Bool
  ref : String
  after : String
  defaultBranch : String
  deriving DecidableEq, Repr

/-- A tag has no branch. -/
def PushEvent.branch (e : PushEvent) : String :=
  match afterPrefix? "refs/heads/" e.ref.toList with
  | some name => .ofList name
  | none => ""

structure PullRequestEvent where
  repository : String
  isPrivate : Bool
  defaultBranch : String
  number : Nat
  action : String
  authorAssociation : String
  headRepo : String := ""
  headSha : String := ""
  mergeSha : String := ""
  draft : Bool := false
  author : String := ""
  authorType : String := ""
  deriving DecidableEq, Repr

/-- GitHub's answer that there is no such commit: zeros. -/
def isPlaceholderSha (sha : String) : Bool := sha ≠ "" && sha.toList.all (· = '0')

namespace PullRequestEvent
variable (e : PullRequestEvent)

def ref : String := s!"refs/pull/{e.number}/merge"

def sameRepo : Bool := e.headRepo ≠ "" && e.headRepo = e.repository

def botAuthored : Bool := e.authorType = "Bot" || hasSuffix e.author "[bot]"

/-- Provenance gates the rest: an association speaks of the base repository alone. -/
def trusted : Bool :=
  e.sameRepo && (["OWNER", "MEMBER", "COLLABORATOR"].contains e.authorAssociation || e.botAuthored)

def hostedReason : String :=
  if !e.sameRepo then "the head repository is not this repository, so hosted execution is required"
  else "the author may not run code on local hardware, so hosted execution is required"

def shouldRoute : Bool := ["opened", "reopened", "synchronize", "ready_for_review"].contains e.action

def runSha : String := if e.mergeSha ≠ "" && !isPlaceholderSha e.mergeSha then e.mergeSha else e.headSha

def statusSha : String := if e.headSha ≠ "" then e.headSha else e.runSha

def directEligible : Bool := e.shouldRoute && e.sameRepo && e.trusted && !e.draft && e.runSha ≠ ""

end PullRequestEvent

/-- `repository.full_name` and `repository.default_branch`, which both events must name. -/
def parseRepository (payload : Option Json) : Except WebhookError (Json × String × String) :=
  match payload with
  | none => .error "body is not valid JSON"
  | some body =>
    if !body.isObj then .error "body is not a JSON object"
    else match (body.get "repository").get "full_name", (body.get "repository").get "default_branch" with
      | .str fullName, .str defaultBranch =>
        if defaultBranch = "" then .error "payload has no repository.default_branch"
        else .ok (body, fullName, defaultBranch)
      | .str _, _ => .error "payload has no repository.default_branch"
      | _, _ => .error "payload has no repository.full_name"

def parsePushEvent (payload : Option Json) : Except WebhookError PushEvent :=
  match parseRepository payload with
  | .error text => .error text
  | .ok (body, fullName, defaultBranch) =>
    match body.get "ref", body.get "after" with
    | .str ref, .str after =>
      match body.get "deleted" with
      | .bool true => .error "ref was deleted"
      | _ => .ok
        { repository := fullName, isPrivate := ((body.get "repository").get "private").truthy,
            ref := ref, after := after
          defaultBranch := defaultBranch }
    | _, _ => .error "payload has no ref or after"

/-- A string field, or the empty text for any other value. -/
def textOf (value : Json) : String := value.asStr?.getD ""

def parsePullRequestEvent (payload : Option Json) : Except WebhookError PullRequestEvent :=
  match parseRepository payload with
  | .error text => .error text
  | .ok (body, fullName, defaultBranch) =>
    let pullRequest := body.get "pull_request"
    if !pullRequest.isObj then .error "payload has no pull_request"
    else match body.get "number" with
      | .int number =>
        if number ≤ 0 then .error "payload has an invalid pull request number"
        else match body.get "action", pullRequest.get "author_association" with
          | .str action, .str authorAssociation =>
            let head := pullRequest.get "head"
            let mergeSha := textOf (pullRequest.get "merge_commit_sha")
            let user := pullRequest.get "user"
            .ok { repository := fullName, isPrivate := ((body.get "repository").get "private").truthy
                  defaultBranch := defaultBranch, number := number.toNat, action := action
                  authorAssociation := authorAssociation
                  headRepo := textOf ((head.get "repo").get "full_name"), headSha :=
                  textOf (head.get "sha")
                  mergeSha := if isPlaceholderSha mergeSha then "" else mergeSha
                  draft := (pullRequest.get "draft").truthy
                  author := textOf (user.get "login"), authorType := textOf (user.get "type") }
          | _, _ => .error "payload has no pull request action or author association"
      | _ => .error "payload has an invalid pull request number"

/-- A full git object name. -/
def namesACommit (sha : String) : Bool :=
  !isPlaceholderSha sha && sha.length = 40 && (lower sha).toList.all isLowerHex

/-- The commit to build: the event's merge when its parents include the head, and the head otherwise. -/
def runShaForPullRequest (headSha : String) (resolved : Option (String × List String)) : String :=
  match resolved with
  | none => headSha
  | some (sha, parents) => if !namesACommit sha || headSha ∉ parents then headSha else sha

end Cindral.Dispatch
