import Cindral.Actions.Resolution
import Cindral.Base.JsonText
import Cindral.Base.Shell
import Cindral.Device.Steps

/-!
# The engine's contract

A job that has no translation runs under act: one step, whose script prints what will run, writes
the event, and becomes act. Whatever the workflow writes into it, a shell reads it as those four
commands.
-/

namespace Cindral.Actions
open Cindral.Base Cindral.Workflow
open Device (shlexQuote)

def actVersion : String := "0.2.89"
def actImage : String := s!"cindral-act:{actVersion}"
def actBinary : String := "/usr/local/bin/act"
def eventPath : String := "/workspace/cindral-act-event.json"

def jobNetwork (jobId : String) : String := s!"cindral-{jobId}"

/-- `container_workflow_path`, of a path in the checkout. -/
def containerWorkflowPath (path : String) : String := s!"{containerRepo}/{path}"

/-- `sorted` of the items of a mapping, by their keys. -/
def sortedItems {α : Type} (items : List (String × α)) : List (String × α) :=
  items.mergeSort fun a b => a.1 ≤ b.1

mutual

/-- A value with its keys in order, as `sort_keys=True` writes it. -/
def sortKeys : Json → Json
  | .arr items => .arr (sortItems items)
  | .obj fields => .obj (sortedItems (sortFields fields))
  | value => value

def sortItems : List Json → List Json
  | [] => []
  | item :: items => sortKeys item :: sortItems items

def sortFields : List (String × Json) → List (String × Json)
  | [] => []
  | (key, value) :: fields => (key, sortKeys value) :: sortFields fields

end

/-- A workflow job, resolved against the checkout that is there. -/
structure ActJob where
  workflowPath : String
  workflowName : String
  jobId : String
  eventName : String
  event : Json
  reason : String
  platforms : List (String × String)
  steps : List Fields := []
  env : List (String × String) := []
  network : Option String := none
  timeoutMinutes : Option Int := none

section
variable (python : Python) (float : ℚ → List Char) (request : ActJob)

/-- `build_act_command`, as `act_contract` calls it. -/
def buildActCommand : List String :=
  [actBinary, request.eventName, "-W", containerWorkflowPath request.workflowPath, "-C",
    containerRepo, "-j", request.jobId] ++
    ["--eventpath", eventPath] ++ ["--bind=false"] ++ ["--container-daemon-socket", "-"] ++
    ((request.network.filter (· ≠ "")).elim [] fun network => ["--network", network]) ++
    (sortedItems request.platforms).flatMap (fun (label, image) => ["-P", s!"{label}={image}"]) ++
    (sortedItems request.env).flatMap fun (key, value) => ["--env", s!"{key}={value}"]

def actionReferences (steps : List Fields) : List String :=
  steps.filterMap fun step => match getOr step "uses" .null with
    | .null => none
    | uses => some (strip (uses.asStr?.getD (python.str uses)))

def echo (message : String) : String := s!"printf '%s\\n' {shlexQuote message}"

def banner : String :=
  s!"cindral: act {actVersion} ({actImage}) runs job '{request.jobId}' of {request.workflowName}: {request.reason}"

def actionsNote : String :=
  let references := actionReferences python request.steps
  let shown := if references = [] then "none" else ", ".intercalate references
  s!"cindral: act actions: {shown}"

def eventText : String := .ofList (Json.dumps float (sortKeys request.event))

def actScript : String :=
  "\n".intercalate [
    echo (banner request),
    echo (actionsNote python request),
    s!"printf '%s' {shlexQuote (eventText float request)} > {shlexQuote eventPath}",
    "exec " ++ " ".intercalate ((buildActCommand request).map shlexQuote)]

def actContract : Contract :=
  { steps := [actScript python float request], image := some actImage,
      timeoutMinutes := request.timeoutMinutes, docker := true }

end

/-! ## What a shell makes of the script -/

section
open Shell

/-- A text in quotes is that text. -/
theorem spells_shlexQuote (text : String) : Spells (shlexQuote text).toList text.toList := by
  unfold shlexQuote
  split
  · rename_i empty
    subst empty
    exact spells_quoted []
  · rename_i some_
    split
    · rename_i safe
      refine spells_literals ?_ safe
      rwa [ne_eq, String.toList_eq_nil_iff]
    · rw [String.toList_ofList]
      exact spells_quoted text.toList

theorem spells_printf : Spells "printf".toList "printf".toList := spells_literals (by decide) (by decide)

theorem reads_echo (message : String) :
    Reads (echo message).toList [.word "printf".toList, .word "%s\\n".toList, .word message.toList] := by
  have format : Spells "'%s\\n'".toList "%s\\n".toList := spells_quoted "%s\\n".toList
  have line := ((reads_word (spells_shlexQuote message)).cons format).cons spells_printf
  have spelled : (echo message).toList = "printf".toList ++ ' ' ::
      ("'%s\\n'".toList ++ ' ' :: (shlexQuote message).toList) := by
    change ("printf '%s\\n' " ++ shlexQuote message).toList = _
    rw [String.toList_append]
    rfl
  rw [spelled]
  exact line

theorem reads_write (text path : String) :
    Reads s!"printf '%s' {shlexQuote text} > {shlexQuote path}".toList
    [.word "printf".toList, .word "%s".toList, .word text.toList, .into, .word path.toList] := by
  have format : Spells "'%s'".toList "%s".toList := spells_quoted "%s".toList
  have line := (((reads_word (spells_shlexQuote path)).into.cons (spells_shlexQuote text)).cons
    format).cons spells_printf
  have spelled : s!"printf '%s' {shlexQuote text} > {shlexQuote path}".toList =
      "printf".toList ++ ' ' ::
      ("'%s'".toList ++ ' ' ::
      ((shlexQuote text).toList ++ ' ' :: '>' :: ' ' :: (shlexQuote path).toList)) := by
    change ("printf '%s' " ++ shlexQuote text ++ " > " ++ shlexQuote path).toList = _
    rw [String.toList_append, String.toList_append, String.toList_append]
    simp
  rw [spelled]
  exact line

theorem reads_exec {argv : List String} (some_ : argv ≠ []) :
    Reads ("exec " ++ " ".intercalate (argv.map shlexQuote)).toList
    (.word "exec".toList :: argv.map fun word => .word word.toList) := by
  have exec : Spells "exec".toList "exec".toList := spells_literals (by decide) (by decide)
  have words : Reads ([' '].intercalate (argv.map fun word => (shlexQuote word).toList))
      (argv.map fun word => .word word.toList) := by
    have every : ∀ word ∈ argv.map (fun word => ((shlexQuote word).toList, word.toList)),
        Spells word.1 word.2 := by
      intro word member
      obtain ⟨text, -, rfl⟩ := List.mem_map.mp member
      exact spells_shlexQuote text
    have joined := reads_words (fun none_ => some_ (List.map_eq_nil_iff.mp none_)) every
    rw [List.map_map, List.map_map] at joined
    exact joined
  have spelled : ("exec " ++ " ".intercalate (argv.map shlexQuote)).toList =
      "exec".toList ++ ' ' :: [' '].intercalate (argv.map fun word => (shlexQuote word).toList) := by
    rw [String.toList_append, String.toList_intercalate, List.map_map]
    rfl
  rw [spelled]
  exact words.cons exec

theorem commands_four {a b c d : List Char} {first second third fourth : List Shell.Token}
    (one : Reads a first) (two : Reads b second)
    (three : Reads c third) (four : Reads d fourth) :
    commands (['\n'].intercalate [a, b, c, d]) = some [first, second, third, fourth] := by
  have every : ∀ line ∈ [(a, first), (b, second), (c, third), (d, fourth)], Reads line.1 line.2 := by
    intro line member
    simp only [List.mem_cons, List.not_mem_nil, or_false] at member
    rcases member with rfl | rfl | rfl | rfl
    · exact one
    · exact two
    · exact three
    · exact four
  exact commands_lines (List.cons_ne_nil _ _) every

/-- Whatever the workflow, the event and the commit put into it, a shell reads the engine's step as
four commands: two that print what will run, one that writes the event, and act with the arguments
that the broker gave it. -/
theorem actContract_read (python : Python) (float : ℚ → List Char) (request : ActJob) :
    (actContract python float request).steps.map (fun step => commands step.toList) = [some [
      [.word "printf".toList, .word "%s\\n".toList, .word (banner request).toList],
      [.word "printf".toList, .word "%s\\n".toList, .word (actionsNote python request).toList],
      [.word "printf".toList, .word "%s".toList, .word (eventText float request).toList, .into,
      .word eventPath.toList],
      .word "exec".toList :: (buildActCommand request).map fun word => .word word.toList]] := by
  have execs : Reads ("exec " ++ " ".intercalate ((buildActCommand request).map shlexQuote)).toList _ :=
    reads_exec (List.cons_ne_nil _ _)
  have read := commands_four (reads_echo (banner request)) (reads_echo (actionsNote python request))
    (reads_write (eventText float request) eventPath) execs
  have spelled : (actScript python float request).toList = _ := String.toList_intercalate
  simp only [actContract, List.map_cons, List.map_nil, spelled]
  exact congrArg (fun answer => [answer]) read

end
end Cindral.Actions
