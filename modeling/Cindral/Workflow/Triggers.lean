import Cindral.Base.Json
import Cindral.Base.Text
import Mathlib.Data.List.Infix

/-! Which events a workflow declares, and on which refs each of them fires. -/

namespace Cindral.Workflow
open Base

/-! ## Ref patterns -/

/-- A part of a pattern of `fnmatch`. A set is the pieces between the hyphens that make ranges. -/
inductive Glob where
  | star | any
  | set (chunks : List (List Char))
  | literal (c : Char)
  deriving DecidableEq, Repr

/-- What stands between the brackets, cut at each hyphen that makes a range: one with a character
before it that no range ends with, and a character after it. -/
def setChunks : Nat → List Char → List Char → List (List Char)
  | _, chunk, [] => [chunk.reverse]
  | skip, chunk, c :: rest =>
    if c = '-' ∧ skip = 0 then
      if rest = [] then [chunk.reverse ++ ['-']] else chunk.reverse :: setChunks 2 [] rest
    else setChunks (skip - 1) (c :: chunk) rest

/-- Two chunks around a range that runs backwards, joined without it. -/
def dropRange (chunk : List Char) : List (List Char) → List (List Char)
  | [] => [chunk]
  | next :: rest =>
    match chunk.getLast?, next.head? with
    | some low, some high => if high < low then (chunk.dropLast ++ next.tail) :: rest else chunk ::
        next :: rest
    | _, _ => chunk :: next :: rest

/-- The text between the brackets, and the pattern after them. A `]` that comes first closes nothing. -/
def bracketed (cs : List Char) : Option (List Char × List Char) :=
  let bang := cs.takeWhile (· = '!') |>.take 1
  let closing := (cs.drop bang.length).takeWhile (· = ']') |>.take 1
  let rest := cs.drop (bang.length + closing.length)
  match rest.dropWhile (· ≠ ']') with
  | [] => none
  | _ :: after => some (bang ++ closing ++ rest.takeWhile (· ≠ ']'), after)

/-- `fnmatch.translate`, with as many turns as the pattern has characters. -/
def globs : Nat → List Char → List Glob
  | _, [] => []
  | 0, _ => []
  | turns + 1, c :: rest =>
    if c = '*' then .star :: globs turns rest
    else if c = '?' then .any :: globs turns rest
    else if c = '[' then
      match bracketed rest with
      | some (inside, after) =>
        let chunks := setChunks (if inside.head? = some '!' then 2 else 1) [] inside
        .set (chunks.foldr dropRange []) :: globs turns after
      | none => .literal '[' :: globs turns rest
    else .literal c :: globs turns rest

def chunksHave : List (List Char) → Char → Bool
  | [], _ => false
  | [chunk], c => chunk.contains c
  | chunk :: next :: rest, c =>
    chunk.contains c || (chunk.getLast?.any (· ≤ c) && next.head?.any (c ≤ ·)) || chunksHave
      (next :: rest) c

def setHas (chunks : List (List Char)) (c : Char) : Bool :=
  match chunks with
  | ('!' :: chunk) :: rest => !chunksHave (chunk :: rest) c
  | chunks => chunksHave chunks c

def globMatch : List Glob → List Char → Bool
  | [], name => name.isEmpty
  | .star :: rest, name => name.tails.any (globMatch rest)
  | .any :: rest, name => !name.isEmpty && globMatch rest name.tail
  | .set chunks :: rest, name => name.head?.any (setHas chunks) && globMatch rest name.tail
  | .literal c :: rest, name => name.head? = some c && globMatch rest name.tail

def fnmatch (name pattern : String) : Bool := globMatch (globs pattern.length pattern.toList) name.toList

/-! ## Events -/

section Events
variable (str : Json → String)

def isPullRef (ref : String) : Bool := hasPrefix ref "refs/pull/" || hasPrefix ref "pull/"

def removePrefix (text start : String) : String :=
  if hasPrefix text start then .ofList (text.toList.drop start.length) else text

/-- `_patterns`, with `str` for what is no text. -/
def patterns (value : Json) : Option (List String) :=
  match value with
  | .str pattern => some [pattern]
  | .arr items => some (items.map fun item => item.asStr?.getD (str item))
  | _ => none

/-- A name that some pattern of the one list admits and no pattern of the other. -/
def admits (config : List (String × Json)) (only ignored name : String) : Bool :=
  (patterns str (getOr config only .null)).all (·.any (fnmatch name)) &&
    (patterns str (getOr config ignored .null)).all fun patterns => !patterns.any (fnmatch name)

def hasField (config : List (String × Json)) (key : String) : Bool := config.any (·.1 = key)

def filtersAdmit (config : List (String × Json)) (eventName ref : String)
    (baseRef : Option String) : Bool :=
  let isTag := hasPrefix ref "refs/tags/"
  let cleanRef := if isTag then removePrefix ref "refs/tags/" else removePrefix ref "refs/heads/"
  let hasTagFilter := hasField config "tags" || hasField config "tags-ignore"
  let hasBranchFilter := hasField config "branches" || hasField config "branches-ignore"
  if isTag then
    if hasBranchFilter && !hasTagFilter then false else admits str config "tags" "tags-ignore" cleanRef
  else if hasTagFilter && !hasBranchFilter then false
  else if eventName = "pull_request" then
    if isPullRef ref && baseRef.isNone then true
    else admits str config "branches" "branches-ignore" (baseRef.getD cleanRef)
  else admits str config "branches" "branches-ignore" cleanRef

/-- What one event of the `on:` mapping says of a ref. -/
def configAdmits (config : Json) (eventName ref : String) (baseRef : Option String) : Bool :=
  match config with
  | .obj config => filtersAdmit str config eventName ref baseRef
  | _ => true

mutual

def eventMatches (eventName ref : String) (baseRef : Option String) : Json → Bool
  | .str name => name = eventName
  | .arr items => anyMatches eventName ref baseRef items
  | .obj fields => hasField fields eventName && configAdmits str (getOr fields eventName .null)
      eventName ref baseRef
  | _ => false

def anyMatches (eventName ref : String) (baseRef : Option String) : List Json → Bool
  | [] => false
  | item :: rest => eventMatches eventName ref baseRef item || anyMatches eventName ref baseRef rest

end

mutual

def eventDeclares (eventName : String) : Json → Bool
  | .str name => name = eventName
  | .arr items => anyDeclares eventName items
  | .obj fields => hasField fields eventName
  | _ => false

def anyDeclares (eventName : String) : List Json → Bool
  | [] => false
  | item :: rest => eventDeclares eventName item || anyDeclares eventName rest

end

variable {str} {eventName ref : String} {baseRef : Option String}

mutual

/-- An event fires only where the workflow declares it. -/
theorem declares_of_matches (on : Json) (h : eventMatches str eventName ref baseRef on = true) :
    eventDeclares eventName on = true := by
  cases on with
  | str name => rwa [eventMatches] at h
  | arr items =>
    rw [eventMatches] at h
    rw [eventDeclares]
    exact anyDeclares_of_anyMatches items h
  | obj fields =>
    rw [eventMatches, Bool.and_eq_true] at h
    exact h.1
  | _ => cases h

theorem anyDeclares_of_anyMatches (items : List Json)
    (h : anyMatches str eventName ref baseRef items = true) :
    anyDeclares eventName items = true := by
  cases items with
  | nil => cases h
  | cons item rest =>
    rw [anyMatches, Bool.or_eq_true] at h
    rw [anyDeclares, Bool.or_eq_true]
    exact h.imp (declares_of_matches item) (anyDeclares_of_anyMatches rest)

end

end Events
end Cindral.Workflow
