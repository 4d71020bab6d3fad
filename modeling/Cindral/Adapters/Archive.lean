import Cindral.Base.Disk
import Cindral.Base.Tar

/-! The archive of a cache directory: how a device writes it, and how one is restored. -/

namespace Cindral.Adapters
open Base Base.FileSystem

abbrev Blob := List UInt8

def maxCacheBlobBytes : Nat := 256 * 1024 * 1024
def maxRestoredCacheBytes : Nat := 2 * 1024 * 1024 * 1024
def maxCacheFiles : Nat := 100000
def maxArchiveContentBytes : Nat := maxCacheBlobBytes - 1024 * maxCacheFiles

inductive MemberKind where
  | file | directory | other
  deriving DecidableEq

/-- A member as `tarfile` reads one. `whole` tells whether the file holds all of its content. -/
structure Info where
  name : List NameChar
  kind : MemberKind
  size : Int
  mode : Nat
  content : Blob
  whole : Bool

/-- What iterating over an archive gives, and what it raises at the end of that or when it is opened. -/
structure TarFile where
  members : List Info
  error : Option String := none

/-- `tarfile` with its `gz` modes. -/
structure TarLibrary where
  write : List Tar.Member → Blob
  read : Blob → TarFile

def infoOf (m : Tar.Member) : Info :=
  { name := m.name, kind := if m.directory then .directory else .file, size := m.content.length,
      mode := m.mode
    content := m.content, whole := true }

def normalMode (mode : Nat) : Nat := if mode &&& 0o111 ≠ 0 then 0o755 else 0o644

/-! Writing. -/

inductive ArchiverError where
  | permission (text : String)
  | archiveError (text : String)
  | other (text : String)
  deriving DecidableEq, Repr

def checkCount (found : Found) : Except ArchiverError Unit :=
  if maxCacheFiles < found.files.length + found.directories.length then
    .error (.archiveError "cache directory exceeds the file-count limit")
  else .ok ()

def checkFile (found : Found) : Except ArchiverError Unit :=
  let count := found.files.length + found.directories.length
  if maxCacheFiles < count ∨ maxArchiveContentBytes < found.total + 1024 * count then
    .error (.archiveError "cache directory exceeds archive limits")
  else .ok ()

def archiver : Walker ArchiverError :=
  { permission := .permission, entered := checkCount, counted := checkFile }

def cacheMembers (found : Found) : List Tar.Member :=
  found.directories.map (fun path => { name := posix path, directory := true, mode := 0o755 }) ++
    found.files.map fun (path, file) =>
      { name := posix path, directory := false, mode := normalMode file.mode, content := file.content }

/-- `_write_archive`, up to the library. -/
def archiveMembers (source : Source) : Except ArchiverError (List Tar.Member) := do
  let found ← archiver.walk source
  checkCount found
  archiver.openAll found.files
  pure (cacheMembers found)

/-- Whether an archive holds a file that is not empty. Reading it stops at the first. -/
def holdsFile (file : TarFile) : Except ArchiverError Bool :=
  if file.members.any fun m => m.kind = .file && decide (0 < m.size) then .ok true
  else match file.error with
    | none => .ok false
    | some text => .error (.other text)

/-- The directory of a cache: no directory, one with a link on the way, or one with its entries. -/
inductive Place where
  | missing
  | linked
  | directory (source : Source)

/-- Writing, again after a repair where a permission is missing. -/
def writeReadable (source : Source) (makeReadable : Option Repair) :
    Except ArchiverError (List Tar.Member) :=
  match archiveMembers source, makeReadable with
  | .error (.permission _), some repair =>
    match repair.run source with
    | .error text => .error (.other text)
    | .ok readable => archiveMembers readable
  | written, _ => written

/-- `create_archive`: the archive if one is written, and the answer. -/
def createArchive (tar : TarLibrary) (place : Place) (makeReadable : Option Repair) :
    Except ArchiverError (Option Blob × Bool) :=
  match place with
  | .linked => .error (.archiveError "cache destination contains a symlink")
  | .missing => .ok (none, false)
  | .directory source => do
    let members ← writeReadable source makeReadable
    let answer ← holdsFile (tar.read (tar.write members))
    pure (some (tar.write members), answer)

/-! Restoring. -/

def parts (name : List NameChar) : List (List NameChar) :=
  (name.splitOn (.char '/')).filter fun part => part ≠ [] && part ≠ nameOf "."

def fileName? (chars : List NameChar) : Option FileName :=
  if named : chars ≠ [] ∧ chars ≠ nameOf "." ∧ chars ≠ nameOf ".." then
    if plain : .char '/' ∉ chars ∧ .char (Char.ofNat 0) ∉ chars then some ⟨chars, named, plain⟩ else none
  else none

/-- The checks of a member's name and kind, and the path it names. -/
def relativePath (m : Info) : Except Raised Path :=
  let parts := parts m.name
  if m.name.head? = some (.char '/') ∨ nameOf ".." ∈ parts ∨ parts = [] then
    .error (.error "cache archive contains an unsafe path")
  else if m.kind = .other then .error (.error "cache archive contains an unsupported file type")
  else match parts.mapM fileName? with
    | none => .error (.error "embedded null byte")
    | some path => .ok path

/-- The body of the loop of `_extract_archive`, after the count. `total` is what the files before hold. -/
def extractMember (staged root : Path) (total : Nat) (m : Info) (run : Run) : Outcome :=
  match relativePath m with
  | .error e => .error (e, run)
  | .ok relative =>
    let target := staged ++ relative
    match run.entry.realpath target with
    | none => .error (.tooManyLinks, run)
    | some q =>
      if ¬root <+: q then .error (.error "cache archive escapes its destination", run)
      else if m.kind = .directory then run.mkdirs target
      else if maxRestoredCacheBytes < total + m.size.toNat then
        .error (.error "cache archive expands beyond the extraction limit", run)
      else match target.getLast? with
        | none => .error (.fileExists, run)
        | some name => do
          let run ← run.mkdirs target.dropLast
          run.create target.dropLast name m.content m.whole (normalMode m.mode)

def extractAll (staged root : Path) (count total : Nat) : List Info → Run → Outcome
  | [], run => .ok run
  | m :: rest, run =>
    if maxCacheFiles < count + 1 ∨ m.size < 0 then .error
      (.error "cache archive exceeds extraction limits", run)
    else do
      let run ← extractMember staged root total m run
      extractAll staged root (count + 1) (if m.kind = .directory then total else total + m.size.toNat) rest run

def extractArchive (staged : Path) (file : TarFile) (run : Run) : Outcome :=
  match run.entry.realpath staged with
  | none => .error (.tooManyLinks, run)
  | some root => do
    let run ← extractAll staged root 0 0 file.members run
    match file.error with
    | none => .ok run
    | some text => .error (.error text, run)

/-- The end of `restore_archive`: what stands at the destination goes, and the staged tree takes its
place. -/
def install (staged destination : Path) (run : Run) : Outcome :=
  Run.rename staged destination (if run.entry destination = none then run else run.remove destination)

/-- The body of a `with` over a temporary directory, and its cleanup. -/
def within (temporary : Path) : Outcome → Outcome
  | .ok run => .ok (run.remove temporary)
  | .error (e, run) => .error (e, run.remove temporary)

def payload : FileName := ⟨nameOf "payload", by decide, by decide⟩

/-- `restore_archive` to a directory `name` in `parent`. `temporary` is the name `mkdtemp` makes up. -/
def restoreArchive (read : Blob → TarFile) (parent : Path) (name temporary : FileName)
    (archive : Blob) (entry : Entries) : Outcome :=
  let run : Run := ⟨entry, []⟩
  if (parent ++ [name]).inits.any entry.isSymlink then .error
    (.error "cache destination contains a symlink", run)
  else do
    let run ← run.mkdirs parent
    let run ← run.mkdir parent temporary
    within (parent ++ [temporary]) do
      let staged := parent ++ [temporary, payload]
      let run ← run.mkdir (parent ++ [temporary]) payload
      let run ← extractArchive staged (read archive) run
      install staged (parent ++ [name]) run

end Cindral.Adapters
