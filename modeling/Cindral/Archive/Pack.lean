import Cindral.Archive.Store
import Cindral.Base.Tar

/-! Packing the artifact directory of a run, and whether the broker has room for what is packed. -/

namespace Cindral.Archive
open Base

def maxArtifactBytes : Nat := 64 * 1024 * 1024
def maxArtifactFiles : Nat := 20000
def artifactDirectory : String := ".cindral/artifacts"
def artifactRoot : String := "artifacts"

/-- What stops a pack: a `PermissionError`, or anything else. -/
inductive PackError where
  | permission (text : String)
  | other (text : String)
  deriving DecidableEq, Repr

def PackError.text : PackError → String
  | permission text | other text => text

def refuse (count total : Nat) : Except PackError Unit :=
  if maxArtifactFiles < count then .error (.other "artifact directory exceeds the file-count limit")
  else if maxArtifactBytes < total + 1024 * count then .error
  (.other "artifact directory exceeds the size limit")
  else .ok ()

def refuseFound (found : Found) : Except PackError Unit :=
  refuse (found.files.length + found.directories.length) found.total

/-- A pack counts the directories of one listing with its files. -/
def packer : Walker PackError :=
  { permission := .permission, entered := fun _ => .ok (), counted := refuseFound }

def namedPath (path : Path) : List NameChar := nameOf artifactRoot ++ nameOf "/" ++ posix path

def directoryMember (name : List NameChar) : Tar.Member :=
  { name := name, directory := true, mode := 0o755 }

def fileMember (path : Path) (file : File) : Tar.Member :=
  { name := namedPath path, directory := false, content := file.content
    mode := if file.mode &&& 0o111 ≠ 0 then 0o755 else 0o644 }

def members (found : Found) : List Tar.Member :=
  directoryMember (nameOf artifactRoot) :: found.directories.map
    (fun path => directoryMember (namedPath path)) ++
    found.files.map fun (path, file) => fileMember path file

/-- `_write_archive`: the archive, and how many files it holds. -/
def writeArchive (source : Source) : Except PackError (Bytes × Nat) := do
  let found ← packer.walk source
  refuseFound found
  packer.openAll found.files
  pure (Tar.archive (members found), found.files.length)

/-- The end of a pack: what is left of the archive, and the log line. -/
def finish : Except PackError (Bytes × Nat) → Option Bytes × String
  | .error e => (none, s!"cindral: artifacts skipped: {e.text}\n")
  | .ok (archive, written) =>
    if written = 0 then (none, s!"cindral: artifacts: {artifactDirectory} is empty\n")
    else (some archive, s!"cindral: artifacts: {written} file(s), {archive.length} bytes\n")

/-- `pack_artifacts`. There is no source where the directory is not one of the checkout's own. -/
def packArtifacts (source : Option Source) (makeReadable : Option Repair) : Option Bytes × String :=
  match source with
  | none => (none, s!"cindral: artifacts: no {artifactDirectory} directory\n")
  | some source =>
    match writeArchive source with
    | .error (.permission _) =>
      match makeReadable with
      | none => (none, s!"cindral: artifacts: {artifactDirectory} could not be read\n")
      | some repair =>
        match repair.run source with
        | .error text => finish (.error (.other text))
        | .ok repaired => finish (writeArchive repaired)
    | written => finish written

/-! How long the archive is. -/

/-- The blocks of 512 bytes that hold the files and directories of a tree, a header and an extended
one for each with them. -/
def needed (listing : Tree) : Nat :=
  (listing.allDirectories.map fun path => (directoryMember (namedPath path)).blocks).sum +
    (listing.allFiles.map fun x => (fileMember x.1 ⟨x.2.content, 0, none⟩).blocks).sum

theorem needed_bare (listing : Tree) : needed listing.bare = needed listing := by
  rw [needed, Tree.allDirectories_bare, Tree.allFiles_bare, List.map_map]
  rfl

theorem rootMember_blocks : (directoryMember (nameOf artifactRoot)).blocks = 1 := by decide

theorem writeArchive_length {source : Source} {archive : Bytes} {written : Nat}
    (h : writeArchive source = .ok (archive, written)) :
    archive.length = Tar.recordSize * ((needed source.listing + 22) / 20) := by
  obtain ⟨found, walked, h⟩ := bind_ok h
  obtain ⟨-, -, h⟩ := bind_ok h
  obtain ⟨-, -, h⟩ := bind_ok h
  obtain ⟨rfl, -⟩ := Prod.mk.inj (Except.ok.inj h)
  obtain ⟨files, directories, -⟩ := Walker.walk_found walked
  have sum : ((members found).map Tar.Member.blocks).sum = 1 + needed source.listing := by
    simp only [members, files, directories, List.map_append, List.map_cons, List.map_map,
      List.sum_append, List.sum_cons,
      rootMember_blocks, needed, Nat.add_assoc]
    rfl
  rw [Tar.length_archive, sum]
  congr 2
  omega

theorem finish_archive {written : Except PackError (Bytes × Nat)} {archive : Bytes}
    (h : (finish written).1 = some archive) :
    ∃ count, written = .ok (archive, count) := by
  unfold finish at h
  split at h
  · cases h
  · split at h
    · cases h
    · exact ⟨_, by rw [Option.some.inj h]⟩

/-- An archive is written of the source, or of what a repair makes of it. -/
theorem packed_written {source : Source} {makeReadable : Option Repair} {archive : Bytes}
    (packed : (packArtifacts (some source) makeReadable).1 = some archive) :
    ∃ readable count, readable.listing.bare = source.listing.bare ∧ writeArchive readable = .ok
    (archive, count) := by
  unfold packArtifacts at packed
  dsimp only at packed
  split at packed
  · split at packed
    · cases packed
    · rename_i repair
      split at packed
      · obtain ⟨count, written⟩ := finish_archive packed
        cases written
      · rename_i repaired ran
        obtain ⟨count, written⟩ := finish_archive packed
        exact ⟨repaired, count, repair.keeps _ _ ran, written⟩
  · obtain ⟨count, written⟩ := finish_archive packed
    exact ⟨source, count, rfl, written⟩

/-- A packed archive has the size the broker takes exactly when its members leave room for the root,
the end and the last record. -/
theorem packed_fits_iff (source : Source) (makeReadable : Option Repair) {archive : Bytes}
    (packed : (packArtifacts (some source) makeReadable).1 = some archive) :
    archive.length ≤ maxArtifactBytes ↔ needed source.listing ≤ 131057 := by
  obtain ⟨readable, count, same, written⟩ := packed_written packed
  rw [writeArchive_length written, ← needed_bare readable.listing, same, needed_bare,
    Tar.recordSize, Tar.blockSize,
    maxArtifactBytes]
  omega

/-- The broker reads no body that is longer than an archive may be. -/
theorem receive_too_large {jobId : String} {body : List Bytes} {archive : Bytes}
    (large : maxArtifactBytes < archive.length) :
    ∃ e, ArtifactStore.receive shippedLimits jobId body archive.length = .error e := by
  unfold ArtifactStore.receive
  split
  · exact ⟨_, rfl⟩
  · have limit : shippedLimits.maxBytes = maxArtifactBytes := rfl
    rw [limit, if_pos (Or.inr (Int.ofNat_lt.mpr large))]
    exact ⟨_, rfl⟩

def reportName : FileName := ⟨nameOf "report.txt", by decide, by decide⟩

def oneFile (content : Bytes) : Source := { listing := .file reportName ⟨content, 0o644, none⟩ .nil }

theorem needed_oneFile {content : Bytes} (room : content.length + 1024 ≤ maxArtifactBytes) :
    needed (oneFile content).listing = 1 + Tar.blocks content.length := by
  have small : content.length < 8 ^ 11 := by
    rw [maxArtifactBytes] at room
    omega
  have plain : (fileMember [reportName] ⟨content, 0, none⟩).records = [] :=
    Tar.records_nil
    (show (!(namedPath [reportName]).all Tar.isAscii || 100 < (namedPath [reportName]).length) =
    false by decide) small
  show 0 + ((fileMember [reportName] ⟨content, 0, none⟩).blocks + 0) = _
  rw [Tar.Member.blocks, plain, Nat.zero_add, Nat.add_zero]
  rfl

theorem oneFile_packed {content : Bytes} (room : content.length + 1024 ≤ maxArtifactBytes) :
    ∃ archive, (packArtifacts (some (oneFile content)) none).1 = some archive := by
  have taken : refuse 1 (0 + content.length) = .ok () := by
    have under : ¬maxArtifactBytes < 0 + content.length + 1024 * 1 := by omega
    rw [refuse, if_neg (by decide), if_neg under]
  have walked : packer.walk (oneFile content) =
      .ok { files := [([reportName], ⟨content, 0o644, none⟩)], total := 0 + content.length } := by
    simp only [Walker.walk, oneFile, Walker.denial, Walker.visit, Walker.note, Walker.descend,
      packer, Tree.files,
      Tree.directories, List.map_nil, List.append_nil, List.nil_append, bind, Except.bind,
      refuseFound, List.length_singleton,
      List.length_nil, Nat.add_zero, taken]
  have written : ∃ archive, writeArchive (oneFile content) = .ok (archive, 1) := by
    simp only [writeArchive, walked, bind, Except.bind, refuseFound, List.length_singleton,
      List.length_nil, Nat.add_zero, taken]
    exact ⟨_, rfl⟩
  obtain ⟨archive, written⟩ := written
  refine ⟨archive, ?_⟩
  simp only [packArtifacts, written]
  rfl

theorem small_report_fits : ∃ archive, (packArtifacts (some (oneFile (Tar.ascii "ok"))) none).1 =
    some archive ∧
    archive.length ≤ maxArtifactBytes := by
  obtain ⟨archive, packed⟩ :=
    oneFile_packed (show (Tar.ascii "ok").length + 1024 ≤ maxArtifactBytes by decide)
  refine ⟨archive, packed, (packed_fits_iff _ none packed).mpr ?_⟩
  rw [needed_oneFile (by decide)]
  decide

/-- The largest file a pack takes makes an archive that the broker refuses. -/
theorem large_report_refused : ∃ archive,
    (packArtifacts (some (oneFile (List.replicate (maxArtifactBytes - 1024) 0))) none).1 = some archive ∧
      maxArtifactBytes < archive.length ∧
      ∀ jobId body, ∃ e, ArtifactStore.receive shippedLimits jobId body archive.length = .error e := by
  have room : (List.replicate (maxArtifactBytes - 1024) (0 : UInt8)).length + 1024 ≤
      maxArtifactBytes := by
    rw [List.length_replicate]
    decide
  obtain ⟨archive, packed⟩ := oneFile_packed room
  have large : maxArtifactBytes < archive.length := by
    refine Nat.not_le.mp fun fits => ?_
    have few := (packed_fits_iff _ none packed).mp fits
    rw [needed_oneFile room, List.length_replicate] at few
    exact absurd few (by decide)
  exact ⟨archive, packed, large, fun jobId body => receive_too_large large⟩

end Cindral.Archive
