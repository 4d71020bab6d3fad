import Cindral.Base.Directory
import Cindral.Base.Eviction
import Cindral.Base.Text
import Mathlib.Algebra.Order.Field.Rat
import Mathlib.Data.List.Dedup
import Mathlib.Data.Prod.Lex
import Mathlib.Data.String.Basic

/-! The content-addressed cache: entries under a repository, branch, architecture and key, and blobs under their digests. -/

namespace Cindral.Cache
open Base

abbrev Bytes := List UInt8

inductive CacheError where
  | cacheError (text : String)
  | fileNotFound (digest : String)
  deriving DecidableEq, Repr

def isWord (c : Char) : Bool :=
  ('A' ≤ c && c ≤ 'Z') || ('a' ≤ c && c ≤ 'z') || ('0' ≤ c && c ≤ '9') || c = '_' || c = '.' || c = '-'

def repositoryMatches (s : String) : Bool :=
  match s.toList.splitOn '/' with
  | [owner, name] => [owner, name].all fun part => part ≠ [] && part.all isWord
  | _ => false

def branchMatches (s : String) : Bool :=
  1 ≤ s.length && s.length ≤ 255 && s.toList.all fun c => isWord c || c = '/'

def architectureMatches (s : String) : Bool := 1 ≤ s.length && s.length ≤ 64 && s.toList.all isWord

def keyMatches (s : String) : Bool := 1 ≤ s.length && s.length ≤ 200 && s.toList.all isWord

def digestMatches (s : String) : Bool := s.length = 64 && s.toList.all isLowerHex

/-- What `hexdigest` gives. -/
structure Digest where
  text : String
  valid : digestMatches text = true
  deriving DecidableEq

/-- The primary key of an entry. -/
structure Place where
  repository : String
  branch : String
  architecture : String
  key : String
  deriving DecidableEq, Repr

structure CacheEntry where
  place : Place
  digest : Digest
  size : Nat
  createdAt : ℚ
  deriving DecidableEq

structure CacheRow extends CacheEntry where
  accessedAt : ℚ
  deriving DecidableEq

abbrev Entries := Table fun row : CacheRow => row.place

structure Limits where
  ttlSeconds : Nat := 30 * 24 * 60 * 60
  repositoryQuota : Nat := 256 * 1024 * 1024
  storageQuota : Nat := 768 * 1024 * 1024
  maxBlobBytes : Nat := 256 * 1024 * 1024
  positive : 1 ≤ min (min (min ttlSeconds repositoryQuota) storageQuota) maxBlobBytes

structure Stats where
  hits : Int := 0
  misses : Int := 0
  writes : Int := 0
  bytesWritten : Int := 0
  deriving DecidableEq

structure CacheStore where
  entries : Entries
  blobs : Directory Digest Bytes
  stats : Stats

def validateScope (place : Place) : Except CacheError Unit :=
  if !repositoryMatches place.repository || (place.repository.toList.splitOn '/').any
      (· ∈ [['.'], ['.', '.']]) then
    .error (.cacheError "repository must use owner/name format")
  else if !branchMatches place.branch || hasInfix place.branch ".." then .error
  (.cacheError "invalid branch")
  else if !architectureMatches place.architecture then .error (.cacheError "invalid architecture")
  else if !keyMatches place.key then .error (.cacheError "invalid cache key")
  else .ok ()

/-- Read a body block by block, as long as it is short of its declared length. -/
def readBody (contentLength : Nat) (written : Bytes) : List Bytes → Except CacheError Bytes
  | [] => if written.length < contentLength then .error
      (.cacheError "cache upload ended before Content-Length") else .ok written
  | block :: source =>
    if written.length < contentLength then
      if block = [] then .error (.cacheError "cache upload ended before Content-Length")
      else readBody contentLength (written ++ block) source
    else .ok written

namespace Entries

/-- `_expire`: the entries that are left, and whether any went. -/
def expire (limits : Limits) (t : Entries) (now : ℚ) : Entries × Bool :=
  let late := fun e : CacheRow => decide (e.accessedAt < now - limits.ttlSeconds)
  (t.filter (!late ·), t.rows.any late)

def sizeOf (rows : List CacheRow) (digest : Digest) : Nat :=
  ((rows.filter (·.digest = digest)).map (·.size)).foldr max 0

/-- `sum(size)` over `max(size)` for each digest. -/
def storedBytes (rows : List CacheRow) : Nat := (((rows.map (·.digest)).dedup).map (sizeOf rows)).sum

def rank (e : CacheRow) : ℚ ×ₗ ℚ ×ₗ String := toLex (e.accessedAt, toLex (e.createdAt, e.place.key))

/-- The filter of an eviction: the rows of one repository, or all of them. -/
def within (repository : Option String) (e : CacheRow) : Bool := repository.all (e.place.repository = ·)

def quotaOf (repository : Option String) (quota : Nat) : Eviction CacheRow (ℚ ×ₗ ℚ ×ₗ String) :=
  { scope := within repository, weight := storedBytes, rank := rank, quota := quota }

def evictToQuota (t : Entries) (repository : Option String) (quota : Nat) : Entries :=
  (t.evict (quotaOf repository quota) t.rows.length).1

def enforceQuota (limits : Limits) (t : Entries) (repository : String) : Entries :=
  (t.evictToQuota (some repository) limits.repositoryQuota).evictToQuota none limits.storageQuota

def accessed (place : Place) (now : ℚ) : Edit fun row : CacheRow => row.place :=
  Edit.only (·.place = place) ⟨fun e => { e with accessedAt := now }, fun _ => rfl⟩

end Entries

def collectBlobs (t : Entries) (blobs : Directory Digest Bytes) : Directory Digest Bytes :=
  fun digest => if digest ∈ t.rows.map (·.digest) then blobs digest else none

namespace CacheStore

def empty : CacheStore := ⟨Table.empty, Directory.empty, {}⟩

/-- The entry a lookup answers with: the key's own, or of the first prefix with any the one used last. -/
def choose (t : Entries) (place : Place) (restoreKeys : List String) : Option CacheRow :=
  let inScope := t.rows.filter fun e => { e.place with key := place.key } = place
  (t.find? place).or (restoreKeys.findSome? fun pre =>
    (inScope.filter fun e => hasPrefix e.place.key pre).argmin fun e =>
      (toLex (-e.accessedAt, e.place.key) : ℚ ×ₗ String))

def lookup (limits : Limits) (s : CacheStore) (place : Place) (restoreKeys : List String) (now : ℚ) :
    Except CacheError (Option CacheEntry × CacheStore) :=
  match validateScope place with
  | .error e => .error e
  | .ok () =>
    if 20 < restoreKeys.length ∨ restoreKeys.any (!keyMatches ·) then
      .error (.cacheError "restore_keys must contain at most 20 valid prefixes")
    else
      let entries := (Entries.expire limits s.entries now).1
      let blobs := collectBlobs entries s.blobs
      match choose entries place restoreKeys with
      | none => .ok (none, ⟨entries, blobs, { s.stats with misses := s.stats.misses + 1 }⟩)
      | some row =>
        let used := entries.update (Entries.accessed row.place now)
        if (blobs row.digest).isSome then .ok
          (some row.toCacheEntry, ⟨used, blobs, { s.stats with hits := s.stats.hits + 1 }⟩)
        else .ok (none, ⟨Table.remove used row.place, blobs,
          { s.stats with hits := s.stats.hits + 1 - 1, misses := s.stats.misses + 1 }⟩)

variable (sha256 : Bytes → Digest) (limits : Limits)

/-- The part of `put` before the lock. `source` is what each read of the body gives. -/
def receive (place : Place) (source : List Bytes) (contentLength : Int) : Except CacheError Bytes :=
  match validateScope place with
  | .error e => .error e
  | .ok () =>
    if contentLength < 0 ∨ limits.maxBlobBytes < contentLength then
      .error (.cacheError "cache blob exceeds the configured size limit")
    else if limits.repositoryQuota < contentLength then .error
    (.cacheError "cache blob exceeds the repository quota")
    else readBody contentLength.toNat [] source

def rowOf (place : Place) (body : Bytes) (now : ℚ) : CacheRow :=
  { place := place, digest := sha256 body, size := body.length, createdAt := now, accessedAt := now }

/-- The part of `put` under the lock. -/
def store (s : CacheStore) (place : Place) (body : Bytes) (now : ℚ) : (CacheEntry × Bool) × CacheStore :=
  let entries := (Entries.expire limits s.entries now).1
  let blobs := if (Entries.expire limits s.entries now).2 then collectBlobs entries s.blobs else s.blobs
  match entries.find? place with
  | some existing => ((existing.toCacheEntry, false), ⟨entries, blobs, s.stats⟩)
  | none =>
    let row := rowOf sha256 place body now
    let blobs := if (blobs row.digest).isSome then blobs else blobs.install row.digest body
    let inserted : Entries := (entries.insert? row).getD entries
    let entries := Entries.enforceQuota limits (Entries.expire limits inserted now).1 place.repository
    ((row.toCacheEntry, true), ⟨entries, collectBlobs entries blobs,
      { s.stats with writes := s.stats.writes + 1, bytesWritten := s.stats.bytesWritten + body.length }⟩)

def put (s : CacheStore) (place : Place) (source : List Bytes) (contentLength : Int) (now : ℚ) :
    Except CacheError ((CacheEntry × Bool) × CacheStore) :=
  (receive limits place source contentLength).map fun body => s.store sha256 limits place body now

def openBlob (s : CacheStore) (digest : String) (place : Place) (now : ℚ) : Except CacheError Bytes :=
  if valid : digestMatches digest = true then
    match validateScope place with
    | .error e => .error e
    | .ok () =>
      if s.entries.rows.any fun e => e.place = place && e.digest = ⟨digest, valid⟩ && now -
          limits.ttlSeconds ≤ e.accessedAt then
        match s.blobs ⟨digest, valid⟩ with
        | some body => .ok body
        | none => .error (.fileNotFound digest)
      else .error (.fileNotFound digest)
  else .error (.cacheError "invalid content digest")

inductive Op where
  | put (place : Place) (source : List Bytes) (contentLength : Int) (now : ℚ)
  | lookup (place : Place) (restoreKeys : List String) (now : ℚ)
  | openBlob (digest : String) (place : Place) (now : ℚ)

/-- The state after a call. One that raises has changed nothing. -/
def kept {α : Type} (s : CacheStore) : Except CacheError (α × CacheStore) → CacheStore
  | .ok (_, t) => t
  | .error _ => s

def apply (s : CacheStore) : Op → CacheStore
  | .put place source contentLength now => s.kept (s.put sha256 limits place source contentLength now)
  | .lookup place restoreKeys now => s.kept (s.lookup limits place restoreKeys now)
  | .openBlob .. => s

def step (s : CacheStore) (op : Op) : Option CacheStore := some (s.apply sha256 limits op)

end CacheStore
end Cindral.Cache
