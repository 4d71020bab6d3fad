import Cindral.Base.Run
import Cindral.Cache.Quota

/-! Rows and blobs of the cache agree over any run, within the quotas, and are served to their own scope only. -/

namespace Cindral.Cache
open Base
namespace CacheStore
variable {sha256 : Bytes → Digest} {limits : Limits} {s t : CacheStore} {entries u : Entries}
    {blobs : Directory Digest Bytes}
  {stats : Stats} {place : Place} {body : Bytes} {now : ℚ} {received : Bytes → Prop}

/-- The blob of a row, with the row's digest and size. -/
def Held (sha256 : Bytes → Digest) (blobs : Directory Digest Bytes) (e : CacheRow) : Prop :=
  ∃ body, blobs e.digest = some body ∧ sha256 body = e.digest ∧ body.length = e.size

/-- Each row has its blob, and each blob a row. -/
structure Backed (sha256 : Bytes → Digest) (s : CacheStore) : Prop where
  held : ∀ e ∈ s.entries.rows, Held sha256 s.blobs e
  referenced : ∀ d body, s.blobs d = some body → ∃ e ∈ s.entries.rows, e.digest = d

/-- What a run keeps: the blobs are bodies that were received. -/
structure Sound (sha256 : Bytes → Digest) (limits : Limits) (received : Bytes → Prop)
    (s : CacheStore) : Prop
    extends Backed sha256 s where
  bodies : ∀ d body, s.blobs d = some body → received body
  within : Entries.Within limits s.entries.rows

theorem collectBlobs_some {d : Digest} (h : collectBlobs entries blobs d = some body) :
    blobs d = some body ∧ ∃ e ∈ entries.rows, e.digest = d := by
  unfold collectBlobs at h
  split at h
  · rename_i named
    exact ⟨h, List.mem_map.mp named⟩
  · cases h

theorem held_collect {e : CacheRow} (there : e ∈ entries.rows) (h : Held sha256 blobs e) :
    Held sha256 (collectBlobs entries blobs) e := by
  obtain ⟨body, found, facts⟩ := h
  exact ⟨body, by rw [collectBlobs, if_pos (List.mem_map_of_mem there), found], facts⟩

/-- Once blobs are collected, every blob that is left has a row. -/
theorem collect_sound (held : ∀ e ∈ entries.rows, Held sha256 blobs e)
    (bodies : ∀ d body, blobs d = some body → received body)
    (within : Entries.Within limits entries.rows) :
    Sound sha256 limits received ⟨entries, collectBlobs entries blobs, stats⟩ where
  held := fun e there => held_collect there (held e there)
  referenced := fun _ _ found => (collectBlobs_some found).2
  bodies := fun d body found => bodies d body (collectBlobs_some found).1
  within := within

theorem empty_sound : Sound sha256 limits received empty where
  held := fun _ there => absurd there List.not_mem_nil
  referenced := fun _ _ found => by cases found
  bodies := fun _ _ found => by cases found
  within := ⟨fun _ => Nat.zero_le _, Nat.zero_le _⟩

theorem expire_sublist (limits : Limits) (t : Entries) (now : ℚ) :
    (t.expire limits now).1.rows.Sublist t.rows :=
  List.filter_sublist

/-- The store after the first lines of a put under the lock. -/
def begun (limits : Limits) (s : CacheStore) (now : ℚ) : CacheStore :=
  ⟨(s.entries.expire limits now).1,
    if (s.entries.expire limits now).2 then collectBlobs (s.entries.expire limits now).1
      s.blobs else s.blobs, s.stats⟩

theorem begun_sound (h : Sound sha256 limits received s) (now : ℚ) : Sound sha256 limits received (s.begun limits now) := by
  have fewer := expire_sublist limits s.entries now
  unfold begun
  cases expired : (s.entries.expire limits now).2 with
  | true => exact collect_sound (fun e there => h.held e (fewer.subset there)) h.bodies (h.within.mono fewer)
  | false =>
    have rows := Entries.rows_unexpired expired
    refine ⟨⟨fun e there => h.held e (fewer.subset there), fun d body found => ?_⟩, h.bodies,
      h.within.mono fewer⟩
    obtain ⟨e, there, same⟩ := h.referenced d body found
    exact ⟨e, by rw [rows]; exact there, same⟩

theorem choose_mem {restoreKeys : List String} {row : CacheRow}
    (h : choose entries place restoreKeys = some row) :
    row ∈ entries.rows ∧ { row.place with key := place.key } = place ∧
      (row.place.key = place.key ∨ ∃ pre ∈ restoreKeys, hasPrefix row.place.key pre = true) := by
  rcases Option.or_eq_some_iff.mp h with own | ⟨-, restored⟩
  · obtain ⟨there, same⟩ := Table.find?_some own
    exact ⟨there, by rw [same], Or.inl (by rw [same])⟩
  · obtain ⟨pre, asked, least⟩ := List.exists_of_findSome?_eq_some restored
    obtain ⟨inScope, starts⟩ := List.mem_filter.mp (List.argmin_mem (Option.mem_def.mpr least))
    obtain ⟨there, same⟩ := List.mem_filter.mp inScope
    exact ⟨there, of_decide_eq_true same, Or.inr ⟨pre, asked, starts⟩⟩

/-- The lookup of a sound store finds the blob of any row, so it never drops one. -/
theorem lookup_ok {restoreKeys : List String} {found : Option CacheEntry}
    (h : Sound sha256 limits received s)
    (answered : s.lookup limits place restoreKeys now = .ok (found, t)) :
    ∃ row?, choose (s.entries.expire limits now).1 place restoreKeys = row? ∧
      found = row?.map (·.toCacheEntry) ∧
      t.entries = row?.elim (s.entries.expire limits now).1 (fun row =>
        (s.entries.expire limits now).1.update (Entries.accessed row.place now)) ∧
      t.blobs = collectBlobs (s.entries.expire limits now).1 s.blobs := by
  unfold lookup at answered
  split at answered
  · cases answered
  · split at answered
    · cases answered
    · cases chosen : choose (s.entries.expire limits now).1 place restoreKeys with
      | none =>
        simp only [chosen, Except.ok.injEq, Prod.mk.injEq] at answered
        obtain ⟨rfl, rfl⟩ := answered
        exact ⟨none, rfl, rfl, rfl, rfl⟩
      | some row =>
        have there := (choose_mem chosen).1
        obtain ⟨body, there, -⟩ :=
          held_collect there (h.held row ((expire_sublist limits s.entries now).subset there))
        simp only [chosen, there, Option.isSome_some, if_true, Except.ok.injEq, Prod.mk.injEq] at answered
        obtain ⟨rfl, rfl⟩ := answered
        exact ⟨some row, rfl, rfl, rfl, rfl⟩

theorem accessed_place (used : Place) (now : ℚ) (e : CacheRow) :
    (Entries.accessed used now e).place = e.place :=
  (Entries.accessed used now).keeps e

theorem accessed_digest (used : Place) (now : ℚ) (e : CacheRow) :
    (Entries.accessed used now e).digest = e.digest := by
  unfold Entries.accessed
  rw [Edit.only_apply]
  split <;> rfl

theorem accessed_size (used : Place) (now : ℚ) (e : CacheRow) :
    (Entries.accessed used now e).size = e.size := by
  unfold Entries.accessed
  rw [Edit.only_apply]
  split <;> rfl

theorem accessed_sound (h : Sound sha256 limits received ⟨entries, blobs, stats⟩) (used : Place)
    (now : ℚ) :
    Sound sha256 limits received ⟨entries.update (Entries.accessed used now), blobs, stats⟩ := by
  refine ⟨⟨fun e there => ?_, fun d body found => ?_⟩, h.bodies, ?_⟩
  · obtain ⟨old, present, rfl⟩ := List.mem_map.mp there
    rw [Held, accessed_digest, accessed_size]
    exact h.held old present
  · obtain ⟨e, there, same⟩ := h.referenced d body found
    exact ⟨_, List.mem_map_of_mem there, (accessed_digest used now e).trans same⟩
  · exact h.within.map (accessed_place used now) (accessed_digest used now) (accessed_size used now)

theorem lookup_sound {restoreKeys : List String} {found : Option CacheEntry}
    (h : Sound sha256 limits received s)
    (answered : s.lookup limits place restoreKeys now = .ok (found, t)) :
    Sound sha256 limits received t := by
  have fewer := expire_sublist limits s.entries now
  have collected : Sound sha256 limits received
      ⟨(s.entries.expire limits now).1, collectBlobs (s.entries.expire limits now).1 s.blobs, t.stats⟩ :=
    collect_sound (fun e there => h.held e (fewer.subset there)) h.bodies (h.within.mono fewer)
  obtain ⟨row?, -, -, rows, files⟩ := lookup_ok h answered
  obtain ⟨entries, blobs, stats⟩ := t
  obtain rfl : blobs = _ := files
  obtain rfl : entries = _ := rows
  cases row? with
  | none => exact collected
  | some row => exact accessed_sound collected row.place now

/-- The blob directory once the upload is in place. -/
def uploaded (sha256 : Bytes → Digest) (blobs : Directory Digest Bytes) (body : Bytes) :
    Directory Digest Bytes :=
  if (blobs (sha256 body)).isSome then blobs else blobs.install (sha256 body) body

theorem store_standing {existing : CacheRow}
    (found : (s.begun limits now).entries.find? place = some existing) :
    s.store sha256 limits place body now = ((existing.toCacheEntry, false), s.begun limits now) := by
  unfold begun at found
  simp [store, begun, found]

/-- No row that was there before a new one, and not the new one itself, is late. -/
theorem store_fresh (sha256 : Bytes → Digest) (limits : Limits) (body : Bytes)
    (free : (s.begun limits now).entries.find? place = none) :
    ∃ inserted : Entries, inserted.rows = (s.begun limits now).entries.rows ++
      [rowOf sha256 place body now] ∧
      s.store sha256 limits place body now = (((rowOf sha256 place body now).toCacheEntry, true),
        ⟨inserted.enforceQuota limits place.repository,
          collectBlobs (inserted.enforceQuota limits place.repository)
          (uploaded sha256 (s.begun limits now).blobs body),
          { s.stats with writes := s.stats.writes + 1, bytesWritten := s.stats.bytesWritten +
              body.length }⟩) := by
  obtain ⟨inserted, fresh⟩ := Table.insert?_of_fresh (r := rowOf sha256 place body now) free
  have rows := Table.rows_insert fresh
  have timely : (Entries.expire limits inserted now).1.rows = inserted.rows := by
    rw [Entries.rows_expire]
    refine List.filter_eq_self.mpr fun e there => decide_eq_true ?_
    rcases List.mem_append.mp (rows ▸ there) with old | new
    · exact (Entries.mem_expire.mp old).2
    · obtain rfl := List.mem_singleton.mp new
      exact sub_le_self now (Nat.cast_nonneg _)
  refine ⟨(Entries.expire limits inserted now).1, timely.trans rows, ?_⟩
  unfold begun at free fresh
  simp only [store, free, fresh, Option.getD_some]
  rfl

theorem uploaded_apply (sha256 : Bytes → Digest) (blobs : Directory Digest Bytes) (body : Bytes)
    (d : Digest) :
    uploaded sha256 blobs body d = (blobs d).or (if d = sha256 body then some body else none) := by
  unfold uploaded
  split
  · rename_i present
    by_cases own : d = sha256 body
    · obtain ⟨bytes, found⟩ := Option.isSome_iff_exists.mp present
      rw [own, found, Option.some_or]
    · rw [if_neg own, Option.or_none]
  · rename_i absent
    rw [Directory.install_apply]
    by_cases own : d = sha256 body
    · rw [if_pos own, if_pos own, own, Option.not_isSome_iff_eq_none.mp absent, Option.none_or]
    · rw [if_neg own, if_neg own, Option.or_none]

/-- A body in place is the upload's own, where no other received body has its digest. -/
theorem uploaded_own (distinct : ∀ x y, received x → received y → sha256 x = sha256 y → x = y)
    (h : Sound sha256 limits received s) (arrived : received body) :
    uploaded sha256 s.blobs body (sha256 body) = some body := by
  rw [uploaded_apply, if_pos rfl]
  cases there : s.blobs (sha256 body) with
  | none => rfl
  | some bytes =>
    obtain ⟨e, row, named⟩ := h.referenced _ _ there
    obtain ⟨held, found, digest, -⟩ := h.held e row
    rw [named, there] at found
    obtain rfl := Option.some.inj found
    rw [distinct bytes body (h.bodies _ _ there) arrived (digest.trans named)]
    rfl

theorem store_sound (distinct : ∀ x y, received x → received y → sha256 x = sha256 y → x = y)
    (h : Sound sha256 limits received s) (arrived : received body) :
    Sound sha256 limits received (s.store sha256 limits place body now).2 := by
  have before := begun_sound h now
  cases found : (s.begun limits now).entries.find? place with
  | some existing =>
    rw [store_standing found]
    exact before
  | none =>
    obtain ⟨inserted, rows, state⟩ := store_fresh sha256 limits body found
    rw [state]
    have fewer := Entries.enforceQuota_sublist limits inserted place.repository
    refine collect_sound (fun e there => ?_) (fun d bytes there => ?_)
      (Entries.enforceQuota_within before.within rows)
    · rcases List.mem_append.mp (rows ▸ fewer.subset there) with old | new
      · obtain ⟨bytes, present, facts⟩ := before.held e old
        exact ⟨bytes, by rw [uploaded_apply, present, Option.some_or], facts⟩
      · obtain rfl := List.mem_singleton.mp new
        exact ⟨body, uploaded_own distinct before arrived, rfl, rfl⟩
    · rw [uploaded_apply] at there
      rcases Option.or_eq_some_iff.mp there with old | ⟨-, new⟩
      · exact before.bodies d bytes old
      · split at new
        · obtain rfl := Option.some.inj new
          exact arrived
        · cases new

def Op.body? (limits : Limits) : Op → Option Bytes
  | .put place source contentLength _ => (receive limits place source contentLength).toOption
  | .lookup .. | .openBlob .. => none

theorem apply_sound (distinct : ∀ x y, received x → received y → sha256 x = sha256 y → x = y)
    (h : Sound sha256 limits received s) (op : Op)
    (arrived : ∀ body, op.body? limits = some body → received body) :
    Sound sha256 limits received (s.apply sha256 limits op) := by
  cases op with
  | put place source contentLength now =>
    simp only [apply, put]
    simp only [Op.body?] at arrived
    cases read : receive limits place source contentLength with
    | error e => exact h
    | ok body => exact store_sound distinct h (arrived body (by rw [read]; rfl))
  | lookup place restoreKeys now =>
    simp only [apply]
    cases answered : s.lookup limits place restoreKeys now with
    | error e => exact h
    | ok answer => exact lookup_sound h answered
  | openBlob digest place now => exact h

/-- What a call owes its caller in a store. -/
def Served (sha256 : Bytes → Digest) (limits : Limits) (s : CacheStore) : Op → Prop
  | .put place source contentLength now => ∀ entry created t,
      s.put sha256 limits place source contentLength now = .ok ((entry, created), t) →
      entry.place = place ∧
      ∀ e, (e ∈ s.entries.rows ∧ now - limits.ttlSeconds ≤ e.accessedAt ∨ created = true ∧
        e = ⟨entry, now⟩) →
        e ∉ t.entries.rows → created = true ∧ Entries.Outlived limits place.repository
          ((s.entries.rows.filter fun e => now - limits.ttlSeconds ≤ e.accessedAt) ++
          [⟨entry, now⟩]) t.entries.rows e
  | .lookup place restoreKeys now => ∀ entry t, s.lookup limits place restoreKeys now = .ok
      (some entry, t) →
      (∃ e ∈ s.entries.rows, e.toCacheEntry = entry) ∧ { entry.place with key := place.key } = place ∧
      (entry.place.key = place.key ∨ ∃ pre ∈ restoreKeys, hasPrefix entry.place.key pre = true) ∧
      ⟨entry, now⟩ ∈ t.entries.rows ∧
      ∃ body, t.blobs entry.digest = some body ∧ sha256 body = entry.digest ∧ body.length = entry.size
  | .openBlob digest place now => ∀ body, s.openBlob limits digest place now = .ok body →
      ∃ e ∈ s.entries.rows, e.place = place ∧ e.digest.text = digest ∧ sha256 body = e.digest ∧
      body.length = e.size

theorem put_served (s : CacheStore) (source : List Bytes) (contentLength : Int) :
    s.Served sha256 limits (.put place source contentLength now) := by
  intro entry created t answered
  unfold put at answered
  cases read : receive limits place source contentLength with
  | error e => simp [read, Except.map] at answered
  | ok body =>
    simp only [read, Except.map, Except.ok.injEq] at answered
    cases found : (s.begun limits now).entries.find? place with
    | some existing =>
      rw [store_standing found] at answered
      cases answered
      refine ⟨(Table.find?_some found).2, fun e there gone => absurd ?_ gone⟩
      rcases there with ⟨old, timely⟩ | ⟨new, -⟩
      · exact Entries.mem_expire.mpr ⟨old, timely⟩
      · cases new
    | none =>
      obtain ⟨inserted, rows, state⟩ := store_fresh sha256 limits body found
      rw [state] at answered
      cases answered
      refine ⟨rfl, fun e there gone => ⟨rfl, ?_⟩⟩
      have inside : e ∈ inserted.rows := by
        rw [rows]
        rcases there with ⟨old, timely⟩ | ⟨-, rfl⟩
        · exact List.mem_append_left _ (Entries.mem_expire.mpr ⟨old, timely⟩)
        · exact List.mem_append_right _ List.mem_cons_self
      have before : inserted.rows = (s.entries.rows.filter fun e =>
          now - limits.ttlSeconds ≤ e.accessedAt) ++
          [rowOf sha256 place body now] := by
        rw [rows, begun, Entries.rows_expire]
      have outlived := Entries.enforceQuota_outlived inside gone
      rw [before] at outlived
      exact outlived

theorem lookup_served (h : Sound sha256 limits received s) (restoreKeys : List String) :
    s.Served sha256 limits (.lookup place restoreKeys now) := by
  intro entry t answered
  obtain ⟨row?, chosen, same, rows, files⟩ := lookup_ok h answered
  obtain ⟨row, rfl, rfl⟩ := Option.map_eq_some_iff.mp same.symm
  obtain ⟨there, scope, key⟩ := choose_mem chosen
  have stored := (expire_sublist limits s.entries now).subset there
  refine ⟨⟨row, stored, rfl⟩, scope, key, ?_, ?_⟩
  · rw [rows]
    refine List.mem_map.mpr ⟨row, there, ?_⟩
    simp [Entries.accessed]
  · rw [files]
    exact held_collect there (h.held row stored)

theorem openBlob_served (h : Sound sha256 limits received s) (digest : String) :
    s.Served sha256 limits (.openBlob digest place now) := by
  intro body answered
  unfold openBlob at answered
  split at answered
  · rename_i valid
    split at answered
    · cases answered
    · split at answered
      · rename_i listed
        obtain ⟨e, there, facts⟩ := List.any_eq_true.mp listed
        simp only [Bool.and_eq_true, decide_eq_true_eq] at facts
        obtain ⟨⟨place, named⟩, -⟩ := facts
        obtain ⟨bytes, present, digest, size⟩ := h.held e there
        rw [← named, present] at answered
        obtain rfl := Except.ok.inj answered
        exact ⟨e, there, place, by rw [named], digest, size⟩
      · cases answered
  · cases answered

/-- In every state a run reaches, rows and blobs agree within both quotas, and every call is served
as it should be. -/
theorem cache_consistent (sha256 : Bytes → Digest) (limits : Limits) (ops : List Op)
    (distinct : ∀ a ∈ ops, ∀ b ∈ ops, ∀ x y,
      a.body? limits = some x → b.body? limits = some y → sha256 x = sha256 y → x = y)
    (s : CacheStore) (ran : run (step sha256 limits) empty ops = some s) :
    Backed sha256 s ∧
      (∀ repository, Entries.heldBytes s.blobs (s.entries.rows.filter (·.place.repository = repository)) ≤
        limits.repositoryQuota) ∧
      Entries.heldBytes s.blobs s.entries.rows ≤ limits.storageQuota ∧ ∀ op, s.Served sha256 limits
      op := by
  have sound : Sound sha256 limits (fun body => ∃ op ∈ ops, op.body? limits = some body) s := by
    refine along_invariant (fun s op t holds arrived taken => ?_)
      (along_of_forall (fun op => op ∈ ops) fun op member => member) empty_sound ran
    obtain rfl := Option.some.inj taken
    refine apply_sound ?_ holds op fun body read => ⟨op, arrived, read⟩
    rintro x y ⟨a, first, ofA⟩ ⟨b, second, ofB⟩ same
    exact distinct a first b second x y ofA ofB same
  have counted : ∀ rows : List CacheRow, rows.Sublist s.entries.rows →
      Entries.storedBytes rows = Entries.heldBytes s.blobs rows :=
    fun rows fewer => Entries.storedBytes_held fun e there => by
      obtain ⟨body, found, -, size⟩ := sound.held e (fewer.subset there)
      exact ⟨body, found, size⟩
  refine ⟨sound.toBacked, fun repository => ?_, ?_, fun op => ?_⟩
  · rw [← counted _ List.filter_sublist]
    have same : Entries.within (some repository) = fun e =>
      decide (e.place.repository = repository) := rfl
    rw [← same]
    exact sound.within.repositories repository
  · rw [← counted _ (List.Sublist.refl _)]
    exact sound.within.storage
  · cases op with
    | put place source contentLength now => exact put_served s source contentLength
    | lookup place restoreKeys now => exact lookup_served sound restoreKeys
    | openBlob digest place now => exact openBlob_served sound digest

def emptyDigest : Digest :=
  ⟨"e3b0c44298fc1c149afbf4c8996fb92427ae41e4649b934ca495991b7852b855", by decide +kernel⟩

def abcDigest : Digest :=
  ⟨"ba7816bf8f01cfea414140de5dae2223b00361a396177a9cb410ff61f20015ad", by decide +kernel⟩

/-- One body under two keys, an empty one in another repository, and a lookup by a prefix. -/
def sharedRun : List Op :=
  [.put ⟨"acme/app", "main", "arm64", "one"⟩ [[97, 98, 99]] 3 0,
    .put ⟨"acme/app", "main", "arm64", "two"⟩ [[97, 98, 99]] 3 1,
    .put ⟨"acme/site", "main", "arm64", "one"⟩ [] 0 2,
    .lookup ⟨"acme/app", "main", "arm64", "three"⟩ ["t"] 3]

def tightLimits : Limits := { repositoryQuota := 5, storageQuota := 5, positive := by decide }

theorem sharedRun_consistent :
    ∃ s, run (step (fun body => if body = [] then emptyDigest else abcDigest) tightLimits) empty
      sharedRun = some s ∧
      s.entries.rows.length = 3 ∧ Entries.heldBytes s.blobs s.entries.rows ≤ 5 := by
  refine ⟨_, rfl, by decide +kernel, ?_⟩
  refine (cache_consistent (fun body => if body = [] then emptyDigest else abcDigest) tightLimits
    sharedRun ?_ _ rfl).2.2.1
  intro a first b second x y ofA ofB same
  have bodies : ∀ op ∈ sharedRun, ∀ x, op.body? tightLimits = some x → x = [] ∨ x = [97, 98, 99] := by
    have all : (sharedRun.all fun op => (op.body? tightLimits).all fun x =>
        x = [] || x = [97, 98, 99]) = true := by
      decide +kernel
    intro op member x read
    have one := List.all_eq_true.mp all op member
    rw [read] at one
    simpa using one
  have apart : emptyDigest ≠ abcDigest := by decide +kernel
  rcases bodies a first x ofA with rfl | rfl <;> rcases bodies b second y ofB with rfl | rfl
  · rfl
  · simp [apart] at same
  · simp [apart.symm] at same
  · rfl

end CacheStore
end Cindral.Cache
