import Cindral.Base.Subtree
import Cindral.Adapters.Restore

/-! That an archive of a cache directory is restored as the directory it was written of. -/

namespace Cindral.Adapters
open Base Base.FileSystem

def entryOf : Tree.Node → Entry
  | .dir => .dir
  | .file f => .file f.content (normalMode f.mode)

/-- What a restore is to leave of a directory: its files and directories, without links, and modes
of two kinds. -/
def kept (listing : Tree) (path : Path) : Option Entry := (listing.nodeAt path).map entryOf

theorem normalMode_idem (mode : Nat) : normalMode (normalMode mode) = normalMode mode := by
  unfold normalMode
  split <;> decide

/-! A member's name leads back to its path. -/

theorem fileName?_own (name : FileName) : fileName? name.chars = some name := by
  rw [fileName?, dif_pos name.named, dif_pos name.plain]

theorem mapM_own (path : Path) : (path.map FileName.chars).mapM fileName? = some path := by
  induction path with
  | nil => rfl
  | cons name rest ih => rw [List.map_cons, List.mapM_cons, fileName?_own, ih]; rfl

theorem parts_posix {path : Path} (some_ : path ≠ []) : parts (posix path) = path.map FileName.chars := by
  have apart : ∀ l ∈ path.map FileName.chars, NameChar.char '/' ∉ l := by
    intro l member
    obtain ⟨name, -, rfl⟩ := List.mem_map.mp member
    exact name.plain.1
  rw [parts, posix, List.splitOn_intercalate _ apart (by simpa using some_), List.filter_eq_self]
  intro l member
  obtain ⟨name, -, rfl⟩ := List.mem_map.mp member
  simp [name.named.1, name.named.2.1]

theorem head_posix {path : Path} : (posix path).head? ≠ some (.char '/') := by
  cases path with
  | nil => exact fun never => by cases never
  | cons name rest =>
    obtain ⟨first, more, chars⟩ := List.exists_cons_of_ne_nil name.named.1
    have starts : (posix (name :: rest)).head? = some first := by
      cases rest with
      | nil => simp [posix, List.intercalate, chars]
      | cons second further => simp [posix, List.intercalate, chars]
    rw [starts]
    intro slash
    exact name.plain.1 (by rw [chars, Option.some.inj slash]; exact List.mem_cons_self)

theorem relativePath_posix {m : Info} {path : Path} (name : m.name = posix path)
    (kind : m.kind ≠ .other) (some_ : path ≠ []) :
    relativePath m = .ok path := by
  have inside : nameOf ".." ∉ path.map FileName.chars := by
    intro member
    obtain ⟨name, -, same⟩ := List.mem_map.mp member
    exact name.named.2.2 same
  have safe : ¬(m.name.head? = some (.char '/') ∨ nameOf ".." ∈ parts m.name ∨ parts m.name = []) := by
    rw [name, parts_posix some_]
    rintro (slash | up | none_)
    · exact head_posix slash
    · exact inside up
    · exact some_ (List.map_eq_nil_iff.mp none_)
  unfold relativePath
  dsimp only
  rw [if_neg safe, if_neg kind, name, parts_posix some_, mapM_own]

/-! The members of a tree, extracted one by one. -/

/-- What a member is written of. -/
abbrev Item := Path × Tree.Node

def memberOf (x : Item) : Tar.Member :=
  match x.2 with
  | .dir => { name := posix x.1, directory := true, mode := 0o755 }
  | .file f => { name := posix x.1, directory := false, mode := normalMode f.mode, content := f.content }

def itemsOf (found : Found) : List Item :=
  found.directories.map (fun path => (path, .dir)) ++ found.files.map fun x => (x.1, .file x.2)

theorem cacheMembers_items (found : Found) : cacheMembers found = (itemsOf found).map memberOf := by
  rw [cacheMembers, itemsOf, List.map_append, List.map_map, List.map_map]
  rfl

theorem kept_above {listing : Tree} {path part : Path} (there : listing.nodeAt path = some .dir)
    (h : part <+: path) :
    listing.nodeAt part = some .dir := by
  obtain ⟨rest, rfl⟩ := h
  rw [Tree.nodeAt_dir, Tree.subtree_append] at there
  rw [Tree.nodeAt_dir]
  cases found : listing.subtree part with
  | none => rw [found] at there; cases there
  | some inside => rfl

theorem parent_kept {listing : Tree} {path : Path} {f : File}
    (there : listing.nodeAt path = some (.file f)) :
    path ≠ [] ∧ listing.nodeAt path.dropLast = some .dir := by
  have some_ : path ≠ [] := by
    rintro rfl
    cases listing <;> cases there
  refine ⟨some_, ?_⟩
  rw [← List.dropLast_append_getLast some_, Tree.nodeAt_append listing _ (List.cons_ne_nil _ [])] at there
  obtain ⟨inside, found, -⟩ := Option.bind_eq_some_iff.mp there
  rw [Tree.nodeAt_dir, found]
  rfl

/-- Extraction so far: nothing but what is to be kept, all of what is done, and no file that is not. -/
structure Filled (listing : Tree) (staged : Path) (finished : List Path) (run : Run) : Prop where
  sound : ∀ path, run.entry (staged ++ path) = none ∨ run.entry (staged ++ path) = kept listing path
  complete : ∀ path ∈ finished, run.entry (staged ++ path) = kept listing path
  fresh : ∀ path f, listing.nodeAt path = some (.file f) → path ∉ finished →
    run.entry (staged ++ path) = none

variable {listing : Tree} {staged path : Path} {finished : List Path} {before run : Run} {f : File}

theorem fill_directories (standing : Standing staged before) (inside : Inside staged before run)
    (filled : Filled listing staged finished run) (there : listing.nodeAt path = some .dir) :
    ∃ made, run.mkdirs (staged ++ path) = .ok made ∧ Inside staged before made ∧
      Filled listing staged finished made ∧
      made.entry (staged ++ path) = some .dir := by
  have plain := inside.onWay standing (List.prefix_append staged path)
  have onPath : ∀ part, staged ++ part <+: staged ++ path → kept listing part = some .dir :=
      fun part h => by
    rw [kept, kept_above there ((List.prefix_append_right_inj staged).mp h)]
    rfl
  have free : ∀ q, Run.Between [] ([] ++ (staged ++ path)) q → run.entry q = none ∨
      run.entry q = some .dir := by
    rintro q ⟨-, -, part⟩
    rw [List.nil_append] at part
    rcases List.prefix_or_prefix_of_prefix part (List.prefix_append staged path) with upper | ⟨rest, rfl⟩
    · exact Or.inr (inside.above standing upper)
    · exact (filled.sound rest).imp_right fun same => same.trans (onPath rest part)
  obtain ⟨made, ok, entries⟩ := Run.ensure_made [] (staged ++ path) run free
  have done_ : run.mkdirs (staged ++ path) = .ok made := by
    rw [Run.mkdirs, Entries.realpath_plain plain]
    exact ok
  have grown := Run.mkdirs_grows plain
  rw [done_] at grown
  have each : ∀ part, made.entry (staged ++ part) = run.entry (staged ++ part) ∨
      made.entry (staged ++ part) = some .dir ∧ kept listing part = some .dir := by
    intro part
    by_cases between : Run.Between [] ([] ++ (staged ++ path)) (staged ++ part)
    · exact Or.inr ⟨(entries _).1 between, onPath part between.2.2⟩
    · exact Or.inl ((entries _).2 between)
  refine ⟨made, done_, inside.grow standing (List.prefix_append staged path) grown,
    ⟨fun part => ?_, fun part finished_ => ?_,
    fun part g file new => ?_⟩, ?_⟩
  · rcases each part with same | ⟨dir, keep⟩
    · rw [same]
      exact filled.sound part
    · exact Or.inr (dir.trans keep.symm)
  · rcases each part with same | ⟨dir, keep⟩
    · rw [same]
      exact filled.complete part finished_
    · exact dir.trans keep.symm
  · rcases each part with same | ⟨dir, keep⟩
    · rw [same]
      exact filled.fresh part g file new
    · rw [kept, file] at keep
      cases keep
  · by_cases empty : staged ++ path = []
    · rw [empty]
      rcases grown.entry [] with same | ⟨-, -, -, other, -⟩
      · exact same.trans (inside.above standing List.nil_prefix)
      · exact absurd rfl other
    · exact (entries _).1 ⟨List.nil_prefix, empty, List.prefix_rfl⟩

/-- A member of the archive leads to what it was written of. -/
theorem fill_member {node : Tree.Node} (total : Nat) (standing : Standing staged before)
    (inside : Inside staged before run)
    (filled : Filled listing staged finished run) (there : listing.nodeAt path = some node)
    (some_ : path ≠ [])
    (new : ∀ f, node = .file f → path ∉ finished)
    (room : total + (memberOf (path, node)).content.length ≤ maxRestoredCacheBytes) :
    ∃ made, extractMember staged staged total (infoOf (memberOf (path, node))) run = .ok made ∧
      Inside staged before made ∧
      Filled listing staged (path :: finished) made := by
  have below : staged <+: staged ++ path := List.prefix_append _ _
  have plain := inside.onWay standing below
  cases node with
  | dir =>
    obtain ⟨made, ok, inside, filled, top⟩ := fill_directories standing inside filled there
    have valid : relativePath (infoOf (memberOf (path, .dir))) = .ok path :=
      relativePath_posix rfl (fun same => MemberKind.noConfusion same) some_
    refine ⟨made, ?_, inside, ⟨filled.sound, fun part member => ?_, fun part g file new =>
      filled.fresh part g file fun member => new (List.mem_cons_of_mem _ member)⟩⟩
    · rw [extractMember, valid]
      dsimp only
      rw [Entries.realpath_plain plain]
      dsimp only
      rw [if_neg (not_not_intro below)]
      exact ok
    · rcases List.mem_cons.mp member with rfl | earlier
      · rw [top, kept, there]
        rfl
      · exact filled.complete part earlier
  | file f =>
    have valid : relativePath (infoOf (memberOf (path, .file f))) = .ok path :=
      relativePath_posix rfl (fun same => MemberKind.noConfusion same) some_
    obtain ⟨front, last, rfl⟩ : ∃ front last, path = front ++ [last] :=
      ⟨_, _, (List.dropLast_append_getLast some_).symm⟩
    have parent := (parent_kept there).2
    rw [List.dropLast_concat] at parent
    obtain ⟨made, ok, inside, filled, top⟩ := fill_directories standing inside filled parent
    have free : made.entry (staged ++ front ++ [last]) = none := by
      rw [List.append_assoc]
      exact filled.fresh _ f there (new f rfl)
    obtain ⟨final, created, own, others⟩ := Run.create_ok f.content (normalMode (normalMode f.mode))
      (inside.onWay standing (List.prefix_append staged front)) free top
    have written : Inside staged before (Run.after (.ok final)) :=
      created ▸ create_inside standing inside (List.prefix_append staged front)
    have space : ¬maxRestoredCacheBytes < total +
      (infoOf (memberOf (front ++ [last], .file f))).size.toNat := Nat.not_lt.mpr room
    refine ⟨final, ?_, written, ?_⟩
    · rw [extractMember, valid]
      dsimp only
      rw [Entries.realpath_plain plain]
      dsimp only
      rw [if_neg (not_not_intro below), if_neg (fun same => MemberKind.noConfusion same),
        if_neg space, ← List.append_assoc,
        List.getLast?_concat, List.dropLast_concat]
      dsimp only
      rw [ok]
      exact created
    · have entries (part : Path) : final.entry (staged ++ part) =
          if part = front ++ [last] then kept listing part else made.entry (staged ++ part) := by
        split
        · rename_i same
          rw [same, ← List.append_assoc, own, normalMode_idem, kept, there]
          rfl
        · rename_i other
          refine others _ fun same => other ?_
          rw [List.append_assoc] at same
          exact List.append_cancel_left same
      constructor
      · intro part
        rw [entries]
        split
        · exact Or.inr rfl
        · exact filled.sound part
      · intro part member
        rw [entries]
        split
        · rfl
        · rename_i other
          exact filled.complete part ((List.mem_cons.mp member).resolve_left other)
      · intro part g file new
        rw [entries, if_neg fun same : part = _ => new (same ▸ List.mem_cons_self)]
        exact filled.fresh part g file fun member => new (List.mem_cons_of_mem _ member)

/-- The names of a list of members that are left: each stands for what it is written of, and no file
is named twice. -/
structure Pending (listing : Tree) (items : List Item) (finished : List Path) : Prop where
  there : ∀ x ∈ items, x.1 ≠ [] ∧ listing.nodeAt x.1 = some x.2
  apart : items.Pairwise fun x y => ∀ f, y.2 = .file f → x.1 ≠ y.1
  new : ∀ x ∈ items, ∀ f, x.2 = .file f → x.1 ∉ finished

theorem Pending.next {x : Item} {rest : List Item} (pending : Pending listing (x :: rest) finished) :
    Pending listing rest (x.1 :: finished) := by
  obtain ⟨first, later⟩ := List.pairwise_cons.mp pending.apart
  refine ⟨fun y member => pending.there y (List.mem_cons_of_mem _ member), later,
    fun y member f file => ?_⟩
  intro again
  rcases List.mem_cons.mp again with same | earlier
  · exact first y member f file same.symm
  · exact pending.new y (List.mem_cons_of_mem _ member) f file earlier

def sizeOf_ (items : List Item) : Nat := (items.map fun x => (memberOf x).content.length).sum

theorem fill_members {items : List Item} (count total : Nat) (standing : Standing staged before)
    (inside : Inside staged before run)
    (filled : Filled listing staged finished run) (pending : Pending listing items finished)
    (few : count + items.length ≤ maxCacheFiles) (room : total + sizeOf_ items ≤ maxRestoredCacheBytes) :
    ∃ made, extractAll staged staged count total ((items.map memberOf).map infoOf) run = .ok made ∧
      Inside staged before made ∧
      Filled listing staged (items.reverse.map Prod.fst ++ finished) made := by
  induction items generalizing finished run count total with
  | nil => exact ⟨run, rfl, inside, filled⟩
  | cons x rest ih =>
    obtain ⟨path, node⟩ := x
    obtain ⟨some_, there⟩ : path ≠ [] ∧ listing.nodeAt path = some node :=
      pending.there (path, node) List.mem_cons_self
    rw [sizeOf_, List.map_cons, List.sum_cons] at room
    rw [List.length_cons] at few
    obtain ⟨middle, ok, inside, filled⟩ := fill_member total standing inside filled there some_
      (pending.new (path, node) List.mem_cons_self) (by omega)
    have size : (if (infoOf (memberOf (path, node))).kind = .directory then total
        else total + (infoOf (memberOf (path, node))).size.toNat) = total +
        (memberOf (path, node)).content.length := by
      cases node <;> rfl
    obtain ⟨made, done_, inside, filled⟩ :=
      ih _ _ inside filled pending.next (show count + 1 + rest.length ≤ _ by omega)
      (show total + (memberOf (path, node)).content.length + sizeOf_ rest ≤ _ by rw [sizeOf_]; omega)
    refine ⟨made, ?_, inside, ?_⟩
    · rw [List.map_cons, List.map_cons, extractAll]
      have within_ : ¬(maxCacheFiles < count + 1 ∨ (infoOf (memberOf (path, node))).size < 0) := by
        rintro (many | negative)
        · omega
        · exact absurd negative (Int.not_lt.mpr (Int.natCast_nonneg _))
      rw [if_neg within_, ok, size]
      exact done_
    · rwa [List.reverse_cons, List.map_append, List.append_assoc]

/-! What is written. -/

/-- What an archive is written of, within the limits a restore has. -/
theorem archiveMembers_found {source : Source} {members : List Tar.Member}
    (h : archiveMembers source = .ok members) :
    ∃ found, members = (itemsOf found).map memberOf ∧ found.files = source.listing.allFiles ∧
      found.directories = source.listing.allDirectories ∧ (itemsOf found).length ≤ maxCacheFiles ∧
      sizeOf_ (itemsOf found) ≤ maxRestoredCacheBytes := by
  obtain ⟨found, walked, h⟩ := bind_ok h
  obtain ⟨⟨⟩, counted, h⟩ := bind_ok h
  obtain ⟨-, -, h⟩ := bind_ok h
  obtain rfl := Except.ok.inj h
  obtain ⟨files, directories, total⟩ := Walker.walk_found walked
  refine ⟨found, cacheMembers_items found, files, directories, ?_, ?_⟩
  · unfold checkCount at counted
    split at counted
    · cases counted
    · rw [itemsOf, List.length_append, List.length_map, List.length_map]
      omega
  · have size : sizeOf_ (itemsOf found) = found.total := by
      have empty : ∀ paths : List Path, ((paths.map fun path => ((path, .dir) : Item)).map fun x =>
          (memberOf x).content.length).sum = 0 := by
        intro paths
        induction paths with
        | nil => rfl
        | cons path rest ih => rw [List.map_cons, List.map_cons, List.sum_cons, ih]; rfl
      rw [sizeOf_, itemsOf, List.map_append, List.sum_append, empty, total, ← files, Tree.size,
        List.map_map, Nat.zero_add]
      rfl
    rw [size]
    rcases Walker.walk_counted walked with none_ | ⟨earlier, taken, -, same⟩
    · rw [total, ← files, none_]
      exact Nat.zero_le _
    · have within_ : maxArchiveContentBytes ≤ maxRestoredCacheBytes := by decide
      unfold archiver checkFile at taken
      dsimp only at taken
      split at taken
      · cases taken
      · omega

theorem pending_items {found : Found} (proper : listing.Proper) (files : found.files = listing.allFiles)
    (directories : found.directories = listing.allDirectories) : Pending listing (itemsOf found) [] := by
  have dirs : ∀ path ∈ found.directories, path ≠ [] ∧ listing.nodeAt path = some .dir :=
      fun path member =>
    (Tree.mem_directories_iff proper).mp (directories ▸ member)
  have plain : ∀ x ∈ found.files, listing.nodeAt x.1 = some (.file x.2) := fun x member =>
    (Tree.mem_files_iff proper).mp (files ▸ member)
  refine ⟨fun x member => ?_, List.pairwise_append.mpr ⟨?_, ?_, ?_⟩, fun _ _ _ _ => List.not_mem_nil⟩
  · rcases List.mem_append.mp member with dir | file
    · obtain ⟨path, inside, rfl⟩ := List.mem_map.mp dir
      exact dirs path inside
    · obtain ⟨x, inside, rfl⟩ := List.mem_map.mp file
      exact ⟨(parent_kept (plain x inside)).1, plain x inside⟩
  · refine List.pairwise_map.mpr (List.pairwise_of_forall fun _ _ f never => ?_)
    cases never
  · have distinct := Tree.allFiles_nodup proper
    rw [← files] at distinct
    exact List.pairwise_map.mpr ((List.pairwise_map.mp distinct).imp fun other _ _ => other)
  · rintro x dir y file f - same
    obtain ⟨path, inside, rfl⟩ := List.mem_map.mp dir
    obtain ⟨z, there, rfl⟩ := List.mem_map.mp file
    have both := (dirs path inside).2
    rw [show path = z.1 from same, plain z there] at both
    cases both

/-- Once all of them are extracted the staging directory holds what is to be kept. -/
theorem Filled.whole {found : Found} (proper : listing.Proper) (files : found.files = listing.allFiles)
    (directories : found.directories = listing.allDirectories) (inside : Inside staged before run)
    (filled : Filled listing staged ((itemsOf found).reverse.map Prod.fst ++ []) run) (path : Path) :
    run.entry (staged ++ path) = kept listing path := by
  have listed : ∀ x ∈ itemsOf found, run.entry (staged ++ x.1) = kept listing x.1 := fun x member =>
    filled.complete _ (List.mem_append_left _ (List.mem_map_of_mem (List.mem_reverse.mpr member)))
  cases node : listing.nodeAt path with
  | none =>
    have nothing : kept listing path = none := by rw [kept, node]; rfl
    rcases filled.sound path with absent | same
    · rw [absent, nothing]
    · exact same
  | some node_ =>
    cases node_ with
    | dir =>
      by_cases root : path = []
      · rw [root, List.append_nil, inside.top]
        cases listing <;> rfl
      · have member : path ∈ found.directories :=
          directories ▸ (Tree.mem_directories_iff proper).mpr ⟨root, node⟩
        exact listed (path, .dir) (List.mem_append_left _ (List.mem_map_of_mem member))
    | file f =>
      have member : (path, f) ∈ found.files := files ▸ (Tree.mem_files_iff proper).mpr node
      exact listed (path, .file f) (List.mem_append_right _ (List.mem_map.mpr ⟨(path, f), member, rfl⟩))

/-- A destination that nothing but an archive keeps from being restored: directories or nothing on
the way, no link in its place, and a name for the staging directory that is free. -/
structure Usable (disk : Disk) (parent : Path) (name temporary : FileName) : Prop where
  onWay : ∀ q, q <+: parent → disk.entry q = none ∨ disk.entry q = some .dir
  unlinked : isLink (disk.entry (parent ++ [name])) = false
  free : disk.entry (parent ++ [temporary]) = none
  other : temporary ≠ name

variable {disk : Disk} {parent : Path} {name temporary : FileName} {first : Run}

theorem Usable.plain (usable : Usable disk parent name temporary) :
    ∀ q, q <+: parent ++ [name] → isLink (disk.entry q) = false := by
  intro q part
  rcases List.prefix_concat_iff.mp part with rfl | part
  · exact usable.unlinked
  · rcases usable.onWay q part with same | same
    · rw [same]
      rfl
    · rw [same]
      rfl

/-- The staging directory fills with what is to be kept. -/
theorem staging_filled (grown : OnWay disk parent first)
    (ready : ∀ q, q <+: parent → first.entry q = some .dir)
    (free : first.entry (parent ++ [temporary]) = none) {source : Source}
    {members : List Tar.Member} {file : TarFile}
    (proper : source.listing.Proper) (written : archiveMembers source = .ok members)
    (reads : file = ⟨members.map infoOf, none⟩) :
    ∃ made, extractArchive (parent ++ [temporary, payload]) file (staging parent temporary first) =
      .ok made ∧
      Inside (parent ++ [temporary, payload]) (staging parent temporary first) made ∧
      ∀ path, made.entry (parent ++ [temporary, payload] ++ path) = kept source.listing path := by
  obtain ⟨found, rfl, files, directories, few, room⟩ := archiveMembers_found written
  have standing := staging_standing temporary ready
  have inside := grown.staging_inside free
  have below (path : Path) : parent ++ [temporary] <+: parent ++ [temporary, payload] ++ path :=
    (staged_below parent temporary).trans (List.prefix_append _ _)
  have empty : ∀ path, path ≠ [] → (staging parent temporary first).entry
      (parent ++ [temporary, payload] ++ path) = none := by
    intro path some_
    have apart : parent ++ [temporary, payload] ++ path ≠ parent ++ [temporary, payload] :=
      fun same => some_ (by simpa using same)
    have apart' : parent ++ [temporary, payload] ++ path ≠ parent ++ [temporary] := by simp
    rw [staging, Run.put_other _ _ apart, Run.put_other _ _ apart', grown.free_below free (below path)]
  have filled : Filled source.listing (parent ++ [temporary, payload]) []
      (staging parent temporary first) := by
    refine ⟨fun path => ?_, fun path member => absurd member List.not_mem_nil,
      fun path f file _ => empty path (parent_kept file).1⟩
    by_cases root : path = []
    · refine Or.inr ?_
      rw [root, List.append_nil, inside.top]
      cases source.listing <;> rfl
    · exact Or.inl (empty path root)
  obtain ⟨made, ok, inside', filled'⟩ := fill_members 0 0 standing inside filled
    (pending_items proper files directories) (by omega) (by omega)
  refine ⟨made, ?_, inside', filled'.whole proper files directories inside'⟩
  have root := Entries.realpath_plain (inside.onWay standing (p := parent ++ [temporary, payload])
    List.prefix_rfl)
  rw [extractArchive, root, reads]
  dsimp only
  rw [ok]
  rfl

theorem restore_written {read : Blob → TarFile} {archive : Blob} {source : Source}
    {members : List Tar.Member}
    (usable : Usable disk parent name temporary) (proper : source.listing.Proper)
    (written : archiveMembers source = .ok members) (reads : read archive = ⟨members.map infoOf, none⟩) :
    ∃ run, restoreArchive read parent name temporary archive disk.entry = .ok run ∧
      ∀ path, run.entry (parent ++ [name] ++ path) = kept source.listing path := by
  have plain := usable.plain
  have onParent : ∀ q, q <+: parent → isLink (disk.entry q) = false := fun q part =>
    plain q (part.trans (List.prefix_append parent [name]))
  have unlinked : (parent ++ [name]).inits.any disk.entry.isSymlink = false := by
    refine List.any_eq_false.mpr fun q member => ?_
    rw [Entries.isSymlink_plain fun r part => plain r (part.trans ((List.mem_inits _ _).mp member))]
    exact Bool.false_ne_true
  obtain ⟨first, ready, entries⟩ := Run.ensure_made [] parent ⟨disk.entry, []⟩ fun q between =>
    usable.onWay q between.2.2
  have done_ : Run.mkdirs parent ⟨disk.entry, []⟩ = .ok first := by
    rw [Run.mkdirs, Entries.realpath_plain onParent]
    exact ready
  have grown : OnWay disk parent first := by
    have grown : OnWay disk parent (Run.after (Run.mkdirs parent ⟨disk.entry, []⟩)) :=
      Run.mkdirs_grows onParent
    rw [done_] at grown
    exact grown
  have standing : ∀ q, q <+: parent → first.entry q = some .dir := by
    intro q part
    by_cases root : q = []
    · rw [root, (entries []).2 fun between => between.2.1 rfl]
      exact disk.root
    · exact (entries q).1 ⟨List.nil_prefix, root, part⟩
  have free : first.entry (parent ++ [temporary]) = none :=
    ((entries (parent ++ [temporary])).2 fun between => not_onWay List.prefix_rfl
      (show _ <+: parent from between.2.2)).trans
      usable.free
  obtain ⟨made, extracted, inside, whole⟩ := staging_filled grown standing free proper written reads
  have apart (path : Path) : ¬parent ++ [name] <+: parent ++ [temporary, payload] ++ path := by
    intro below
    rw [List.append_assoc] at below
    exact usable.other (List.cons_prefix_cons.mp ((List.prefix_append_right_inj parent).mp below)).1.symm
  have apart' (path : Path) : ¬parent ++ [temporary] <+: parent ++ [name] ++ path := by
    intro below
    rw [List.append_assoc] at below
    exact usable.other (List.cons_prefix_cons.mp ((List.prefix_append_right_inj parent).mp below)).1
  rcases Run.rename_cases (parent ++ [temporary, payload]) (parent ++ [name])
    (if made.entry (parent ++ [name]) = none then made else made.remove (parent ++ [name])) with
    ⟨gone, -⟩ | ⟨moved, ok, whole'⟩
  · have out := apart []
    rw [List.append_nil] at out
    rw [clear_entry made _ _ out, inside.top] at gone
    cases gone
  · refine ⟨moved.remove (parent ++ [temporary]), ?_, fun path => ?_⟩
    · have second : (first.put (parent ++ [temporary]) .dir).mkdir (parent ++ [temporary]) payload =
          .ok (staging parent temporary first) := by
        rw [← staging_put]
        refine Run.mkdir_ok (staging_plain temporary standing) ?_ (Run.put_entry _ _ _)
        rw [Run.put_other _ _ (by simp)]
        exact grown.free_below free (List.prefix_append _ _)
      unfold restoreArchive
      dsimp only
      rw [unlinked, if_neg Bool.false_ne_true, done_]
      show (first.mkdir parent temporary >>= _) = _
      rw [Run.mkdir_ok (fun q part => by rw [standing q part]; rfl) free
        (standing parent List.prefix_rfl)]
      show within _ ((first.put (parent ++ [temporary]) .dir).mkdir (parent ++ [temporary])
        payload >>= _) = _
      rw [second]
      show within _ (extractArchive _ (read archive) (staging parent temporary first) >>= _) = _
      rw [extracted]
      show within _ (install _ _ made) = _
      rw [install, ok]
      rfl
    · show (if _ then none else moved.entry (parent ++ [name] ++ path)) = _
      rw [if_neg (apart' path), whole'.there, clear_entry made _ _ (apart path), whole]

/-- The directory as an archive is written of it, after a repair of its permissions where they kept
it from being read. -/
def ReadAs (source : Source) (makeReadable : Option Repair) (readable : Source) : Prop :=
  readable = source ∨ ∃ repair, makeReadable = some repair ∧ repair.run source = .ok readable

theorem ReadAs.bare {source readable : Source} {makeReadable : Option Repair}
    (read : ReadAs source makeReadable readable) :
    readable.listing.bare = source.listing.bare := by
  rcases read with rfl | ⟨repair, -, ran⟩
  · rfl
  · exact repair.keeps _ _ ran

theorem createArchive_written {tar : TarLibrary} {source : Source} {makeReadable : Option Repair}
    {archive : Blob} {answer : Bool}
    (created : createArchive tar (.directory source) makeReadable = .ok (some archive, answer)) :
    ∃ readable members, ReadAs source makeReadable readable ∧ archiveMembers readable = .ok members ∧
      archive = tar.write members := by
  obtain ⟨members, written, h⟩ := bind_ok created
  obtain ⟨_, _, h⟩ := bind_ok h
  obtain rfl := Option.some.inj (Prod.mk.inj (Except.ok.inj h)).1
  unfold writeReadable at written
  split at written
  · rename_i repair _
    split at written
    · cases written
    · rename_i readable ran
      exact ⟨readable, members, Or.inr ⟨repair, rfl, ran⟩, written, rfl⟩
  · exact ⟨source, members, Or.inl rfl, written, rfl⟩

theorem createArchive_readable {tar : TarLibrary} {source : Source} {members : List Tar.Member}
    {answer : Bool}
    (written : archiveMembers source = .ok members)
    (holds : holdsFile (tar.read (tar.write members)) = .ok answer) :
    createArchive tar (.directory source) none = .ok (some (tar.write members), answer) := by
  have readable : writeReadable source none = .ok members := by
    unfold writeReadable
    split
    · contradiction
    · exact written
  rw [createArchive, readable]
  show (holdsFile (tar.read (tar.write members)) >>= _) = _
  rw [holds]
  rfl

/-- A restore of any bytes stays where it may, and a refusal leaves the destination as it was. What
is archived of a directory is restored as its files and directories, if the library reads the
members back. -/
theorem archive_round_trip (tar : TarLibrary) (disk : Disk) (parent : Path) (name temporary : FileName) :
    (∀ archive, Contained disk parent name temporary
      (restoreArchive tar.read parent name temporary archive disk.entry)) ∧
      ∀ source makeReadable archive answer, source.listing.Proper → Usable disk parent name temporary →
        createArchive tar (.directory source) makeReadable = .ok (some archive, answer) →
        ∃ readable members, ReadAs source makeReadable readable ∧
          readable.listing.bare = source.listing.bare ∧
          archiveMembers readable = .ok members ∧ archive = tar.write members ∧
          (tar.read archive = ⟨members.map infoOf, none⟩ →
            ∃ run, restoreArchive tar.read parent name temporary archive disk.entry = .ok run ∧
              ∀ path, run.entry (parent ++ [name] ++ path) = kept readable.listing path) := by
  refine ⟨fun archive => restore_contained tar.read archive disk parent name temporary, ?_⟩
  intro source makeReadable archive answer proper usable created
  obtain ⟨readable, members, readAs, written, rfl⟩ := createArchive_written created
  have proper' : readable.listing.Proper := by
    rw [← Tree.proper_bare, readAs.bare, Tree.proper_bare]
    exact proper
  exact ⟨readable, members, readAs, readAs.bare, written, rfl, fun reads => restore_written usable
    proper' written reads⟩

def bareDisk : Disk where
  entry p := if p = [] then some .dir else none
  root := rfl
  closed p name there := absurd (if_neg (by simp)) there

def cacheName : FileName := ⟨nameOf "cache", by decide, by decide⟩
def pnpmName : FileName := ⟨nameOf "pnpm", by decide, by decide⟩
def temporaryName : FileName := ⟨nameOf ".cindral-cache-restore-k3x9w_2a", by decide, by decide⟩
def storeName : FileName := ⟨nameOf "v3", by decide, by decide⟩
def indexName : FileName := ⟨nameOf "index.json", by decide, by decide⟩

/-- A cache directory with one file in a directory of its own. -/
def pnpmStore : Source :=
  { listing := .dir storeName none (.file indexName ⟨Tar.ascii "\x7b\x7d", 0o600, none⟩ .nil) .nil }

def pnpmMembers : List Tar.Member :=
  [{ name := posix [storeName], directory := true, mode := 0o755 },
    { name := posix [storeName, indexName], directory := false, mode := 0o644, content := Tar.ascii
        "\x7b\x7d" }]

/-- A library that reads back the archive of these members, and no other bytes. -/
def readingBack (members : List Tar.Member) : TarLibrary where
  write := Tar.archive
  read blob :=
  if blob = Tar.archive members then ⟨members.map infoOf, none⟩ else ⟨[], some "not a gzip file"⟩

theorem readingBack_read (members : List Tar.Member) :
    (readingBack members).read (Tar.archive members) = ⟨members.map infoOf, none⟩ := if_pos rfl

theorem pnpmStore_restored : ∃ run,
    restoreArchive (readingBack pnpmMembers).read [cacheName] pnpmName temporaryName
      (Tar.archive pnpmMembers)
      bareDisk.entry = .ok run ∧ ∀ path, run.entry ([cacheName] ++ [pnpmName] ++ path) = kept
      pnpmStore.listing path := by
  have written : archiveMembers pnpmStore = .ok pnpmMembers := rfl
  have reads : (readingBack pnpmMembers).read (Tar.archive pnpmMembers) =
      ⟨pnpmMembers.map infoOf, none⟩ :=
    readingBack_read pnpmMembers
  have created : createArchive (readingBack pnpmMembers) (.directory pnpmStore) none =
      .ok (some (Tar.archive pnpmMembers), true) := by
    have holds : holdsFile ((readingBack pnpmMembers).read (Tar.archive pnpmMembers)) = .ok true := by
      rw [reads]
      rfl
    exact createArchive_readable written holds
  have usable : Usable bareDisk [cacheName] pnpmName temporaryName := by
    refine ⟨fun q part => ?_, by decide, by decide, by decide⟩
    by_cases root : q = []
    · exact Or.inr (if_pos root)
    · exact Or.inl (if_neg root)
  have proper : pnpmStore.listing.Proper := ⟨by decide, ⟨by decide, trivial⟩, trivial⟩
  obtain ⟨readable, members, readAs, -, members_, -, restored⟩ :=
    (archive_round_trip (readingBack pnpmMembers) bareDisk [cacheName] pnpmName temporaryName).2
      pnpmStore none _ true proper
      usable created
  rcases readAs with rfl | ⟨repair, never, -⟩
  · rw [← Except.ok.inj (written.symm.trans members_)] at restored
    exact restored reads
  · cases never

/-- A file that no archive can be read from. -/
def unreadable (_ : Blob) : TarFile := ⟨[], some "not a gzip file"⟩

/-- A refused restore has made the directory above its destination. -/
theorem refused_restore_leaves_parent : ∃ e run,
    restoreArchive unreadable [cacheName] pnpmName temporaryName [] bareDisk.entry = .error (e, run) ∧
      ¬[cacheName] ++ [pnpmName] <+: [cacheName] ∧ bareDisk.entry [cacheName] = none ∧
      run.entry [cacheName] = some .dir := by
  refine ⟨_, _, rfl, by decide, by decide, by decide⟩

end Cindral.Adapters
