import Cindral.Adapters.Archive

/-! Where a restore writes, and that one that is refused leaves the destination as it was. -/

namespace Cindral.Adapters
open Base Base.FileSystem

/-- Extraction so far: all that has changed is below the staging directory, where no link stands. -/
structure Inside (staged : Path) (before run : Run) : Prop where
  outside : ∀ q, ¬staged <+: q → run.entry q = before.entry q
  written : ∀ q ∈ run.written, q ∈ before.written ∨ staged <+: q
  plain : ∀ q, staged <+: q → isLink (run.entry q) = false
  top : run.entry staged = some .dir

def Standing (staged : Path) (before : Run) : Prop := ∀ q, q <+: staged → before.entry q = some .dir

namespace Inside
variable {staged p : Path} {before run run' : Run} {name : FileName}

theorem above (standing : Standing staged before) (inside : Inside staged before run) {q : Path}
    (part : q <+: staged) :
    run.entry q = some .dir := by
  by_cases same : q = staged
  · rw [same, inside.top]
  · rw [inside.outside q fun back => same
      (part.eq_of_length (Nat.le_antisymm part.length_le back.length_le)), standing q part]

theorem onWay (standing : Standing staged before) (inside : Inside staged before run)
    (below : staged <+: p) :
    ∀ q, q <+: p → isLink (run.entry q) = false := by
  intro q part
  rcases List.prefix_or_prefix_of_prefix part below with upper | lower
  · rw [inside.above standing upper]
    rfl
  · exact inside.plain q lower

theorem grow (standing : Standing staged before) (inside : Inside staged before run)
    (below : staged <+: p)
    (grown : Run.Grows (Run.Between [] p) run run') : Inside staged before run' := by
  have fresh : ∀ q, run.entry q = none → q <+: p → staged <+: q := by
    intro q absent part
    rcases List.prefix_or_prefix_of_prefix part below with upper | lower
    · rw [inside.above standing upper] at absent
      cases absent
    · exact lower
  constructor
  · intro q other
    rcases grown.entry q with same | ⟨absent, -, -, -, part⟩
    · rw [same, inside.outside q other]
    · exact absurd (fresh q absent part) other
  · intro q later
    rcases grown.written q later with earlier | ⟨absent, -, -, part⟩
    · exact inside.written q earlier
    · exact Or.inr (fresh q absent part)
  · intro q lower
    rcases grown.entry q with same | ⟨-, made, -⟩
    · rw [same, inside.plain q lower]
    · rw [made]
      rfl
  · rcases grown.entry staged with same | ⟨-, made, -⟩
    · rw [same, inside.top]
    · exact made

theorem put {e : Entry} (inside : Inside staged before run) (below : staged <+: p) (other : p ≠ staged)
    (plain : isLink (some e) = false) :
    Inside staged before (run.put p e) := by
  constructor
  · intro q out
    rw [← inside.outside q out]
    exact Function.update_of_ne (fun same : q = p => out (same ▸ below)) _ _
  · intro q later
    rcases List.mem_cons.mp later with rfl | earlier
    · exact Or.inr below
    · exact inside.written q earlier
  · intro q lower
    by_cases same : q = p
    · rw [same]
      exact (congrArg isLink (Function.update_self p (some e) run.entry)).trans plain
    · exact (congrArg isLink (Function.update_of_ne same (some e) run.entry)).trans (inside.plain q lower)
  · exact (Function.update_of_ne (Ne.symm other) _ _).trans inside.top

end Inside

variable {staged root : Path} {before run : Run} {total : Nat} {m : Info}

theorem create_inside {p : Path} {name : FileName} {content : List UInt8} {whole : Bool} {mode : Nat}
    (standing : Standing staged before) (inside : Inside staged before run) (below : staged <+: p) :
    Inside staged before (Run.after (run.create p name content whole mode)) := by
  have lower : staged <+: p ++ [name] := below.trans (List.prefix_append p [name])
  have other : p ++ [name] ≠ staged := by
    rintro rfl
    have long := below.length_le
    rw [List.length_append, List.length_singleton] at long
    omega
  rw [Run.create, Entries.realpath_plain (inside.onWay standing below)]
  dsimp only
  split
  · have copied : Inside staged before (run.put (p ++ [name]) (.file content 0o644)) :=
      inside.put lower other rfl
    split
    · exact copied.put lower other rfl
    · exact copied
  · exact inside
  · exact inside

theorem fileName?_chars {chars : List NameChar} {name : FileName}
    (h : fileName? chars = some name) : name.chars = chars := by
  unfold fileName? at h
  split at h
  · split at h
    · exact (congrArg FileName.chars (Option.some.inj h)).symm
    · cases h
  · cases h

theorem mapM_fileName {all : List (List NameChar)} {path : Path} (h : all.mapM fileName? = some path) :
    path.map FileName.chars = all := by
  induction all generalizing path with
  | nil =>
    obtain rfl := Option.some.inj h
    rfl
  | cons chars rest ih =>
    rw [List.mapM_cons] at h
    obtain ⟨name, first, h⟩ := Option.bind_eq_some_iff.mp h
    obtain ⟨names, later, h⟩ := Option.bind_eq_some_iff.mp h
    obtain rfl := Option.some.inj h
    rw [List.map_cons, fileName?_chars first, ih later]

theorem relativePath_some {relative : Path} (h : relativePath m = .ok relative) : relative ≠ [] := by
  unfold relativePath at h
  dsimp only at h
  split at h
  · cases h
  rename_i safe
  split at h
  · cases h
  split at h
  · cases h
  rename_i path named
  obtain rfl := Except.ok.inj h
  rintro rfl
  exact safe (Or.inr (Or.inr (mapM_fileName named).symm))

theorem extractMember_inside (standing : Standing staged before) (inside : Inside staged before run) :
    Inside staged before (Run.after (extractMember staged root total m run)) := by
  unfold extractMember
  split
  · exact inside
  rename_i relative valid
  have below : staged <+: staged ++ relative := List.prefix_append _ _
  dsimp only
  rw [Entries.realpath_plain (inside.onWay standing below)]
  dsimp only
  split
  · exact inside
  split
  · exact inside.grow standing below (Run.mkdirs_grows (inside.onWay standing below))
  split
  · exact inside
  split
  · exact inside
  · rename_i name last
    have upper : staged <+: (staged ++ relative).dropLast := by
      rw [List.dropLast_append_of_ne_nil (relativePath_some valid)]
      exact List.prefix_append _ _
    refine Run.after_bind ?_ fun run inside => create_inside standing inside upper
    exact inside.grow standing upper (Run.mkdirs_grows (inside.onWay standing upper))

theorem extractAll_inside {count : Nat} {members : List Info} (standing : Standing staged before)
    (inside : Inside staged before run) :
    Inside staged before (Run.after (extractAll staged root count total members run)) := by
  induction members generalizing count total run with
  | nil => exact inside
  | cons m rest ih =>
    rw [extractAll]
    split
    · exact inside
    · exact Run.after_bind (extractMember_inside standing inside) fun run inside => ih inside

theorem extractArchive_inside (file : TarFile) (standing : Standing staged before)
    (inside : Inside staged before run) :
    Inside staged before (Run.after (extractArchive staged file run)) := by
  unfold extractArchive
  split
  · exact inside
  · refine Run.after_bind (extractAll_inside standing inside) fun run inside => ?_
    split
    · exact inside
    · exact inside

/-- A call worked in a directory where nothing stood. -/
structure Beside (temporary : Path) (before run : Run) : Prop where
  outside : ∀ q, ¬temporary <+: q → run.entry q = before.entry q
  written : ∀ q ∈ run.written, q ∈ before.written ∨ temporary <+: q

variable {disk : Disk} {parent : Path} {name temporary : FileName} {first : Run}

/-- What a restore may leave: outside the destination only the directories on the way to it are new,
and a refusal leaves the destination too as it was. The staging directory, beside the destination,
has come and gone. -/
structure Contained (disk : Disk) (parent : Path) (name temporary : FileName) (out : Outcome) : Prop where
  written : ∀ q ∈ (Run.after out).written,
    parent ++ [name] <+: q ∨ parent ++ [temporary] <+: q ∨ q <+: parent ∧ disk.entry q = none
  outside : ∀ q, ¬parent ++ [name] <+: q → (Run.after out).entry q = disk.entry q ∨
    q <+: parent ∧ disk.entry q = none ∧ (Run.after out).entry q = some .dir
  refused : (∃ e, out = .error e) → ∀ q, parent ++ [name] <+: q → (Run.after out).entry q = disk.entry q

/-- The directories on the way have been made. -/
abbrev OnWay (disk : Disk) (parent : Path) (first : Run) : Prop :=
  Run.Grows (Run.Between [] parent) ⟨disk.entry, []⟩ first

theorem not_onWay {q : Path} (below : parent ++ [name] <+: q) : ¬q <+: parent := by
  intro part
  have long := (below.trans part).length_le
  rw [List.length_append, List.length_singleton] at long
  omega

theorem OnWay.contained_error (grown : OnWay disk parent first) (name temporary : FileName) (e : Raised) :
    Contained disk parent name temporary (.error (e, first)) := by
  constructor
  · intro q written
    rcases grown.written q written with early | ⟨absent, -, -, part⟩
    · cases early
    · exact Or.inr (Or.inr ⟨part, absent⟩)
  · intro q _
    exact (grown.entry q).imp_right fun ⟨absent, made, _, _, part⟩ => ⟨part, absent, made⟩
  · rintro - q below
    rcases grown.entry q with same | ⟨-, -, -, -, part⟩
    · exact same
    · exact absurd part (not_onWay below)

theorem OnWay.free_below (grown : OnWay disk parent first)
    (free : first.entry (parent ++ [temporary]) = none) {q : Path}
    (below : parent ++ [temporary] <+: q) : first.entry q = none := by
  rcases grown.entry q with same | ⟨-, -, -, -, part⟩
  · rw [same]
    exact disk.none_below (grown.none_before free) below
  · exact absurd part (not_onWay below)

theorem OnWay.removed (grown : OnWay disk parent first)
    (free : first.entry (parent ++ [temporary]) = none) {run : Run}
    (beside : Beside (parent ++ [temporary]) first run) (q : Path) :
    (run.remove (parent ++ [temporary])).entry q = first.entry q := by
  show (if parent ++ [temporary] <+: q then none else run.entry q) = first.entry q
  split
  · rename_i below
    exact (grown.free_below free below).symm
  · rename_i out
    exact beside.outside q out

theorem OnWay.beside_error (grown : OnWay disk parent first)
    (free : first.entry (parent ++ [temporary]) = none) {run : Run}
    (beside : Beside (parent ++ [temporary]) first run) (e : Raised) :
    Contained disk parent name temporary (within (parent ++ [temporary]) (.error (e, run))) := by
  have early := grown.contained_error name temporary e
  have entries := grown.removed free beside
  constructor
  · intro q written
    rcases List.mem_cons.mp written with rfl | later
    · exact Or.inr (Or.inl List.prefix_rfl)
    · rcases beside.written q later with before | below
      · exact early.written q before
      · exact Or.inr (Or.inl below)
  · intro q out
    rw [show (Run.after (within (parent ++ [temporary]) (.error (e, run)))).entry q = first.entry
      q from entries q]
    exact early.outside q out
  · rintro - q below
    exact (entries q).trans (early.refused ⟨_, rfl⟩ q below)

theorem clear_entry (run : Run) (destination q : Path) (out : ¬destination <+: q) :
    (if run.entry destination = none then run else run.remove destination).entry q = run.entry q := by
  split
  · rfl
  · exact if_neg out

theorem clear_written {run : Run} {destination q : Path}
    (h : q ∈ (if run.entry destination = none then run else run.remove destination).written) :
    q = destination ∨ q ∈ run.written := by
  split at h
  · exact Or.inr h
  · exact List.mem_cons.mp h

theorem staged_below (parent : Path) (temporary : FileName) :
    parent ++ [temporary] <+: parent ++ [temporary, payload] :=
  ⟨[payload], by simp⟩

theorem OnWay.installed (grown : OnWay disk parent first)
    (free : first.entry (parent ++ [temporary]) = none) {run : Run}
    (beside : Beside (parent ++ [temporary]) first run)
    (top : run.entry (parent ++ [temporary, payload]) = some .dir) :
    Contained disk parent name temporary
      (within (parent ++ [temporary]) (install (parent ++ [temporary, payload]) (parent ++ [name])
      run)) := by
  have early := grown.contained_error name temporary .fileNotFound
  unfold install
  rcases Run.rename_cases (parent ++ [temporary, payload]) (parent ++ [name])
    (if run.entry (parent ++ [name]) = none then run else run.remove (parent ++ [name])) with ⟨gone,
    raised⟩ | ⟨moved, ok, whole⟩
  · -- what stood at the destination was the staging directory, and it has been removed
    have inside : parent ++ [name] <+: parent ++ [temporary, payload] := by
      by_contra out
      rw [clear_entry run _ _ out, top] at gone
      cases gone
    obtain rfl : name = temporary :=
      (List.cons_prefix_cons.mp ((List.prefix_append_right_inj parent).mp inside)).1
    rw [raised]
    refine grown.beside_error free ⟨fun q out => ?_, fun q written => ?_⟩ _
    · rw [clear_entry run _ _ out, beside.outside q out]
    · rcases clear_written written with rfl | later
      · exact Or.inr List.prefix_rfl
      · exact beside.written q later
  · rw [ok]
    constructor
    · intro q written
      rcases List.mem_cons.mp written with rfl | written
      · exact Or.inr (Or.inl List.prefix_rfl)
      rw [whole.written] at written
      rcases List.mem_cons.mp written with rfl | written
      · exact Or.inl List.prefix_rfl
      rcases List.mem_cons.mp written with rfl | written
      · exact Or.inr (Or.inl (staged_below parent temporary))
      rcases clear_written written with rfl | written
      · exact Or.inl List.prefix_rfl
      · rcases beside.written q written with before | below
        · exact early.written q before
        · exact Or.inr (Or.inl below)
    · intro q out
      have same : (moved.remove (parent ++ [temporary])).entry
          q = (run.remove (parent ++ [temporary])).entry q := by
        show (if _ then none else moved.entry q) = if _ then none else run.entry q
        split
        · rfl
        · rename_i apart
          rw [whole.outside q out fun below => apart ((staged_below parent temporary).trans below),
            clear_entry run _ _ out]
      have settled := same.trans (grown.removed free beside q)
      rw [show (Run.after (within (parent ++ [temporary]) (.ok moved))).entry q = first.entry
        q from settled]
      exact early.outside q out
    · rintro ⟨e, never⟩
      cases never

def staging (parent : Path) (temporary : FileName) (first : Run) : Run :=
  (first.put (parent ++ [temporary]) .dir).put (parent ++ [temporary, payload]) .dir

theorem staging_put : (first.put (parent ++ [temporary]) .dir).put
    (parent ++ [temporary] ++ [payload]) .dir =
    staging parent temporary first := by
  rw [staging, List.append_assoc]
  rfl

/-- No link is on the way to the payload before it is made. -/
theorem staging_plain (temporary : FileName) (ready : ∀ q, q <+: parent → first.entry q = some .dir) :
    ∀ q, q <+: parent ++ [temporary] → isLink ((first.put (parent ++ [temporary]) .dir).entry q) =
    false := by
  intro q part
  rcases List.prefix_concat_iff.mp part with rfl | part
  · rw [Run.put_entry]
    rfl
  · have other : q ≠ parent ++ [temporary] := by
      rintro rfl
      exact not_onWay List.prefix_rfl part
    rw [Run.put_other _ _ other, ready q part]
    rfl

theorem staging_outside {q : Path} (out : ¬parent ++ [temporary] <+: q) :
    (staging parent temporary first).entry q = first.entry q := by
  rw [staging, Run.put_other _ _ fun same : q = _ => out (same ▸ staged_below parent temporary),
    Run.put_other _ _ fun same : q = _ => out (same ▸ List.prefix_rfl)]

theorem staging_written {q : Path} (h : q ∈ (staging parent temporary first).written) :
    q ∈ first.written ∨ parent ++ [temporary] <+: q := by
  rcases List.mem_cons.mp h with rfl | h
  · exact Or.inr (staged_below parent temporary)
  rcases List.mem_cons.mp h with rfl | h
  · exact Or.inr List.prefix_rfl
  · exact Or.inl h

theorem staging_standing (temporary : FileName) (ready : ∀ q, q <+: parent → first.entry q = some .dir) :
    Standing (parent ++ [temporary, payload]) (staging parent temporary first) := by
  intro q part
  rw [show parent ++ [temporary, payload] = parent ++ [temporary] ++ [payload] by simp] at part
  rcases List.prefix_concat_iff.mp part with rfl | part
  · rw [List.append_assoc]
    exact Run.put_entry _ _ _
  rcases List.prefix_concat_iff.mp part with rfl | part
  · rw [staging, Run.put_other _ _ (by simp)]
    exact Run.put_entry _ _ _
  · have out : ¬parent ++ [temporary] <+: q := fun below => not_onWay below part
    rw [staging_outside out, ready q part]

theorem OnWay.staging_inside (grown : OnWay disk parent first)
    (free : first.entry (parent ++ [temporary]) = none) :
    Inside (parent ++ [temporary, payload]) (staging parent temporary first)
    (staging parent temporary first) := by
  refine ⟨fun _ _ => rfl, fun _ => Or.inl, fun q below => ?_, Run.put_entry _ _ _⟩
  by_cases same : q = parent ++ [temporary, payload]
  · rw [same, staging, Run.put_entry]
    rfl
  · have other : q ≠ parent ++ [temporary] := by
      rintro rfl
      have long := below.length_le
      simp at long
    rw [staging, Run.put_other _ _ same, Run.put_other _ _ other, grown.free_below free
      ((staged_below parent temporary).trans below)]
    rfl

theorem Inside.beside {run : Run}
    (inside : Inside (parent ++ [temporary, payload]) (staging parent temporary first) run) :
    Beside (parent ++ [temporary]) first run := by
  constructor
  · intro q out
    rw [inside.outside q fun below => out ((staged_below parent temporary).trans below),
      staging_outside out]
  · intro q written
    rcases inside.written q written with before | below
    · exact staging_written before
    · exact Or.inr ((staged_below parent temporary).trans below)

/-- The part of a restore in the staging directory. -/
theorem OnWay.within_staging (grown : OnWay disk parent first)
    (ready : ∀ q, q <+: parent → first.entry q = some .dir)
    (free : first.entry (parent ++ [temporary]) = none) (file : TarFile) :
    Contained disk parent name temporary (within (parent ++ [temporary]) do
      let run ← (first.put (parent ++ [temporary]) .dir).mkdir (parent ++ [temporary]) payload
      let run ← extractArchive (parent ++ [temporary, payload]) file run
      install (parent ++ [temporary, payload]) (parent ++ [name]) run) := by
  rcases Run.mkdir_cases payload (staging_plain temporary ready) with ⟨e, raised⟩ | ⟨-, made⟩
  · rw [raised]
    refine grown.beside_error free ⟨fun q out => ?_, fun q written => ?_⟩ e
    · exact Run.put_other _ _ fun same => out (same ▸ List.prefix_rfl)
    · rcases List.mem_cons.mp written with rfl | early
      · exact Or.inr List.prefix_rfl
      · exact Or.inl early
  · rw [made, staging_put]
    have inside := extractArchive_inside file (staging_standing temporary ready)
      (grown.staging_inside free)
    show Contained disk parent name temporary
      (within _ (extractArchive _ file (staging parent temporary first) >>= _))
    cases extracted : extractArchive (parent ++ [temporary, payload]) file
      (staging parent temporary first) with
    | error stop =>
      rw [extracted] at inside
      exact grown.beside_error free inside.beside stop.1
    | ok run =>
      rw [extracted] at inside
      exact grown.installed free inside.beside inside.top

/-- Wherever a restore stops, it has written to the destination, to its own staging directory and on
the way to these. -/
theorem restore_contained (read : Blob → TarFile) (archive : Blob) (disk : Disk) (parent : Path)
    (name temporary : FileName) :
    Contained disk parent name temporary
    (restoreArchive read parent name temporary archive disk.entry) := by
  unfold restoreArchive
  dsimp only
  split
  · have start : OnWay disk parent ⟨disk.entry, []⟩ := Run.Grows.refl
    exact start.contained_error _ _ _
  rename_i checked
  have plain : ∀ q, q <+: parent ++ [name] → isLink (disk.entry q) = false := by
    refine Entries.plain_of_checked (by rw [disk.root]; rfl) fun q part => ?_
    rw [Bool.not_eq_true, List.any_eq_false] at checked
    exact Bool.not_eq_true _ ▸ checked q ((List.mem_inits _ _).mpr part)
  have grown : OnWay disk parent (Run.after (Run.mkdirs parent ⟨disk.entry, []⟩)) :=
    Run.mkdirs_grows fun q part => plain q (part.trans (List.prefix_append parent [name]))
  cases ready : Run.mkdirs parent ⟨disk.entry, []⟩ with
  | error stop =>
    rw [ready] at grown
    exact grown.contained_error _ _ _
  | ok first =>
    rw [ready] at grown
    have ready_ : ∀ q, q <+: parent → first.entry q = some .dir := by
      intro q part
      by_cases root : q = []
      · rcases grown.entry q with same | ⟨-, made, -⟩
        · exact same.trans (root ▸ disk.root)
        · exact made
      · exact Run.mkdirs_dirs (fun q part =>
          plain q (part.trans (List.prefix_append parent [name]))) ready part root
    show Contained disk parent name temporary (first.mkdir parent temporary >>= _)
    rcases Run.mkdir_cases temporary (fun q part => by rw [ready_ q part]; rfl) with ⟨e, raised⟩ |
      ⟨free, made⟩
    · rw [raised]
      exact grown.contained_error _ _ e
    · rw [made]
      exact grown.within_staging ready_ free (read archive)

end Cindral.Adapters
