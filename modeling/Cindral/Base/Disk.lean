import Cindral.Base.Tree
import Mathlib.Data.List.Infix
import Mathlib.Logic.Function.Basic

/-! A file system, the calls that change it, and what each leaves alone. -/

namespace Cindral.Base.FileSystem

/-- What stands at a path. In the target of a link no name stands for `..`. -/
inductive Entry where
  | dir
  | file (content : List UInt8) (mode : Nat)
  | link (absolute : Bool) (target : List (Option FileName))
  | special
  deriving DecidableEq

abbrev Entries := Path → Option Entry

/-- The entries of a file system: what stands in a place stands in a directory. -/
structure Disk where
  entry : Entries
  root : entry [] = some .dir
  closed : ∀ p name, entry (p ++ [name]) ≠ none → entry p = some .dir

theorem Disk.none_below (disk : Disk) {p q : Path} (absent : disk.entry p = none)
    (below : p <+: q) : disk.entry q = none := by
  obtain ⟨tail, rfl⟩ := below
  induction tail using List.reverseRecOn with
  | nil => rwa [List.append_nil]
  | append_singleton front name ih =>
    by_contra there
    rw [← List.append_assoc] at there
    rw [disk.closed _ _ there] at ih
    cases ih

def isLink : Option Entry → Bool
  | some (.link _ _) => true
  | _ => false

namespace Entries

/-- The walk along a path up to its first link, which is followed from where it stands. -/
def trace (d : Entries) (follow : Path → List (Option FileName) → Option Path) :
    Path → List (Option FileName) → Option Path
  | base, [] => some base
  | base, none :: rest => trace d follow base.dropLast rest
  | base, some name :: rest =>
    match d (base ++ [name]) with
    | some (.link absolute target) => follow (if absolute then [] else base) (target ++ rest)
    | _ => trace d follow (base ++ [name]) rest

def resolve (d : Entries) : Nat → Path → List (Option FileName) → Option Path
  | 0 => trace d fun _ _ => none
  | hops + 1 => trace d (resolve d hops)

/-- Where a path leads, nothing if through too many links. -/
def realpath (d : Entries) (p : Path) : Option Path := resolve d 40 [] (p.map some)

def isSymlink (d : Entries) (p : Path) : Bool :=
  match d.realpath p.dropLast, p.getLast? with
  | some q, some name => isLink (d (q ++ [name]))
  | _, _ => false

theorem trace_plain {d : Entries} {follow : Path → List (Option FileName) → Option Path}
    (base : Path) {todo : Path}
    (plain : ∀ q, q <+: base ++ todo → isLink (d q) = false) :
    trace d follow base (todo.map some) = some (base ++ todo) := by
  induction todo generalizing base with
  | nil => rw [List.map_nil, trace, List.append_nil]
  | cons name rest ih =>
    have split : base ++ name :: rest = base ++ [name] ++ rest := by simp
    rw [split] at plain ⊢
    have here := plain (base ++ [name]) (List.prefix_append _ _)
    rw [List.map_cons, trace]
    split
    · rename_i link
      rw [link] at here
      cases here
    · exact ih _ plain

theorem realpath_plain {d : Entries} {p : Path} (plain : ∀ q, q <+: p → isLink (d q) = false) :
    d.realpath p = some p :=
  trace_plain [] plain

/-- Where no part of a path is a link by name, none is one. -/
theorem plain_of_checked {d : Entries} {p : Path} (root : isLink (d []) = false)
    (checked : ∀ q, q <+: p → d.isSymlink q = false) : ∀ q, q <+: p → isLink (d q) = false := by
  have upTo : ∀ q, q <+: p → ∀ r, r <+: q → isLink (d r) = false := by
    intro q
    induction q using List.reverseRecOn with
    | nil =>
      rintro - r first
      rw [List.prefix_nil.mp first]
      exact root
    | append_singleton front name ih =>
      intro onWay r part
      have above := ih ((List.prefix_append front [name]).trans onWay)
      rcases List.prefix_concat_iff.mp part with rfl | earlier
      · have own := checked _ onWay
        rw [isSymlink, List.dropLast_concat, List.getLast?_concat, realpath_plain above] at own
        exact own
      · exact above r earlier
  exact fun q onWay => upTo q onWay q List.prefix_rfl

theorem isSymlink_plain {d : Entries} {p : Path} (plain : ∀ q, q <+: p → isLink (d q) = false) :
    d.isSymlink p = false := by
  rcases List.eq_nil_or_concat p with rfl | ⟨front, name, rfl⟩
  · rw [isSymlink]
    split
    · rename_i last
      cases last
    · rfl
  · rw [List.concat_eq_append] at plain ⊢
    rw [isSymlink, List.dropLast_concat, List.getLast?_concat,
      realpath_plain fun q part => plain q (part.trans (List.prefix_append front [name]))]
    exact plain _ List.prefix_rfl

end Entries

/-- The entries, and every place that was written to so far. -/
structure Run where
  entry : Entries
  written : List Path

inductive Raised where
  | fileExists
  | fileNotFound
  | tooManyLinks
  | error (text : String)
  deriving DecidableEq, Repr

/-- How a call ends. One that raises leaves the state it came to. -/
abbrev Outcome := Except (Raised × Run) Run

namespace Run

def put (run : Run) (p : Path) (e : Entry) : Run :=
  ⟨Function.update run.entry p (some e), p :: run.written⟩

/-- The directories of a path below one, each made where it is missing. -/
def ensure (above : Path) : Path → Run → Outcome
  | [], run => .ok run
  | name :: rest, run =>
    match run.entry (above ++ [name]) with
    | some .dir => ensure (above ++ [name]) rest run
    | some _ => .error (.fileExists, run)
    | none => ensure (above ++ [name]) rest (run.put (above ++ [name]) .dir)

/-- `mkdir(parents=True, exist_ok=True)` -/
def mkdirs (p : Path) (run : Run) : Outcome :=
  match run.entry.realpath p with
  | none => .error (.tooManyLinks, run)
  | some q => ensure [] q run

/-- `mkdir()` of a name in a directory. -/
def mkdir (p : Path) (name : FileName) (run : Run) : Outcome :=
  match run.entry.realpath p with
  | none => .error (.tooManyLinks, run)
  | some q =>
    match run.entry (q ++ [name]), run.entry q with
    | none, some .dir => .ok (run.put (q ++ [name]) .dir)
    | some _, _ => .error (.fileExists, run)
    | none, _ => .error (.fileNotFound, run)

/-- `open("xb")`, the copy of a content that may end early, and `chmod`. -/
def create (p : Path) (name : FileName) (content : List UInt8) (whole : Bool) (mode : Nat)
    (run : Run) : Outcome :=
  match run.entry.realpath p with
  | none => .error (.tooManyLinks, run)
  | some q =>
    match run.entry (q ++ [name]), run.entry q with
    | none, some .dir =>
      let copied := run.put (q ++ [name]) (.file content 0o644)
      if whole then .ok (copied.put (q ++ [name]) (.file content mode)) else .error
        (.error "unexpected end of data", copied)
    | some _, _ => .error (.fileExists, run)
    | none, _ => .error (.fileNotFound, run)

/-- `rmtree`, or `unlink` of what is no directory. -/
def remove (p : Path) (run : Run) : Run :=
  ⟨fun q => if p <+: q then none else run.entry q, p :: run.written⟩

/-- `os.replace` of what nothing stands in the place of. -/
def rename (source target : Path) (run : Run) : Outcome :=
  match run.entry source with
  | none => .error (.fileNotFound, run)
  | some _ => .ok ⟨fun q => if target <+: q then run.entry (source ++ q.drop target.length)
      else if source <+: q then none else run.entry q, target :: source :: run.written⟩

/-! What a call leaves as it was. -/

/-- The state a call ends in, whether it raises or not. -/
def after : Outcome → Run
  | .ok run => run
  | .error (_, run) => run

theorem after_bind {P : Run → Prop} {first : Outcome} {next : Run → Outcome} (holds : P (after first))
    (keeps : ∀ run, P run → P (after (next run))) : P (after (first >>= next)) := by
  rcases first with ⟨e, run⟩ | run
  · exact holds
  · exact keeps run holds

/-- Directories were made in places where nothing stood, and nothing else was changed. -/
structure Grows (place : Path → Prop) (run run' : Run) : Prop where
  entry : ∀ q, run'.entry q = run.entry q ∨ run.entry q = none ∧ run'.entry q = some .dir ∧ place q
  written : ∀ q ∈ run'.written, q ∈ run.written ∨ run.entry q = none ∧ place q

variable {place : Path → Prop} {run run' last : Run} {above todo p q : Path} {name : FileName}

theorem Grows.refl : Grows place run run := ⟨fun _ => Or.inl rfl, fun _ => Or.inl⟩

theorem Grows.none_before (grown : Grows place run run') (absent : run'.entry q = none) :
    run.entry q = none := by
  rcases grown.entry q with same | ⟨before, -, -⟩
  · rw [← same, absent]
  · exact before

theorem Grows.trans (first : Grows place run run') (second : Grows place run' last) :
    Grows place run last := by
  constructor
  · intro q
    rcases second.entry q with same | ⟨absent, made, here⟩
    · rw [same]
      exact first.entry q
    · exact Or.inr ⟨first.none_before absent, made, here⟩
  · intro q later
    rcases second.written q later with earlier | ⟨absent, here⟩
    · exact first.written q earlier
    · exact Or.inr ⟨first.none_before absent, here⟩

theorem put_grows (absent : run.entry p = none) (here : place p) : Grows place run (run.put p .dir) := by
  constructor
  · intro q
    by_cases same : q = p
    · subst same
      exact Or.inr ⟨absent, Function.update_self _ _ _, here⟩
    · exact Or.inl (Function.update_of_ne same _ _)
  · intro q written
    rcases List.mem_cons.mp written with rfl | earlier
    · exact Or.inr ⟨absent, here⟩
    · exact Or.inl earlier

/-- The directories of a path that are below another. -/
def Between (above p q : Path) : Prop := above <+: q ∧ q ≠ above ∧ q <+: p

theorem between_next (above todo : Path) (name : FileName) :
    Between above (above ++ name :: todo) (above ++ [name]) := by
  exact ⟨List.prefix_append _ _, by simp, ⟨todo, (List.append_cons above name todo).symm⟩⟩

theorem Between.weaken (h : Between (above ++ [name]) (above ++ [name] ++ todo) q) :
    Between above (above ++ name :: todo) q := by
  obtain ⟨below, -, part⟩ := h
  refine ⟨(List.prefix_append above [name]).trans below, ?_, by rwa [← List.append_cons] at part⟩
  rintro rfl
  have long := below.length_le
  rw [List.length_append, List.length_singleton] at long
  omega

theorem Between.next (between : Between above (above ++ name :: todo) q) :
    q = above ++ [name] ∨ Between (above ++ [name]) (above ++ [name] ++ todo) q := by
  obtain ⟨⟨tail, rfl⟩, other, part⟩ := between
  cases tail with
  | nil => exact absurd (List.append_nil above) other
  | cons x more =>
    obtain ⟨rfl, -⟩ := List.cons_prefix_cons.mp ((List.prefix_append_right_inj above).mp part)
    cases more with
    | nil => exact Or.inl rfl
    | cons y further =>
      rw [List.append_cons above x (y :: further), List.append_cons above x todo] at part
      rw [List.append_cons above x (y :: further)]
      exact Or.inr ⟨List.prefix_append _ _, by simp, part⟩

theorem ensure_grows (above todo : Path) (run : Run) :
    Grows (Between above (above ++ todo)) run (after (ensure above todo run)) := by
  induction todo generalizing above run with
  | nil => exact Grows.refl
  | cons name rest ih =>
    have wider {run run' : Run} (h : Grows (Between (above ++ [name]) (above ++ [name] ++ rest)) run
        run') :
        Grows (Between above (above ++ name :: rest)) run run' :=
      ⟨fun q => (h.entry q).imp_right fun ⟨absent, made, here⟩ => ⟨absent, made, here.weaken⟩,
        fun q written => (h.written q written).imp_right fun ⟨absent, here⟩ => ⟨absent, here.weaken⟩⟩
    rw [ensure]
    split
    · exact wider (ih _ run)
    · exact Grows.refl
    · rename_i absent
      exact (put_grows absent (between_next above rest name)).trans (wider (ih _ _))

theorem mkdirs_grows (plain : ∀ q, q <+: p → isLink (run.entry q) = false) :
    Grows (Between [] p) run (after (mkdirs p run)) := by
  rw [mkdirs, Entries.realpath_plain plain]
  exact ensure_grows [] p run

theorem ensure_dirs {made : Run} (h : ensure above todo run = .ok made)
    (between : Between above (above ++ todo) q) :
    made.entry q = some .dir := by
  induction todo generalizing above run with
  | nil =>
    obtain ⟨below, other, part⟩ := between
    rw [List.append_nil] at part
    exact absurd (part.eq_of_length (Nat.le_antisymm part.length_le below.length_le)) other
  | cons name rest ih =>
    have stays {first : Run} (there : first.entry (above ++ [name]) = some .dir)
        (h : ensure (above ++ [name]) rest first = .ok made) :
        made.entry (above ++ [name]) = some .dir := by
      have grown := ensure_grows (above ++ [name]) rest first
      rw [h] at grown
      rcases grown.entry (above ++ [name]) with same | ⟨-, made, -⟩
      · exact same.trans there
      · exact made
    rw [ensure] at h
    split at h
    · rename_i there
      rcases between.next with rfl | further
      · exact stays there h
      · exact ih h further
    · cases h
    · rcases between.next with rfl | further
      · exact stays (Function.update_self _ _ _) h
      · exact ih h further

/-- Where only directories stand on the way, each of a path's is there afterwards and nothing else
has changed. -/
theorem ensure_made (above todo : Path) (run : Run)
    (free : ∀ q, Between above (above ++ todo) q → run.entry q = none ∨ run.entry q = some .dir) :
    ∃ made, ensure above todo run = .ok made ∧
      ∀ q, (Between above (above ++ todo) q → made.entry q = some .dir) ∧
        (¬Between above (above ++ todo) q → made.entry q = run.entry q) := by
  induction todo generalizing above run with
  | nil =>
    refine ⟨run, rfl, fun q => ⟨?_, fun _ => rfl⟩⟩
    rintro ⟨below, other, part⟩
    rw [List.append_nil] at part
    exact absurd (part.eq_of_length (Nat.le_antisymm part.length_le below.length_le)) other
  | cons name rest ih =>
    have first : Between above (above ++ name :: rest) (above ++ [name]) := between_next above rest name
    obtain ⟨next, step, own, others⟩ : ∃ next, ensure above (name :: rest) run = ensure
        (above ++ [name]) rest next ∧
        next.entry (above ++ [name]) = some .dir ∧ ∀ q, q ≠ above ++ [name] →
        next.entry q = run.entry q := by
      rcases free _ first with absent | there
      · exact ⟨run.put (above ++ [name]) .dir, by rw [ensure, absent], Function.update_self _ _ _,
          fun q other => Function.update_of_ne other _ _⟩
      · exact ⟨run, by rw [ensure, there], there, fun _ _ => rfl⟩
    obtain ⟨made, done_, entries⟩ := ih (above ++ [name]) next fun q between =>
      others q between.2.1 ▸ free q between.weaken
    refine ⟨made, step.trans done_, fun q => ⟨fun between => ?_, fun outside => ?_⟩⟩
    · rcases between.next with rfl | further
      · rw [(entries _).2 fun again => again.2.1 rfl, own]
      · exact (entries q).1 further
    · have other : q ≠ above ++ [name] := fun same => outside (same ▸ first)
      rw [(entries q).2 fun further => outside further.weaken, others q other]

theorem mkdirs_dirs {made : Run} (plain : ∀ q, q <+: p → isLink (run.entry q) = false)
    (h : run.mkdirs p = .ok made)
    (part : q <+: p) (some_ : q ≠ []) : made.entry q = some .dir := by
  rw [mkdirs, Entries.realpath_plain plain] at h
  exact ensure_dirs h ⟨List.nil_prefix, some_, part⟩

theorem mkdir_cases (name : FileName) (plain : ∀ q, q <+: p → isLink (run.entry q) = false) :
    (∃ e, run.mkdir p name = .error (e, run)) ∨
      run.entry (p ++ [name]) = none ∧ run.mkdir p name = .ok (run.put (p ++ [name]) .dir) := by
  rw [mkdir, Entries.realpath_plain plain]
  dsimp only
  split
  · rename_i absent _
    exact Or.inr ⟨absent, rfl⟩
  · exact Or.inl ⟨_, rfl⟩
  · exact Or.inl ⟨_, rfl⟩

theorem mkdir_ok (plain : ∀ q, q <+: p → isLink (run.entry q) = false)
    (free : run.entry (p ++ [name]) = none)
    (top : run.entry p = some .dir) : run.mkdir p name = .ok (run.put (p ++ [name]) .dir) := by
  rw [mkdir, Entries.realpath_plain plain]
  dsimp only
  rw [free, top]

@[simp] theorem put_entry (run : Run) (p : Path) (e : Entry) : (run.put p e).entry p = some e :=
  Function.update_self _ _ _

theorem put_other (run : Run) {p q : Path} (e : Entry) (other : q ≠ p) :
    (run.put p e).entry q = run.entry q :=
  Function.update_of_ne other _ _

theorem create_ok (content : List UInt8) (mode : Nat)
    (plain : ∀ q, q <+: p → isLink (run.entry q) = false)
    (free : run.entry (p ++ [name]) = none) (top : run.entry p = some .dir) :
    ∃ made, run.create p name content true mode = .ok made ∧
      made.entry (p ++ [name]) = some (.file content mode) ∧
      ∀ q, q ≠ p ++ [name] → made.entry q = run.entry q := by
  refine ⟨(run.put (p ++ [name]) (.file content 0o644)).put (p ++ [name]) (.file content mode), ?_,
    put_entry _ _ _,
    fun q other => ?_⟩
  · rw [create, Entries.realpath_plain plain]
    dsimp only
    rw [free, top]
    rfl
  · rw [put_other _ _ other, put_other _ _ other]

/-- What a tree that is moved leads to afterwards. -/
structure Moved (source target : Path) (run moved : Run) : Prop where
  there : ∀ rest, moved.entry (target ++ rest) = run.entry (source ++ rest)
  outside : ∀ q, ¬target <+: q → ¬source <+: q → moved.entry q = run.entry q
  written : moved.written = target :: source :: run.written

theorem rename_cases (source target : Path) (run : Run) :
    run.entry source = none ∧ run.rename source target = .error (.fileNotFound, run) ∨
      ∃ moved, run.rename source target = .ok moved ∧ Moved source target run moved := by
  unfold rename
  cases found : run.entry source with
  | none => exact Or.inl ⟨rfl, rfl⟩
  | some e =>
    refine Or.inr ⟨_, rfl, fun rest => ?_, fun q out apart => ?_, rfl⟩
    · dsimp only
      rw [if_pos (List.prefix_append target rest), List.drop_left]
    · dsimp only
      rw [if_neg out, if_neg apart]

end Run
end Cindral.Base.FileSystem
