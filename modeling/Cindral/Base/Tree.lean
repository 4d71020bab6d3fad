import Cindral.Base.Outcome
import Mathlib.Algebra.Ring.Nat
import Mathlib.Data.List.Basic

/-! Directory trees, each directory listed in the order a scan gives its entries. -/

namespace Cindral.Base

/-- A character of a file name. A byte that is not part of UTF-8 is one of its own, 128 less. -/
inductive NameChar where
  | char (c : Char)
  | byte (b : Fin 128)
  deriving DecidableEq, Repr

def nameOf (s : String) : List NameChar := s.toList.map .char

structure FileName where
  chars : List NameChar
  named : chars ≠ [] ∧ chars ≠ nameOf "." ∧ chars ≠ nameOf ".."
  plain : .char '/' ∉ chars ∧ .char (Char.ofNat 0) ∉ chars
  deriving DecidableEq

abbrev Path := List FileName

/-- `relative_to(directory).as_posix()` -/
def posix (path : Path) : List NameChar := [NameChar.char '/'].intercalate (path.map FileName.chars)

/-- A regular file. `denied` is what opening it raises a `PermissionError` with. -/
structure File where
  content : List UInt8
  mode : Nat
  denied : Option String := none
  deriving DecidableEq

/-- The entries of a directory. `other` is a link or a special file, and `denied` what a scan raises. -/
inductive Tree where
  | nil
  | file (name : FileName) (file : File) (rest : Tree)
  | dir (name : FileName) (denied : Option String) (inside rest : Tree)
  | other (name : FileName) (rest : Tree)

namespace Tree

/-- The plain files a scan of the directory names, and the directories. -/
def files : Tree → List (FileName × File)
  | nil => []
  | file name f rest => (name, f) :: rest.files
  | dir _ _ _ rest | other _ rest => rest.files

def directories : Tree → List FileName
  | nil => []
  | dir name _ _ rest => name :: rest.directories
  | file _ _ rest | other _ rest => rest.directories

def bare : Tree → Tree
  | nil => nil
  | file name f rest => file name ⟨f.content, 0, none⟩ rest.bare
  | dir name _ inside rest => dir name none inside.bare rest.bare
  | other name rest => other name rest.bare

end Tree

/-- A directory, and what scanning it raises a `PermissionError` with. -/
structure Source where
  denied : Option String := none
  listing : Tree

/-- `make_readable`, which may raise and changes permissions only. -/
structure Repair where
  run : Source → Except String Source
  keeps : ∀ source repaired, run source = .ok repaired → repaired.listing.bare = source.listing.bare

/-! `os.walk` from the top, without following links. -/

structure Found where
  files : List (Path × File) := []
  directories : List Path := []
  total : Nat := 0

/-- What the body of a walk raises: for a denied scan, once it has listed a directory, and once it
has counted a file. -/
structure Walker (ε : Type) where
  permission : String → ε
  entered : Found → Except ε Unit
  counted : Found → Except ε Unit

namespace Walker
variable {ε : Type} (w : Walker ε)

def denial : Option String → Except ε Unit
  | none => .ok ()
  | some text => .error (w.permission text)

/-- The loop over the files of one directory. -/
def note (here : Path) : List (FileName × File) → Found → Except ε Found
  | [], found => .ok found
  | (name, file) :: rest, found => do
    let found := { found with total := found.total + file.content.length, files := found.files ++ [(here ++ [name], file)] }
    w.counted found
    note here rest found

def visit (here : Path) (listing : Tree) (found : Found) : Except ε Found := do
  let found := { found with directories := found.directories ++ listing.directories.map fun name =>
    here ++ [name] }
  w.entered found
  w.note here listing.files found

/-- The walk from the directories of a listing on. -/
def descend (here : Path) : Tree → Found → Except ε Found
  | .nil, found => .ok found
  | .file _ _ rest, found | .other _ rest, found => descend here rest found
  | .dir name denied inside rest, found => do
    w.denial denied
    let found ← w.visit (here ++ [name]) inside found
    let found ← descend (here ++ [name]) inside found
    descend here rest found

def walk (source : Source) : Except ε Found := do
  w.denial source.denied
  let found ← w.visit [] source.listing {}
  w.descend [] source.listing found

/-- Opening each file, of which the first that is denied raises. -/
def openAll (files : List (Path × File)) : Except ε Unit := w.denial (files.findSome? fun x => x.2.denied)

end Walker

namespace Tree

/-- What the directories further down hold, in the order of a walk. -/
def deep {α β : Type} (level : Tree → List α) (place : Path → α → β) (here : Path) : Tree → List β
  | nil => []
  | file _ _ rest | other _ rest => deep level place here rest
  | dir name _ inside rest =>
    (level inside).map (place (here ++ [name])) ++ deep level place (here ++ [name]) inside ++ deep
      level place here rest

def filePlace (here : Path) (x : FileName × File) : Path × File := (here ++ [x.1], x.2)

def dirPlace (here : Path) (name : FileName) : Path := here ++ [name]

/-- The files of the whole tree, and the directories below its root. -/
def allFiles (t : Tree) : List (Path × File) := t.files.map (filePlace []) ++ deep files filePlace [] t

def allDirectories (t : Tree) : List Path :=
  t.directories.map (dirPlace []) ++ deep directories dirPlace [] t

def size (files : List (Path × File)) : Nat := (files.map fun x => x.2.content.length).sum

def bareFile (f : File) : File := ⟨f.content, 0, none⟩

theorem files_bare (t : Tree) : t.bare.files = t.files.map (Prod.map id bareFile) := by
  induction t with
  | nil => rfl
  | file name f rest ih => rw [bare, files, files, ih, List.map_cons]; rfl
  | dir name denied inside rest _ ih => rw [bare, files, files, ih]
  | other name rest ih => rw [bare, files, files, ih]

theorem directories_bare (t : Tree) : t.bare.directories = t.directories := by
  induction t with
  | nil => rfl
  | file name f rest ih => rw [bare, directories, directories, ih]
  | dir name denied inside rest _ ih => rw [bare, directories, directories, ih]
  | other name rest ih => rw [bare, directories, directories, ih]

/-- What is found further down in the bare tree, if that changes each level in one way. -/
theorem deep_bare {α β : Type} {level : Tree → List α} {place : Path → α → β} {g : α → α} (h : β → β)
    (one : ∀ t, level t.bare = (level t).map g)
    (placed : ∀ here a, place here (g a) = h (place here a)) (here : Path) (t : Tree) :
    deep level place here t.bare = (deep level place here t).map h := by
  have pushed (here : Path) : place here ∘ g = h ∘ place here := funext (placed here)
  induction t generalizing here with
  | nil => rfl
  | file name f rest ih => rw [bare, deep, deep, ih]
  | other name rest ih => rw [bare, deep, deep, ih]
  | dir name denied inside rest inside_ih ih =>
    rw [bare, deep, deep, inside_ih, ih, one, List.map_append, List.map_append, List.map_map,
      List.map_map, pushed]

theorem allFiles_bare (t : Tree) : t.bare.allFiles = t.allFiles.map (Prod.map id bareFile) := by
  have further := deep_bare (Prod.map id bareFile) files_bare
    (fun here x => (rfl : filePlace here (Prod.map id bareFile x) = _)) []
  rw [allFiles, allFiles, files_bare, further, List.map_append, List.map_map, List.map_map]
  rfl

theorem allDirectories_bare (t : Tree) : t.bare.allDirectories = t.allDirectories := by
  have same : ∀ t : Tree, t.bare.directories = t.directories.map id :=
    fun t => by rw [directories_bare, List.map_id]
  have further := deep_bare id same (fun here name => (rfl : dirPlace here (id name) = _)) []
  rw [allDirectories, allDirectories, directories_bare, further, List.map_id]

end Tree

namespace Walker
variable {ε : Type} {w : Walker ε} {found found' : Found}

/-- What a walk has found beyond what it had. -/
structure Adds (found : Found) (more : List (Path × File)) (deeper : List Path) (found' : Found) :
    Prop where
  files : found'.files = found.files ++ more
  directories : found'.directories = found.directories ++ deeper
  total : found'.total = found.total + Tree.size more

theorem note_adds {here : Path} {files : List (FileName × File)}
    (h : w.note here files found = .ok found') :
    Adds found (files.map (Tree.filePlace here)) [] found' := by
  induction files generalizing found with
  | nil =>
    obtain rfl := Except.ok.inj h
    exact ⟨by simp, by simp, rfl⟩
  | cons first rest ih =>
    obtain ⟨-, -, later⟩ := bind_ok h
    obtain ⟨files, directories, total⟩ := ih later
    refine ⟨by simp [files, Tree.filePlace], by simp [directories], ?_⟩
    rw [total]
    simp only [Tree.size, List.map_cons, List.sum_cons, Tree.filePlace]
    omega

theorem visit_adds {here : Path} {t : Tree} (h : w.visit here t found = .ok found') :
    Adds found (t.files.map (Tree.filePlace here)) (t.directories.map (Tree.dirPlace here)) found' := by
  obtain ⟨-, -, noted⟩ := bind_ok h
  obtain ⟨files, directories, total⟩ := note_adds noted
  exact ⟨files, by rw [directories, List.append_nil]; rfl, total⟩

theorem Adds.trans {last : Found} {more more' : List (Path × File)} {deeper deeper' : List Path}
    (first : Adds found more deeper found') (second : Adds found' more' deeper' last) :
    Adds found (more ++ more') (deeper ++ deeper') last := by
  refine ⟨by rw [second.files, first.files, List.append_assoc],
    by rw [second.directories, first.directories, List.append_assoc], ?_⟩
  rw [second.total, first.total, Tree.size, Tree.size, Tree.size, List.map_append, List.sum_append,
    Nat.add_assoc]

theorem descend_adds {here : Path} {t : Tree} (h : w.descend here t found = .ok found') :
    Adds found (Tree.deep Tree.files Tree.filePlace here t)
    (Tree.deep Tree.directories Tree.dirPlace here t) found' := by
  induction t generalizing here found found' with
  | nil =>
    obtain rfl := Except.ok.inj h
    exact ⟨(List.append_nil _).symm, (List.append_nil _).symm, rfl⟩
  | file name f rest ih => exact ih h
  | other name rest ih => exact ih h
  | dir name denied inside rest inside_ih ih =>
    obtain ⟨-, -, h⟩ := bind_ok h
    obtain ⟨visited, visit, h⟩ := bind_ok h
    obtain ⟨below, descended, h⟩ := bind_ok h
    exact ((visit_adds visit).trans (inside_ih descended)).trans (ih h)

/-- A walk that ends has found the whole tree. -/
theorem walk_found {source : Source} (h : w.walk source = .ok found) :
    found.files = source.listing.allFiles ∧
    found.directories = source.listing.allDirectories ∧
    found.total = Tree.size source.listing.allFiles := by
  obtain ⟨-, -, h⟩ := bind_ok h
  obtain ⟨visited, visit, descended⟩ := bind_ok h
  obtain ⟨files, directories, total⟩ := (visit_adds visit).trans (descend_adds descended)
  exact ⟨files, directories, total.trans (Nat.zero_add _)⟩

/-- The files so far, if there are any, have been counted and taken. -/
def Counted (w : Walker ε) (found : Found) : Prop :=
  found.files = [] ∨ ∃ earlier, w.counted earlier = .ok () ∧ earlier.files = found.files ∧
  earlier.total = found.total

theorem note_counted {here : Path} {files : List (FileName × File)}
    (h : w.note here files found = .ok found')
    (before : Counted w found) : Counted w found' := by
  induction files generalizing found with
  | nil =>
    obtain rfl := Except.ok.inj h
    exact before
  | cons first rest ih =>
    obtain ⟨⟨⟩, taken, later⟩ := bind_ok h
    exact ih later (Or.inr ⟨_, taken, rfl, rfl⟩)

theorem visit_counted {here : Path} {t : Tree} (h : w.visit here t found = .ok found')
    (before : Counted w found) :
    Counted w found' := by
  obtain ⟨-, -, noted⟩ := bind_ok h
  exact note_counted noted before

theorem descend_counted {here : Path} {t : Tree} (h : w.descend here t found = .ok found')
    (before : Counted w found) :
    Counted w found' := by
  induction t generalizing here found found' with
  | nil =>
    obtain rfl := Except.ok.inj h
    exact before
  | file name f rest ih => exact ih h before
  | other name rest ih => exact ih h before
  | dir name denied inside rest inside_ih ih =>
    obtain ⟨-, -, h⟩ := bind_ok h
    obtain ⟨visited, visit, h⟩ := bind_ok h
    obtain ⟨below, descended, h⟩ := bind_ok h
    exact ih h (inside_ih descended (visit_counted visit before))

theorem walk_counted {source : Source} (h : w.walk source = .ok found) : Counted w found := by
  obtain ⟨-, -, h⟩ := bind_ok h
  obtain ⟨visited, visit, descended⟩ := bind_ok h
  exact descend_counted descended (visit_counted visit (Or.inl rfl))

end Walker
end Cindral.Base
