import Cindral.Base.Tree
import Mathlib.Data.List.Nodup

/-! What stands at a path of a directory tree, and that a walk names each path of it once. -/

namespace Cindral.Base.Tree

def names : Tree → List FileName
  | nil => []
  | file name _ rest | dir name _ _ rest | other name rest => name :: rest.names

def Proper : Tree → Prop
  | nil => True
  | file name _ rest | other name rest => name ∉ rest.names ∧ rest.Proper
  | dir name _ inside rest => name ∉ rest.names ∧ inside.Proper ∧ rest.Proper

/-- The listing of the directory at a path. -/
def subtree : Tree → Path → Option Tree
  | t, [] => some t
  | nil, _ :: _ => none
  | file n _ more, name :: rest | other n more, name :: rest => if n = name then none else subtree
      more (name :: rest)
  | dir n _ inside more, name :: rest => if n = name then subtree inside rest else subtree more
      (name :: rest)

inductive Node where
  | dir
  | file (f : File)

/-- The directory or the plain file at a path. -/
def nodeAt : Tree → Path → Option Node
  | _, [] => some .dir
  | nil, _ :: _ => none
  | file n f more, name :: rest =>
    if n = name then (if rest = [] then some (.file f) else none) else nodeAt more (name :: rest)
  | other n more, name :: rest => if n = name then none else nodeAt more (name :: rest)
  | dir n _ inside more, name :: rest => if n = name then nodeAt inside rest else nodeAt more
      (name :: rest)

variable {t inside : Tree} {name : FileName} {path rest : Path} {f : File}

theorem names_bare (t : Tree) : t.bare.names = t.names := by
  induction t with
  | nil => rfl
  | file name f rest ih | other name rest ih => rw [bare, names, names, ih]
  | dir name denied inside rest _ ih => rw [bare, names, names, ih]

theorem proper_bare (t : Tree) : t.bare.Proper ↔ t.Proper := by
  induction t with
  | nil => exact Iff.rfl
  | file name f rest ih | other name rest ih => rw [bare, Proper, Proper, names_bare, ih]
  | dir name denied inside rest inside_ih ih => rw [bare, Proper, Proper, names_bare, ih, inside_ih]

theorem subtree_names (h : t.subtree (name :: rest) = some inside) : name ∈ t.names := by
  induction t with
  | nil => cases h
  | file n f more ih | other n more ih =>
    rw [subtree] at h
    split at h
    · cases h
    · exact List.mem_cons_of_mem _ (ih h)
  | dir n denied below more _ ih =>
    rw [subtree] at h
    split at h
    · rename_i same
      exact same ▸ List.mem_cons_self
    · exact List.mem_cons_of_mem _ (ih h)

theorem subtree_proper (proper : t.Proper) (h : t.subtree path = some inside) : inside.Proper := by
  induction t generalizing path with
  | nil =>
    cases path with
    | nil => exact Option.some.inj h ▸ proper
    | cons name rest => cases h
  | file n f more ih | other n more ih =>
    cases path with
    | nil => exact Option.some.inj h ▸ proper
    | cons name rest =>
      rw [subtree] at h
      split at h
      · cases h
      · exact ih proper.2 h
  | dir n denied below more below_ih ih =>
    cases path with
    | nil => exact Option.some.inj h ▸ proper
    | cons name rest =>
      rw [subtree] at h
      split at h
      · exact below_ih proper.2.1 h
      · exact ih proper.2.2 h

theorem subtree_append (t : Tree) (path rest : Path) :
    t.subtree (path ++ rest) = (t.subtree path).bind (·.subtree rest) := by
  induction t generalizing path with
  | nil =>
    cases path with
    | nil => rfl
    | cons name more => rfl
  | file n f more ih | other n more ih =>
    cases path with
    | nil => rfl
    | cons name further =>
      rw [List.cons_append, subtree, subtree]
      split
      · rfl
      · exact ih (name :: further)
  | dir n denied below more below_ih ih =>
    cases path with
    | nil => rfl
    | cons name further =>
      rw [List.cons_append, subtree, subtree]
      split
      · exact below_ih further
      · exact ih (name :: further)

theorem file_named (h : (name, f) ∈ t.files) : name ∈ t.names := by
  induction t with
  | nil => cases h
  | file n g more ih =>
    rcases List.mem_cons.mp h with same | later
    · exact (Prod.mk.inj same).1 ▸ List.mem_cons_self
    · exact List.mem_cons_of_mem _ (ih later)
  | other n more ih => exact List.mem_cons_of_mem _ (ih h)
  | dir n denied below more _ ih => exact List.mem_cons_of_mem _ (ih h)

theorem mem_directories (proper : t.Proper) :
    name ∈ t.directories ↔ (t.subtree [name]).isSome = true := by
  induction t with
  | nil => exact ⟨fun h => absurd h List.not_mem_nil, fun h => absurd h Bool.false_ne_true⟩
  | file n f more ih | other n more ih =>
    rw [directories, subtree, ih proper.2]
    split
    · rename_i same
      refine iff_of_false (fun there => ?_) Bool.false_ne_true
      obtain ⟨inside, found⟩ := Option.isSome_iff_exists.mp there
      exact proper.1 (same ▸ subtree_names found)
    · rfl
  | dir n denied below more _ ih =>
    rw [directories, subtree, List.mem_cons, ih proper.2.2]
    split
    · rename_i same
      refine iff_of_true (Or.inl same.symm) ?_
      cases below <;> rfl
    · rename_i other
      exact or_iff_right fun same => other same.symm

/-- What a walk finds further down is what the listings of the directories below hold. -/
theorem mem_deep {α β : Type} {level : Tree → List α} {place : Path → α → β} {here : Path} {b : β}
    (proper : t.Proper) :
    b ∈ deep level place here t ↔ ∃ name path inside a,
      t.subtree (name :: path) = some inside ∧ a ∈ level inside ∧ b = place (here ++ name :: path) a := by
  induction t generalizing here with
  | nil =>
    refine iff_of_false List.not_mem_nil ?_
    rintro ⟨name, path, inside, a, found, -⟩
    cases found
  | file n f more ih | other n more ih =>
    rw [deep, ih proper.2]
    have same (name : FileName) (path : Path) (inside : Tree) :
        more.subtree (name :: path) = some inside ↔
        (if n = name then none else more.subtree (name :: path)) = some inside := by
      split
      · rename_i same
        exact ⟨fun found => absurd (same ▸ subtree_names found) proper.1, fun found => by cases found⟩
      · rfl
    simp only [subtree, same]
  | dir n denied below more below_ih ih =>
    rw [deep, List.mem_append, List.mem_append, List.mem_map, below_ih proper.2.1, ih proper.2.2]
    constructor
    · rintro ((⟨a, there, rfl⟩ | ⟨name, path, inside, a, found, there, rfl⟩) |
        ⟨name, path, inside, a, found, there, rfl⟩)
      · refine ⟨n, [], below, a, ?_, there, rfl⟩
        rw [subtree, if_pos rfl]
        cases below <;> rfl
      · refine ⟨n, name :: path, inside, a, ?_, there, by simp⟩
        rw [subtree, if_pos rfl, found]
      · refine ⟨name, path, inside, a, ?_, there, rfl⟩
        rw [subtree, if_neg fun same : n = name => proper.1 (same ▸ subtree_names found), found]
    · rintro ⟨name, path, inside, a, found, there, rfl⟩
      rw [subtree] at found
      split at found
      · rename_i same
        subst same
        cases path with
        | nil =>
          have all : some below = some inside := by
            rw [← found]
            cases below <;> rfl
          exact Or.inl (Or.inl ⟨a, Option.some.inj all ▸ there, rfl⟩)
        | cons inner further => exact Or.inl (Or.inr ⟨inner, further, inside, a, found, there, by simp⟩)
      · exact Or.inr ⟨name, path, inside, a, found, there, rfl⟩

theorem subtree_root (t : Tree) : t.subtree [] = some t := by cases t <;> rfl

theorem mem_allDirectories (proper : t.Proper) :
    path ∈ t.allDirectories ↔ path ≠ [] ∧ (t.subtree path).isSome = true := by
  rw [allDirectories, List.mem_append, List.mem_map, mem_deep proper]
  constructor
  · rintro (⟨name, there, rfl⟩ | ⟨name, further, inside, last, found, there, rfl⟩)
    · exact ⟨by simp [dirPlace], (mem_directories proper).mp there⟩
    · refine ⟨by simp [dirPlace], ?_⟩
      rw [dirPlace, List.nil_append, subtree_append, found]
      exact (mem_directories (subtree_proper proper found)).mp there
  · rintro ⟨some_, there⟩
    obtain ⟨front, last, rfl⟩ : ∃ front last, path = front ++ [last] :=
      ⟨_, _, (List.dropLast_append_getLast some_).symm⟩
    rw [subtree_append] at there
    obtain ⟨inside, found⟩ : ∃ inside, t.subtree front = some inside := by
      cases found : t.subtree front with
      | none => rw [found] at there; cases there
      | some inside => exact ⟨inside, rfl⟩
    rw [found] at there
    have listed := (mem_directories (subtree_proper proper found)).mpr there
    cases front with
    | nil =>
      rw [subtree_root] at found
      exact Or.inl ⟨last, Option.some.inj found ▸ listed, rfl⟩
    | cons name further => exact Or.inr ⟨name, further, inside, last, found, listed, rfl⟩

theorem mem_allFiles (proper : t.Proper) : (path, f) ∈ t.allFiles ↔
    ∃ front last inside, path = front ++ [last] ∧ t.subtree front = some inside ∧
    (last, f) ∈ inside.files := by
  rw [allFiles, List.mem_append, List.mem_map, mem_deep proper]
  constructor
  · rintro (⟨x, there, same⟩ | ⟨name, further, inside, x, found, there, same⟩)
    · obtain ⟨rfl, rfl⟩ := Prod.mk.inj same
      exact ⟨[], x.1, t, rfl, subtree_root t, there⟩
    · obtain ⟨rfl, rfl⟩ := Prod.mk.inj same
      exact ⟨name :: further, x.1, inside, rfl, found, there⟩
  · rintro ⟨front, last, inside, rfl, found, there⟩
    cases front with
    | nil =>
      rw [subtree_root] at found
      exact Or.inl ⟨(last, f), Option.some.inj found ▸ there, rfl⟩
    | cons name further => exact Or.inr ⟨name, further, inside, (last, f), found, there, rfl⟩

theorem nodeAt_dir (t : Tree) (path : Path) :
    t.nodeAt path = some .dir ↔ (t.subtree path).isSome = true := by
  induction t generalizing path with
  | nil =>
    cases path with
    | nil => exact iff_of_true rfl rfl
    | cons name rest => exact iff_of_false (fun h => by cases h) Bool.false_ne_true
  | file n f more ih =>
    cases path with
    | nil => exact iff_of_true rfl rfl
    | cons name rest =>
      rw [nodeAt, subtree]
      split
      · refine iff_of_false (fun h => ?_) Bool.false_ne_true
        split at h <;> cases h
      · exact ih (name :: rest)
  | other n more ih =>
    cases path with
    | nil => exact iff_of_true rfl rfl
    | cons name rest =>
      rw [nodeAt, subtree]
      split
      · exact iff_of_false (fun h => by cases h) Bool.false_ne_true
      · exact ih (name :: rest)
  | dir n denied below more below_ih ih =>
    cases path with
    | nil => exact iff_of_true rfl rfl
    | cons name rest =>
      rw [nodeAt, subtree]
      split
      · exact below_ih rest
      · exact ih (name :: rest)

theorem nodeAt_append (t : Tree) (front : Path) (some_ : rest ≠ []) :
    t.nodeAt (front ++ rest) = (t.subtree front).bind (·.nodeAt rest) := by
  induction t generalizing front with
  | nil =>
    cases front with
    | nil => rfl
    | cons name further => rfl
  | file n f more ih =>
    cases front with
    | nil => rfl
    | cons name further =>
      rw [List.cons_append, nodeAt, subtree]
      split
      · rw [if_neg fun none_ => some_ (List.append_eq_nil_iff.mp none_).2]
        rfl
      · exact ih (name :: further)
  | other n more ih =>
    cases front with
    | nil => rfl
    | cons name further =>
      rw [List.cons_append, nodeAt, subtree]
      split
      · rfl
      · exact ih (name :: further)
  | dir n denied below more below_ih ih =>
    cases front with
    | nil => rfl
    | cons name further =>
      rw [List.cons_append, nodeAt, subtree]
      split
      · exact below_ih further
      · exact ih (name :: further)

theorem nodeAt_file (proper : t.Proper) : t.nodeAt [name] = some (.file f) ↔ (name, f) ∈ t.files := by
  induction t with
  | nil => exact iff_of_false (fun h => by cases h) List.not_mem_nil
  | file n g more ih =>
    rw [nodeAt, files, List.mem_cons, ← ih proper.2]
    split
    · rename_i same
      subst same
      have later : ¬more.nodeAt [n] = some (.file f) :=
        fun there => proper.1 (file_named ((ih proper.2).mp there))
      rw [if_pos rfl, or_iff_left later]
      exact ⟨fun h => by cases h; rfl, fun h => by cases h; rfl⟩
    · rename_i other
      exact (or_iff_right fun same => other (Prod.mk.inj same).1.symm).symm
  | other n more ih =>
    rw [nodeAt, files, ← ih proper.2]
    split
    · rename_i same
      subst same
      exact iff_of_false (fun h => by cases h) fun there => proper.1 (file_named ((ih proper.2).mp there))
    · rfl
  | dir n denied below more _ ih =>
    rw [nodeAt, files, ← ih proper.2.2]
    split
    · rename_i same
      subst same
      refine iff_of_false (fun h => ?_) fun there => proper.1 (file_named ((ih proper.2.2).mp there))
      cases below <;> cases h
    · rfl

/-- The files of a walk are the plain files of the tree. -/
theorem mem_files_iff (proper : t.Proper) : (path, f) ∈ t.allFiles ↔ t.nodeAt path = some (.file f) := by
  rw [mem_allFiles proper]
  constructor
  · rintro ⟨front, last, inside, rfl, found, there⟩
    rw [nodeAt_append t front (List.cons_ne_nil last []), found]
    exact (nodeAt_file (subtree_proper proper found)).mpr there
  · intro there
    have some_ : path ≠ [] := by
      rintro rfl
      cases t <;> cases there
    have whole := List.dropLast_append_getLast some_
    rw [← whole, nodeAt_append t _ (List.cons_ne_nil _ [])] at there
    obtain ⟨inside, found, node⟩ := Option.bind_eq_some_iff.mp there
    exact ⟨_, _, inside, whole.symm, found, (nodeAt_file (subtree_proper proper found)).mp node⟩

theorem mem_directories_iff (proper : t.Proper) :
    path ∈ t.allDirectories ↔ path ≠ [] ∧ t.nodeAt path = some .dir := by
  rw [mem_allDirectories proper, nodeAt_dir]

theorem files_nodup (proper : t.Proper) : (t.files.map Prod.fst).Nodup := by
  induction t with
  | nil => exact List.nodup_nil
  | file n f more ih =>
    refine List.nodup_cons.mpr ⟨fun again => ?_, ih proper.2⟩
    obtain ⟨⟨name, g⟩, there, rfl⟩ := List.mem_map.mp again
    exact proper.1 (file_named there)
  | other n more ih => exact ih proper.2
  | dir n denied below more _ ih => exact ih proper.2.2

theorem placed_nodup (proper : t.Proper) (here : Path) :
    ((t.files.map (filePlace here)).map Prod.fst).Nodup := by
  have injective : Function.Injective fun name : FileName => here ++ [name] :=
    fun a b same => by simpa using same
  have placed := List.Nodup.map injective (files_nodup proper)
  rwa [List.map_map] at placed ⊢

theorem deep_nodup (proper : t.Proper) (here : Path) :
    ((deep files filePlace here t).map Prod.fst).Nodup := by
  induction t generalizing here with
  | nil => exact List.nodup_nil
  | file n f more ih | other n more ih => exact ih proper.2 here
  | dir n denied below more below_ih ih =>
    have inner : ∀ p ∈ (deep files filePlace (here ++ [n]) below).map Prod.fst, ∃ a b more,
        p = here ++ n :: a :: b :: more := by
      intro p there
      obtain ⟨x, found, rfl⟩ := List.mem_map.mp there
      obtain ⟨name, path, inside, a, -, -, rfl⟩ := (mem_deep proper.2.1).mp found
      cases path with
      | nil => exact ⟨name, a.1, [], by simp [filePlace]⟩
      | cons second further => exact ⟨name, second, further ++ [a.1], by simp [filePlace]⟩
    have outer : ∀ p ∈ (deep files filePlace here more).map Prod.fst, ∃ name rest, name ≠ n ∧
        p = here ++ name :: rest := by
      intro p listed
      obtain ⟨x, found, rfl⟩ := List.mem_map.mp listed
      obtain ⟨name, path, inside, a, there, -, rfl⟩ := (mem_deep proper.2.2).mp found
      exact ⟨name, path ++ [a.1], fun same => proper.1 (same ▸ subtree_names there), by simp [filePlace]⟩
    rw [deep, List.map_append, List.map_append]
    refine List.nodup_append.mpr
      ⟨List.nodup_append.mpr ⟨placed_nodup proper.2.1 _, below_ih proper.2.1 _, ?_⟩,
      ih proper.2.2 _, ?_⟩
    · rintro p inLevel q inInner rfl
      obtain ⟨y, there, rfl⟩ := List.mem_map.mp inLevel
      obtain ⟨x, -, rfl⟩ := List.mem_map.mp there
      obtain ⟨a, b, further, same⟩ := inner _ inInner
      simp [filePlace] at same
    · rintro p inDir q inOuter rfl
      obtain ⟨name, rest, other, same⟩ := outer _ inOuter
      have starts : ∃ rest, p = here ++ n :: rest := by
        rcases List.mem_append.mp inDir with inLevel | inInner
        · obtain ⟨y, there, rfl⟩ := List.mem_map.mp inLevel
          obtain ⟨x, -, rfl⟩ := List.mem_map.mp there
          exact ⟨[x.1], by simp [filePlace]⟩
        · obtain ⟨a, b, further, same⟩ := inner _ inInner
          exact ⟨a :: b :: further, same⟩
      obtain ⟨rest', mine⟩ := starts
      rw [mine] at same
      exact other (List.cons.inj (List.append_cancel_left same)).1.symm

/-- A walk names no file twice. -/
theorem allFiles_nodup (proper : t.Proper) : (t.allFiles.map Prod.fst).Nodup := by
  rw [allFiles, List.map_append]
  refine List.nodup_append.mpr ⟨placed_nodup proper [], deep_nodup proper [], ?_⟩
  rintro p inLevel q inDeep rfl
  obtain ⟨y, there, rfl⟩ := List.mem_map.mp inLevel
  obtain ⟨x, -, rfl⟩ := List.mem_map.mp there
  obtain ⟨z, found, same⟩ := List.mem_map.mp inDeep
  obtain ⟨name, path, inside, a, -, -, rfl⟩ := (mem_deep proper).mp found
  simp [filePlace] at same

end Cindral.Base.Tree
