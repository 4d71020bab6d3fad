import Mathlib.Logic.Function.Basic
import Mathlib.Data.List.Basic

/-! A directory of files by name. -/

namespace Cindral.Base

def Directory (κ β : Type) : Type := κ → Option β

namespace Directory
variable {κ β : Type} [DecidableEq κ]

def empty : Directory κ β := fun _ => none

/-- A rename over the name, whatever it held. -/
def install (d : Directory κ β) (name : κ) (body : β) : Directory κ β :=
  Function.update d name (some body)

def unlink (d : Directory κ β) (name : κ) : Directory κ β := Function.update d name none

def unlinkAll (d : Directory κ β) (names : List κ) : Directory κ β := names.foldl unlink d

/-- Whichever of the files are stale go. -/
def sweep (d : Directory κ β) (stale : κ → Bool) : Directory κ β :=
  fun name => if stale name then none else d name

theorem install_apply (d : Directory κ β) (name other : κ) (body : β) :
    d.install name body other = if other = name then some body else d other :=
  Function.update_apply d name (some body) other

theorem unlink_apply (d : Directory κ β) (name other : κ) :
    d.unlink name other = if other = name then none else d other :=
  Function.update_apply d name none other

omit [DecidableEq κ] in
theorem sweep_apply (d : Directory κ β) (stale : κ → Bool) (name : κ) :
    d.sweep stale name = d name ∨ d.sweep stale name = none := by
  unfold sweep
  split
  · exact Or.inr rfl
  · exact Or.inl rfl

theorem unlinkAll_apply (d : Directory κ β) (names : List κ) (name : κ) :
    d.unlinkAll names name = if name ∈ names then none else d name := by
  induction names generalizing d with
  | nil => simp [unlinkAll]
  | cons first rest ih =>
    show unlinkAll (d.unlink first) rest name = _
    rw [ih, unlink_apply]
    by_cases later : name ∈ rest
    · simp [later]
    · simp [later]

end Directory
end Cindral.Base
