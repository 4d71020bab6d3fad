import Cindral.Base.Script

/-! Scripts that clean up after themselves, and what they keep to while they do. -/

namespace Cindral.Base.Script
variable {Call : Type} {Ans : Call → Type} {ε α β G : Type} {P : Protocol Call Ans ε G}
  {s : Script Call Ans ε α} {last : Script Call Ans ε Unit} {post : G → Except ε α → Prop} {g : G}

/-- `try … finally`: the last part is done however the body ends, and if it fails that is what is left. -/
def ensure (s : Script Call Ans ε α) (last : Script Call Ans ε Unit) : Script Call Ans ε α :=
  s.attempt.bind fun r => last.bind fun _ => lift r

/-- What is left of an outcome once the last part came to one of its own. -/
def outlast (r : Except ε α) : Except ε Unit → Except ε α
  | .ok _ => r
  | .error e => .error e

theorem follows_ensure (h : s.Follows P
    (fun g r => last.Follows P (fun g' r' => post g' (outlast r r')) g) g) :
    (s.ensure last).Follows P post g := by
  apply follows_bind
  apply follows_attempt
  apply follows_mono h
  intro g r cleanup
  apply follows_bind
  apply follows_mono cleanup
  intro g' r' kept
  cases r' with
  | error e => exact kept
  | ok _ => exact follows_lift kept

/-- What a script may leave behind when it catches some of its failures. -/
theorem follows_catch {f : Except ε α → Script Call Ans ε β} {after : G → Except ε β → Prop}
    (h : s.Follows P (fun g r => (f r).Follows P after g) g) : (s.attempt.bind f).Follows P after g := by
  apply follows_bind
  apply follows_attempt
  exact follows_mono h fun g r next => next

/-- A script, and what follows it where it ends well. -/
theorem follows_seq {f : α → Script Call Ans ε β} {after : G → Except ε β → Prop}
    (h : s.Follows P (fun g r => match r with
      | .ok a => (f a).Follows P after g
      | .error e => after g (.error e)) g) : (s.bind f).Follows P after g := by
  apply follows_bind
  apply follows_mono h
  intro g r next
  cases r with
  | ok a => exact next
  | error e => exact next

/-- A protocol that promises nothing any more once `V` holds. -/
structure Voided (P : Protocol Call Ans ε G) (V : G → Prop) : Prop where
  may : ∀ g c, V g → P.may g c
  note : ∀ g c r, V g → V (P.note g c r)

section Voided
variable {V : G → Prop} (void : Voided P V)
include void

theorem follows_void (s : Script Call Ans ε α) (off : V g) : s.Follows P (fun g _ => V g) g := by
  induction s generalizing g with
  | done a => exact off
  | fail e => exact off
  | ask c next ih => exact ⟨void.may g c off, fun r => ih r (void.note g c r off)⟩

/-- A script, and what follows it however it ends, unless nothing is promised by then. -/
theorem catch_unless {f : Except ε α → Script Call Ans ε β} {after : G → Except ε β → Prop}
    (h : s.Follows P (fun g r => V g ∨ post g r) g)
    (next : ∀ g r, post g r → (f r).Follows P (fun g r => V g ∨ after g r) g) :
    (s.attempt.bind f).Follows P (fun g r => V g ∨ after g r) g := by
  apply follows_catch
  apply follows_mono h
  intro g r left
  rcases left with off | left
  · exact follows_mono (follows_void void (f r) off) fun _ _ off => Or.inl off
  · exact next g r left

theorem seq_unless {f : α → Script Call Ans ε β} {after : G → Except ε β → Prop}
    (h : s.Follows P (fun g r => V g ∨ post g r) g)
    (next : ∀ g a, post g (.ok a) → (f a).Follows P (fun g r => V g ∨ after g r) g)
    (failed : ∀ g e, post g (.error e) → after g (.error e)) :
    (s.bind f).Follows P (fun g r => V g ∨ after g r) g := by
  apply follows_seq
  apply follows_mono h
  intro g r left
  cases r with
  | ok a =>
    rcases left with off | left
    · exact follows_mono (follows_void void (f a) off) fun _ _ off => Or.inl off
    · exact next g a left
  | error e =>
    rcases left with off | left
    · exact Or.inl off
    · exact Or.inr (failed g e left)

theorem ensure_unless {final : G → Except ε α → Prop} (h : s.Follows P (fun g r => V g ∨ post g r) g)
    (cleanup : ∀ g r, post g r → last.Follows P (fun g' r' => V g' ∨ final g' (outlast r r')) g) :
    (s.ensure last).Follows P (fun g r => V g ∨ final g r) g := by
  apply follows_ensure
  apply follows_mono h
  intro g r left
  rcases left with off | left
  · exact follows_mono (follows_void void last off) fun _ _ off => Or.inl off
  · exact cleanup g r left

end Voided

end Cindral.Base.Script
