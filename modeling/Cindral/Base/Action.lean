/-!
# Actions

Computations over a state that may raise. An action that raises keeps what it did to the state until then.
`Ends` says of every way an action can end what holds there.
-/

namespace Cindral.Base

def Action (σ ε α : Type) := σ → Except ε α × σ

namespace Action
variable {σ ε α β : Type} {x : Action σ ε α} {f : α → Action σ ε β} {s : σ}

def bind (x : Action σ ε α) (f : α → Action σ ε β) : Action σ ε β := fun s =>
  match x s with
  | (.ok a, t) => f a t
  | (.error e, t) => (.error e, t)

instance : Monad (Action σ ε) where
  pure a := fun s => (.ok a, s)
  bind := bind

def raise (e : ε) : Action σ ε α := fun s => (.error e, s)

def lift (r : Except ε α) : Action σ ε α := fun s => (r, s)

def read : Action σ ε σ := fun s => (.ok s, s)

def modify (f : σ → σ) : Action σ ε Unit := fun s => (.ok (), f s)

/-- `try`, with a clause for every exception. -/
def rescue (x : Action σ ε α) (handle : ε → Action σ ε α) : Action σ ε α := fun s =>
  match x s with
  | (.ok a, t) => (.ok a, t)
  | (.error e, t) => handle e t

/-- However the action ends, `post` holds of its outcome and of the state. -/
def Ends (x : Action σ ε α) (post : Except ε α → σ → Prop) (s : σ) : Prop := post (x s).1 (x s).2

variable {post post' : Except ε α → σ → Prop}

theorem ends_mono (h : x.Ends post s) (weaker : ∀ r t, post r t → post' r t) : x.Ends post' s :=
  weaker _ _ h

@[simp] theorem ends_pure {a : α} : (pure a : Action σ ε α).Ends post s ↔ post (.ok a) s := Iff.rfl
@[simp] theorem ends_raise {e : ε} : (raise e : Action σ ε α).Ends post s ↔ post (.error e) s := Iff.rfl
@[simp] theorem ends_lift {r : Except ε α} : (lift r : Action σ ε α).Ends post s ↔ post r s := Iff.rfl
@[simp] theorem ends_read {post : Except ε σ → σ → Prop} :
    (read : Action σ ε σ).Ends post s ↔ post (.ok s) s := Iff.rfl
@[simp] theorem ends_modify {g : σ → σ} {post : Except ε Unit → σ → Prop} :
    (modify g : Action σ ε Unit).Ends post s ↔ post (.ok ()) (g s) := Iff.rfl

theorem ends_read_bind {g : σ → Action σ ε β} {post : Except ε β → σ → Prop} :
    ((read : Action σ ε σ) >>= g).Ends post s ↔ (g s).Ends post s := Iff.rfl

theorem bind_eq : (x >>= f) s = match x s with
    | (.ok a, t) => f a t
    | (.error e, t) => (.error e, t) := rfl

theorem ends_bind {post : Except ε β → σ → Prop} {mid : Except ε α → σ → Prop} (first : x.Ends mid s)
    (next : ∀ a t, mid (.ok a) t → (f a).Ends post t)
    (raised : ∀ e t, mid (.error e) t → post (.error e) t) :
    (x >>= f).Ends post s := by
  unfold Ends at first ⊢
  rw [bind_eq]
  generalize x s = ended at first ⊢
  obtain ⟨outcome, t⟩ := ended
  cases outcome with
  | ok a => exact next a t first
  | error e => exact raised e t first

theorem bind_congr_at {g : α → Action σ ε β} (h : ∀ a t, x s = (.ok a, t) → f a t = g a t) :
    (x >>= f) s = (x >>= g) s := by
  rw [bind_eq, bind_eq]
  generalize ended : x s = result
  obtain ⟨outcome, t⟩ := result
  cases outcome with
  | ok a => exact h a t ended
  | error e => rfl

theorem ends_lift_bind {r : Except ε α} {post : Except ε β → σ → Prop}
    (fine : ∀ a, r = .ok a → (f a).Ends post s)
    (raised : ∀ e, r = .error e → post (.error e) s) : (lift r >>= f).Ends post s := by
  cases r with
  | ok a => exact fine a rfl
  | error e => exact raised e rfl

theorem ends_rescue {handle : ε → Action σ ε α} {mid : Except ε α → σ → Prop} (first : x.Ends mid s)
    (fine : ∀ a t, mid (.ok a) t → post (.ok a) t)
    (caught : ∀ e t, mid (.error e) t → (handle e).Ends post t) :
    (x.rescue handle).Ends post s := by
  unfold Ends at first ⊢
  unfold rescue
  generalize x s = ended at first ⊢
  obtain ⟨outcome, t⟩ := ended
  cases outcome with
  | ok a => exact fine a t first
  | error e => exact caught e t first

end Action
end Cindral.Base
