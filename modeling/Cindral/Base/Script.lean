import Mathlib.Logic.Basic

/-!
# Scripts

A request handler as the calls it makes. Each call is answered, or raises, before the handler goes
on. `play` runs a script alone, and `Follows` says that whatever the answers a script keeps to a
protocol: a rule about which call may come next, given what the calls so far were told.
-/

namespace Cindral.Base

inductive Script (Call : Type) (Ans : Call → Type) (ε α : Type) where
  | done (a : α)
  | fail (e : ε)
  | ask (c : Call) (next : Except ε (Ans c) → Script Call Ans ε α)

namespace Script
variable {Call : Type} {Ans : Call → Type} {ε α β σ G : Type}

def bind : Script Call Ans ε α → (α → Script Call Ans ε β) → Script Call Ans ε β
  | .done a, f => f a
  | .fail e, _ => .fail e
  | .ask c next, f => .ask c fun r => (next r).bind f

instance : Monad (Script Call Ans ε) where
  pure := .done
  bind := .bind

/-- The outcome of a script as a value, for a `try` to look at. -/
def attempt : Script Call Ans ε α → Script Call Ans ε (Except ε α)
  | .done a => .done (.ok a)
  | .fail e => .done (.error e)
  | .ask c next => .ask c fun r => (next r).attempt

def lift : Except ε α → Script Call Ans ε α
  | .ok a => .done a
  | .error e => .fail e

def call (c : Call) : Script Call Ans ε (Ans c) := .ask c lift

/-- A body that runs once for each item of a list, in order. -/
def forEach (items : List α) (body : α → Script Call Ans ε Unit) : Script Call Ans ε Unit :=
  match items with
  | [] => .done ()
  | a :: rest => (body a).bind fun _ => forEach rest body

/-- Run a script alone. A call that is not answered blocks it. -/
def play (perform : σ → (c : Call) → Option (Except ε (Ans c) × σ)) :
    Script Call Ans ε α → σ → Option (Except ε α × σ)
  | .done a, s => some (.ok a, s)
  | .fail e, s => some (.error e, s)
  | .ask c next, s => (perform s c).bind fun x => (next x.1).play perform x.2

/-- A script runs alone to an outcome, with whatever the environment chooses for each call. -/
inductive Ran {κ : Type} (perform : κ → σ → (c : Call) → Option (Except ε (Ans c) × σ)) :
    Script Call Ans ε α → σ → Except ε α → σ → Prop where
  | done (a : α) (s : σ) : Ran perform (.done a) s (.ok a) s
  | fail (e : ε) (s : σ) : Ran perform (.fail e) s (.error e) s
  | ask {c : Call} {next : Except ε (Ans c) → Script Call Ans ε α} {s t u : σ} {r : Except ε (Ans c)}
      {x : Except ε α} (k : κ) (answered : perform k s c = some (r, t))
      (rest : Ran perform (next r) t x u) :
      Ran perform (.ask c next) s x u

/-- Which calls a script makes at all. -/
def Only (free : Call → Prop) : Script Call Ans ε α → Prop
  | .done _ => True
  | .fail _ => True
  | .ask c next => free c ∧ ∀ r, (next r).Only free

end Script

/-- A rule for calls, over what a caller has been told so far. -/
structure Protocol (Call : Type) (Ans : Call → Type) (ε G : Type) where
  may : G → Call → Prop
  note : G → (c : Call) → Except ε (Ans c) → G

namespace Script
variable {Call : Type} {Ans : Call → Type} {ε α β σ G : Type}
  {s : Script Call Ans ε α} {f : α → Script Call Ans ε β}

/-- Every call the script makes is allowed, and it ends in a state and an outcome that satisfy `post`. -/
def Follows (P : Protocol Call Ans ε G) : Script Call Ans ε α → (G → Except ε α → Prop) → G → Prop
  | .done a, post, g => post g (.ok a)
  | .fail e, post, g => post g (.error e)
  | .ask c next, post, g => P.may g c ∧ ∀ r, (next r).Follows P post (P.note g c r)

@[simp] theorem pure_eq (a : α) : (pure a : Script Call Ans ε α) = .done a := rfl
@[simp] theorem bind_eq : (s >>= f) = s.bind f := rfl
@[simp] theorem done_bind (a : α) : (done a : Script Call Ans ε α).bind f = f a := rfl
@[simp] theorem fail_bind (e : ε) : (fail e : Script Call Ans ε α).bind f = .fail e := rfl

section Play
variable {perform : σ → (c : Call) → Option (Except ε (Ans c) × σ)}

@[simp] theorem play_done (a : α) (w : σ) :
    (done a : Script Call Ans ε α).play perform w = some (.ok a, w) := rfl
@[simp] theorem play_fail (e : ε) (w : σ) :
    (fail e : Script Call Ans ε α).play perform w = some (.error e, w) := rfl

theorem play_lift (r : Except ε α) (w : σ) :
    (lift r : Script Call Ans ε α).play perform w = some (r, w) := by
  cases r <;> rfl

@[simp] theorem play_call (c : Call) (w : σ) :
    (call c : Script Call Ans ε (Ans c)).play perform w = perform w c := by
  show (perform w c).bind _ = perform w c
  cases perform w c with
  | none => rfl
  | some x => exact play_lift x.1 x.2

/-- What follows a script that has run. -/
def andThen (perform : σ → (c : Call) → Option (Except ε (Ans c) × σ)) (f : α → Script Call Ans ε β) :
    Except ε α × σ → Option (Except ε β × σ)
  | (.ok a, w) => (f a).play perform w
  | (.error e, w) => some (.error e, w)

theorem play_bind (w : σ) : (s.bind f).play perform w = (s.play perform w).bind (andThen perform f) := by
  induction s generalizing w with
  | done a => rfl
  | fail e => rfl
  | ask c next ih =>
    simp only [bind, play]
    cases perform w c with
    | none => rfl
    | some x => exact ih x.1 x.2

/-- A run of two scripts stops in the first one or goes through it. -/
theorem play_bind_cases {w : σ} {x : Except ε β × σ} (h : (s.bind f).play perform w = some x) :
    (∃ a w', s.play perform w = some (.ok a, w') ∧ (f a).play perform w' = some x) ∨
      ∃ e w', s.play perform w = some (.error e, w') ∧ x = (.error e, w') := by
  rw [play_bind] at h
  obtain ⟨⟨r, w'⟩, first, second⟩ := Option.bind_eq_some_iff.mp h
  cases r with
  | ok a => exact Or.inl ⟨a, w', first, second⟩
  | error e => exact Or.inr ⟨e, w', first, (Option.some.inj second).symm⟩

theorem play_attempt (w : σ) :
    s.attempt.play perform w = (s.play perform w).map fun x => (.ok x.1, x.2) := by
  induction s generalizing w with
  | done a => rfl
  | fail e => rfl
  | ask c next ih =>
    simp only [attempt, play]
    cases perform w c with
    | none => rfl
    | some x => exact ih x.1 x.2

theorem play_attempt_cases {f : Except ε α → Script Call Ans ε β} {w : σ} {x : Except ε β × σ}
    (h : (s.attempt.bind f).play perform w = some x) :
    ∃ r w', s.play perform w = some (r, w') ∧ (f r).play perform w' = some x := by
  rw [play_bind, play_attempt] at h
  obtain ⟨y, tried, rest⟩ := Option.bind_eq_some_iff.mp h
  obtain ⟨⟨r, w'⟩, body, rfl⟩ := Option.map_eq_some_iff.mp tried
  exact ⟨r, w', body, rest⟩

/-- A fact about the state that every call the script makes keeps. -/
theorem play_only {free : Call → Prop} {I : σ → Prop}
    (keep : ∀ w c r w', free c → I w → perform w c = some (r, w') → I w')
    (only : s.Only free) {w : σ} (start : I w) {x : Except ε α × σ}
    (h : s.play perform w = some x) : I x.2 := by
  induction s generalizing w with
  | done a => obtain rfl := Option.some.inj h; exact start
  | fail e => obtain rfl := Option.some.inj h; exact start
  | ask c next ih =>
    obtain ⟨⟨r, w'⟩, taken, rest⟩ := Option.bind_eq_some_iff.mp h
    exact ih r (only.2 r) (keep w c r w' only.1 start taken) rest

/-- A script none of whose calls can block runs to its end. -/
theorem play_total {free : Call → Prop} (answered : ∀ w c, free c → ∃ x, perform w c = some x)
    (only : s.Only free)
    (w : σ) : ∃ x, s.play perform w = some x := by
  induction s generalizing w with
  | done a => exact ⟨_, rfl⟩
  | fail e => exact ⟨_, rfl⟩
  | ask c next ih =>
    obtain ⟨x, taken⟩ := answered w c only.1
    obtain ⟨y, rest⟩ := ih x.1 (only.2 x.1) x.2
    exact ⟨y, Option.bind_eq_some_iff.mpr ⟨x, taken, rest⟩⟩

end Play

section Ran
variable {κ : Type} {perform : κ → σ → (c : Call) → Option (Except ε (Ans c) × σ)} {w w' : σ}
    {x : Except ε β}

theorem ran_done {a : α} {x : Except ε α} (h : Ran perform (done a) w x w') : x = .ok a ∧ w' = w := by
  cases h
  exact ⟨rfl, rfl⟩

theorem ran_fail {e : ε} {x : Except ε α} (h : Ran perform (fail e) w x w') : x = .error e ∧ w' = w := by
  cases h
  exact ⟨rfl, rfl⟩

theorem ran_lift {r x : Except ε α} (h : Ran perform (lift r) w x w') : x = r ∧ w' = w := by
  cases r with
  | ok a => exact ran_done h
  | error e => exact ran_fail h

theorem ran_call {c : Call} {x : Except ε (Ans c)} (h : Ran perform (call c) w x w') :
    ∃ k, perform k w c = some (x, w') := by
  cases h with
  | ask k answered rest =>
    obtain ⟨rfl, rfl⟩ := ran_lift rest
    exact ⟨k, answered⟩

theorem ran_bind (h : Ran perform (s.bind f) w x w') :
    (∃ a v, Ran perform s w (.ok a) v ∧ Ran perform (f a) v x w') ∨
      ∃ e, Ran perform s w (.error e) w' ∧ x = .error e := by
  induction s generalizing w with
  | done a => exact Or.inl ⟨a, w, .done a w, h⟩
  | fail e =>
    obtain ⟨rfl, rfl⟩ := ran_fail h
    exact Or.inr ⟨e, .fail e _, rfl⟩
  | ask c next ih =>
    cases h with
    | ask k answered rest =>
      rcases ih _ rest with ⟨a, v, first, second⟩ | ⟨e, first, rfl⟩
      · exact Or.inl ⟨a, v, .ask k answered first, second⟩
      · exact Or.inr ⟨e, .ask k answered first, rfl⟩

theorem ran_attempt {x : Except ε (Except ε α)} (h : Ran perform s.attempt w x w') :
    ∃ r, x = .ok r ∧ Ran perform s w r w' := by
  induction s generalizing w with
  | done a =>
    obtain ⟨rfl, rfl⟩ := ran_done h
    exact ⟨_, rfl, .done a _⟩
  | fail e =>
    obtain ⟨rfl, rfl⟩ := ran_done h
    exact ⟨_, rfl, .fail e _⟩
  | ask c next ih =>
    cases h with
    | ask k answered rest =>
      obtain ⟨r, rfl, ran⟩ := ih _ rest
      exact ⟨r, rfl, .ask k answered ran⟩

theorem ran_try {f : Except ε α → Script Call Ans ε β} (h : Ran perform (s.attempt.bind f) w x w') :
    ∃ r v, Ran perform s w r v ∧ Ran perform (f r) v x w' := by
  rcases ran_bind h with ⟨r, v, tried, rest⟩ | ⟨e, tried, -⟩
  · obtain ⟨r, same, body⟩ := ran_attempt tried
    obtain rfl := Except.ok.inj same
    exact ⟨_, v, body, rest⟩
  · obtain ⟨r, same, -⟩ := ran_attempt tried
    cases same

theorem ran_only {free : Call → Prop} {I : σ → Prop}
    (keep : ∀ k w c r w', free c → I w → perform k w c = some (r, w') → I w')
    (only : s.Only free) (start : I w) {x : Except ε α} (h : Ran perform s w x w') : I w' := by
  induction h with
  | done a w => exact start
  | fail e w => exact start
  | ask k answered rest ih => exact ih (only.2 _) (keep k _ _ _ _ only.1 start answered)

/-- A run in an environment that makes up its mind about each call beforehand. -/
theorem ran_of_play (choose : Call → κ) {x : Except ε α × σ}
    (h : s.play (fun w c => perform (choose c) w c) w = some x) : Ran perform s w x.1 x.2 := by
  induction s generalizing w with
  | done a => obtain rfl := Option.some.inj h; exact .done a w
  | fail e => obtain rfl := Option.some.inj h; exact .fail e w
  | ask c next ih =>
    obtain ⟨⟨r, v⟩, answered, rest⟩ := Option.bind_eq_some_iff.mp h
    exact .ask (choose c) answered (ih r rest)

end Ran

section Ensures
variable {κ : Type} {perform : κ → σ → (c : Call) → Option (Except ε (Ans c) × σ)} {w : σ}
  {post post' : Except ε α → σ → Prop} {after : Except ε β → σ → Prop}

/-- However the script runs alone, it ends in such an outcome and such a state. -/
def Ensures (perform : κ → σ → (c : Call) → Option (Except ε (Ans c) × σ)) (s : Script Call Ans ε α) (w : σ)
    (post : Except ε α → σ → Prop) : Prop :=
  ∀ x w', Ran perform s w x w' → post x w'

theorem ensures_mono (h : Ensures perform s w post) (weaker : ∀ x w, post x w → post' x w) :
    Ensures perform s w post' :=
  fun x w' ran => weaker x w' (h x w' ran)

theorem ensures_and (h : Ensures perform s w post) (h' : Ensures perform s w post') :
    Ensures perform s w fun x w => post x w ∧ post' x w :=
  fun x w' ran => ⟨h x w' ran, h' x w' ran⟩

theorem ensures_done {a : α} (h : post (.ok a) w) : Ensures perform (done a) w post := by
  intro x w' ran
  obtain ⟨rfl, rfl⟩ := ran_done ran
  exact h

theorem ensures_fail {e : ε} (h : post (.error e) w) : Ensures perform (fail e) w post := by
  intro x w' ran
  obtain ⟨rfl, rfl⟩ := ran_fail ran
  exact h

theorem ensures_lift {r : Except ε α} (h : post r w) : Ensures perform (lift r) w post := by
  intro x w' ran
  obtain ⟨rfl, rfl⟩ := ran_lift ran
  exact h

theorem ensures_call {c : Call} {post : Except ε (Ans c) → σ → Prop}
    (h : ∀ k r w', perform k w c = some (r, w') → post r w') : Ensures perform (call c) w post := by
  intro x w' ran
  obtain ⟨k, answered⟩ := ran_call ran
  exact h k x w' answered

/-- What the first of two scripts has to leave behind. -/
def onward (perform : κ → σ → (c : Call) → Option (Except ε (Ans c) × σ)) (f : α → Script Call Ans ε β)
    (after : Except ε β → σ → Prop) : Except ε α → σ → Prop
  | .ok a, w => Ensures perform (f a) w after
  | .error e, w => after (.error e) w

theorem ensures_bind (h : Ensures perform s w (onward perform f after)) :
    Ensures perform (s.bind f) w after := by
  intro x w' ran
  rcases ran_bind ran with ⟨a, v, first, second⟩ | ⟨e, first, rfl⟩
  · exact h (.ok a) v first x w' second
  · exact h (.error e) w' first

theorem ensures_try {f : Except ε α → Script Call Ans ε β}
    (h : Ensures perform s w fun r v => Ensures perform (f r) v after) :
    Ensures perform (s.attempt.bind f) w after := by
  intro x w' ran
  obtain ⟨r, v, first, second⟩ := ran_try ran
  exact h r v first x w' second

theorem ensures_only {free : Call → Prop} {I : σ → Prop}
    (keep : ∀ k w c r w', free c → I w → perform k w c = some (r, w') → I w')
    (only : s.Only free) (start : I w) : Ensures perform s w fun _ w' => I w' :=
  fun _ _ ran => ran_only keep only start ran

/-- Runs that write down what they meet. -/
def noting (perform : κ → σ → (c : Call) → Option (Except ε (Ans c) × σ))
    (note : G → κ → (c : Call) → Except ε (Ans c) → G) (k : κ) (s : σ × G) (c : Call) :
    Option (Except ε (Ans c) × (σ × G)) :=
  (perform k s.1 c).map fun x => (x.1, (x.2, note s.2 k c x.1))

theorem noting_eq {note : G → κ → (c : Call) → Except ε (Ans c) → G} {k : κ} {s s' : σ × G} {c : Call}
    {r : Except ε (Ans c)} (h : noting perform note k s c = some (r, s')) :
    perform k s.1 c = some (r, s'.1) ∧ s'.2 = note s.2 k c r := by
  obtain ⟨x, performed, same⟩ := Option.map_eq_some_iff.mp h
  obtain ⟨rfl, rfl⟩ := Prod.mk.inj same
  exact ⟨performed, rfl⟩

end Ensures

section Only
variable {free free' : Call → Prop}

theorem only_mono (h : s.Only free) (weaker : ∀ c, free c → free' c) : s.Only free' := by
  induction s with
  | done a => trivial
  | fail e => trivial
  | ask c next ih => exact ⟨weaker c h.1, fun r => ih r (h.2 r)⟩

theorem only_any (s : Script Call Ans ε α) : s.Only fun _ => True := by
  induction s with
  | done a => trivial
  | fail e => trivial
  | ask c next ih => exact ⟨trivial, ih⟩

theorem only_done (a : α) : (done a : Script Call Ans ε α).Only free := trivial

theorem only_lift (r : Except ε α) : (lift r : Script Call Ans ε α).Only free := by
  cases r <;> trivial

theorem only_call {c : Call} (h : free c) : (call c : Script Call Ans ε (Ans c)).Only free :=
  ⟨h, only_lift⟩

theorem only_bind (h : s.Only free) (next : ∀ a, (f a).Only free) : (s.bind f).Only free := by
  induction s with
  | done a => exact next a
  | fail e => trivial
  | ask c k ih => exact ⟨h.1, fun r => ih r (h.2 r)⟩

theorem only_attempt (h : s.Only free) : s.attempt.Only free := by
  induction s with
  | done a => trivial
  | fail e => trivial
  | ask c k ih => exact ⟨h.1, fun r => ih r (h.2 r)⟩

theorem only_forEach {items : List α} {body : α → Script Call Ans ε Unit}
    (h : ∀ a ∈ items, (body a).Only free) :
    (forEach items body).Only free := by
  induction items with
  | nil => trivial
  | cons a rest ih =>
    exact only_bind (h a List.mem_cons_self) fun _ => ih fun b member =>
      h b (List.mem_cons_of_mem a member)

end Only

section Follows
variable {P : Protocol Call Ans ε G} {post post' : G → Except ε α → Prop}
    {after : G → Except ε β → Prop} {g : G}

theorem follows_mono (h : s.Follows P post g) (weaker : ∀ g r, post g r → post' g r) :
    s.Follows P post' g := by
  induction s generalizing g with
  | done a => exact weaker g _ h
  | fail e => exact weaker g _ h
  | ask c next ih => exact ⟨h.1, fun r => ih r (h.2 r)⟩

/-- What the first of two scripts has to leave behind. -/
def before (P : Protocol Call Ans ε G) (f : α → Script Call Ans ε β) (after : G → Except ε β → Prop) :
    G → Except ε α → Prop
  | g, .ok a => (f a).Follows P after g
  | g, .error e => after g (.error e)

theorem follows_bind (h : s.Follows P (before P f after) g) : (s.bind f).Follows P after g := by
  induction s generalizing g with
  | done a => exact h
  | fail e => exact h
  | ask c next ih => exact ⟨h.1, fun r => ih r (h.2 r)⟩

theorem follows_attempt {post : G → Except ε (Except ε α) → Prop}
    (h : s.Follows P (fun g r => post g (.ok r)) g) :
    s.attempt.Follows P post g := by
  induction s generalizing g with
  | done a => exact h
  | fail e => exact h
  | ask c next ih => exact ⟨h.1, fun r => ih r (h.2 r)⟩

theorem follows_lift {r : Except ε α} (h : post g r) :
    (lift r : Script Call Ans ε α).Follows P post g := by
  cases r <;> exact h

theorem follows_call {c : Call} {post : G → Except ε (Ans c) → Prop} (allowed : P.may g c)
    (h : ∀ r, post (P.note g c r) r) : (call c : Script Call Ans ε (Ans c)).Follows P post g :=
  ⟨allowed, fun r => follows_lift (h r)⟩

/-- A script of calls the protocol has no opinion on. -/
theorem follows_of_only {free : Call → Prop} (idle : ∀ c, free c → P.may g c ∧ ∀ r, P.note g c r = g)
    (only : s.Only free) (h : ∀ r, post g r) : s.Follows P post g := by
  induction s with
  | done a => exact h (.ok a)
  | fail e => exact h (.error e)
  | ask c next ih =>
    refine ⟨(idle c only.1).1, fun r => ?_⟩
    rw [(idle c only.1).2 r]
    exact ih r (only.2 r)

/-- What is left of a script that runs among others: the state may become anything between two of
its calls. `g` is what the calls so far have told it. -/
inductive Amid {κ : Type} (note : G → (c : Call) → Except ε (Ans c) → G)
    (perform : κ → σ → (c : Call) → Option (Except ε (Ans c) × σ)) (s : Script Call Ans ε α) (start : G) :
    Script Call Ans ε α → G → Prop where
  | begun : Amid note perform s start s start
  | called {c : Call} {next : Except ε (Ans c) → Script Call Ans ε α} {g : G} {k : κ} {w w' : σ}
      {r : Except ε (Ans c)}
      (earlier : Amid note perform s start (.ask c next) g) (answered : perform k w c = some (r, w')) :
      Amid note perform s start (next r) (note g c r)

/-- What is left of a script, and what it was told, when its first calls meet these moments. -/
def leftAt {κ : Type} (note : G → (c : Call) → Except ε (Ans c) → G)
    (perform : κ → σ → (c : Call) → Option (Except ε (Ans c) × σ)) :
    List (κ × σ) → Script Call Ans ε α → G → Script Call Ans ε α × G
  | (k, w) :: moments, .ask c next, g =>
    match perform k w c with
    | some x => leftAt note perform moments (next x.1) (note g c x.1)
    | none => (.ask c next, g)
  | _, s, g => (s, g)

theorem amid_leftAt {κ : Type} {note : G → (c : Call) → Except ε (Ans c) → G}
    {perform : κ → σ → (c : Call) → Option (Except ε (Ans c) × σ)} {rest : Script Call Ans ε α} {g' : G}
    (moments : List (κ × σ)) (amid : Amid note perform s g rest g') :
    Amid note perform s g (leftAt note perform moments rest g').1
    (leftAt note perform moments rest g').2 := by
  induction moments generalizing rest g' with
  | nil => exact amid
  | cons moment moments ih =>
    obtain ⟨k, w⟩ := moment
    cases rest with
    | done a => exact amid
    | fail e => exact amid
    | ask c next =>
      simp only [leftAt]
      split
      · exact ih (.called amid (by assumption))
      · exact amid

/-- Whatever happens around it, a script that follows a protocol keeps to it. -/
theorem follows_amid {κ : Type} {perform : κ → σ → (c : Call) → Option (Except ε (Ans c) × σ)}
    {rest : Script Call Ans ε α} {g' : G} (h : s.Follows P post g)
    (amid : Amid P.note perform s g rest g') :
    rest.Follows P post g' := by
  induction amid with
  | begun => exact h
  | called earlier answered ih => exact ih.2 _

theorem only_amid {κ : Type} {note : G → (c : Call) → Except ε (Ans c) → G}
    {perform : κ → σ → (c : Call) → Option (Except ε (Ans c) × σ)} {free : Call → Prop}
    {rest : Script Call Ans ε α} {g' : G}
    (h : s.Only free) (amid : Amid note perform s g rest g') : rest.Only free := by
  induction amid with
  | begun => exact h
  | called earlier answered ih => exact ih.2 _

/-- A loop whose body keeps a fact, whatever it ends with. -/
theorem follows_forEach {items : List β} {body : β → Script Call Ans ε Unit} {I : G → Prop}
    {post : G → Except ε Unit → Prop}
    (keep : ∀ b ∈ items, ∀ g, I g → (body b).Follows P (fun g _ => I g) g) (done : ∀ g r, I g → post g r)
    (start : I g) : (forEach items body).Follows P post g := by
  induction items generalizing g with
  | nil => exact done g _ start
  | cons b rest ih =>
    refine follows_bind (follows_mono (keep b List.mem_cons_self g start) fun g r holds => ?_)
    cases r with
    | error e => exact done g _ holds
    | ok _ => exact ih (fun x member => keep x (List.mem_cons_of_mem b member)) holds

end Follows
end Script
end Cindral.Base
