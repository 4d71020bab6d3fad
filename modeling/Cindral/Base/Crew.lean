import Cindral.Base.Script
import Mathlib.Logic.Function.Basic

/-!
# Scripts side by side

Threads that share one state. In a turn one thread makes its next call, so calls are atomic and
anything can happen between two of them. A thread runs one script and is never used again. `told`
is what each thread has learnt from its calls, and `Disciplined` says that every thread keeps to a
protocol from there on.
-/

namespace Cindral.Base
variable {Pid Call : Type} {Ans : Call → Type} {ε σ κ G : Type}

/-- The shared state, the script each thread has left, and as history the calls it has made. -/
structure Crew (Pid : Type) (Call : Type) (Ans : Call → Type) (ε σ : Type) where
  state : σ
  task : Pid → Option (Script Call Ans ε Unit)
  made : Pid → List Call

namespace Crew

def fresh (state : σ) : Crew Pid Call Ans ε σ := ⟨state, fun _ => none, fun _ => []⟩

/-- Every thread is gone, as when the process stops. -/
def stop (w : Crew Pid Call Ans ε σ) (state : σ) : Crew Pid Call Ans ε σ :=
  ⟨state, fun p => (w.task p).map fun _ => .done (), w.made⟩

variable [DecidableEq Pid]

/-- Hand a script to a thread that has never run. -/
def spawn (w : Crew Pid Call Ans ε σ) (p : Pid) (s : Script Call Ans ε Unit) :
    Option (Crew Pid Call Ans ε σ) :=
  match w.task p with
  | none => some { w with task := Function.update w.task p (some s) }
  | some _ => none

/-- One call of one thread, answered by the state under the environment's choice. -/
def turn (perform : κ → σ → (c : Call) → Option (Except ε (Ans c) × σ)) (w : Crew Pid Call Ans ε σ)
    (p : Pid) (k : κ) :
    Option (Crew Pid Call Ans ε σ) :=
  match w.task p with
  | some (.ask c next) => (perform k w.state c).map fun x =>
    ⟨x.2, Function.update w.task p (some (next x.1)), Function.update w.made p (w.made p ++ [c])⟩
  | _ => none

/-- Each thread's remaining script keeps to the protocol from what the thread has been told, and
ends well. -/
def Obeys (P : Protocol Call Ans ε G) (post : G → Except ε Unit → Prop) (told : Pid → G)
    (w : Crew Pid Call Ans ε σ) : Prop :=
  ∀ p s, w.task p = some s → s.Follows P post (told p)

/-- Each thread's remaining script keeps to the protocol from what the thread has been told. -/
def Disciplined (P : Protocol Call Ans ε G) (told : Pid → G) (w : Crew Pid Call Ans ε σ) : Prop :=
  ∀ p s, w.task p = some s → s.Follows P (fun _ _ => True) (told p)

/-- A thread that has not started has made no call. -/
def Unused (w : Crew Pid Call Ans ε σ) : Prop := ∀ p, w.task p = none → w.made p = []

variable {P : Protocol Call Ans ε G} {told : Pid → G} {w w' : Crew Pid Call Ans ε σ} {p : Pid}

theorem spawn_eq {s : Script Call Ans ε Unit} (spawned : w.spawn p s = some w') :
    w.task p = none ∧ w' = { w with task := Function.update w.task p (some s) } := by
  unfold spawn at spawned
  split at spawned
  · rename_i unused
    exact ⟨unused, (Option.some.inj spawned).symm⟩
  · cases spawned

theorem turn_eq {perform : κ → σ → (c : Call) → Option (Except ε (Ans c) × σ)} {k : κ}
    (turned : w.turn perform p k = some w') :
    ∃ c next r, w.task p = some (.ask c next) ∧ perform k w.state c = some (r, w'.state) ∧
      w'.task = Function.update w.task p (some (next r)) ∧
      w'.made = Function.update w.made p (w.made p ++ [c]) := by
  unfold turn at turned
  split at turned
  · rename_i c next task
    obtain ⟨⟨r, s⟩, performed, rfl⟩ := Option.map_eq_some_iff.mp turned
    exact ⟨c, next, r, task, performed, rfl, rfl⟩
  · cases turned

theorem unused_spawn {s : Script Call Ans ε Unit} (h : w.Unused) (spawned : w.spawn p s = some w') :
    w'.Unused := by
  obtain ⟨-, rfl⟩ := spawn_eq spawned
  intro q idle
  by_cases same : q = p
  · subst same
    simp only [Function.update_self] at idle
    cases idle
  · simp only [Function.update_of_ne same] at idle
    exact h q idle

theorem unused_turn {perform : κ → σ → (c : Call) → Option (Except ε (Ans c) × σ)} {k : κ} (h : w.Unused)
    (turned : w.turn perform p k = some w') : w'.Unused := by
  obtain ⟨c, next, r, -, -, tasks, made⟩ := turn_eq turned
  intro q idle
  rw [tasks] at idle
  by_cases same : q = p
  · subst same
    rw [Function.update_self] at idle
    cases idle
  · rw [Function.update_of_ne same] at idle
    rw [made, Function.update_of_ne same]
    exact h q idle

omit [DecidableEq Pid] in
theorem unused_fresh (state : σ) : (fresh state : Crew Pid Call Ans ε σ).Unused := fun _ _ => rfl

omit [DecidableEq Pid] in
theorem unused_stop (h : w.Unused) (state : σ) : (w.stop state).Unused :=
  fun p idle => h p (Option.map_eq_none_iff.mp idle)

theorem obeys_spawn {post : G → Except ε Unit → Prop} {s : Script Call Ans ε Unit} {g : G}
    (h : Obeys P post told w)
    (follows : s.Follows P post g) (spawned : w.spawn p s = some w') :
    w'.state = w.state ∧ Obeys P post (Function.update told p g) w' := by
  obtain ⟨-, rfl⟩ := spawn_eq spawned
  refine ⟨rfl, fun q t task => ?_⟩
  by_cases same : q = p
  · subst same
    simp only [Function.update_self] at task ⊢
    obtain rfl := Option.some.inj task
    exact follows
  · simp only [Function.update_of_ne same] at task ⊢
    exact h q t task

/-- A thread whose call was answered was allowed it, and has then been told the answer. -/
theorem obeys_answer {post : G → Except ε Unit → Prop} {c : Call}
    {next : Except ε (Ans c) → Script Call Ans ε Unit}
    {r : Except ε (Ans c)} (h : Obeys P post told w) (task : w.task p = some (.ask c next))
    (tasks : w'.task = Function.update w.task p (some (next r))) :
    P.may (told p) c ∧ Obeys P post (Function.update told p (P.note (told p) c r)) w' := by
  have mine := h p _ task
  refine ⟨mine.1, fun q t left => ?_⟩
  rw [tasks] at left
  by_cases same : q = p
  · subst same
    rw [Function.update_self] at left ⊢
    obtain rfl := Option.some.inj left
    exact mine.2 r
  · rw [Function.update_of_ne same] at left ⊢
    exact h q t left

theorem disciplined_spawn {s : Script Call Ans ε Unit} {g : G} (h : Disciplined P told w)
    (follows : s.Follows P (fun _ _ => True) g) (spawned : w.spawn p s = some w') :
    w'.state = w.state ∧ Disciplined P (Function.update told p g) w' := obeys_spawn h follows spawned

theorem disciplined_answer {c : Call} {next : Except ε (Ans c) → Script Call Ans ε Unit}
    {r : Except ε (Ans c)}
    (h : Disciplined P told w) (task : w.task p = some (.ask c next))
    (tasks : w'.task = Function.update w.task p (some (next r))) :
    P.may (told p) c ∧ Disciplined P (Function.update told p (P.note (told p) c r)) w' :=
    obeys_answer h task tasks

theorem disciplined_ask {perform : κ → σ → (c : Call) → Option (Except ε (Ans c) × σ)} {k : κ}
    (h : Disciplined P told w) (turned : w.turn perform p k = some w') :
    ∃ c next r, w.task p = some (.ask c next) ∧ perform k w.state c = some (r, w'.state) ∧
      P.may (told p) c ∧
      Disciplined P (Function.update told p (P.note (told p) c r)) w' := by
  obtain ⟨c, next, r, task, performed, tasks, -⟩ := turn_eq turned
  exact ⟨c, next, r, task, performed, disciplined_answer h task tasks⟩

theorem disciplined_turn {perform : κ → σ → (c : Call) → Option (Except ε (Ans c) × σ)} {k : κ}
    (h : Disciplined P told w) (turned : w.turn perform p k = some w') :
    ∃ c r, perform k w.state c = some (r, w'.state) ∧ P.may (told p) c ∧
      Disciplined P (Function.update told p (P.note (told p) c r)) w' := by
  obtain ⟨c, _, r, -, performed, allowed, after⟩ := disciplined_ask h turned
  exact ⟨c, r, performed, allowed, after⟩

omit [DecidableEq Pid] in
theorem disciplined_fresh (state : σ) : Disciplined P told (fresh state) := fun _ _ task => nomatch task

omit [DecidableEq Pid] in
theorem disciplined_stop (state : σ) (told' : Pid → G) : Disciplined P told' (w.stop state) := by
  intro p s task
  obtain ⟨_, _, rfl⟩ := Option.map_eq_some_iff.mp task
  trivial

end Crew
theorem update_forall [DecidableEq Pid] {α : Type} {f : Pid → α} {a : α} {P : α → Prop} {p : Pid}
    (others : ∀ q, P (f q)) (mine : P a) (q : Pid) :
    P (Function.update f p a q) := by
  by_cases acting : q = p
  · subst acting
    rw [Function.update_self]
    exact mine
  · rw [Function.update_of_ne acting]
    exact others q

end Cindral.Base
