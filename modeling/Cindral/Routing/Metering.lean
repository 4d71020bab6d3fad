import Cindral.Base.Calendar
import Cindral.Base.Table
import Mathlib.Algebra.Order.Field.Rat

/-! The ledger of metered dispatches, one row for each hold. -/

namespace Cindral.Routing
open Base

def hostedLane : String := "hosted"
def repositoryUnknown : String := "-"

structure Hold where
  id : Nat
  repository : String
  lane : String
  workflow : String
  ref : String
  createdAt : ℚ
  deriving DecidableEq, Repr

abbrev MeteredLedger := Table Hold.id

namespace Hold

def named (repository workflow ref : String) : Edit Hold.id :=
  ⟨fun r => { r with repository := lower repository, workflow := workflow, ref := ref }, fun _ => rfl⟩

end Hold

namespace MeteredLedger

/-- The id SQLite gives an `INTEGER PRIMARY KEY`: one past the largest in the table. -/
def nextId (t : MeteredLedger) : Nat := (t.rows.map Hold.id).foldr max 0 + 1

theorem id_lt_nextId {t : MeteredLedger} {r : Hold} (h : r ∈ t.rows) : r.id < t.nextId := by
  have bound : ∀ ids : List Nat, ∀ n ∈ ids, n ≤ ids.foldr max 0 := by
    intro ids
    induction ids with
    | nil => exact fun n member => absurd member List.not_mem_nil
    | cons m rest ih =>
      intro n member
      rcases List.mem_cons.mp member with rfl | later
      · exact le_max_left n _
      · exact (ih n later).trans (le_max_right m _)
  exact Nat.lt_succ_of_le (bound _ _ (List.mem_map_of_mem h))

def reserve (t : MeteredLedger) (repository lane workflow ref : String) (now : ℚ) : Nat × MeteredLedger :=
  (t.nextId, t.replace ⟨t.nextId, lower repository, lane, workflow, ref, now⟩)

def attributeHold (t : MeteredLedger) (reservation : Nat) (repository workflow ref : String) :
    MeteredLedger :=
  t.update ((Hold.named repository workflow ref).only (·.id = reservation))

def release (t : MeteredLedger) (reservation : Nat) : MeteredLedger := t.filter (·.id ≠ reservation)

def count (t : MeteredLedger) (since : ℚ) (lane : String) : Nat :=
  t.rows.countP fun r => r.lane = lane && since ≤ r.createdAt

end MeteredLedger
end Cindral.Routing
