import Mathlib.Data.Nat.Notation
import Mathlib.Order.Basic

/-!
# Retained objects

A table and the calls that have looked an object up refer to it.  When the last reference
goes the object is dropped, and with it the handle of a task it owns, if one was stored in
it; that aborts the task.  A call that removes the object from the table refers to it
until the call returns.

No call can find an object that nothing refers to.  So a dropped object stays dropped, and its
task is aborted from then on (`Sound`).
-/

namespace Transition

/-- What refers to an object, and the task it owns. -/
structure Retained where
  registered : Bool := true
  /-- How many calls in progress refer to the object. -/
  calls : ℕ := 0
  /-- The handle of the task is stored in the object. -/
  stored : Bool := false
  aborted : Bool := false
deriving DecidableEq

namespace Retained

def references (r : Retained) : ℕ := r.registered.toNat + r.calls

/-- Nothing refers to the object. -/
def Dropped (r : Retained) : Prop := r.references = 0

instance (r : Retained) : Decidable r.Dropped := inferInstanceAs (Decidable (_ = 0))

/-- A call looks the object up. -/
def enter (r : Retained) : Option Retained :=
  if r.registered then some { r with calls := r.calls + 1 } else none

/-- One that referred to the object is gone. -/
def release (r : Retained) : Retained :=
  { r with aborted := r.aborted || (r.references == 0 && r.stored) }

/-- A call that referred to the object returns. -/
def leave (r : Retained) : Retained := { r with calls := r.calls - 1 }.release

/-- A call stores the handle of the task, and returns. -/
def store (r : Retained) : Retained := { r with stored := true }.leave

/-- The object is removed from the table, by a call that holds it from then on. -/
def remove (r : Retained) : Option Retained :=
  if r.registered then some { r with registered := false, calls := r.calls + 1 } else none

/-- What can become of a retained object. -/
inductive Moves (r : Retained) : Retained → Prop where
  | enter : r.registered = true → Moves r { r with calls := r.calls + 1 }
  | leave : 0 < r.calls → Moves r r.leave
  | store : 0 < r.calls → Moves r r.store
  | remove : r.registered = true →
      Moves r { r with registered := false, calls := r.calls + 1 }

variable {r s : Retained}

theorem enter_eq_some (h : r.enter = some s) :
    r.registered = true ∧ s = { r with calls := r.calls + 1 } := by
  obtain ⟨hr, hs⟩ := Option.ite_none_right_eq_some.mp h
  exact ⟨hr, (Option.some.inj hs).symm⟩

theorem enter_eq_none (h : r.enter = none) : r.registered = false := by
  simpa [enter] using h

theorem remove_eq_some (h : r.remove = some s) :
    r.registered = true ∧ s = { r with registered := false, calls := r.calls + 1 } := by
  obtain ⟨hr, hs⟩ := Option.ite_none_right_eq_some.mp h
  exact ⟨hr, (Option.some.inj hs).symm⟩

theorem remove_eq_none (h : r.remove = none) : r.registered = false := by
  simpa [remove] using h

@[simp] theorem leave_registered : r.leave.registered = r.registered := rfl

@[simp] theorem leave_calls : r.leave.calls = r.calls - 1 := rfl

@[simp] theorem leave_stored : r.leave.stored = r.stored := rfl

@[simp] theorem store_registered : r.store.registered = r.registered := rfl

@[simp] theorem store_calls : r.store.calls = r.calls - 1 := rfl

@[simp] theorem store_stored : r.store.stored = true := rfl

/-- The task is aborted exactly if it was stored and the object is dropped. -/
def Sound (r : Retained) : Prop := r.aborted = true ↔ r.Dropped ∧ r.stored = true

instance (r : Retained) : Decidable r.Sound := inferInstanceAs (Decidable (_ ↔ _))

theorem Sound.new : Sound {} := by decide

theorem references_pos_of_registered (h : r.registered = true) : 0 < r.references := by
  rw [references, h]
  exact Nat.add_pos_left Nat.one_pos _

theorem references_pos_of_calls (h : 0 < r.calls) : 0 < r.references :=
  Nat.add_pos_right _ h

/-- While something refers to the object its task runs. -/
theorem Sound.not_aborted (h : r.Sound) (hr : 0 < r.references) : r.aborted = false := by
  by_contra hne
  have hdropped : r.references = 0 := (h.1 (by simpa using hne)).1
  omega

theorem Sound.release (h : r.aborted = false) : r.release.Sound := by
  show (r.aborted || (r.references == 0 && r.stored)) = true ↔ r.references = 0 ∧ r.stored = true
  simp [h]

theorem Sound.moves (h : r.Sound) (hm : r.Moves s) : s.Sound := by
  cases hm with
  | enter hr =>
      have hrun := h.not_aborted (references_pos_of_registered hr)
      simp [Sound, Dropped, references, hrun]
  | leave hc => exact Sound.release (h.not_aborted (references_pos_of_calls hc))
  | store hc => exact Sound.release (h.not_aborted (references_pos_of_calls hc))
  | remove hr =>
      have hrun := h.not_aborted (references_pos_of_registered hr)
      simp [Sound, Dropped, references, hrun]

/-- A task that was aborted stays so. -/
theorem Moves.aborted (hm : r.Moves s) (h : r.aborted = true) : s.aborted = true := by
  cases hm with
  | enter => exact h
  | leave =>
      show (r.aborted || _) = true
      rw [h, Bool.true_or]
  | store =>
      show (r.aborted || _) = true
      rw [h, Bool.true_or]
  | remove => exact h

end Retained

/-! ## The calls under way -/

/-- The count of a list in which one entry was set. -/
theorem countP_set_add {α : Type*} {f : α → Bool} {l : List α} {i : ℕ} {a b : α}
    (h : l[i]? = some a) : (l.set i b).countP f + (f a).toNat = l.countP f + (f b).toNat := by
  induction l generalizing i with
  | nil => cases h
  | cons c l ih =>
      cases i with
      | zero =>
          obtain rfl := Option.some.inj h
          simp only [List.set_cons_zero, List.countP_cons]
          cases f b <;> cases f c <;> simp
      | succ i =>
          have := ih h
          simp only [List.set_cons_succ, List.countP_cons]
          omega

end Transition
