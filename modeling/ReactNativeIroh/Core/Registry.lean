import Mathlib.Logic.Function.Basic
import Mathlib.Order.Basic
import ReactNativeIroh.Core.Error

/-!
# Handle registry

A registry maps handles to live objects.  Handles start at one, are allocated in
order and never used again.  They are natural numbers here: a registry of the core
allocates fewer than `2 ^ 64` of them.
-/

namespace Iroh.Core

/-- An object of a table in which one was set is that one, or was there before. -/
theorem update_eq_some {α β : Type*} [DecidableEq α] {f : α → Option β} {i j : α} {s t : β}
    (h : Function.update f i (some s) j = some t) : (j = i ∧ t = s) ∨ (j ≠ i ∧ f j = some t) := by
  rcases eq_or_ne j i with rfl | hne
  · rw [Function.update_self] at h
    exact .inl ⟨rfl, (Option.some.inj h).symm⟩
  · rw [Function.update_of_ne hne] at h
    exact .inr ⟨hne, h⟩

structure Registry (α : Type*) where
  items : ℕ → Option α
  next : ℕ
  pos : 0 < next
  /-- A handle that was not allocated has no object. -/
  unused : ∀ handle, handle = 0 ∨ next ≤ handle → items handle = none

namespace Registry

variable {α : Type*} {r : Registry α} {value : α} {handle other : ℕ}

def new : Registry α where
  items _ := none
  next := 1
  pos := Nat.one_pos
  unused _ _ := rfl

/-- Store an object, under the next handle. -/
def insert (value : α) (r : Registry α) : Registry α where
  items := Function.update r.items r.next (some value)
  next := r.next + 1
  pos := Nat.succ_pos _
  unused handle h := by
    have hpos := r.pos
    rw [Function.update_of_ne (by omega)]
    exact r.unused handle (by omega)

def get (r : Registry α) (handle : ℕ) : Except IrohError α :=
  match r.items handle with
  | some value => .ok value
  | none => .error (.invalidHandle (.ofNat handle))

def remove (handle : ℕ) (r : Registry α) : Registry α where
  items := Function.update r.items handle none
  next := r.next
  pos := r.pos
  unused other h := by
    rcases eq_or_ne other handle with rfl | hne
    · exact Function.update_self ..
    · rw [Function.update_of_ne hne]
      exact r.unused other h

@[simp] theorem insert_next : (r.insert value).next = r.next + 1 := rfl

@[simp] theorem insert_items_self : (r.insert value).items r.next = some value :=
  Function.update_self ..

theorem insert_items_of_ne (h : handle ≠ r.next) :
    (r.insert value).items handle = r.items handle :=
  Function.update_of_ne h ..

@[simp] theorem remove_items_self : (r.remove handle).items handle = none :=
  Function.update_self ..

theorem remove_items_of_ne (h : other ≠ handle) : (r.remove handle).items other = r.items other :=
  Function.update_of_ne h ..

theorem get_eq_ok : r.get handle = .ok value ↔ r.items handle = some value := by
  unfold get
  cases r.items handle <;> simp

theorem get_eq_error {e : IrohError} :
    r.get handle = .error e ↔ r.items handle = none ∧ e = .invalidHandle (.ofNat handle) := by
  unfold get
  cases r.items handle <;> simp [eq_comm]

end Registry

end Iroh.Core
