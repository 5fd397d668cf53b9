import Mathlib.Data.List.TakeDrop

/-!
# Unbounded channels

A channel between a writer and a reader who may ask before there is anything to
read.  Its state is what was written so far and how many values were asked for.
Everything else is a function of these two: the reader has received the first
`asked` values, the values after them are pending, and the requests that exceed
what was written are blocked.

An implementation keeps the pending values and the blocked requests instead.  The
lemmas say how each operation changes them, so a step of an implementation is
matched by rewriting with one lemma.
-/

namespace Transition

universe u

/-- A channel, as its history. -/
structure Channel (α : Type u) where
  written : List α := []
  asked : ℕ := 0

namespace Channel

variable {α : Type u} {c : Channel α}

def write (c : Channel α) (v : α) : Channel α := { c with written := c.written ++ [v] }

def ask (c : Channel α) : Channel α := { c with asked := c.asked + 1 }

def received (c : Channel α) : List α := c.written.take c.asked

def pending (c : Channel α) : List α := c.written.drop c.asked

def blocked (c : Channel α) : ℕ := c.asked - c.written.length

@[simp] theorem write_written (c : Channel α) (v : α) :
    (c.write v).written = c.written ++ [v] := rfl
@[simp] theorem write_asked (c : Channel α) (v : α) : (c.write v).asked = c.asked := rfl
@[simp] theorem ask_written (c : Channel α) : c.ask.written = c.written := rfl
@[simp] theorem ask_asked (c : Channel α) : c.ask.asked = c.asked + 1 := rfl

theorem pending_eq_nil_iff : c.pending = [] ↔ c.written.length ≤ c.asked :=
  List.drop_eq_nil_iff

theorem blocked_eq_zero_iff : c.blocked = 0 ↔ c.asked ≤ c.written.length := by
  unfold blocked
  omega

/-- The reader has everything exactly when it asked often enough. -/
theorem received_eq_written_iff : c.received = c.written ↔ c.written.length ≤ c.asked := by
  unfold received
  exact List.take_eq_self_iff _

/-- A value written while a request is blocked goes to the reader. -/
theorem write_blocked (h : c.blocked ≠ 0) (v : α) :
    (c.write v).received = c.received ++ [v] ∧ (c.write v).pending = [] ∧
      (c.write v).blocked + 1 = c.blocked := by
  have hlt : c.written.length < c.asked := by
    unfold blocked at h
    omega
  refine ⟨?_, ?_, ?_⟩
  · simp only [received, write_written, write_asked]
    rw [List.take_of_length_le (by simp; omega), List.take_of_length_le (by omega)]
  · rw [pending_eq_nil_iff]
    simp
    omega
  · simp [blocked]
    omega

/-- A value written while none is blocked is pending. -/
theorem write_free (h : c.blocked = 0) (v : α) :
    (c.write v).received = c.received ∧ (c.write v).pending = c.pending ++ [v] ∧
      (c.write v).blocked = 0 := by
  rw [blocked_eq_zero_iff] at h
  refine ⟨?_, ?_, ?_⟩
  · simp only [received, write_written, write_asked]
    rw [List.take_append_of_le_length h]
  · simp only [pending, write_written, write_asked]
    rw [List.drop_append_of_le_length h]
  · rw [blocked_eq_zero_iff]
    simp
    omega

/-- A request takes the oldest pending value. -/
theorem ask_pending {v : α} {rest : List α} (h : c.pending = v :: rest) :
    c.ask.received = c.received ++ [v] ∧ c.ask.pending = rest ∧ c.ask.blocked = 0 := by
  have hlt : c.asked < c.written.length := by
    have : c.pending ≠ [] := by simp [h]
    rw [Ne, pending_eq_nil_iff] at this
    omega
  have hcons := List.drop_eq_getElem_cons hlt
  rw [pending, hcons] at h
  obtain ⟨hv, hrest⟩ := List.cons.inj h
  refine ⟨?_, hrest, ?_⟩
  · simp only [received, ask_written, ask_asked]
    rw [List.take_succ_eq_append_getElem hlt, hv]
  · rw [blocked_eq_zero_iff]
    exact hlt

/-- A request that finds nothing pending is blocked. -/
theorem ask_blocked (h : c.pending = []) :
    c.ask.received = c.received ∧ c.ask.pending = [] ∧ c.ask.blocked = c.blocked + 1 := by
  rw [pending_eq_nil_iff] at h
  refine ⟨?_, ?_, ?_⟩
  · simp only [received, ask_written, ask_asked]
    rw [List.take_of_length_le (by omega), List.take_of_length_le h]
  · rw [pending_eq_nil_iff]
    simp
    omega
  · simp [blocked]
    omega

end Channel

end Transition
