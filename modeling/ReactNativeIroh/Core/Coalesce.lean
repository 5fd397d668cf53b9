import Mathlib.Data.Nat.Notation

/-!
# Coalescing of progress events

A coalescer forwards a value at once if it is the first, or if `minInterval` has passed
since the last one it forwarded.  Otherwise it keeps the value, until the next one or
until it is flushed.

The sink is called after the lock of the state is released, so an operation answers
with the value that its caller has still to pass to the sink.
-/

namespace Iroh.Core

structure Coalescer where
  minInterval : ℕ
  lastEmit : Option ℕ := none
  pending : Option ℕ := none

namespace Coalescer

/-- Whether a value offered now is due. -/
def due (c : Coalescer) (now : ℕ) : Bool :=
  match c.lastEmit with
  | none => true
  | some last => decide (c.minInterval ≤ now - last)

def offerAt (c : Coalescer) (value now : ℕ) : Coalescer × Option ℕ :=
  if c.due now then ({ c with lastEmit := some now, pending := none }, some value)
  else ({ c with pending := some value }, none)

def flush (c : Coalescer) (now : ℕ) : Coalescer × Option ℕ :=
  match c.pending with
  | some value => ({ c with lastEmit := some now, pending := none }, some value)
  | none => (c, none)

end Coalescer

end Iroh.Core
