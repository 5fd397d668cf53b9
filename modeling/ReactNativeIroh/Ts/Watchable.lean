import Mathlib.Algebra.Order.Ring.Int
import Mathlib.Data.List.Basic
import ReactNativeIroh.Ts.WaiterQueue

/-!
# The conflating fan-out

`Watchable` broadcasts values to callback listeners and to conflating iterators.  A
listener is a function of the host, known by an identity of type `φ`, and the set of
listeners holds each function once.  `registrations` are the unsubscribe functions
returned so far, each with the listener it removes and its `active` flag.  `made` are
the iterators made so far, and `iterators` the numbers of those attached.  `pushed` are
the values that were delivered, in order.

The hooks act on the watchable and on the state of its owner together, since
`onActive` may close the watchable.  In `push` a listener is taken not to call back into
the watchable; `reentrantPush` is the push whose listeners do.  `calls` records what the
listeners were called with.
-/

namespace Iroh

/-- A latest-value-conflating async iterator.  `detached` is the variable of its
`detach` function. -/
structure ConflatingIterator (α ε : Type*) where
  pending : Option α := none
  consumers : WaiterQueue α ε := {}
  detached : Bool := false
deriving DecidableEq

namespace ConflatingIterator

variable {α ε : Type*}

/-- Deliver a value: hand it to the oldest waiter, or conflate. -/
def push (v : α) (it : ConflatingIterator α ε) : ConflatingIterator α ε :=
  match it.consumers.handOff v with
  | some consumers => { it with consumers }
  | none => { it with pending := some v }

def finish (error : Option ε) (it : ConflatingIterator α ε) : ConflatingIterator α ε :=
  { it with consumers := it.consumers.settle error }

def next (it : ConflatingIterator α ε) : ConflatingIterator α ε :=
  match it.pending with
  | some v => { it with pending := none, consumers := it.consumers.answer (.value v) }
  | none =>
      match it.consumers.settledResult with
      | some (r, consumers) => { it with consumers := consumers.answer r }
      | none => { it with consumers := it.consumers.park }

/-- What `return()` does once the iterator is detached. -/
def drop (it : ConflatingIterator α ε) : ConflatingIterator α ε :=
  { it with pending := none, consumers := it.consumers.settle none }

end ConflatingIterator

structure Watchable (φ α ε : Type*) where
  closed : Bool := false
  terminalError : Option ε := none
  subscribers : ℤ := 0
  listeners : List φ := []
  iterators : List ℕ := []
  registrations : List (φ × Bool) := []
  made : List (ConflatingIterator α ε) := []
  calls : List (φ × α) := []
  pushed : List α := []
deriving DecidableEq

/-- The hooks, fired as the count of subscribers crosses zero. -/
structure WatchableHooks (φ α ε ω : Type*) where
  onActive : Watchable φ α ε × ω → Watchable φ α ε × ω := id
  onIdle : Watchable φ α ε × ω → Watchable φ α ε × ω := id

/-- What a consumer may do. -/
inductive ConsumerEvent (φ : Type*) where
  | listen (listener : φ)
  | unsubscribe (registration : ℕ)
  | createIterator
  | next (iterator : ℕ)
  | return (iterator : ℕ)
deriving DecidableEq

namespace Watchable

variable {φ α ε ω : Type*}

/-- Act on one of the iterators made. -/
def modify (k : ℕ) (f : ConflatingIterator α ε → ConflatingIterator α ε)
    (s : Watchable φ α ε) : Watchable φ α ε :=
  { s with made := s.made.modify k f }

def retain (h : WatchableHooks φ α ε ω) : Watchable φ α ε × ω → Watchable φ α ε × ω
  | (s, w) =>
      let s := { s with subscribers := s.subscribers + 1 }
      if s.subscribers = 1 then h.onActive (s, w) else (s, w)

def release (h : WatchableHooks φ α ε ω) : Watchable φ α ε × ω → Watchable φ α ε × ω
  | (s, w) =>
      let s := { s with subscribers := s.subscribers - 1 }
      if s.subscribers = 0 then h.onIdle (s, w) else (s, w)

/-- Deliver a value to every listener and iterator. -/
def push (v : α) (s : Watchable φ α ε) : Watchable φ α ε :=
  if s.closed then s
  else
    s.iterators.foldl (fun s k => s.modify k (ConflatingIterator.push v))
      { s with
        calls := s.calls ++ s.listeners.map fun listener => (listener, v)
        pushed := s.pushed ++ [v] }

/-- Terminate the stream for all consumers. -/
def close (error : Option ε) (s : Watchable φ α ε) : Watchable φ α ε :=
  if s.closed then s
  else
    s.iterators.foldl (fun s k => s.modify k (ConflatingIterator.finish error))
      { s with closed := true, terminalError := error, listeners := [], iterators := [] }

/-- A fresh iterator.  On a closed watchable it is made finished, with a `detach`
that does nothing. -/
def createIterator (h : WatchableHooks φ α ε ω) : Watchable φ α ε × ω → Watchable φ α ε × ω
  | (s, w) =>
      if s.closed then
        let iterator :=
          { ({} : ConflatingIterator α ε).finish s.terminalError with detached := true }
        ({ s with made := s.made ++ [iterator] }, w)
      else
        retain h ({ s with iterators := s.iterators ++ [s.made.length], made := s.made ++ [{}] }, w)

def detach (h : WatchableHooks φ α ε ω) (k : ℕ) : Watchable φ α ε × ω → Watchable φ α ε × ω
  | (s, w) =>
      match s.made[k]? with
      | none => (s, w)
      | some it =>
          if it.detached then (s, w)
          else
            let s := s.modify k fun it => { it with detached := true }
            release h ({ s with iterators := s.iterators.erase k }, w)

/-- `return()` of an iterator. -/
def «return» (h : WatchableHooks φ α ε ω) (k : ℕ) (p : Watchable φ α ε × ω) :
    Watchable φ α ε × ω :=
  let (s, w) := detach h k p
  (s.modify k ConflatingIterator.drop, w)

section Listeners

variable [DecidableEq φ]

/-- Subscribe a listener.  The function it returns is numbered by its place in
`registrations`.  On a closed watchable that function does nothing and has no number. -/
def listen (h : WatchableHooks φ α ε ω) (listener : φ) :
    Watchable φ α ε × ω → Watchable φ α ε × ω
  | (s, w) =>
      if s.closed then (s, w)
      else
        let listeners :=
          if listener ∈ s.listeners then s.listeners else s.listeners ++ [listener]
        let (s, w) := retain h ({ s with listeners }, w)
        ({ s with registrations := s.registrations ++ [(listener, true)] }, w)

def unsubscribe (h : WatchableHooks φ α ε ω) (k : ℕ) :
    Watchable φ α ε × ω → Watchable φ α ε × ω
  | (s, w) =>
      match s.registrations[k]? with
      | some (listener, true) =>
          release h ({ s with
            registrations := s.registrations.set k (listener, false)
            listeners := s.listeners.erase listener }, w)
      | _ => (s, w)

def consume (h : WatchableHooks φ α ε ω) :
    ConsumerEvent φ → Watchable φ α ε × ω → Watchable φ α ε × ω
  | .listen listener, p => listen h listener p
  | .unsubscribe k, p => unsubscribe h k p
  | .createIterator, p => createIterator h p
  | .next k, (s, w) => (s.modify k ConflatingIterator.next, w)
  | .return k, p => «return» h k p

end Listeners

/-! ## The end of the stream -/

theorem push_closed {s : Watchable φ α ε} (h : s.closed = true) (v : α) : s.push v = s := by
  rw [push, if_pos h]

/-- Acting on the iterators leaves the rest alone. -/
theorem foldl_modify (f : ConflatingIterator α ε → ConflatingIterator α ε) (ks : List ℕ)
    (s : Watchable φ α ε) :
    ∃ made, ks.foldl (fun s k => s.modify k f) s = { s with made } := by
  induction ks generalizing s with
  | nil => exact ⟨s.made, rfl⟩
  | cons k ks ih =>
      obtain ⟨made, h⟩ := ih (s.modify k f)
      exact ⟨made, h⟩

theorem push_open {s : Watchable φ α ε} (h : s.closed = false) (v : α) :
    ∃ made, s.push v = { s with
      calls := s.calls ++ s.listeners.map fun listener => (listener, v)
      pushed := s.pushed ++ [v]
      made } := by
  rw [push, if_neg (by simp [h])]
  exact foldl_modify (ConflatingIterator.push v) s.iterators _

theorem push_sameClosed (s : Watchable φ α ε) (v : α) : (s.push v).closed = s.closed := by
  cases h : s.closed with
  | true => rw [push_closed h, h]
  | false =>
      obtain ⟨made, he⟩ := push_open h v
      rw [he, h]

theorem close_open {s : Watchable φ α ε} (h : s.closed = false) (error : Option ε) :
    ∃ made, s.close error = { s with
      closed := true
      terminalError := error
      listeners := []
      iterators := []
      made } := by
  rw [close, if_neg (by simp [h])]
  exact foldl_modify (ConflatingIterator.finish error) s.iterators _

theorem close_closed (error : Option ε) (s : Watchable φ α ε) :
    (s.close error).closed = true := by
  cases h : s.closed with
  | true => rw [close, if_pos h, h]
  | false =>
      obtain ⟨made, he⟩ := close_open h error
      rw [he]

theorem close_pushed (error : Option ε) (s : Watchable φ α ε) :
    (s.close error).pushed = s.pushed := by
  cases h : s.closed with
  | true => rw [close, if_pos h]
  | false =>
      obtain ⟨made, he⟩ := close_open h error
      rw [he]

/-- Without hooks a consumer neither ends the stream nor opens it again, and delivers
nothing. -/
theorem consume_still [DecidableEq φ] (e : ConsumerEvent φ) (s : Watchable φ α ε) (w : ω) :
    (consume {} e (s, w)).1.closed = s.closed ∧ (consume {} e (s, w)).1.pushed = s.pushed := by
  cases e with
  | listen listener =>
      simp only [consume, listen, retain]
      split
      · exact ⟨rfl, rfl⟩
      · split
        · exact ⟨rfl, rfl⟩
        · exact ⟨rfl, rfl⟩
  | unsubscribe k =>
      simp only [consume, unsubscribe, release]
      split
      · split
        · exact ⟨rfl, rfl⟩
        · exact ⟨rfl, rfl⟩
      · exact ⟨rfl, rfl⟩
  | createIterator =>
      simp only [consume, createIterator, retain]
      split
      · exact ⟨rfl, rfl⟩
      · split
        · exact ⟨rfl, rfl⟩
        · exact ⟨rfl, rfl⟩
  | next k => exact ⟨rfl, rfl⟩
  | «return» k =>
      simp only [consume, «return», detach, release]
      split
      · exact ⟨rfl, rfl⟩
      · split
        · exact ⟨rfl, rfl⟩
        · split
          · exact ⟨rfl, rfl⟩
          · exact ⟨rfl, rfl⟩

/-! ## What the hooks keep -/

/-- The hooks keep a property of the owner's state. -/
structure Keeps (h : WatchableHooks φ α ε ω) (I : ω → Prop) : Prop where
  onActive : ∀ p, I p.2 → I (h.onActive p).2
  onIdle : ∀ p, I p.2 → I (h.onIdle p).2

section Keeps

variable {h : WatchableHooks φ α ε ω} {I : ω → Prop}

theorem Keeps.retain (hh : Keeps h I) {p : Watchable φ α ε × ω} (hp : I p.2) :
    I (retain h p).2 := by
  simp only [Watchable.retain]
  split
  · exact hh.onActive _ hp
  · exact hp

theorem Keeps.release (hh : Keeps h I) {p : Watchable φ α ε × ω} (hp : I p.2) :
    I (release h p).2 := by
  simp only [Watchable.release]
  split
  · exact hh.onIdle _ hp
  · exact hp

theorem Keeps.detach (hh : Keeps h I) {p : Watchable φ α ε × ω} (hp : I p.2) (k : ℕ) :
    I (detach h k p).2 := by
  simp only [Watchable.detach]
  split
  · exact hp
  · split
    · exact hp
    · exact hh.release hp

/-- A consumer changes the owner's state by the hooks only. -/
theorem Keeps.consume [DecidableEq φ] (hh : Keeps h I) (e : ConsumerEvent φ)
    {p : Watchable φ α ε × ω} (hp : I p.2) : I (consume h e p).2 := by
  cases e with
  | listen listener =>
      simp only [Watchable.consume, Watchable.listen]
      split
      · exact hp
      · exact hh.retain hp
  | unsubscribe k =>
      simp only [Watchable.consume, Watchable.unsubscribe]
      split
      · exact hh.release hp
      · exact hp
  | createIterator =>
      simp only [Watchable.consume, Watchable.createIterator]
      split
      · exact hp
      · exact hh.retain hp
  | next k => exact hp
  | «return» k => exact hh.detach hp k

end Keeps

end Watchable

end Iroh
