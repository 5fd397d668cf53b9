import ReactNativeIroh.Ts.Number
import ReactNativeIroh.Ts.WaiterQueue

/-!
# The bounded FIFO queue

`MessageQueue` buffers every pushed value and delivers the values one by one.  On
overflow it drops the oldest buffered value and reports the lag.

The two hooks of `MessageQueueOptions` act on the state of the queue's owner, of
type `ω`.  An `onDropped` hook of this library releases the value it is given and
never reaches the queue it is called from, so it maps `ω` to `ω`.  An `onLagged`
hook may call back into the queue (`StreamController` closes it), so it maps the
queue and its owner together.  A hook that throws is caught by the queue, and
what it did before throwing is what it maps to.

`push_cases` and `next_cases` say everything a call can do.  `MessageQueue.Valid`
is the invariant of the class: its two halves, the buffer and the parked
consumers, are never both in use, and an ended queue has neither.
-/

namespace Iroh

/-- A clamped capacity: a number that one is not above. -/
structure Capacity where
  /-- The number. -/
  limit : Number
  /-- It is at least one, or `NaN`. -/
  clamped : Number.lt limit (Number.ofNat 1) = false
deriving DecidableEq

namespace Capacity

/-- `DEFAULT_MESSAGE_QUEUE_CAPACITY`. -/
def default : Number := .fin 1024

/-- `Math.max(1, Math.floor(options.capacity ?? DEFAULT_MESSAGE_QUEUE_CAPACITY))`. -/
def ofOption (capacity : Option Number) : Capacity :=
  ⟨Number.clamp (capacity.getD default), Number.clamp_lt_one _⟩

/-- Whether `n` buffered values are above the capacity. -/
def exceeded (c : Capacity) (n : ℕ) : Bool := Number.lt c.limit (Number.ofNat n)

@[simp] theorem not_exceeded_one (c : Capacity) : c.exceeded 1 = false := c.clamped

@[simp] theorem not_exceeded_zero (c : Capacity) : c.exceeded 0 = false := by
  obtain ⟨limit, hc⟩ := c
  cases limit with
  | nan => rfl
  | negInf => simp [Number.lt, Number.ofNat] at hc
  | posInf => rfl
  | fin q =>
      simp only [Number.lt, Number.ofNat, decide_eq_false_iff_not, not_lt] at hc
      simp only [exceeded, Number.lt, Number.ofNat, decide_eq_false_iff_not, not_lt]
      exact le_trans (by norm_num) hc

/-- A smaller number of values is not above the capacity either. -/
theorem not_exceeded_of_le {c : Capacity} {m n : ℕ} (hmn : m ≤ n) (h : c.exceeded n = false) :
    c.exceeded m = false := by
  obtain ⟨limit, hc⟩ := c
  cases limit with
  | nan => rfl
  | negInf => simp [exceeded, Number.lt, Number.ofNat] at h
  | posInf => rfl
  | fin q =>
      simp only [exceeded, Number.lt, Number.ofNat, decide_eq_false_iff_not, not_lt] at h ⊢
      exact le_trans (by exact_mod_cast hmn) h

/-- What a capacity of `k` bounds. -/
theorem le_of_not_exceeded {k n : ℕ} (hk : 1 ≤ k)
    (h : (ofOption (some (Number.ofNat k))).exceeded n = false) : n ≤ k := by
  have hlimit : (Number.ofNat k).clamp = Number.ofNat k := by
    have hfloor : ⌊(k : ℚ)⌋ = k := Int.floor_natCast k
    rw [Number.ofNat, Number.clamp_fin, hfloor, max_eq_right (by exact_mod_cast hk)]
    rfl
  have hle : Number.lt (Number.ofNat k).clamp (Number.ofNat n) = false := h
  rw [hlimit] at hle
  simp only [Number.lt, Number.ofNat, decide_eq_false_iff_not, not_lt] at hle
  exact_mod_cast hle

end Capacity

/-- A bounded FIFO async-iterable. -/
structure MessageQueue (α ε : Type*) where
  /-- The clamped capacity. -/
  capacity : Capacity
  /-- The undelivered values, oldest first. -/
  buffer : List α := []
  /-- The parked consumers and the terminal state. -/
  consumers : WaiterQueue α ε := {}
  /-- Running total of values dropped to overflow or upstream lag. -/
  droppedCount : ℕ := 0
deriving DecidableEq

/-- The hooks of `MessageQueueOptions`, over the owner's state `ω`. -/
structure QueueHooks (α ε ω : Type*) where
  /-- Invoked with the running total whenever a value is dropped. -/
  onLagged : ℕ → MessageQueue α ε × ω → MessageQueue α ε × ω := fun _ p => p
  /-- Invoked with each buffered value the queue discards. -/
  onDropped : α → ω → ω := fun _ w => w

namespace MessageQueue

variable {α ε ω : Type*}

/-- The constructor. -/
def new (capacity : Option Number) : MessageQueue α ε := { capacity := .ofOption capacity }

/-- Whether the queue has been closed. -/
def isClosed (q : MessageQueue α ε) : Bool := q.consumers.isSettled

/-- `none` while the queue is open, else what it was closed with. -/
def terminal (q : MessageQueue α ε) : Option (Option ε) := q.consumers.terminal

/-- Running total of values dropped. -/
def dropped (q : MessageQueue α ε) : ℕ := q.droppedCount

/-- The values delivered to consumers, in the order of delivery. -/
def delivered (q : MessageQueue α ε) : List α := q.consumers.delivered

/-- The values delivered, then those still buffered. -/
def held (q : MessageQueue α ε) : List α := q.delivered ++ q.buffer

/-- Advance the dropped count and signal the lag. -/
def recordDrop (h : QueueHooks α ε ω) : MessageQueue α ε × ω → MessageQueue α ε × ω
  | (q, w) => h.onLagged (q.droppedCount + 1) ({ q with droppedCount := q.droppedCount + 1 }, w)

/-- Enqueue a value: hand it to the oldest waiter, or buffer it and drop the
oldest buffered value when that exceeds the capacity. -/
def push (h : QueueHooks α ε ω) (v : α) : MessageQueue α ε × ω → MessageQueue α ε × ω
  | (q, w) =>
      if q.isClosed then (q, w)
      else
        match q.consumers.handOff v with
        | some consumers => ({ q with consumers := consumers }, w)
        | none =>
            match q.buffer ++ [v] with
            | [] => (q, w)
            | oldest :: rest =>
                if q.capacity.exceeded (oldest :: rest).length then
                  recordDrop h ({ q with buffer := rest }, h.onDropped oldest w)
                else ({ q with buffer := oldest :: rest }, w)

/-- Record that an upstream source dropped values. -/
def markLagged (h : QueueHooks α ε ω) : MessageQueue α ε × ω → MessageQueue α ε × ω
  | (q, w) => if q.isClosed then (q, w) else recordDrop h (q, w)

/-- Terminate the stream, discarding what is buffered. -/
def close (h : QueueHooks α ε ω) (error : Option ε) :
    MessageQueue α ε × ω → MessageQueue α ε × ω
  | (q, w) =>
      if q.isClosed then (q, w)
      else
        ({ q with buffer := [], consumers := q.consumers.settle error },
          q.buffer.foldl (fun w v => h.onDropped v w) w)

/-- Ask for the next value. -/
def next (q : MessageQueue α ε) : MessageQueue α ε :=
  match q.buffer with
  | v :: rest => { q with buffer := rest, consumers := q.consumers.answer (.value v) }
  | [] =>
      match q.consumers.settledResult with
      | some (r, consumers) => { q with consumers := consumers.answer r }
      | none => { q with consumers := q.consumers.park }

/-- Detach the consumer: close the queue gracefully.  The promise it returns is
resolved with `DONE` and is not a promise of `next()`. -/
def «return» (h : QueueHooks α ε ω) : MessageQueue α ε × ω → MessageQueue α ε × ω := close h none

/-! ## What a call can do -/

theorem push_closed (h : QueueHooks α ε ω) {q : MessageQueue α ε} (hq : q.isClosed = true) (v : α)
    (w : ω) : push h v (q, w) = (q, w) := by
  simp [push, hq]

/-- Everything `push` can do: nothing on a closed queue, else hand the value
over, buffer it, or buffer it and drop the oldest. -/
theorem push_cases (h : QueueHooks α ε ω) (q : MessageQueue α ε) (v : α) (w : ω) :
    (q.isClosed = true ∧ push h v (q, w) = (q, w)) ∨
    (q.isClosed = false ∧ ∃ p ps, q.consumers.waiters = p :: ps ∧
      push h v (q, w) =
        ({ q with consumers := { q.consumers with waiters := ps }.fulfil p (.value v) }, w)) ∨
    (q.isClosed = false ∧ q.consumers.waiters = [] ∧
      q.capacity.exceeded (q.buffer.length + 1) = false ∧
      push h v (q, w) = ({ q with buffer := q.buffer ++ [v] }, w)) ∨
    (q.isClosed = false ∧ q.consumers.waiters = [] ∧
      q.capacity.exceeded (q.buffer.length + 1) = true ∧
      ∃ oldest rest, q.buffer = oldest :: rest ∧
        push h v (q, w) =
          recordDrop h ({ q with buffer := rest ++ [v] }, h.onDropped oldest w)) := by
  cases hc : q.isClosed with
  | true => exact Or.inl ⟨rfl, push_closed h hc v w⟩
  | false =>
      cases hw : q.consumers.waiters with
      | cons p ps =>
          refine Or.inr (Or.inl ⟨rfl, p, ps, rfl, ?_⟩)
          simp [push, hc, WaiterQueue.handOff, hw]
      | nil =>
          cases he : q.capacity.exceeded (q.buffer.length + 1) with
          | false =>
              refine Or.inr (Or.inr (Or.inl ⟨rfl, rfl, rfl, ?_⟩))
              cases hb : q.buffer with
              | nil => simp [push, hc, WaiterQueue.handOff, hw, hb]
              | cons b bs =>
                  have he' : q.capacity.exceeded (bs.length + 1 + 1) = false := by
                    simpa [hb] using he
                  simp [push, hc, WaiterQueue.handOff, hw, hb, he']
          | true =>
              refine Or.inr (Or.inr (Or.inr ⟨rfl, rfl, rfl, ?_⟩))
              cases hb : q.buffer with
              | nil => simp [hb] at he
              | cons b bs =>
                  have he' : q.capacity.exceeded (bs.length + 1 + 1) = true := by
                    simpa [hb] using he
                  exact ⟨b, bs, rfl, by simp [push, hc, WaiterQueue.handOff, hw, hb, he']⟩

theorem markLagged_closed (h : QueueHooks α ε ω) {q : MessageQueue α ε} (hq : q.isClosed = true)
    (w : ω) : markLagged h (q, w) = (q, w) := by
  simp [markLagged, hq]

theorem markLagged_open (h : QueueHooks α ε ω) {q : MessageQueue α ε} (hq : q.isClosed = false)
    (w : ω) : markLagged h (q, w) = recordDrop h (q, w) := by
  simp [markLagged, hq]

theorem close_closed (h : QueueHooks α ε ω) {q : MessageQueue α ε} (hq : q.isClosed = true)
    (error : Option ε) (w : ω) : close h error (q, w) = (q, w) := by
  simp [close, hq]

theorem close_open (h : QueueHooks α ε ω) {q : MessageQueue α ε} (hq : q.isClosed = false)
    (error : Option ε) (w : ω) :
    close h error (q, w) =
      ({ q with buffer := [], consumers := q.consumers.settle error },
        q.buffer.foldl (fun w v => h.onDropped v w) w) := by
  simp [close, hq]

@[simp] theorem close_isClosed (h : QueueHooks α ε ω) (q : MessageQueue α ε) (error : Option ε)
    (w : ω) : (close h error (q, w)).1.isClosed = true := by
  cases hq : q.isClosed with
  | true => rw [close_closed h hq, hq]
  | false => rw [close_open h hq]; exact WaiterQueue.settle_isSettled _ _

@[simp] theorem close_dropped (h : QueueHooks α ε ω) (q : MessageQueue α ε) (error : Option ε)
    (w : ω) : (close h error (q, w)).1.dropped = q.dropped := by
  cases hq : q.isClosed with
  | true => rw [close_closed h hq]
  | false => rw [close_open h hq]; rfl

/-- Everything `next` can do: take the oldest buffered value, report the end, or
park. -/
theorem next_cases (q : MessageQueue α ε) :
    (∃ v rest, q.buffer = v :: rest ∧
      q.next = { q with buffer := rest, consumers := q.consumers.answer (.value v) }) ∨
    (q.buffer = [] ∧ q.isClosed = true ∧ ∃ r consumers,
      q.consumers.settledResult = some (r, consumers) ∧ r.isEnd = true ∧
        q.next = { q with consumers := consumers.answer r }) ∨
    (q.buffer = [] ∧ q.isClosed = false ∧ q.next = { q with consumers := q.consumers.park }) := by
  cases hb : q.buffer with
  | cons v rest => exact Or.inl ⟨v, rest, rfl, by simp [next, hb]⟩
  | nil =>
      refine Or.inr ?_
      cases ht : q.consumers.terminal with
      | none =>
          refine Or.inr ⟨rfl, by simp [isClosed, WaiterQueue.isSettled, ht], ?_⟩
          simp [next, hb, WaiterQueue.settledResult, ht]
      | some error =>
          refine Or.inl ⟨rfl, by simp [isClosed, WaiterQueue.isSettled, ht], ?_⟩
          cases error with
          | none =>
              exact ⟨.done, q.consumers, by simp [WaiterQueue.settledResult, ht], rfl,
                by simp [next, hb, WaiterQueue.settledResult, ht]⟩
          | some e =>
              cases hd : q.consumers.errorDelivered with
              | true =>
                  exact ⟨.done, q.consumers, by simp [WaiterQueue.settledResult, ht, hd], rfl,
                    by simp [next, hb, WaiterQueue.settledResult, ht, hd]⟩
              | false =>
                  exact ⟨.error e, { q.consumers with errorDelivered := true },
                    by simp [WaiterQueue.settledResult, ht, hd], rfl,
                    by simp [next, hb, WaiterQueue.settledResult, ht, hd]⟩

@[simp] theorem next_terminal (q : MessageQueue α ε) : q.next.terminal = q.terminal := by
  rcases next_cases q with ⟨v, rest, -, he⟩ | ⟨-, -, r, consumers, hr, -, he⟩ | ⟨-, -, he⟩
  · rw [he]; rfl
  · obtain ⟨d, rfl⟩ := WaiterQueue.settledResult_eq hr
    rw [he]
    rfl
  · rw [he]; rfl

@[simp] theorem next_isClosed (q : MessageQueue α ε) : q.next.isClosed = q.isClosed :=
  congrArg Option.isSome (next_terminal q)

@[simp] theorem next_dropped (q : MessageQueue α ε) : q.next.dropped = q.dropped := by
  rcases next_cases q with ⟨v, rest, -, he⟩ | ⟨-, -, r, consumers, -, -, he⟩ | ⟨-, -, he⟩ <;>
    rw [he] <;> rfl

@[simp] theorem close_capacity (h : QueueHooks α ε ω) (q : MessageQueue α ε) (error : Option ε)
    (w : ω) : (close h error (q, w)).1.capacity = q.capacity := by
  cases hq : q.isClosed with
  | true => rw [close_closed h hq]
  | false => rw [close_open h hq]

@[simp] theorem next_capacity (q : MessageQueue α ε) : q.next.capacity = q.capacity := by
  rcases next_cases q with ⟨v, rest, -, he⟩ | ⟨-, -, r, consumers, -, -, he⟩ | ⟨-, -, he⟩ <;>
    rw [he]

theorem push_capacity {h : QueueHooks α ε ω}
    (hl : ∀ n p, (h.onLagged n p).1.capacity = p.1.capacity) (q : MessageQueue α ε) (v : α)
    (w : ω) : (push h v (q, w)).1.capacity = q.capacity := by
  rcases push_cases h q v w with
    ⟨-, he⟩ | ⟨-, p, ps, -, he⟩ | ⟨-, -, -, he⟩ | ⟨-, -, -, oldest, rest, -, he⟩
  · rw [he]
  · rw [he]
  · rw [he]
  · rw [he, recordDrop, hl]

/-! ## What the hooks keep -/

theorem close_keeps {h : QueueHooks α ε ω} {I : ω → Prop} (hd : ∀ v w, I w → I (h.onDropped v w))
    (q : MessageQueue α ε) (error : Option ε) {w : ω} (hw : I w) :
    I (close h error (q, w)).2 := by
  cases hq : q.isClosed with
  | true => rw [close_closed h hq]; exact hw
  | false =>
      rw [close_open h hq]
      exact List.foldlRecOn q.buffer _ hw fun w hw v _ => hd v w hw

theorem push_keeps {h : QueueHooks α ε ω} {I : ω → Prop} (hd : ∀ v w, I w → I (h.onDropped v w))
    (hl : ∀ n p, I p.2 → I (h.onLagged n p).2) (q : MessageQueue α ε) (v : α) {w : ω}
    (hw : I w) : I (push h v (q, w)).2 := by
  rcases push_cases h q v w with
    ⟨-, he⟩ | ⟨-, p, ps, -, he⟩ | ⟨-, -, -, he⟩ | ⟨-, -, -, oldest, rest, -, he⟩
  · rw [he]; exact hw
  · rw [he]; exact hw
  · rw [he]; exact hw
  · rw [he]; exact hl _ _ (hd oldest w hw)

/-! ## The invariant -/

/-- The invariant of the class. -/
structure Valid (q : MessageQueue α ε) : Prop where
  /-- The consumer half keeps its own invariant. -/
  consumers : q.consumers.Valid
  /-- Consumers park only while the buffer is empty. -/
  exclusive : q.buffer = [] ∨ q.consumers.waiters = []
  /-- A closed queue buffers nothing. -/
  drained : q.isClosed = true → q.buffer = []
  /-- The buffer is within the capacity. -/
  bounded : q.capacity.exceeded q.buffer.length = false

theorem valid_new (capacity : Option Number) : (new capacity : MessageQueue α ε).Valid where
  consumers := WaiterQueue.valid_new
  exclusive := Or.inl rfl
  drained _ := rfl
  bounded := by simp [new]

/-- A lag hook that keeps the invariant of the queue it is called from. -/
def LagKeeps (h : QueueHooks α ε ω) : Prop :=
  ∀ n p, p.1.Valid → (h.onLagged n p).1.Valid

/-- Closing an open queue makes the error its terminal state. -/
theorem close_terminal (h : QueueHooks α ε ω) {q : MessageQueue α ε} (hv : q.Valid)
    (hq : q.isClosed = false) (error : Option ε) (w : ω) :
    (close h error (q, w)).1.terminal = some error := by
  obtain ⟨ht, hd, -⟩ := hv.consumers.live_undelivered hq
  rw [close_open h hq, terminal, WaiterQueue.settle_live ht hd]

namespace Valid

variable {q : MessageQueue α ε}

theorem recordDrop {h : QueueHooks α ε ω} (hh : LagKeeps h) (hq : q.Valid) (w : ω) :
    (MessageQueue.recordDrop h (q, w)).1.Valid :=
  hh _ _ ⟨hq.consumers, hq.exclusive, hq.drained, hq.bounded⟩

theorem push {h : QueueHooks α ε ω} (hh : LagKeeps h) (hq : q.Valid) (v : α) (w : ω) :
    (MessageQueue.push h v (q, w)).1.Valid := by
  rcases push_cases h q v w with
    ⟨-, he⟩ | ⟨hc, p, ps, hw, he⟩ | ⟨hc, hw, hx, he⟩ | ⟨hc, hw, hx, oldest, rest, hb, he⟩
  · rw [he]; exact hq
  · rw [he]
    have hb : q.buffer = [] := by
      rcases hq.exclusive with hb | hb
      · exact hb
      · rw [hw] at hb; cases hb
    exact ⟨hq.consumers.handOff hc (v := v) (by simp [WaiterQueue.handOff, hw]), Or.inl hb,
      fun _ => hb, hq.bounded⟩
  · rw [he]
    refine ⟨hq.consumers, Or.inr hw, fun hs => ?_, by simpa using hx⟩
    exact absurd hs (by simpa [isClosed] using hc)
  · rw [he]
    have hv : ({ q with buffer := rest ++ [v] } : MessageQueue α ε).Valid := by
      refine ⟨hq.consumers, Or.inr hw, fun hs => ?_, ?_⟩
      · exact absurd hs (by simpa [isClosed] using hc)
      · simpa [hb] using hq.bounded
    exact hv.recordDrop hh _

theorem markLagged {h : QueueHooks α ε ω} (hh : LagKeeps h) (hq : q.Valid) (w : ω) :
    (MessageQueue.markLagged h (q, w)).1.Valid := by
  cases hc : q.isClosed with
  | true => rw [markLagged_closed h hc]; exact hq
  | false => rw [markLagged_open h hc]; exact hq.recordDrop hh w

theorem close (h : QueueHooks α ε ω) (hq : q.Valid) (error : Option ε) (w : ω) :
    (MessageQueue.close h error (q, w)).1.Valid := by
  cases hc : q.isClosed with
  | true => rw [close_closed h hc]; exact hq
  | false =>
      rw [close_open h hc]
      exact ⟨hq.consumers.settle error, Or.inl rfl, fun _ => rfl, by simp⟩

theorem next (hq : q.Valid) : q.next.Valid := by
  rcases next_cases q with ⟨v, rest, hb, he⟩ | ⟨hb, hc, r, consumers, hr, -, he⟩ | ⟨hb, hc, he⟩
  · rw [he]
    have hw : q.consumers.waiters = [] := by
      rcases hq.exclusive with hb' | hw
      · rw [hb] at hb'; cases hb'
      · exact hw
    refine ⟨hq.consumers.answer_value hw v, Or.inr hw, fun hs => ?_, ?_⟩
    · have := hq.drained hs
      rw [hb] at this
      cases this
    · exact Capacity.not_exceeded_of_le (by simp [hb]) hq.bounded
  · rw [he]
    exact ⟨hq.consumers.settledResult hr, Or.inl hb, fun _ => hb, hq.bounded⟩
  · rw [he]
    exact ⟨hq.consumers.park hc, Or.inl hb, fun _ => hb, hq.bounded⟩

end Valid

end MessageQueue

end Iroh
