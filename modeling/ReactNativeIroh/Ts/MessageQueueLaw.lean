import ReactNativeIroh.Ts.QueueContents

/-!
# The law of the message queue

A queue is used by any sequence of `push`, `next`, `markLagged`, `close` and
`return`, and its host reacts to a lag with any number of calls of `close`.  A run
records what the law speaks of: the values pushed while the queue was open, those
handed to `onDropped`, the totals handed to `onLagged`, the errors of the calls of
`close`, the evictions, and the calls of `markLagged`.

`Lawful` is the invariant.  `law` reads the five parts of the law off it.
-/

namespace Iroh

namespace MessageQueue

variable {α ε σ : Type*}

/-- What the hooks and the calls of `close` were given, oldest first. -/
structure Log (α ε : Type*) where
  dropped : List α := []
  lagged : List ℕ := []
  closes : List (Option ε) := []
deriving DecidableEq

/-- A host with a state of its own.  Its lag handler says which errors it calls
`close` with. -/
structure Host (α ε σ : Type*) where
  onDropped : α → σ → σ
  onLagged : ℕ → σ → List (Option ε) × σ

namespace Host

/-- The drop hook, which is all that `close` uses. -/
def drops (u : Host α ε σ) : QueueHooks α ε (Log α ε × σ) where
  onDropped v := fun (log, s) => ({ log with dropped := log.dropped ++ [v] }, u.onDropped v s)

/-- The hooks of the host. -/
def hooks (u : Host α ε σ) : QueueHooks α ε (Log α ε × σ) where
  onDropped := u.drops.onDropped
  onLagged n := fun (q, log, s) =>
    (u.onLagged n s).1.foldl (fun p error => close u.drops error p)
      (q, { log with
        lagged := log.lagged ++ [n]
        closes := log.closes ++ (u.onLagged n s).1 }, (u.onLagged n s).2)

end Host

/-- An operation on the queue. -/
inductive QueueOp (α ε : Type*) where
  | push (v : α)
  | next
  | markLagged
  | close (error : Option ε)
  | return
deriving DecidableEq

/-- A queue, its host, and the history of one run. -/
structure QueueRun (α ε σ : Type*) where
  queue : MessageQueue α ε
  log : Log α ε := {}
  host : σ
  pushed : List α := []
  evictions : ℕ := 0
  lags : ℕ := 0
  marks : ℕ := 0

/-- A push would take the buffer over the capacity. -/
def overflows (q : MessageQueue α ε) : Bool :=
  !q.isClosed && q.consumers.waiters.isEmpty && q.capacity.exceeded (q.buffer.length + 1)

namespace QueueRun

/-- The queue, the log and the host after a call. -/
def set (x : QueueRun α ε σ) (p : MessageQueue α ε × Log α ε × σ) : QueueRun α ε σ :=
  { x with queue := p.1, log := p.2.1, host := p.2.2 }

/-- Record a call of `close`. -/
def closing (x : QueueRun α ε σ) (error : Option ε) : QueueRun α ε σ :=
  { x with log := { x.log with closes := x.log.closes ++ [error] } }

def after (u : Host α ε σ) (x : QueueRun α ε σ) : QueueOp α ε → QueueRun α ε σ
  | .push v =>
      { x.set (MessageQueue.push u.hooks v (x.queue, x.log, x.host)) with
        pushed := if x.queue.isClosed then x.pushed else x.pushed ++ [v]
        evictions := if x.queue.overflows then x.evictions + 1 else x.evictions }
  | .next => { x with queue := x.queue.next }
  | .markLagged =>
      { x.set (MessageQueue.markLagged u.hooks (x.queue, x.log, x.host)) with
        lags := if x.queue.isClosed then x.lags else x.lags + 1
        marks := x.marks + 1 }
  | .close error =>
      x.set (MessageQueue.close u.hooks error (x.queue, (x.closing error).log, x.host))
  | .return => x.set (MessageQueue.return u.hooks (x.queue, (x.closing none).log, x.host))

/-- A new queue after a sequence of operations. -/
def run (u : Host α ε σ) (capacity : Option Number) (s : σ) (ops : List (QueueOp α ε)) :
    QueueRun α ε σ :=
  ops.foldl (after u) { queue := .new capacity, host := s }

end QueueRun

/-! ## What closing does to the log -/

theorem close_log (u : Host α ε σ) {h : QueueHooks α ε (Log α ε × σ)}
    (hd : h.onDropped = u.drops.onDropped) (q : MessageQueue α ε) (error : Option ε)
    (log : Log α ε) (s : σ) :
    (close h error (q, log, s)).2.1 =
      { log with dropped := log.dropped ++ if q.isClosed then [] else q.buffer } := by
  have hfold : ∀ (vs : List α) (log : Log α ε) (s : σ),
      (vs.foldl (fun w v => h.onDropped v w) (log, s)).1 =
        { log with dropped := log.dropped ++ vs } := by
    intro vs
    induction vs with
    | nil => intro log s; simp
    | cons v vs ih =>
        intro log s
        rw [List.foldl_cons, hd]
        rw [hd] at ih
        simp only [Host.drops]
        exact (ih _ _).trans (by simp)
  cases hq : q.isClosed with
  | true => rw [close_closed h hq]; simp
  | false => rw [close_open h hq]; exact hfold _ _ _

/-- Only the first of several calls of `close` counts. -/
theorem foldl_close (h : QueueHooks α ε (Log α ε × σ)) (error : Option ε)
    (errors : List (Option ε)) (p : MessageQueue α ε × Log α ε × σ) :
    (error :: errors).foldl (fun p error => close h error p) p = close h error p := by
  have hstay : ∀ (errors : List (Option ε)) (p : MessageQueue α ε × Log α ε × σ),
      p.1.isClosed = true → errors.foldl (fun p error => close h error p) p = p := by
    intro errors
    induction errors with
    | nil => exact fun _ _ => rfl
    | cons e es ih =>
        intro p hp
        rw [List.foldl_cons, show close h e p = p from close_closed h hp e p.2]
        exact ih p hp
  exact hstay errors _ (close_isClosed h p.1 error p.2)

/-! ## The invariant -/

/-- The invariant: `pushed` are the values pushed while the queue was open, and
`total` counts the drops. -/
structure Lawful (pushed : List α) (total : ℕ) (q : MessageQueue α ε) (log : Log α ε) : Prop where
  valid : q.Valid
  conserved : (q.held ++ log.dropped).Perm pushed
  ordered : q.held.Sublist pushed
  counted : q.dropped = total
  lagged : log.lagged = List.range' 1 total
  terminal : q.terminal = log.closes.head?

namespace Lawful

variable {pushed : List α} {total : ℕ} {q : MessageQueue α ε} {log : Log α ε}

theorem closes_nil (h : Lawful pushed total q log) (hq : q.isClosed = false) : log.closes = [] := by
  have ht : q.terminal = none := (h.valid.consumers.live_undelivered hq).1
  exact List.head?_eq_none_iff.mp (h.terminal.symm.trans ht)

/-- A call of `close`, with the calls that follow it at once. -/
theorem close (h : Lawful pushed total q log) (u : Host α ε σ)
    {hooks : QueueHooks α ε (Log α ε × σ)} (hd : hooks.onDropped = u.drops.onDropped)
    (error : Option ε) (errors : List (Option ε)) {log' : Log α ε}
    (hlog : log' = { log with closes := log.closes ++ error :: errors }) (s : σ) :
    Lawful pushed total (MessageQueue.close hooks error (q, log', s)).1
      (MessageQueue.close hooks error (q, log', s)).2.1 := by
  have hdropped := (close_dropped hooks q error (log', s)).trans h.counted
  have hclose := close_log u hd q error log' s
  subst hlog
  cases hq : q.isClosed with
  | true =>
      have hne : log.closes ≠ [] := by
        intro hnil
        have ht := h.terminal
        rw [hnil] at ht
        have hsome : q.terminal.isSome = true := hq
        rw [ht] at hsome
        cases hsome
      rw [close_closed hooks hq]
      refine ⟨h.valid, h.conserved, h.ordered, h.counted, h.lagged, ?_⟩
      rw [h.terminal, List.head?_append_of_ne_nil _ hne]
  | false =>
      have hheld := close_held hooks hq h.valid.consumers error
        ({ log with closes := log.closes ++ error :: errors }, s)
      have hterm := close_terminal hooks h.valid hq error
        ({ log with closes := log.closes ++ error :: errors }, s)
      rw [hq] at hclose
      refine ⟨h.valid.close hooks error _, ?_, ?_, hdropped, ?_, ?_⟩
      · rw [hheld, hclose]
        refine List.Perm.trans ?_ h.conserved
        rw [held, List.append_assoc]
        exact List.perm_append_comm.append_left _
      · rw [hheld]
        exact (List.sublist_append_left _ _).trans h.ordered
      · rw [hclose]
        exact h.lagged
      · rw [hterm, hclose, h.closes_nil hq]
        rfl

/-- A drop is counted, reported, and answered by the host. -/
theorem recordDrop (h : Lawful pushed total q log) (u : Host α ε σ) (s : σ) :
    Lawful pushed (total + 1) (MessageQueue.recordDrop u.hooks (q, log, s)).1
      (MessageQueue.recordDrop u.hooks (q, log, s)).2.1 := by
  have hlag : Lawful pushed (total + 1) { q with droppedCount := q.droppedCount + 1 }
      { log with lagged := log.lagged ++ [q.droppedCount + 1] } := by
    have hcount : q.droppedCount = total := h.counted
    refine ⟨⟨h.valid.consumers, h.valid.exclusive, h.valid.drained, h.valid.bounded⟩,
      h.conserved, h.ordered, congrArg (· + 1) hcount, ?_, h.terminal⟩
    rw [h.lagged, hcount, ← List.range'_append_1, Nat.add_comm 1]
    rfl
  simp only [MessageQueue.recordDrop, Host.hooks]
  cases hc : (u.onLagged (q.droppedCount + 1) s).1 with
  | nil =>
      simp only [List.foldl_nil, List.append_nil]
      exact hlag
  | cons error errors =>
      rw [foldl_close]
      exact hlag.close u rfl error errors rfl _

/-- A value is pushed into an open queue. -/
theorem push (h : Lawful pushed total q log) (hq : q.isClosed = false) (u : Host α ε σ) (v : α)
    (s : σ) :
    Lawful (pushed ++ [v]) (if q.overflows then total + 1 else total)
      (MessageQueue.push u.hooks v (q, log, s)).1
      (MessageQueue.push u.hooks v (q, log, s)).2.1 := by
  have hconserved : (q.held ++ v :: log.dropped).Perm (pushed ++ [v]) :=
    List.perm_middle.trans ((h.conserved.cons v).trans (List.perm_append_singleton v pushed).symm)
  rcases push_cases u.hooks q v (log, s) with
    ⟨hc, he⟩ | ⟨-, p, ps, hw, he⟩ | ⟨-, hw, hx, he⟩ | ⟨-, hw, hx, oldest, rest, hb, he⟩
  · rw [hq] at hc; cases hc
  · have hb : q.buffer = [] := by
      rcases h.valid.exclusive with hb | hb
      · exact hb
      · rw [hw] at hb; cases hb
    have hheld : ({ q with
        consumers := { q.consumers with waiters := ps }.fulfil p (.value v) } :
          MessageQueue α ε).held = q.held ++ [v] := by
      simp [held, delivered, hb]
    rw [he, if_neg (by simp [overflows, hw])]
    refine ⟨⟨h.valid.consumers.handOff hq (v := v) (by simp [WaiterQueue.handOff, hw]), Or.inl hb,
      fun _ => hb, h.valid.bounded⟩, ?_, ?_, h.counted, h.lagged, h.terminal⟩
    · rw [hheld, List.append_assoc]
      exact hconserved
    · rw [hheld]
      exact h.ordered.append (.refl _)
  · have hheld :
        ({ q with buffer := q.buffer ++ [v] } : MessageQueue α ε).held = q.held ++ [v] := by
      simp [held, delivered]
    rw [he, if_neg (by simp [overflows, hx])]
    refine ⟨⟨h.valid.consumers, Or.inr hw, fun hs => ?_, by simpa using hx⟩, ?_, ?_, h.counted,
      h.lagged, h.terminal⟩
    · rw [show q.isClosed = true from hs] at hq
      cases hq
    · rw [hheld, List.append_assoc]
      exact hconserved
    · rw [hheld]
      exact h.ordered.append (.refl _)
  · rw [he, if_pos (by simp [overflows, hq, hw, hx])]
    have hheld : q.held = q.delivered ++ oldest :: rest := by rw [held, hb]
    have hdropped : Lawful (pushed ++ [v]) total { q with buffer := rest ++ [v] }
        { log with dropped := log.dropped ++ [oldest] } := by
      refine ⟨⟨h.valid.consumers, Or.inr hw, fun hs => ?_, ?_⟩, ?_, ?_, h.counted, h.lagged,
        h.terminal⟩
      · rw [show q.isClosed = true from hs] at hq
        cases hq
      · simpa [hb] using h.valid.bounded
      · refine List.Perm.trans ?_ hconserved
        rw [hheld]
        simp only [held, delivered, List.append_assoc]
        refine List.Perm.append_left _ ?_
        simpa using List.perm_append_singleton oldest (rest ++ v :: log.dropped)
      · have hsub : (q.delivered ++ (rest ++ [v])).Sublist (q.held ++ [v]) := by
          simp [hheld]
        exact hsub.trans (h.ordered.append (.refl _))
    exact hdropped.recordDrop u _

theorem next (h : Lawful pushed total q log) : Lawful pushed total q.next log where
  valid := h.valid.next
  conserved := by rw [next_held]; exact h.conserved
  ordered := by rw [next_held]; exact h.ordered
  counted := (next_dropped q).trans h.counted
  lagged := h.lagged
  terminal := (next_terminal q).trans h.terminal

end Lawful

namespace QueueRun

variable {u : Host α ε σ} {x : QueueRun α ε σ}

/-- The invariant of a run. -/
abbrev IsLawful (x : QueueRun α ε σ) : Prop :=
  Lawful x.pushed (x.evictions + x.lags) x.queue x.log

theorem IsLawful.after (h : x.IsLawful) (u : Host α ε σ) (op : QueueOp α ε) :
    (x.after u op).IsLawful := by
  cases op with
  | push v =>
      cases hq : x.queue.isClosed with
      | true =>
          have ho : x.queue.overflows = false := by simp [overflows, hq]
          simpa [QueueRun.after, QueueRun.set, IsLawful, hq, ho, push_closed u.hooks hq v] using h
      | false =>
          have hp := h.push hq u v x.host
          simp only [IsLawful, QueueRun.after, QueueRun.set, hq, Bool.false_eq_true, if_false]
          split
          · next ho =>
              rw [if_pos ho] at hp
              simpa only [Nat.add_right_comm] using hp
          · next ho =>
              rw [if_neg ho] at hp
              exact hp
  | next => exact h.next
  | markLagged =>
      cases hq : x.queue.isClosed with
      | true =>
          simpa [QueueRun.after, QueueRun.set, IsLawful, hq, markLagged_closed u.hooks hq] using h
      | false =>
          simp only [IsLawful, QueueRun.after, QueueRun.set, hq, Bool.false_eq_true, if_false,
            markLagged_open u.hooks hq]
          exact h.recordDrop u x.host
  | close error => exact h.close u rfl error [] rfl x.host
  | «return» => exact h.close u rfl none [] rfl x.host

theorem isLawful_run (u : Host α ε σ) (capacity : Option Number) (s : σ)
    (ops : List (QueueOp α ε)) : (run u capacity s ops).IsLawful :=
  List.foldlRecOn (motive := IsLawful) ops _
    ⟨valid_new capacity, .refl _, .refl _, rfl, rfl, rfl⟩ fun _ h op _ => h.after u op

theorem hooks_capacity (u : Host α ε σ) (n : ℕ) (p : MessageQueue α ε × Log α ε × σ) :
    (u.hooks.onLagged n p).1.capacity = p.1.capacity := by
  simp only [Host.hooks]
  cases (u.onLagged n p.2.2).1 with
  | nil => rfl
  | cons error errors => rw [foldl_close, close_capacity]

theorem after_capacity (u : Host α ε σ) (x : QueueRun α ε σ) (op : QueueOp α ε) :
    (x.after u op).queue.capacity = x.queue.capacity := by
  cases op with
  | push v => exact push_capacity (hooks_capacity u) _ _ _
  | next => exact next_capacity _
  | markLagged =>
      simp only [QueueRun.after, QueueRun.set]
      cases hq : x.queue.isClosed with
      | true => rw [markLagged_closed u.hooks hq]
      | false => rw [markLagged_open u.hooks hq]; exact hooks_capacity u _ _
  | close error => exact close_capacity _ _ _ _
  | «return» => exact close_capacity _ _ _ _

theorem run_capacity (u : Host α ε σ) (capacity : Option Number) (s : σ)
    (ops : List (QueueOp α ε)) : (run u capacity s ops).queue.capacity = .ofOption capacity :=
  List.foldlRecOn (motive := fun x => x.queue.capacity = .ofOption capacity) ops _ rfl
    fun x hx op _ => (after_capacity u x op).trans hx

/-- An overflow discards the oldest buffered value first.  The others stay, unless the
host then closes the queue. -/
theorem push_evicts (u : Host α ε σ) (x : QueueRun α ε σ) (v : α)
    (ho : x.queue.overflows = true) :
    ∃ oldest rest, x.queue.buffer = oldest :: rest ∧
      (x.log.dropped ++ [oldest]) <+: (x.after u (.push v)).log.dropped ∧
      ((x.after u (.push v)).queue.isClosed = false →
        (x.after u (.push v)).queue.buffer = rest ++ [v]) := by
  simp only [overflows, Bool.and_eq_true, Bool.not_eq_true', List.isEmpty_iff] at ho
  obtain ⟨⟨hq, hw⟩, hx⟩ := ho
  rcases push_cases u.hooks x.queue v (x.log, x.host) with
    ⟨hc, -⟩ | ⟨-, p, ps, hw', -⟩ | ⟨-, -, hx', -⟩ | ⟨-, -, -, oldest, rest, hb, he⟩
  · rw [hq] at hc; cases hc
  · rw [hw] at hw'; cases hw'
  · rw [hx] at hx'; cases hx'
  · refine ⟨oldest, rest, hb, ?_⟩
    simp only [QueueRun.after, QueueRun.set]
    rw [he]
    simp only [recordDrop, Host.hooks]
    cases (u.onLagged (x.queue.droppedCount + 1)
        (u.drops.onDropped oldest (x.log, x.host)).2).1 with
    | nil => exact ⟨List.prefix_rfl, fun _ => rfl⟩
    | cons error errors =>
        rw [foldl_close, close_isClosed]
        refine ⟨?_, fun hopen => Bool.noConfusion hopen⟩
        rw [close_log u rfl]
        exact List.prefix_append _ _

/-! ## The law -/

/-- What the consumers of a queue see of its end, given what it was closed with. -/
def EndsSeen (terminal : Option (Option ε)) (ends : List (Settled α ε)) : Prop :=
  match terminal with
  | none => ends = []
  | some none => ∃ k, ends = List.replicate k .done
  | some (some e) => ends = [] ∨ ∃ k, ends = .error e :: List.replicate k .done

/-- The law, for a queue made with the given capacity. -/
structure Law (u : Host α ε σ) (capacity : Option Number) (x : QueueRun α ε σ) : Prop where
  bounded : Number.le (.ofNat x.queue.buffer.length)
    (Number.clamp (capacity.getD Capacity.default)) = true
  exclusive : x.queue.buffer = [] ∨ x.queue.consumers.waiters = []
  drained : x.queue.isClosed = true → x.queue.buffer = [] ∧ x.queue.consumers.waiters = []
  conserved : (x.queue.delivered ++ x.queue.buffer ++ x.log.dropped).Perm x.pushed
  ordered : (x.queue.delivered ++ x.queue.buffer).Sublist x.pushed
  served : x.queue.consumers.outcomes.map Prod.fst ++ x.queue.consumers.waiters =
    List.range x.queue.consumers.issued
  evicts : ∀ v, x.queue.overflows = true → ∃ oldest rest, x.queue.buffer = oldest :: rest ∧
    (x.log.dropped ++ [oldest]) <+: (x.after u (.push v)).log.dropped ∧
    ((x.after u (.push v)).queue.isClosed = false →
      (x.after u (.push v)).queue.buffer = rest ++ [v])
  ended : EndsSeen x.log.closes.head? x.queue.consumers.ends
  counted : x.queue.dropped = x.evictions + x.lags
  lagged : x.log.lagged = List.range' 1 x.queue.dropped

/-- Every run keeps the law.  `lags` are the calls of `markLagged` made while the
queue was open. -/
theorem law (u : Host α ε σ) (capacity : Option Number) (hnan : capacity ≠ some .nan) (s : σ)
    (ops : List (QueueOp α ε)) : Law u capacity (run u capacity s ops) := by
  have h := isLawful_run u capacity s ops
  refine ⟨?_, h.valid.exclusive, fun hc => ⟨h.valid.drained hc, h.valid.consumers.parked hc⟩,
    h.conserved, h.ordered, h.valid.consumers.order, fun v ho => push_evicts u _ v ho, ?_,
    h.counted, h.counted ▸ h.lagged⟩
  · have hb := h.valid.bounded
    rw [run_capacity] at hb
    refine (Number.le_clamp_iff ?_ _).2 hb
    cases capacity with
    | none => exact nofun
    | some a => exact fun ha => hnan (congrArg some ha)
  · have hends := h.valid.consumers.ends
    rw [show (run u capacity s ops).queue.consumers.terminal = _ from h.terminal] at hends
    cases hc : (run u capacity s ops).log.closes.head? with
    | none => rw [hc] at hends; exact hends.2
    | some t =>
        rw [hc] at hends
        cases t with
        | none => exact hends.2
        | some e => exact hends.imp And.right And.right

/-- A host that does nothing. -/
def idle : Host ℕ ℕ Unit := ⟨fun _ => id, fun _ s => ([], s)⟩

/-- A queue of one value, which is closed with an error while it is full. -/
def closedFull : QueueRun ℕ ℕ Unit :=
  run idle (some (.fin 0)) () [.next, .push 0, .push 1, .push 2, .markLagged, .next, .push 3,
    .close (some 7), .next, .next, .push 4, .markLagged]

theorem law_capacity_one :
    Law idle (some (.fin 0)) closedFull ∧
      closedFull.queue.delivered = [0, 2] ∧ closedFull.log.dropped = [1, 3] ∧
      closedFull.queue.consumers.ends = [.error 7, .done] ∧
      closedFull.evictions = 1 ∧ closedFull.log.lagged = [1, 2] :=
  ⟨law idle (some (.fin 0)) (by decide) () _, by decide, by decide, by decide, by decide,
    by decide⟩

/-- A call of `markLagged` on a closed queue is not counted. -/
theorem markLagged_closed_uncounted :
    ¬ ∀ (ops : List (QueueOp ℕ ℕ)),
      (run idle none () ops).queue.dropped =
        (run idle none () ops).evictions + (run idle none () ops).marks := by
  intro hall
  exact absurd (hall [.close none, .markLagged]) (by decide)

end QueueRun

end MessageQueue

end Iroh
