import Mathlib.Data.List.Basic

/-!
# Parked consumers and the terminal state

`WaiterQueue` is the core that the async iterables of the library share: it parks
consumers in FIFO order, hands each value to the oldest one, and ends the stream
with an error that exactly one consumer sees.

A `next()` call returns a promise.  Promises are numbered by the call that made
them, so `issued` is the number of `next()` calls so far and the number of a
parked promise stands for its `resolve` and `reject` functions.  `outcomes` are
the promises settled so far, oldest first, with what each was settled with.

`WaiterQueue.Valid` is the invariant of the class.  The promises are settled in
the order of the calls that made them, so the settled ones followed by the parked
ones are all of them.  A settled queue has nobody parked.  While it is live no
consumer has seen an end, and once it has ended with an error, the first end seen
is that error and all others are `done`.
-/

namespace Iroh

/-- What the promise of a `next()` call is settled with. -/
inductive Settled (α ε : Type*) where
  /-- Resolved with `{ value, done: false }`. -/
  | value (v : α)
  /-- Resolved with `DONE`. -/
  | done
  /-- Rejected. -/
  | error (e : ε)
deriving DecidableEq, Repr

namespace Settled

variable {α ε : Type*}

/-- The value delivered, if it is one. -/
def value? : Settled α ε → Option α
  | .value v => some v
  | _ => none

/-- Whether the consumer saw the end of the stream. -/
def isEnd : Settled α ε → Bool
  | .value _ => false
  | _ => true

@[simp] theorem value?_value (v : α) : (Settled.value v : Settled α ε).value? = some v := rfl
@[simp] theorem value?_done : (Settled.done : Settled α ε).value? = none := rfl
@[simp] theorem value?_error (e : ε) : (Settled.error e : Settled α ε).value? = none := rfl
@[simp] theorem isEnd_value (v : α) : (Settled.value v : Settled α ε).isEnd = false := rfl
@[simp] theorem isEnd_done : (Settled.done : Settled α ε).isEnd = true := rfl
@[simp] theorem isEnd_error (e : ε) : (Settled.error e : Settled α ε).isEnd = true := rfl

end Settled

/-- FIFO parked consumers plus the terminal state of the stream. -/
structure WaiterQueue (α ε : Type*) where
  /-- The parked promises, oldest first. -/
  waiters : List ℕ := []
  /-- `null` while live, else the error the stream ended with, if any. -/
  terminal : Option (Option ε) := none
  /-- Whether the terminal error has been handed to a consumer. -/
  errorDelivered : Bool := false
  /-- How many promises were made. -/
  issued : ℕ := 0
  /-- The settled promises, in the order they were settled. -/
  outcomes : List (ℕ × Settled α ε) := []
deriving DecidableEq

namespace WaiterQueue

variable {α ε : Type*}

/-- Whether the stream has terminated. -/
def isSettled (q : WaiterQueue α ε) : Bool := q.terminal.isSome

/-- Settle a promise made earlier. -/
def fulfil (q : WaiterQueue α ε) (waiter : ℕ) (r : Settled α ε) : WaiterQueue α ε :=
  { q with outcomes := q.outcomes ++ [(waiter, r)] }

/-- Make a promise that is already settled: `Promise.resolve` or `Promise.reject`. -/
def answer (q : WaiterQueue α ε) (r : Settled α ε) : WaiterQueue α ε :=
  { q with issued := q.issued + 1, outcomes := q.outcomes ++ [(q.issued, r)] }

/-- Hand a value to the longest-parked consumer.  `none` when nobody was waiting. -/
def handOff (q : WaiterQueue α ε) (v : α) : Option (WaiterQueue α ε) :=
  match q.waiters with
  | [] => none
  | waiter :: rest => some ({ q with waiters := rest }.fulfil waiter (.value v))

/-- Park a consumer. -/
def park (q : WaiterQueue α ε) : WaiterQueue α ε :=
  { q with waiters := q.waiters ++ [q.issued], issued := q.issued + 1 }

/-- One round of the loop of `settle`: the error goes to the first waiter. -/
def settleOne (error : Option ε) (q : WaiterQueue α ε) (waiter : ℕ) : WaiterQueue α ε :=
  match error with
  | some e =>
      if q.errorDelivered then q.fulfil waiter .done
      else { q with errorDelivered := true }.fulfil waiter (.error e)
  | none => q.fulfil waiter .done

/-- Terminate the stream. -/
def settle (q : WaiterQueue α ε) (error : Option ε) : WaiterQueue α ε :=
  if q.isSettled then q
  else q.waiters.foldl (settleOne error) { q with terminal := some error, waiters := [] }

/-- What a settled stream owes the consumer that calls `next()`, with the queue
after the error is marked delivered.  `none` while it is live. -/
def settledResult (q : WaiterQueue α ε) : Option (Settled α ε × WaiterQueue α ε) :=
  match q.terminal with
  | none => none
  | some none => some (.done, q)
  | some (some e) =>
      if q.errorDelivered then some (.done, q)
      else some (.error e, { q with errorDelivered := true })

/-! ## What consumers have received -/

/-- The values delivered, in the order of delivery. -/
def delivered (q : WaiterQueue α ε) : List α := q.outcomes.filterMap fun o => o.2.value?

/-- The ends seen, in the order they were seen. -/
def ends (q : WaiterQueue α ε) : List (Settled α ε) :=
  (q.outcomes.map Prod.snd).filter Settled.isEnd

@[simp] theorem delivered_answer (q : WaiterQueue α ε) (r : Settled α ε) :
    (q.answer r).delivered = q.delivered ++ r.value?.toList := by
  cases r <;> simp [delivered, answer]

theorem ends_answer {r : Settled α ε} (hr : r.isEnd = true) (q : WaiterQueue α ε) :
    (q.answer r).ends = q.ends ++ [r] := by
  simp [ends, answer, hr]

/-- The ends the loop of `settle` hands to the parked consumers. -/
def endings (error : Option ε) : List ℕ → List (ℕ × Settled α ε)
  | [] => []
  | w :: ws =>
      match error with
      | some e => (w, .error e) :: ws.map (·, .done)
      | none => (w, .done) :: ws.map (·, .done)

@[simp] theorem endings_nil (error : Option ε) :
    (endings error [] : List (ℕ × Settled α ε)) = [] := rfl

@[simp] theorem endings_map_fst (error : Option ε) (ws : List ℕ) :
    (endings error ws : List (ℕ × Settled α ε)).map Prod.fst = ws := by
  cases ws with
  | nil => rfl
  | cons w ws => cases error <;> simp [endings, Function.comp_def]

@[simp] theorem endings_filterMap_value (error : Option ε) (ws : List ℕ) :
    (endings error ws : List (ℕ × Settled α ε)).filterMap (fun o => o.2.value?) = [] := by
  cases ws with
  | nil => rfl
  | cons w ws => cases error <;> simp [endings]

/-! ## One lemma for each operation -/

/-- Once the error is delivered, or without one, every further waiter gets `done`. -/
theorem foldl_settleOne_done (error : Option ε) (ws : List ℕ) (q : WaiterQueue α ε)
    (h : error = none ∨ q.errorDelivered = true) :
    ws.foldl (settleOne error) q = { q with outcomes := q.outcomes ++ ws.map (·, .done) } := by
  induction ws generalizing q with
  | nil => simp
  | cons w ws ih =>
      have hone : settleOne error q w = q.fulfil w .done := by
        rcases h with rfl | h
        · rfl
        · cases error <;> simp [settleOne, h]
      rw [List.foldl_cons, hone, ih _ (by simpa [fulfil] using h)]
      simp [fulfil]

/-- Settling a live queue ends every parked consumer. -/
theorem settle_live {q : WaiterQueue α ε} (h : q.terminal = none)
    (hd : q.errorDelivered = false) (error : Option ε) :
    q.settle error =
      { q with
        waiters := []
        terminal := some error
        errorDelivered := error.isSome && !q.waiters.isEmpty
        outcomes := q.outcomes ++ endings error q.waiters } := by
  obtain ⟨waiters, terminal, errorDelivered, issued, outcomes⟩ := q
  simp only at h hd
  subst h hd
  simp only [settle, isSettled, Option.isSome_none, Bool.false_eq_true, if_false]
  cases waiters with
  | nil => simp
  | cons w ws =>
      cases error with
      | none => rw [foldl_settleOne_done none _ _ (Or.inl rfl)]; simp [endings]
      | some e =>
          rw [List.foldl_cons, foldl_settleOne_done (some e) _ _ (Or.inr rfl)]
          simp [settleOne, fulfil, endings]

theorem settle_settled {q : WaiterQueue α ε} (h : q.isSettled = true) (error : Option ε) :
    q.settle error = q := by
  simp [settle, h]

@[simp] theorem settle_isSettled (q : WaiterQueue α ε) (error : Option ε) :
    (q.settle error).isSettled = true := by
  by_cases h : q.isSettled = true
  · rw [settle_settled h, h]
  · rw [settle, if_neg h]
    refine List.foldlRecOn (motive := fun p : WaiterQueue α ε => p.isSettled = true) _ _ rfl
      fun p hp w _ => ?_
    unfold settleOne
    split
    · split <;> exact hp
    · exact hp

/-- Reading off the end may mark the error delivered, and leaves the rest as it is. -/
theorem settledResult_eq {q q' : WaiterQueue α ε} {r : Settled α ε}
    (h : q.settledResult = some (r, q')) :
    ∃ delivered, q' = { q with errorDelivered := delivered } := by
  unfold settledResult at h
  split at h
  · cases h
  · obtain ⟨-, rfl⟩ := Prod.mk.inj (Option.some.inj h)
    exact ⟨_, rfl⟩
  · split at h
    · obtain ⟨-, rfl⟩ := Prod.mk.inj (Option.some.inj h)
      exact ⟨_, rfl⟩
    · obtain ⟨-, rfl⟩ := Prod.mk.inj (Option.some.inj h)
      exact ⟨_, rfl⟩

/-! ## The invariant -/

/-- The ends consumers have seen agree with the terminal state. -/
def EndsAs (terminal : Option (Option ε)) (errorDelivered : Bool)
    (ends : List (Settled α ε)) : Prop :=
  match terminal with
  | none => errorDelivered = false ∧ ends = []
  | some none => errorDelivered = false ∧ ∃ k, ends = List.replicate k .done
  | some (some e) =>
      (errorDelivered = false ∧ ends = []) ∨
        (errorDelivered = true ∧ ∃ k, ends = .error e :: List.replicate k .done)

/-- The invariant of the class. -/
structure Valid (q : WaiterQueue α ε) : Prop where
  /-- Promises are settled in call order. -/
  order : q.outcomes.map Prod.fst ++ q.waiters = List.range q.issued
  /-- Nobody is parked on an ended stream. -/
  parked : q.isSettled = true → q.waiters = []
  /-- Exactly one consumer sees the terminal error, the first to see the end. -/
  ends : EndsAs q.terminal q.errorDelivered q.ends

theorem valid_new : ({} : WaiterQueue α ε).Valid where
  order := rfl
  parked _ := rfl
  ends := ⟨rfl, rfl⟩

namespace Valid

variable {q : WaiterQueue α ε}

theorem live_undelivered (h : q.Valid) (hl : q.isSettled = false) :
    q.terminal = none ∧ q.errorDelivered = false ∧ q.ends = [] := by
  have ht : q.terminal = none := by simpa [isSettled] using hl
  have he := h.ends
  rw [ht] at he
  exact ⟨ht, he.1, he.2⟩

theorem handOff (h : q.Valid) (hl : q.isSettled = false) {v : α} {q' : WaiterQueue α ε}
    (hq : q.handOff v = some q') : q'.Valid := by
  obtain ⟨ht, hd, he⟩ := h.live_undelivered hl
  cases hw : q.waiters with
  | nil => simp [WaiterQueue.handOff, hw] at hq
  | cons w ws =>
      simp only [WaiterQueue.handOff, hw, Option.some.injEq] at hq
      subst hq
      refine ⟨?_, ?_, ?_⟩
      · simpa [fulfil, hw] using h.order
      · simp [fulfil, isSettled, ht]
      · have : q.ends ++ [] = [] := by rw [he]; rfl
        simpa [WaiterQueue.ends, fulfil, EndsAs, ht, hd] using he

theorem park (h : q.Valid) (hl : q.isSettled = false) : q.park.Valid := by
  refine ⟨?_, ?_, ?_⟩
  · have := h.order
    simp only [WaiterQueue.park, List.range_succ]
    rw [← List.append_assoc, this]
  · intro hs
    exact absurd hs (by simpa [WaiterQueue.park, isSettled] using hl)
  · exact h.ends

/-- Answering a fresh call at once, when nobody is parked. -/
theorem answer_order (h : q.Valid) (hw : q.waiters = []) (r : Settled α ε) :
    (q.answer r).outcomes.map Prod.fst ++ (q.answer r).waiters
      = List.range (q.answer r).issued := by
  have := h.order
  simp only [hw, List.append_nil] at this
  simp [answer, hw, this, List.range_succ]

theorem answer_value (h : q.Valid) (hw : q.waiters = []) (v : α) :
    (q.answer (.value v)).Valid where
  order := h.answer_order hw _
  parked _ := hw
  ends := by simpa [WaiterQueue.ends, answer] using h.ends

theorem settle (h : q.Valid) (error : Option ε) : (q.settle error).Valid := by
  by_cases hs : q.isSettled = true
  · rw [settle_settled hs]
    exact h
  · obtain ⟨ht, hd, he⟩ := h.live_undelivered (by simpa using hs)
    rw [settle_live ht hd]
    refine ⟨?_, fun _ => rfl, ?_⟩
    · simpa using h.order
    · have hends : ((q.outcomes ++ endings error q.waiters).map Prod.snd).filter Settled.isEnd
          = ((endings error q.waiters).map Prod.snd).filter Settled.isEnd := by
        rw [List.map_append, List.filter_append]
        simpa [WaiterQueue.ends] using he
      simp only [WaiterQueue.ends, hends]
      cases hw : q.waiters with
      | nil => cases error <;> simp [EndsAs, endings]
      | cons w ws =>
          cases error with
          | none => exact ⟨by simp, ws.length + 1, by
              simp [endings, Function.comp_def, List.replicate_succ, List.map_const']⟩
          | some e => exact Or.inr ⟨by simp, ws.length, by
              simp [endings, Function.comp_def, List.map_const']⟩

/-- What a settled queue answers keeps the invariant. -/
theorem settledResult (h : q.Valid) {r : Settled α ε} {q' : WaiterQueue α ε}
    (hq : q.settledResult = some (r, q')) : (q'.answer r).Valid := by
  have hs : q.isSettled = true := by
    unfold WaiterQueue.settledResult at hq
    unfold isSettled
    cases ht : q.terminal with
    | none => simp [ht] at hq
    | some _ => rfl
  have hw := h.parked hs
  have hends := h.ends
  unfold WaiterQueue.settledResult at hq
  split at hq
  · simp at hq
  · next ht =>
      obtain ⟨rfl, rfl⟩ := Prod.mk.inj (Option.some.inj hq)
      refine ⟨h.answer_order hw _, fun _ => hw, ?_⟩
      simp only [ht, EndsAs] at hends
      obtain ⟨hd, k, hk⟩ := hends
      rw [ends_answer rfl, hk]
      exact ht ▸ ⟨hd, k + 1, List.replicate_succ'.symm⟩
  · next e ht =>
      simp only [ht, EndsAs] at hends
      split at hq
      · next hd =>
          obtain ⟨rfl, rfl⟩ := Prod.mk.inj (Option.some.inj hq)
          refine ⟨h.answer_order hw _, fun _ => hw, ?_⟩
          rcases hends with ⟨hd', -⟩ | ⟨-, k, hk⟩
          · exact absurd (hd'.symm.trans hd) (by simp)
          · rw [ends_answer rfl, hk]
            exact ht ▸ Or.inr ⟨hd, k + 1, by rw [List.replicate_succ', List.cons_append]⟩
      · next hd =>
          obtain ⟨rfl, rfl⟩ := Prod.mk.inj (Option.some.inj hq)
          refine ⟨h.answer_order (r := .error e) hw, fun _ => hw, ?_⟩
          rcases hends with ⟨-, he⟩ | ⟨hd', -⟩
          · rw [ends_answer rfl, show ({ q with errorDelivered := true } : WaiterQueue α ε).ends
              = [] from he]
            exact ht ▸ Or.inr ⟨rfl, 0, rfl⟩
          · exact absurd hd' hd

end Valid

end WaiterQueue

end Iroh
