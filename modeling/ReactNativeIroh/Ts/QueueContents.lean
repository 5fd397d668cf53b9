import ReactNativeIroh.Ts.MessageQueue

/-!
# What becomes of the values of a queue

A value pushed into a queue is delivered, still buffered, or handed to the
`onDropped` hook.  `held` lists the values delivered and then those buffered.  It
grows at its end only (`push_held`), so delivery is in the order of the pushes.

`Accounts D v` says that the value `v` is held or discarded, where the hooks of the
queue make `D v` true of every value they are given (`Discards`).  Closing the queue
keeps it, and so does a push, which establishes it for the value pushed into an open
queue.
-/

namespace Iroh

namespace MessageQueue

variable {α ε ω : Type*}

/-! ## Where the values are -/

@[simp] theorem fulfil_delivered (q : WaiterQueue α ε) (p : ℕ) (ps : List ℕ) (v : α) :
    ({ q with waiters := ps }.fulfil p (.value v)).delivered = q.delivered ++ [v] := by
  simp [WaiterQueue.delivered, WaiterQueue.fulfil]

/-- The next value of the buffer becomes the last one delivered. -/
@[simp] theorem next_held (q : MessageQueue α ε) : q.next.held = q.held := by
  rcases next_cases q with ⟨v, rest, hb, he⟩ | ⟨hb, -, r, consumers, hr, hend, he⟩ | ⟨hb, -, he⟩
  · simp [he, held, delivered, hb]
  · obtain ⟨d, rfl⟩ := WaiterQueue.settledResult_eq hr
    have hnone : r.value? = none := by cases r <;> first | rfl | cases hend
    simp only [he, held, delivered, WaiterQueue.delivered_answer, hnone, Option.toList_none,
      List.append_nil]
    rfl
  · rw [he]; rfl

theorem close_held (h : QueueHooks α ε ω) {q : MessageQueue α ε} (hq : q.isClosed = false)
    (hv : q.consumers.Valid) (error : Option ε) (w : ω) :
    (close h error (q, w)).1.held = q.delivered := by
  obtain ⟨ht, hd, -⟩ := hv.live_undelivered hq
  rw [close_open h hq, WaiterQueue.settle_live ht hd]
  simp [held, delivered, WaiterQueue.delivered]

/-- A lag hook that takes values out of the queue at most. -/
def LagShrinks (h : QueueHooks α ε ω) : Prop :=
  ∀ n p, p.1.consumers.Valid → (h.onLagged n p).1.held.Sublist p.1.held

theorem close_held_sublist (h : QueueHooks α ε ω) {q : MessageQueue α ε} (hv : q.consumers.Valid)
    (error : Option ε) (w : ω) : (close h error (q, w)).1.held.Sublist q.held := by
  cases hq : q.isClosed with
  | true => rw [close_closed h hq]
  | false => rw [close_held h hq hv]; exact List.sublist_append_left _ _

/-- A push adds to the end and takes out what it drops. -/
theorem push_held {h : QueueHooks α ε ω} (hl : LagShrinks h) {q : MessageQueue α ε} (hq : q.Valid)
    (v : α) (w : ω) : (push h v (q, w)).1.held.Sublist (q.held ++ [v]) := by
  rcases push_cases h q v w with
    ⟨-, he⟩ | ⟨-, p, ps, hw, he⟩ | ⟨-, -, -, he⟩ | ⟨-, -, -, oldest, rest, hb, he⟩
  · rw [he]
    exact List.sublist_append_left _ _
  · have hb : q.buffer = [] := by
      rcases hq.exclusive with hb | hb
      · exact hb
      · rw [hw] at hb; cases hb
    simp [he, held, delivered, hb]
  · simp [he, held, delivered]
  · rw [he]
    refine (hl _ _ hq.consumers).trans ?_
    simp [held, delivered, hb]

/-! ## Values held or discarded -/

/-- The value is held by the queue, or it was discarded. -/
def Accounts (D : α → ω → Prop) (v : α) (p : MessageQueue α ε × ω) : Prop :=
  v ∈ p.1.held ∨ D v p.2

/-- The hooks discard the values they are given, and bring none back. -/
structure Discards (h : QueueHooks α ε ω) (D : α → ω → Prop) : Prop where
  onDropped : ∀ v w, D v (h.onDropped v w)
  keeps : ∀ u v w, D v w → D v (h.onDropped u w)
  onLagged : ∀ n v p, Accounts D v p → Accounts D v (h.onLagged n p)

section Discards

variable {h : QueueHooks α ε ω} {D : α → ω → Prop}

theorem Discards.foldl (hD : Discards h D) {v : α} {vs : List α} {w : ω} (hv : v ∈ vs ∨ D v w) :
    D v (vs.foldl (fun w v => h.onDropped v w) w) := by
  induction vs generalizing w with
  | nil => exact hv.resolve_left List.not_mem_nil
  | cons u vs ih =>
      refine ih ?_
      rcases hv with hv | hv
      · rcases List.mem_cons.mp hv with rfl | hv
        · exact Or.inr (hD.onDropped v w)
        · exact Or.inl hv
      · exact Or.inr (hD.keeps u v w hv)

theorem Discards.close (hD : Discards h D) {q : MessageQueue α ε} (hq : q.Valid)
    (error : Option ε) {v : α} {w : ω} (hv : Accounts D v (q, w)) :
    Accounts D v (close h error (q, w)) := by
  cases hc : q.isClosed with
  | true => rw [close_closed h hc]; exact hv
  | false =>
      rcases hv with hv | hv
      · rcases List.mem_append.mp hv with hv | hv
        · refine Or.inl ?_
          rw [close_held h hc hq.consumers]
          exact hv
        · refine Or.inr ?_
          rw [close_open h hc]
          exact hD.foldl (Or.inl hv)
      · refine Or.inr ?_
        rw [close_open h hc]
        exact hD.foldl (Or.inr hv)

/-- A push loses nothing, and into an open queue it loses not even what it pushes. -/
theorem Discards.push (hD : Discards h D) {q : MessageQueue α ε} (u : α) {v : α} {w : ω}
    (hv : Accounts D v (q, w) ∨ (v = u ∧ q.isClosed = false)) :
    Accounts D v (push h u (q, w)) := by
  rcases push_cases h q u w with
    ⟨hc, he⟩ | ⟨hc, p, ps, hw, he⟩ | ⟨hc, hw, hx, he⟩ | ⟨hc, hw, hx, oldest, rest, hb, he⟩
  · rw [he]
    refine hv.resolve_right fun hu => ?_
    rw [hc] at hu
    cases hu.2
  · rw [he]
    rcases hv with (hv | hv) | ⟨rfl, -⟩
    · refine Or.inl ?_
      simp only [held, delivered, List.mem_append, fulfil_delivered] at hv ⊢
      exact hv.imp_left Or.inl
    · exact Or.inr hv
    · exact Or.inl (by simp [held, delivered])
  · rw [he]
    rcases hv with (hv | hv) | ⟨rfl, -⟩
    · refine Or.inl ?_
      simp only [held, delivered, List.mem_append] at hv ⊢
      exact hv.imp_right Or.inl
    · exact Or.inr hv
    · exact Or.inl (by simp [held])
  · rw [he]
    refine hD.onLagged _ _ _ ?_
    rcases hv with (hv | hv) | ⟨rfl, -⟩
    · simp only [held, hb, List.mem_append, List.mem_cons] at hv
      rcases hv with hv | rfl | hv
      · exact Or.inl (by simpa [held, delivered] using Or.inl hv)
      · exact Or.inr (hD.onDropped v w)
      · exact Or.inl (by simp [held, hv])
    · exact Or.inr (hD.keeps oldest v w hv)
    · exact Or.inl (by simp [held])

end Discards

end MessageQueue

end Iroh
