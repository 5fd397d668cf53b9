import ReactNativeIroh.Lib.Ownership
import ReactNativeIroh.Ts.QueueContents

/-!
# Queues of owned objects

A connection queues the streams its peer opened, and a listener the connections it
accepted.  In both the queue holds handles, the objects live in a roster, and the
queue closes the object of a handle it discards.

`Placing` is the invariant of such a queue while nothing is pushed into it after it
was closed: each handle taken so far is held by the queue, or its object is not
open.  `Placing.placed` reads the disposition of each handle off it.
-/

namespace Iroh

open Ownership

namespace Backlog

variable {σ ε ω : Type*} {closed : σ → Bool}

/-- The hooks of a queue that closes what it discards. -/
def hooks (F : ℕ → Op ℕ σ ω) : QueueHooks ℕ ε (Roster ℕ σ × ω) where
  onDropped i p := Roster.apply i (F i) p

/-- No open object wraps the handle. -/
def NotOpen (closed : σ → Bool) (i : ℕ) (r : Roster ℕ σ) : Prop :=
  ∀ s, r.objects i = some s → closed s = true

/-- The handle is wrapped, or it was released once. -/
def Owned (r : Roster ℕ σ) (i : ℕ) : Prop :=
  (r.objects i).isSome = true ∨ r.ledger.released.count i = 1

/-- The handle is with one consumer, or it waits in the open queue, or it has been
released. -/
def Placed (q : MessageQueue ℕ ε) (r : Roster ℕ σ) (i : ℕ) : Prop :=
  (q.delivered.count i = 1 ∧ i ∉ q.buffer) ∨
  (i ∉ q.delivered ∧ i ∈ q.buffer ∧ q.isClosed = false) ∨
  (i ∉ q.delivered ∧ i ∉ q.buffer ∧ r.ledger.released.count i = 1)

section Roster

variable {i j : ℕ} {r r' : Roster ℕ σ}

theorem NotOpen.of_unwrapped (h : r.objects i = none) : NotOpen closed i r := by
  intro s hs
  rw [h] at hs
  cases hs

theorem NotOpen.adopt (h : NotOpen closed i r) (hij : i ≠ j) (s : σ) :
    NotOpen closed i (r.adopt j s) := by
  intro s' hs'
  exact h s' ((Roster.adopt_of_ne hij s).symm.trans hs')

theorem NotOpen.evolves (h : NotOpen closed i r) (he : r.Evolves closed r') :
    NotOpen closed i r' := by
  cases hi : r.objects i with
  | none => exact .of_unwrapped ((he.unwrapped_iff i).2 hi)
  | some s =>
      intro s' hs'
      obtain ⟨s'', hs'', hc⟩ := he.staysClosed i ⟨s, hi, h s hi⟩
      obtain rfl := Option.some.inj (hs''.symm.trans hs')
      exact hc

theorem Owned.adopt (h : Owned r i) (hij : i ≠ j) (s : σ) : Owned (r.adopt j s) i :=
  h.imp_left fun hs => by rwa [Roster.adopt_of_ne hij]

theorem Owned.release (h : Owned r i) (hij : i ≠ j) : Owned (r.release j) i :=
  h.imp_right fun hs => by
    simpa [Roster.release, Ledger.release, List.count_append, Ne.symm hij] using hs

theorem Owned.evolves (h : Owned r i) (he : r.Evolves closed r') : Owned r' i := by
  cases hi : r.objects i with
  | some s => exact Or.inl ((he.wrapped i).trans (by rw [hi]; rfl))
  | none => exact Or.inr ((he.unwrapped i hi).trans (h.resolve_left (by simp [hi])))

theorem owned_adopt (i : ℕ) (s : σ) (r : Roster ℕ σ) : Owned (r.adopt i s) i :=
  Or.inl (by simp [Roster.adopt])

theorem owned_release (h : r.Fresh i) : Owned (r.release i) i :=
  Or.inr (by simp [Roster.release, Ledger.release, List.count_append,
    List.count_eq_zero.mpr h.unreleased])

end Roster

section Queue

variable {F : ℕ → Op ℕ σ ω} (hF : ∀ i, OneShot closed i (F i))
  (hclose : ∀ i p, closed (F i p).1 = true)

include hF

theorem close_evolves (q : MessageQueue ℕ ε) (error : Option ε) (p : Roster ℕ σ × ω) :
    p.1.Evolves closed (MessageQueue.close (hooks F) error (q, p)).2.1 :=
  MessageQueue.close_keeps (I := fun p' => p.1.Evolves closed p'.1)
    (fun i p' h => h.trans (.apply (hF i) p')) q error (.refl closed p.1)

theorem push_evolves (q : MessageQueue ℕ ε) (i : ℕ) (p : Roster ℕ σ × ω) :
    p.1.Evolves closed (MessageQueue.push (hooks F) i (q, p)).2.1 :=
  MessageQueue.push_keeps (I := fun p' => p.1.Evolves closed p'.1)
    (fun i p' h => h.trans (.apply (hF i) p')) (fun _ _ h => h) q i (.refl closed p.1)

include hclose

/-- What the queue discards is not open any more. -/
theorem discards : MessageQueue.Discards (hooks F : QueueHooks ℕ ε (Roster ℕ σ × ω))
    (fun i p => NotOpen closed i p.1) where
  onDropped i p := by
    cases hi : p.1.objects i with
    | none =>
        rw [show (hooks F : QueueHooks ℕ ε _).onDropped i p = p from Roster.apply_none hi p.2]
        exact .of_unwrapped hi
    | some s =>
        intro s' hs'
        obtain rfl := Option.some.inj ((Roster.apply_self (r := p.1) hi p.2).symm.trans hs')
        exact hclose i _
  keeps j _ p h := h.evolves (.apply (hF j) p)
  onLagged _ _ _ h := h

end Queue

/-- The invariant of the queue, for the handles taken so far. -/
structure Placing (closed : σ → Bool) (taken : List ℕ) (q : MessageQueue ℕ ε) (r : Roster ℕ σ) :
    Prop where
  queue : q.Valid
  sound : r.Sound closed
  held : ∀ i ∈ q.held, i ∈ taken
  nodup : q.held.Nodup
  owned : ∀ i ∈ taken, Owned r i
  accounted : ∀ i ∈ taken, i ∈ q.held ∨ NotOpen closed i r

namespace Placing

variable {taken : List ℕ} {q : MessageQueue ℕ ε} {r r' : Roster ℕ σ} {i : ℕ}

theorem empty (capacity : Option Number) :
    Placing closed [] (.new capacity : MessageQueue ℕ ε) {} where
  queue := MessageQueue.valid_new capacity
  sound := .empty
  held _ := nofun
  nodup := List.nodup_nil
  owned _ := nofun
  accounted _ := nofun

/-- Where a handle is. -/
theorem placed (h : Placing closed taken q r) (hi : i ∈ taken) : Placed q r i := by
  have hnodup := h.nodup
  rw [MessageQueue.held, List.nodup_append] at hnodup
  obtain ⟨hd, -, hdisj⟩ := hnodup
  by_cases hdel : i ∈ q.delivered
  · exact Or.inl ⟨List.count_eq_one_of_mem hd hdel, fun hb => hdisj i hdel i hb rfl⟩
  · by_cases hbuf : i ∈ q.buffer
    · refine Or.inr (Or.inl ⟨hdel, hbuf, ?_⟩)
      cases hc : q.isClosed with
      | false => rfl
      | true => rw [h.queue.drained hc] at hbuf; cases hbuf
    · refine Or.inr (Or.inr ⟨hdel, hbuf, ?_⟩)
      have hnot := (h.accounted i hi).resolve_left (by
        rw [MessageQueue.held, List.mem_append, not_or]
        exact ⟨hdel, hbuf⟩)
      cases hs : r.objects i with
      | none => exact (h.owned i hi).resolve_left (by simp [hs])
      | some s => exact h.sound.released_once ⟨s, hs, hnot s hs⟩

/-- The objects may be closed, each on its own. -/
theorem evolves (h : Placing closed taken q r) (he : r.Evolves closed r') :
    Placing closed taken q r' where
  queue := h.queue
  sound := he.sound h.sound
  held := h.held
  nodup := h.nodup
  owned i hi := (h.owned i hi).evolves he
  accounted i hi := (h.accounted i hi).imp_right fun hn => hn.evolves he

/-- A handle that does not belong in the queue is wrapped. -/
theorem adopt (h : Placing closed taken q r) (hi : r.Fresh i) (hnew : i ∉ taken) {s : σ}
    (hs : closed s = false) : Placing closed taken q (r.adopt i s) where
  queue := h.queue
  sound := h.sound.adopt hi hs
  held := h.held
  nodup := h.nodup
  owned j hj := (h.owned j hj).adopt (ne_of_mem_of_not_mem hj hnew) s
  accounted j hj :=
    (h.accounted j hj).imp_right fun hn => hn.adopt (ne_of_mem_of_not_mem hj hnew) s

/-- A handle that cannot be wrapped is given back. -/
theorem refuse (h : Placing closed taken q r) (hi : r.Fresh i) (hnew : i ∉ taken) :
    Placing closed (taken ++ [i]) q (r.release i) where
  queue := h.queue
  sound := h.sound.release hi.unwrapped
  held j hj := List.mem_append_left _ (h.held j hj)
  nodup := h.nodup
  owned j hj := by
    rcases List.mem_append.mp hj with hj | hj
    · exact (h.owned j hj).release (ne_of_mem_of_not_mem hj hnew)
    · obtain rfl := List.mem_singleton.mp hj
      exact owned_release hi
  accounted j hj := by
    rcases List.mem_append.mp hj with hj | hj
    · exact h.accounted j hj
    · obtain rfl := List.mem_singleton.mp hj
      exact Or.inr (.of_unwrapped hi.unwrapped)

theorem next (h : Placing closed taken q r) : Placing closed taken q.next r where
  queue := h.queue.next
  sound := h.sound
  held := by rw [MessageQueue.next_held]; exact h.held
  nodup := by rw [MessageQueue.next_held]; exact h.nodup
  owned := h.owned
  accounted := by rw [MessageQueue.next_held]; exact h.accounted

section Queue

variable {F : ℕ → Op ℕ σ ω} (hF : ∀ i, OneShot closed i (F i))
  (hclose : ∀ i p, closed (F i p).1 = true)

include hF hclose

theorem close (h : Placing closed taken q r) (error : Option ε) (w : ω) :
    Placing closed taken (MessageQueue.close (hooks F) error (q, r, w)).1
      (MessageQueue.close (hooks F) error (q, r, w)).2.1 where
  queue := h.queue.close (hooks F) error _
  sound := (close_evolves hF q error (r, w)).sound h.sound
  held i hi :=
    h.held i ((MessageQueue.close_held_sublist (hooks F) h.queue.consumers error _).subset hi)
  nodup := (MessageQueue.close_held_sublist (hooks F) h.queue.consumers error _).nodup h.nodup
  owned i hi := (h.owned i hi).evolves (close_evolves hF q error (r, w))
  accounted i hi := (discards hF hclose).close h.queue error (h.accounted i hi)

/-- A handle is wrapped and pushed into the open queue. -/
theorem push (h : Placing closed taken q r) (hq : q.isClosed = false) (hi : r.Fresh i)
    (hnew : i ∉ taken) {s : σ} (hs : closed s = false) (w : ω) :
    Placing closed (taken ++ [i])
      (MessageQueue.push (hooks F) i (q, r.adopt i s, w)).1
      (MessageQueue.push (hooks F) i (q, r.adopt i s, w)).2.1 := by
  have hadopt := h.adopt hi hnew hs
  have hsub := MessageQueue.push_held (h := hooks F) (fun _ _ _ => .refl _) h.queue i
    (r.adopt i s, w)
  have hevolves := push_evolves hF q i (r.adopt i s, w)
  refine ⟨h.queue.push (fun _ _ hv => hv) i _, hevolves.sound hadopt.sound, fun j hj => ?_, ?_,
    fun j hj => ?_, fun j hj => ?_⟩
  · exact List.mem_append.mpr ((List.mem_append.mp (hsub.subset hj)).imp_left (h.held j))
  · refine hsub.nodup ?_
    rw [List.nodup_append]
    refine ⟨h.nodup, List.nodup_singleton i, fun j hj k hk hjk => ?_⟩
    obtain rfl := List.mem_singleton.mp hk
    exact hnew (hjk ▸ h.held j hj)
  · rcases List.mem_append.mp hj with hj | hj
    · exact (hadopt.owned j hj).evolves hevolves
    · obtain rfl := List.mem_singleton.mp hj
      exact (owned_adopt j s r).evolves hevolves
  · refine (discards hF hclose).push (w := (r.adopt i s, w)) i ?_
    rcases List.mem_append.mp hj with hj | hj
    · exact Or.inl (hadopt.accounted j hj)
    · exact Or.inr ⟨List.mem_singleton.mp hj, hq⟩

end Queue

end Placing

end Backlog

end Iroh
