import Mathlib.Data.List.Sort
import ReactNativeIroh.Core.SendTasks

/-!
# The order of the sends

The lock admits the tasks in the order in which they first polled it, so that is the
order in which their bytes reach the wire.  It is the call order if the tasks are
first polled in call order, in particular if the host issues a send only after the
earlier ones have completed.  The runtime may poll them in another order
(`polled_late_overtaken`): sends are serialized, and nothing more.
-/

namespace Iroh.Core

open Transition

namespace SendRun

/-- The lock admits the task that has waited longest. -/
def Fifo (x : SendRun) : SendAction → Prop
  | .acquire i => x.waiters.head? = some i
  | _ => True

/-- A send is issued once the earlier ones have completed. -/
def Awaited (x : SendRun) : SendAction → Prop
  | .send _ => ∀ i < x.calls, (x.tasks i).all (fun t => !t.job.isSend || t.phase.isOver) = true
  | _ => True

instance (x : SendRun) : (a : SendAction) → Decidable (x.Fifo a)
  | .acquire _ => inferInstanceAs (Decidable (_ = _))
  | .send _ | .close | .poll _ | .write _ _ | .next _ | .fail _ _ | .release _ | .finish _
  | .complete _ => .isTrue trivial

instance (x : SendRun) : (a : SendAction) → Decidable (x.Awaited a)
  | .send _ => inferInstanceAs (Decidable (∀ i < x.calls, _))
  | .close | .poll _ | .acquire _ | .write _ _ | .next _ | .fail _ _ | .release _ | .finish _
  | .complete _ => .isTrue trivial

def isSendAt (x : SendRun) (i : ℕ) : Bool := (x.tasks i).any (·.job.isSend)

/-- The sends, in the order in which their tasks were first polled. -/
def polledSends (x : SendRun) : List ℕ := x.polled.filter x.isSendAt

/-- What is on the wire was written by the calls of the list, one after the other. -/
def InOrderOf (x : SendRun) (calls : List ℕ) : Prop := x.wire = calls.flatMap x.writtenBy

/-- A send has written a front of its bytes, and all of them if it was confirmed. -/
def Faithful (x : SendRun) : Prop :=
  ∀ i data written phase, x.tasks i = some ⟨.send data, written, phase⟩ →
    written <+: encode x.framing data ∧ (phase = .done (.ok ()) → written = encode x.framing data)

variable {x : SendRun} {i : ℕ} {t : Task}

/-- Only what contributes something matters. -/
theorem flatMap_filter_of_nil {f : ℕ → List UInt8} {p : ℕ → Bool} {l : List ℕ}
    (h : ∀ i ∈ l, p i = false → f i = []) : (l.filter p).flatMap f = l.flatMap f := by
  induction l with
  | nil => rfl
  | cons i l ih =>
      have ih := ih fun j hj => h j (List.mem_cons_of_mem i hj)
      cases hp : p i with
      | true => rw [List.filter_cons_of_pos hp, List.flatMap_cons, List.flatMap_cons, ih]
      | false =>
          rw [List.filter_cons_of_neg (by simp [hp]), List.flatMap_cons, ih,
            h i List.mem_cons_self hp, List.nil_append]

theorem Valid.faithful (h : x.Valid) : x.Faithful := by
  intro i data written phase ht
  have hwrote := (h.fits i _ ht).wrote
  refine ⟨hwrote.front, fun hphase => ?_⟩
  subst hphase
  exact hwrote

/-- A task of a close writes nothing. -/
theorem Valid.close_written (h : x.Valid) (hi : x.isSendAt i = false) : x.writtenBy i = [] := by
  cases ht : x.tasks i with
  | none => simp [writtenBy, ht]
  | some t =>
      obtain ⟨job, written, phase⟩ := t
      cases job with
      | send data => simp [isSendAt, ht, Job.isSend] at hi
      | close =>
          rw [writtenBy_of_tasks ht]
          exact List.prefix_nil.mp (h.fits i _ ht).wrote.front

/-- A task that was not admitted has written nothing. -/
theorem Valid.unserved_written (h : x.Valid) (hi : i ∉ x.served) : x.writtenBy i = [] := by
  cases ht : x.tasks i with
  | none => simp [writtenBy, ht]
  | some t =>
      have hfits := h.fits i t ht
      rw [writtenBy_of_tasks ht]
      exact hfits.wrote.unserved (by simpa [hfits.served] using hi)

/-! ## The order of the first polls -/

/-- The tasks that were polled have been admitted in that order, or wait. -/
def Queued (x : SendRun) : Prop := x.polled = x.served ++ x.waiters

theorem Queued.moves {y : SendRun} {a : SendAction} (h : x.Queued) (hfifo : x.Fifo a)
    (hm : x.Moves a y) : y.Queued := by
  cases hm with
  | send _ => exact h
  | close _ => exact h
  | closed _ => exact h
  | poll _ =>
      show x.polled ++ _ = x.served ++ (x.waiters ++ _)
      rw [← List.append_assoc, h]
  | @acquire i _ _ _ _ =>
      have hhead : x.waiters.head? = some i := hfifo
      obtain ⟨rest, hrest⟩ := List.head?_eq_some_iff.mp hhead
      show x.polled = (x.served ++ [i]) ++ x.waiters.erase i
      rw [h, hrest, List.erase_cons_head, List.append_assoc]
      rfl
  | write _ _ _ => exact h
  | next _ => exact h
  | fail _ => exact h
  | release _ => exact h
  | finish _ => exact h
  | complete _ => exact h

theorem queued_invariant (handle : UInt64) (framing : Framing) :
    (sendMachine handle framing).Invariant Fifo (fun x => x.Valid ∧ x.Queued) :=
  (send_valid_invariant handle framing).guard.under
    (fun x hx => by
      obtain rfl := hx
      rfl)
    (fun _ _ _ _ h hfifo hy => h.moves hfifo (step_moves hy))

theorem Queued.inPollOrder (hv : x.Valid) (h : x.Queued) : x.InOrderOf x.polled := by
  have hwaiting : x.waiters.flatMap x.writtenBy = [] := by
    refine List.flatMap_eq_nil_iff.mpr fun i hi => hv.unserved_written fun hs => ?_
    cases ht : x.tasks i with
    | none => exact (hv.fresh i ht).1 hi
    | some t =>
        have hfits := hv.fits i t ht
        rw [hfits.waiting] at hi
        rw [hfits.served, hi] at hs
        cases hs
  rw [InOrderOf, h, List.flatMap_append, hwaiting, List.append_nil, ← hv.wire]

/-- A task that was polled is known. -/
theorem Queued.known (hv : x.Valid) (h : x.Queued) (hi : i ∈ x.polled) :
    ∃ t, x.tasks i = some t ∧ t.phase ≠ .spawned := by
  rw [h, List.mem_append] at hi
  cases ht : x.tasks i with
  | none => exact absurd hi (not_or.mpr ⟨(hv.fresh i ht).2.1, (hv.fresh i ht).1⟩)
  | some t =>
      have hfits := hv.fits i t ht
      refine ⟨t, rfl, fun hspawned => ?_⟩
      rw [hfits.waiting, hfits.served, hspawned] at hi
      rcases hi with hi | hi <;> cases hi

/-- Sends whose tasks were first polled in call order reach the wire in call order. -/
theorem Queued.inCallOrder (hv : x.Valid) (h : x.Queued)
    (hsorted : x.polledSends.Pairwise (· < ·)) : x.InOrderOf (List.range x.calls) := by
  have hrange : (List.range x.calls).filter (fun i => decide (i ∈ x.polledSends)) =
      x.polledSends := by
    refine (List.Pairwise.filter _ List.pairwise_lt_range).eq_of_mem_iff hsorted fun i => ?_
    rw [List.mem_filter, List.mem_range, decide_eq_true_eq]
    refine ⟨And.right, fun hi => ⟨?_, hi⟩⟩
    obtain ⟨t, ht, -⟩ := h.known hv (List.mem_of_mem_filter hi)
    by_contra hle
    rw [hv.known i (Nat.le_of_not_lt hle)] at ht
    cases ht
  have hrest : ∀ i ∈ List.range x.calls, decide (i ∈ x.polledSends) = false →
      x.writtenBy i = [] := by
    intro i _ hi
    rw [decide_eq_false_iff_not, polledSends, List.mem_filter, not_and] at hi
    by_cases hp : i ∈ x.polled
    · exact hv.close_written (by simpa using hi hp)
    · refine hv.unserved_written fun hs => hp ?_
      rw [h]
      exact List.mem_append_left _ hs
  calc x.wire = x.polled.flatMap x.writtenBy := h.inPollOrder hv
    _ = x.polledSends.flatMap x.writtenBy :=
        (flatMap_filter_of_nil fun i _ hi => hv.close_written hi).symm
    _ = (List.range x.calls).flatMap x.writtenBy := by
        rw [← flatMap_filter_of_nil hrest, hrange]

/-! ## Sends that are awaited -/

/-- Earlier sends are over, and they were polled in call order. -/
structure Ordered (x : SendRun) : Prop where
  finished : ∀ i j t t', x.tasks i = some t → x.tasks j = some t' → t.job.isSend = true →
    t'.job.isSend = true → i < j → t.phase.isOver = true
  sorted : x.polledSends.Pairwise (· < ·)

theorem isSendAt_of_tasks (h : x.tasks i = some t) : x.isSendAt i = t.job.isSend := by
  simp [isSendAt, h]

theorem Moves.isSendAt {y : SendRun} {a : SendAction} (hv : x.Valid) (hm : x.Moves a y)
    (ht : x.tasks i = some t) : y.isSendAt i = x.isSendAt i := by
  obtain ⟨t', ht', hjob, -⟩ := hm.keeps hv ht
  rw [isSendAt_of_tasks ht', isSendAt_of_tasks ht, hjob]

theorem Ordered.finished_moves {y : SendRun} {a : SendAction} (hv : x.Valid) (h : x.Ordered)
    (hawaited : x.Awaited a) (hm : x.Moves a y) (i j : ℕ) (t t' : Task) (ht : y.tasks i = some t)
    (ht' : y.tasks j = some t') (hsend : t.job.isSend = true) (hsend' : t'.job.isSend = true)
    (hij : i < j) : t.phase.isOver = true := by
  have hlt : ∀ {k : ℕ} {u : Task}, x.tasks k = some u → k < x.calls := by
    intro k u hu
    by_contra hle
    rw [hv.known k (Nat.le_of_not_lt hle)] at hu
    cases hu
  have hold : ∃ u, x.tasks i = some u := by
    refine (hm.origin ht).resolve_right fun hi => ?_
    rcases hm.origin ht' with ⟨u, hu⟩ | ⟨hj, -⟩
    · have := hlt hu
      omega
    · omega
  obtain ⟨u, hu⟩ := hold
  obtain ⟨t₁, ht₁, hjob, hover⟩ := hm.keeps hv hu
  obtain rfl := Option.some.inj (ht₁.symm.trans ht)
  have huover : u.phase.isOver = true := by
    rcases hm.origin ht' with ⟨u', hu'⟩ | ⟨-, ⟨data, rfl, rfl⟩ | rfl⟩
    · obtain ⟨t₂, ht₂, hjob', -⟩ := hm.keeps hv hu'
      obtain rfl := Option.some.inj (ht₂.symm.trans ht')
      exact h.finished i j u u' hu hu' (hjob ▸ hsend) (hjob' ▸ hsend') hij
    · have hall := hawaited i (hlt hu)
      simpa [hu, ← hjob, hsend] using hall
    · cases hsend'
  rw [hover huover]
  exact huover

theorem Ordered.sorted_moves {y : SendRun} {a : SendAction} (hv : x.Valid) (hq : x.Queued)
    (h : x.Ordered) (hm : x.Moves a y) : y.polledSends.Pairwise (· < ·) := by
  have hfilter : x.polled.filter y.isSendAt = x.polledSends := by
    refine List.filter_congr fun i hi => ?_
    obtain ⟨t, ht, -⟩ := hq.known hv hi
    exact hm.isSendAt hv ht
  have hsame : x.polled = y.polled → y.polledSends.Pairwise (· < ·) := by
    intro hp
    rw [polledSends, ← hp, hfilter]
    exact h.sorted
  cases hm with
  | send _ => exact hsame rfl
  | close _ => exact hsame rfl
  | closed _ => exact hsame rfl
  | @poll i job written ht =>
      show ((x.polled ++ [i]).filter _).Pairwise _
      rw [List.filter_append, hfilter, List.pairwise_append]
      refine ⟨h.sorted, List.Pairwise.filter _ (List.pairwise_singleton _ _), fun j hj k hk => ?_⟩
      obtain ⟨hk, hsend⟩ := List.mem_filter.mp hk
      obtain rfl := List.mem_singleton.mp hk
      obtain ⟨t, ht', hphase⟩ := hq.known hv (List.mem_of_mem_filter hj)
      have hsend' : t.job.isSend = true := by
        rw [← isSendAt_of_tasks ht']
        exact (List.mem_filter.mp hj).2
      have hjob : job.isSend = true := by
        simpa [SendRun.isSendAt, put] using hsend
      rcases Nat.lt_trichotomy j k with hlt | rfl | hgt
      · exact hlt
      · obtain rfl := Option.some.inj (ht'.symm.trans ht)
        exact absurd rfl hphase
      · cases h.finished k j _ t ht ht' hjob hsend' hgt
  | acquire _ _ => exact hsame rfl
  | write _ _ _ => exact hsame rfl
  | next _ => exact hsame rfl
  | fail _ => exact hsame rfl
  | release _ => exact hsame rfl
  | finish _ => exact hsame rfl
  | complete _ => exact hsame rfl

theorem ordered_invariant (handle : UInt64) (framing : Framing) :
    (sendMachine handle framing).Invariant (fun x a => x.Fifo a ∧ x.Awaited a)
      (fun x => (x.Valid ∧ x.Queued) ∧ x.Ordered) := by
  have hqueued := queued_invariant handle framing
  refine Machine.Invariant.under ⟨hqueued.init, fun x a y hx hG => hqueued.step x a y hx hG.1⟩
    (fun x hx => ?_) (fun x a y hx h hG hy => ?_)
  · have hnew : x = { handle, framing } := hx
    subst hnew
    exact ⟨fun _ _ _ _ ht => (nomatch ht), List.Pairwise.nil⟩
  · exact ⟨h.finished_moves hx.1 hG.2 (step_moves hy), h.sorted_moves hx.1 hx.2 (step_moves hy)⟩

/-- What the sends write reaches the wire in the order in which their tasks were first
polled.  That is the call order if they were first polled in it, in particular if each
send was awaited. -/
theorem sends_in_poll_order (handle : UInt64) (framing : Framing) :
    (∀ x, (sendMachine handle framing).Reachable Fifo x →
      x.Faithful ∧ x.InOrderOf x.polled ∧
        (x.polledSends.Pairwise (· < ·) → x.InOrderOf (List.range x.calls))) ∧
      ∀ x, (sendMachine handle framing).Reachable (fun x a => x.Fifo a ∧ x.Awaited a) x →
        x.InOrderOf (List.range x.calls) := by
  refine ⟨fun x hx => ?_, fun x hx => ?_⟩
  · obtain ⟨hv, hq⟩ := (queued_invariant handle framing).reachable hx
    exact ⟨hv.faithful, hq.inPollOrder hv, hq.inCallOrder hv⟩
  · obtain ⟨⟨hv, hq⟩, ho⟩ := (ordered_invariant handle framing).reachable hx
    exact hq.inCallOrder hv ho.sorted

/-- The steps of a task that writes one byte. -/
def sendByte (i : ℕ) : List SendAction :=
  [.acquire i, .write i 1, .next i, .release i, .complete i]

/-- Two sends that are issued at once, the second of which is polled first. -/
def overtaken : SendRun :=
  ((sendMachine 1 .raw).run { handle := 1, framing := .raw }
    ([.send [1], .send [2], .poll 1, .poll 0] ++ sendByte 1 ++ sendByte 0)).getD
      { handle := 1, framing := .raw }

/-- Two sends, the second of which is issued after the first has completed. -/
def awaitedTwo : SendRun :=
  ((sendMachine 1 .raw).run { handle := 1, framing := .raw }
    ([.send [1], .poll 0] ++ sendByte 0 ++ [.send [2], .poll 1] ++ sendByte 1)).getD
      { handle := 1, framing := .raw }

theorem overtaken_reachable : (sendMachine 1 .raw).Reachable Fifo overtaken :=
  Machine.reachable_of_guarded
    ([.send [1], .send [2], .poll 1, .poll 0] ++ sendByte 1 ++ sendByte 0) rfl (by decide) rfl

theorem awaitedTwo_reachable :
    (sendMachine 1 .raw).Reachable (fun x a => x.Fifo a ∧ x.Awaited a) awaitedTwo :=
  Machine.reachable_of_guarded
    ([.send [1], .poll 0] ++ sendByte 0 ++ [.send [2], .poll 1] ++ sendByte 1) rfl (by decide) rfl

theorem sends_in_poll_order_two :
    overtaken.InOrderOf [1, 0] ∧ awaitedTwo.InOrderOf [0, 1] :=
  ⟨((sends_in_poll_order 1 .raw).1 overtaken overtaken_reachable).2.1,
    (sends_in_poll_order 1 .raw).2 awaitedTwo awaitedTwo_reachable⟩

/-- Both sends are confirmed, and the second one is ahead on the wire. -/
theorem polled_late_overtaken :
    (sendMachine 1 .raw).Reachable Fifo overtaken ∧ overtaken.confirmedSends = [0, 1] ∧
      ¬ overtaken.InOrderOf (List.range overtaken.calls) := by
  refine ⟨overtaken_reachable, by decide, fun horder => ?_⟩
  have hbytes : overtaken.wire = (List.range overtaken.calls).flatMap overtaken.writtenBy := horder
  exact absurd hbytes (by decide)

end SendRun

end Iroh.Core
