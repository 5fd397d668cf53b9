import ReactNativeIroh.Core.TransferRegistry

/-!
# The cancel protocol

A transfer completes exactly once, whatever calls cancel it.  Two things carry this.
The handle is registered as long as the task has not ended its wait, so a call that
misses the handle comes after the terminal result.  And the cancel sender is only
dropped after that wait, so the wait ends with `Cancelled` only if a call sent the
signal.
-/

namespace Iroh.Core

open Transition

variable {β : Type*}

def TransferEvent.completion : TransferEvent → Option Outcome
  | .completed result => some result
  | _ => none

namespace Transfer

/-- The results `on_complete` was invoked with. -/
def completions (t : Transfer β) : List Outcome := t.log.filterMap TransferEvent.completion

end Transfer

/-- The result `on_complete` gets is the terminal one. -/
theorem OuterPhase.result_of_completed {p : OuterPhase} {r : Outcome} (h : p.completed = some r) :
    p.result = some r := by
  cases p with
  | flushing => exact h
  | forwarding => exact h
  | settling => exact h
  | done => exact h
  | _ => cases h

/-! ## What a transfer knows of itself -/

/-- `download_inner` does not answer `Cancelled`. -/
structure InnerTask.Uncancelled (k : InnerTask) : Prop where
  phase : k.phase ≠ .returned (.error .cancelled)
  op : k.op ≠ .finished (.failed .cancelled)

theorem exportStep_uncancelled {dest : Path} {content : β} {fault : Option String}
    {phase phase' : ExportPhase} {fs fs' : FileSystem β}
    (h : exportStep dest content fault phase fs = some (phase', fs')) :
    phase' ≠ .failed .cancelled := by
  rcases exportStep_cases h with ⟨_, rfl, -⟩ | ⟨-, rfl | rfl, -⟩ | ⟨-, rfl, -⟩ | ⟨-, rfl, -⟩
  all_goals simp

theorem InnerTask.Uncancelled.joined {k : InnerTask} (h : k.Uncancelled) :
    k.phase.joined ≠ some (.error .cancelled) := by
  have hp := h.phase
  cases hk : k.phase with
  | returned result =>
      rw [hk] at hp
      simpa [InnerPhase.joined] using hp
  | panicked text => simp [InnerPhase.joined]
  | dropped => simp [InnerPhase.joined]
  | _ => nofun

section Download

variable {endpoint : ℕ} {dest : Path} {content : β} {d d' : Download β} {a : InnerAction}
  {events : List TransferEvent}

theorem InnerTask.Uncancelled.next {k : InnerTask} (h : k.Uncancelled) (finished : Bool)
    (item : Option GetProgressItem) : (k.next finished item).1.Uncancelled := by
  unfold InnerTask.next
  split
  · exact ⟨nofun, h.op⟩
  · exact ⟨nofun, h.op⟩
  · exact ⟨by simp [InnerTask.finish], h.op⟩
  · split
    · exact ⟨nofun, nofun⟩
    · exact ⟨by simp [InnerTask.finish], h.op⟩

theorem InnerTask.Uncancelled.resume {k : InnerTask} {phase : ExportPhase} (h : k.Uncancelled)
    (ho : k.op = .finished phase) : (k.resume phase).Uncancelled := by
  cases phase with
  | done => exact ⟨by simp [InnerTask.resume, InnerTask.finish], nofun⟩
  | failed e =>
      refine ⟨?_, nofun⟩
      simp only [InnerTask.resume, InnerTask.finish, ne_eq, InnerPhase.returned.injEq,
        Except.error.injEq]
      rintro rfl
      exact h.op ho
  | inspecting => exact ⟨h.phase, nofun⟩
  | removing => exact ⟨h.phase, nofun⟩
  | exporting => exact ⟨h.phase, nofun⟩

theorem Download.uncancelled_step (h : DownloadSteps endpoint dest content d a d' events)
    (hd : d.inner.Uncancelled) : d'.inner.Uncancelled := by
  cases h with
  | poll hl hp ha => exact ⟨hd.phase, hd.op⟩
  | yield hw hp => exact ⟨hd.phase, hd.op⟩
  | drop hl hp ha => exact ⟨nofun, hd.op⟩
  | opened hk hp => exact ⟨nofun, hd.op⟩
  | closed hk hp => exact ⟨by simp [InnerTask.finish], hd.op⟩
  | connected hk hp => exact ⟨nofun, hd.op⟩
  | unconnected hk hp => exact ⟨by simp [InnerTask.finish], hd.op⟩
  | next hk hp => exact hd.next _ _
  | due hk hp ho => exact ⟨nofun, hd.op⟩
  | kept hk hp ho => exact ⟨nofun, hd.op⟩
  | emit hk hp => exact ⟨nofun, hd.op⟩
  | resume hk hp ho => exact hd.resume ho
  | panic hl hp => exact ⟨nofun, hd.op⟩
  | effect ho he => exact ⟨hd.phase, fun hf => exportStep_uncancelled he (FileOp.finished.inj hf)⟩

/-- Only the task that waits for the inner task completes the transfer. -/
theorem Download.completion_step (h : DownloadSteps endpoint dest content d a d' events) :
    events.filterMap TransferEvent.completion = [] :=
  List.filterMap_eq_nil_iff.mpr fun e he => by
    cases e with
    | completed => cases h.events _ he
    | _ => rfl

/-- A task that was spawned stays so. -/
theorem Download.spawned_step (h : DownloadSteps endpoint dest content d a d' events)
    (hd : d.inner.phase ≠ .unspawned) : d'.inner.phase ≠ .unspawned := by
  cases h with
  | poll hl hp ha => exact hd
  | yield hw hp => exact hd
  | next hk hp =>
      unfold InnerTask.next
      split
      · nofun
      · nofun
      · nofun
      · split <;> nofun
  | resume hk hp ho =>
      unfold InnerTask.resume
      split
      · nofun
      · nofun
      · exact hd
  | effect ho he => exact hd
  | _ => nofun

end Download

namespace Transfer

/-- What holds of a transfer by itself. -/
structure Sound (t : Transfer β) : Prop where
  completions : t.completions = t.outer.completed.toList
  spawned : t.outer ≠ .unpolled → t.inner.phase ≠ .unspawned
  uncancelled : t.inner.Uncancelled

theorem Sound.innerStep {t t' : Transfer β} {fs fs' : FileSystem β} {a : InnerAction}
    (h : t.innerStep fs a = some (t', fs')) (ht : t.Sound) : t'.Sound := by
  obtain ⟨d, events, hd, rfl, -⟩ := innerStep_eq_some h
  refine ⟨?_, fun ho => Download.spawned_step hd (ht.spawned ho),
    Download.uncancelled_step hd ht.uncancelled⟩
  have hc := ht.completions
  unfold Transfer.completions at hc ⊢
  rw [List.filterMap_append, Download.completion_step hd, List.append_nil, hc]

/-- A call of `on_complete` is recorded with its result. -/
theorem completions_append {t : Transfer β} {e : TransferEvent} {r : Outcome}
    (h : t.completions = t.outer.completed.toList)
    (he : t.outer.completed.toList ++ e.completion.toList = [r]) :
    (t.log ++ [e]).filterMap TransferEvent.completion = [r] := by
  have hs : [e].filterMap TransferEvent.completion = e.completion.toList := by
    cases e <;> rfl
  rw [List.filterMap_append, hs, ← he, ← h]
  rfl

theorem Sound.outerStep {t t' : Transfer β} {a : OuterAction} (h : OuterSteps t a t')
    (ht : t.Sound) : t'.Sound := by
  have hc := ht.completions
  cases h with
  | poll ho =>
      rw [ho] at hc
      exact ⟨hc, fun _ => nofun, ⟨nofun, ht.uncancelled.op⟩⟩
  | cancelled ho hs =>
      rw [ho] at hc
      exact ⟨hc, fun _ => ht.spawned (by rw [ho]; nofun), ⟨ht.uncancelled.phase, ht.uncancelled.op⟩⟩
  | joined ho hj =>
      rw [ho] at hc
      exact ⟨hc, fun _ => ht.spawned (by rw [ho]; nofun), ht.uncancelled⟩
  | complete ho =>
      exact ⟨completions_append hc (by rw [ho]; rfl), fun _ => ht.spawned (by rw [ho]; nofun),
        ht.uncancelled⟩
  | flushed ho hf =>
      rw [ho] at hc
      exact ⟨hc, fun _ => ht.spawned (by rw [ho]; nofun), ht.uncancelled⟩
  | nothing ho hf =>
      rw [ho] at hc
      exact ⟨hc, fun _ => ht.spawned (by rw [ho]; nofun), ht.uncancelled⟩
  | forward ho =>
      exact ⟨completions_append hc (by rw [ho]; rfl), fun _ => ht.spawned (by rw [ho]; nofun),
        ht.uncancelled⟩
  | settle ho =>
      exact ⟨completions_append hc (by rw [ho]; rfl), fun _ => ht.spawned (by rw [ho]; nofun),
        ht.uncancelled⟩

end Transfer

theorem sound_invariant : (transferMachine β).Invariant Any fun x =>
    ∀ i t, x.transfers i = some t → t.Sound := by
  refine TransferRun.transfers_invariant ?_ ?_ ?_ ?_
  · intro handle endpoint dest content
    exact ⟨rfl, fun h => absurd rfl h, ⟨nofun, nofun⟩⟩
  · intro x i t a t' fs hi ht _ hm
    cases hm with
    | start h =>
        unfold Transfer.start at h
        split at h
        · cases h
        · obtain rfl := Option.some.inj h
          refine ⟨?_, ht.spawned, ht.uncancelled⟩
          have hc := ht.completions
          unfold Transfer.completions at hc ⊢
          rw [List.filterMap_append, hc]
          exact List.append_nil _
    | inner h => exact ht.innerStep h
    | outer h => exact ht.outerStep h
  · intro t result ht ho
    have hc := ht.completions
    rw [ho] at hc
    exact ⟨hc, fun _ => ht.spawned (by rw [ho]; nofun), ht.uncancelled⟩
  · intro t b s ht
    exact ⟨ht.completions, ht.spawned, ht.uncancelled⟩

/-! ## The cancel channel -/

namespace TransferRun

variable {x y : TransferRun β} {a : TransferAction β} {i c : ℕ} {t t' : Transfer β}
  {k : CancelCall}

/-- A call on the handle has sent the signal, and returned. -/
def IsSignalled (x : TransferRun β) (handle : ℕ) : Prop :=
  ∃ c k, x.calls c = some k ∧ k.handle = handle ∧ k.signalled = true ∧ k.phase = .returned (.ok ())

structure Channelled (x : TransferRun β) (t : Transfer β) : Prop where
  slot : t.hasSender = true → t.signal = .waiting
  closed : t.signal = .closed → t.outer.isRegistered = false
  cancelled : t.outer.result = some (.error .cancelled) → t.signal = .sent
  sent : t.signal = .sent → x.IsSignalled t.handle

/-- The invariant of the transfers and of the calls that cancel them. -/
structure Valid (x : TransferRun β) : Prop where
  registered : x.Registered
  sound : ∀ i t, x.transfers i = some t → t.Sound
  link : ∀ c k, x.calls c = some k → x.Link c k
  channelled : ∀ i t, x.transfers i = some t → x.Channelled t

theorem IsSignalled.step {handle : ℕ} (hs : x.IsSignalled handle) (hx : x.Valid)
    (h : x.step a = some y) : y.IsSignalled handle := by
  obtain ⟨c, k, hc, hh, hk, hr⟩ := hs
  exact ⟨c, k, returned_step h hc hr (hx.link c k hc).counted, hh, hk, hr⟩

/-- The wait ends with `Cancelled` only if the signal was sent. -/
theorem Channelled.move {fs fs' : FileSystem β} (hm : Move fs i t a t' fs') (hs : t.Sound)
    (hc : x.Channelled t) (hsent : x.IsSignalled t.handle → y.IsSignalled t.handle) :
    y.Channelled t' where
  slot := by
    rw [hm.frame.2.2.1, hm.frame.2.2.2]
    exact hc.slot
  closed := by
    rw [hm.frame.2.1, hm.frame.2.2.2]
    exact hc.closed
  sent := by
    rw [hm.frame.1, hm.frame.2.2.2]
    exact fun h => hsent (hc.sent h)
  cancelled := by
    intro hr
    cases hm with
    | start h =>
        unfold Transfer.start at h
        split at h
        · cases h
        · obtain rfl := Option.some.inj h
          exact hc.cancelled hr
    | inner h =>
        obtain ⟨d, events, -, rfl, -⟩ := Transfer.innerStep_eq_some h
        exact hc.cancelled hr
    | outer h =>
        cases h with
        | poll ho => cases hr
        | cancelled ho hsig =>
            obtain hsig | hsig := hsig
            · exact hsig
            · have := hc.closed hsig
              rw [ho] at this
              cases this
        | joined ho hj =>
            obtain rfl := Option.some.inj hr
            exact absurd hj hs.uncancelled.joined
        | complete ho => exact hc.cancelled (by rw [ho]; exact hr)
        | flushed ho hf => exact hc.cancelled (by rw [ho]; exact hr)
        | nothing ho hf => exact hc.cancelled (by rw [ho]; exact hr)
        | forward ho => exact hc.cancelled (by rw [ho]; exact hr)
        | settle ho => exact hc.cancelled (by rw [ho]; exact hr)

theorem Valid.channelled_step (hx : x.Valid) (h : x.step a = some y) :
    ∀ j u, y.transfers j = some u → y.Channelled u := by
  intro j u hj
  have hold {v : Transfer β} (hv : x.transfers j = some v) : y.Channelled v := by
    have hc := hx.channelled j v hv
    exact ⟨hc.slot, hc.closed, hc.cancelled, fun hs => (hc.sent hs).step hx h⟩
  cases steps h with
  | download endpoint dest content =>
      obtain ⟨-, rfl⟩ | ⟨-, hj⟩ := put_transfers_eq_some hj
      · exact ⟨fun _ => rfl, nofun, nofun, nofun⟩
      · exact hold hj
  | move ht hm =>
      obtain ⟨rfl, rfl⟩ | ⟨-, hj⟩ := put_transfers_eq_some hj
      · exact .move hm (hx.sound _ _ ht) (hx.channelled _ _ ht) fun hs => hs.step hx h
      · exact hold hj
  | remove ht ho =>
      obtain ⟨rfl, rfl⟩ | ⟨-, hj⟩ := put_transfers_eq_some hj
      · have hc := hold ht
        exact ⟨hc.slot, fun _ => rfl, fun hr => hc.cancelled (by rw [ho]; exact hr), hc.sent⟩
      · exact hold hj
  | cancel handle => exact hold hj
  | found hd hk hi => exact hold hj
  | missing hd hk hi => exact hold hj
  | take hd hk ht hs =>
      obtain ⟨rfl, rfl⟩ | ⟨-, hj⟩ := put_transfers_eq_some hj
      · have hc := hold ht
        exact ⟨nofun, hc.closed, hc.cancelled, hc.sent⟩
      · exact hold hj
  | taken hd hk ht hs => exact hold hj
  | signal hd hk ht ho =>
      obtain ⟨rfl, rfl⟩ | ⟨-, hj⟩ := put_transfers_eq_some hj
      · obtain ⟨t, ht', hh, hs⟩ := (hx.link _ _ hd).sending _ hk
        obtain rfl := Option.some.inj (ht.symm.trans ht')
        refine ⟨fun hs' => ?_, nofun, fun _ => rfl, fun _ => ?_⟩
        · exact nomatch hs.symm.trans hs'
        · exact ⟨_, _, putCall_calls_self, hh.symm, rfl, rfl⟩
      · exact hold hj
  | unheard hd hk ht ho => exact hold hj
  | dropState ht hs hr hh =>
      obtain ⟨rfl, rfl⟩ | ⟨-, hj⟩ := put_transfers_eq_some hj
      · have hc := hx.channelled _ _ ht
        refine ⟨nofun, fun _ => ?_, fun hr' => ?_, nofun⟩
        · have hi := hx.registered.items _ _ ht
          rw [hr] at hi
          exact Bool.eq_false_iff.mpr fun ht => by rw [if_pos ht] at hi; cases hi
        · have := hc.cancelled hr'
          rw [hc.slot hs] at this
          cases this
      · exact hold hj

theorem valid_invariant : (transferMachine β).Invariant Any Valid where
  init := by
    rintro x ⟨fs, rfl⟩
    refine ⟨registered_invariant.init _ ⟨fs, rfl⟩, ?_, ?_, ?_⟩
    · intro i t ht
      cases ht
    · intro c k hc
      cases hc
    · intro i t ht
      cases ht
  step x a y hx hG h :=
    ⟨registered_invariant.step x a y hx.registered hG h, sound_invariant.step x a y hx.sound hG h,
      link_step hx.registered hx.link h, hx.channelled_step h⟩

theorem Valid.step (hx : x.Valid) (h : x.step a = some y) : y.Valid :=
  valid_invariant.step x a y hx trivial h

/-! ## The protocol -/

/-- No task of the transfer has anything left to do. -/
def Complete (x : TransferRun β) (i : ℕ) : Prop :=
  (∀ a, x.step (.inner i a) = none) ∧ (∀ a, x.step (.outer i a) = none) ∧
    x.step (.remove i) = none

/-- The step is one of a call that has begun. -/
def TransferAction.IsOf (c : ℕ) (a : TransferAction β) : Prop :=
  a = .get c ∨ a = .take c ∨ a = .send c

/-- What a transfer and the calls on its handle promise, from a state on. -/
structure CancelProtocol (x : TransferRun β) (i : ℕ) (t : Transfer β) : Prop where
  once : t.completions.length ≤ 1
  complete : x.Complete i → t.completions.length = 1
  cancelled : .error .cancelled ∈ t.completions → x.IsSignalled t.handle
  /-- A call that begins after the completion answers `InvalidHandle`. -/
  late : t.completions ≠ [] → ∀ y z k, x.step (.cancel t.handle) = some y →
    (transferMachine β).Leads Any y z → z.calls x.callCount = some k →
    k.phase = .returned (.error (.invalidHandle (.ofNat t.handle))) ∨
      k.phase = .begun ∧ z.step (.get x.callCount) ≠ none
  /-- A call that answers with an error found the terminal result produced. -/
  invalid : ∀ c, (∀ k r, x.calls c = some k → k.phase ≠ .returned r) →
    ∀ z k e, (transferMachine β).Leads Any x z → z.calls c = some k → k.handle = t.handle →
    k.phase = .returned (.error e) →
    ∃ t', z.transfers i = some t' ∧ t'.outer.result.isSome = true
  apart : ∀ c k a y, x.calls c = some k → k.handle ≠ t.handle → TransferAction.IsOf c a →
    x.step a = some y → y.transfers i = some t ∧ y.registry = x.registry ∧ y.fs = x.fs

theorem isLive_of_joined {p : InnerPhase} (hs : p ≠ .unspawned) (hj : p.joined = none) :
    p.isLive = true := by
  cases p with
  | unspawned => exact absurd rfl hs
  | returned r => cases hj
  | panicked text => cases hj
  | dropped => cases hj
  | _ => rfl

/-- While the inner task lives, it can be polled, dropped or carried on. -/
theorem exists_inner_step (ht : x.transfers i = some t) (hl : t.inner.phase.isLive = true) :
    ∃ a, x.step (.inner i a) ≠ none := by
  cases hp : t.inner.polled with
  | true =>
      refine ⟨.panic "", ?_⟩
      simp [TransferRun.step, ht, Transfer.innerStep, Download.step, hl, hp]
  | false =>
      cases ha : t.inner.aborted with
      | true =>
          refine ⟨.drop, ?_⟩
          simp [TransferRun.step, ht, Transfer.innerStep, Download.step, hl, hp, ha]
      | false =>
          refine ⟨.poll, ?_⟩
          simp [TransferRun.step, ht, Transfer.innerStep, Download.step, hl, hp, ha]

theorem outer_step (ht : x.transfers i = some t) {a : OuterAction} :
    x.step (.outer i a) = (t.outerStep a).map (x.put i) := by
  simp [TransferRun.step, ht]

/-- A transfer with nothing left to do has called `on_complete`. -/
theorem Complete.completed (h : x.Complete i) (ht : x.transfers i = some t) (hs : t.Sound) :
    t.outer.completed.isSome = true := by
  obtain ⟨hinner, houter, hremove⟩ := h
  have hout (a : OuterAction) : t.outerStep a = none := by
    have := houter a
    rwa [outer_step ht, Option.map_eq_none_iff] at this
  cases ho : t.outer with
  | unpolled =>
      have := hout .poll
      simp [Transfer.outerStep, ho] at this
  | selecting =>
      have hj := hout .joined
      simp only [Transfer.outerStep, ho] at hj
      have hnone : t.inner.phase.joined = none := by
        cases hr : t.inner.phase.joined with
        | none => rfl
        | some r =>
            rw [hr] at hj
            cases hj
      have hl := isLive_of_joined (hs.spawned (by simp [ho])) hnone
      obtain ⟨a, ha⟩ := exists_inner_step ht hl
      exact absurd (hinner a) ha
  | removing r => simp [TransferRun.step, ht, TransferRun.remove, ho] at hremove
  | completing r =>
      have := hout .complete
      simp [Transfer.outerStep, ho] at this
  | flushing r => rfl
  | forwarding r bytes => rfl
  | settling r => rfl
  | done r => rfl

/-- The transfer is there, and its handle is not registered any more. -/
def IsGone (x : TransferRun β) (i handle : ℕ) : Prop :=
  ∃ t, x.transfers i = some t ∧ t.handle = handle ∧ t.outer.isRegistered = false

theorem IsGone.items {handle : ℕ} (h : x.IsGone i handle) (hx : x.Valid) :
    x.registry.items handle = none := by
  obtain ⟨t, ht, rfl, hr⟩ := h
  rw [hx.registered.items i t ht, hr]
  rfl

theorem IsGone.step {handle : ℕ} (hg : x.IsGone i handle) (hx : x.Valid)
    (h : x.step a = some y) : y.IsGone i handle := by
  obtain ⟨t, ht, hh, hr⟩ := hg
  obtain ⟨t', ht', hl⟩ := exists_later hx.registered h ht
  exact ⟨t', ht', hl.handle.trans hh, hl.registered hr⟩

/-- A call on a handle that is gone misses it. -/
structure Misses (x : TransferRun β) (i c handle : ℕ) : Prop where
  valid : x.Valid
  gone : x.IsGone i handle
  counted : c < x.callCount
  call : ∀ k, x.calls c = some k → k.handle = handle ∧
    (k.phase = .begun ∨ k.phase = .returned (.error (.invalidHandle (.ofNat handle))))

theorem Misses.step {handle : ℕ} (hm : x.Misses i c handle) (h : x.step a = some y) :
    y.Misses i c handle where
  valid := hm.valid.step h
  gone := hm.gone.step hm.valid h
  counted := Nat.lt_of_lt_of_le hm.counted (callCount_le h)
  call := by
    intro k hk
    obtain ⟨rfl, -⟩ | ⟨k₀, hk₀, hh, hmove⟩ := call_step h hk
    · exact absurd hm.counted (Nat.lt_irrefl _)
    · obtain ⟨rfl, hp⟩ := hm.call k₀ hk₀
      refine ⟨hh, ?_⟩
      have hnone := hm.gone.items hm.valid
      generalize k₀.phase = p at hp hmove
      generalize k.phase = q at hmove ⊢
      cases hmove with
      | stay => exact hp
      | found hi => exact nomatch hnone.symm.trans hi
      | missing hi => exact .inr rfl
      | take i => exact absurd hp (by simp)
      | taken i => exact absurd hp (by simp)
      | send i => exact absurd hp (by simp)

theorem Misses.leads {z : TransferRun β} {handle : ℕ} (hm : x.Misses i c handle)
    (h : (transferMachine β).Leads Any x z) : z.Misses i c handle :=
  Machine.Leads.keeps (I := fun s => s.Misses i c handle) (fun _ _ _ hs _ h => hs.step h) h hm

/-- A call on the handle of the transfer that answers with an error comes after the
terminal result. -/
structure Answers (x : TransferRun β) (i c handle : ℕ) : Prop where
  valid : x.Valid
  here : ∃ t, x.transfers i = some t ∧ t.handle = handle
  call : ∀ k e, x.calls c = some k → k.handle = handle → k.phase = .returned (.error e) →
    ∃ t, x.transfers i = some t ∧ t.outer.result.isSome = true

theorem Answers.step {handle : ℕ} (hm : x.Answers i c handle) (h : x.step a = some y) :
    y.Answers i c handle where
  valid := hm.valid.step h
  here := by
    obtain ⟨t, ht, hh⟩ := hm.here
    obtain ⟨t', ht', hl⟩ := exists_later hm.valid.registered h ht
    exact ⟨t', ht', hl.handle.trans hh⟩
  call := by
    intro k e hk hh hp
    have hkeep (hr : ∃ t, x.transfers i = some t ∧ t.outer.result.isSome = true) :
        ∃ t, y.transfers i = some t ∧ t.outer.result.isSome = true := by
      obtain ⟨t, ht, hr⟩ := hr
      obtain ⟨r, hr⟩ := Option.isSome_iff_exists.mp hr
      obtain ⟨t', ht', hl⟩ := exists_later hm.valid.registered h ht
      exact ⟨t', ht', by rw [hl.result r hr]; rfl⟩
    obtain ⟨-, hb⟩ | ⟨k₀, hk₀, hh₀, hmove⟩ := call_step h hk
    · rw [hb] at hp
      cases hp
    · have hold := hm.call k₀ e hk₀ (hh₀.symm.trans hh)
      rw [hp] at hmove
      generalize k₀.phase = p at hmove hold
      cases hmove with
      | stay => exact hkeep (hold rfl)
      | missing hi =>
          obtain ⟨t, ht, rfl⟩ := hm.here
          refine hkeep ⟨t, ht, ?_⟩
          rw [← hh₀, hh, hm.valid.registered.items i t ht] at hi
          cases ho : t.outer with
          | unpolled => rw [ho] at hi; cases hi
          | selecting => rw [ho] at hi; cases hi
          | _ => rfl

theorem Answers.leads {z : TransferRun β} {handle : ℕ} (hm : x.Answers i c handle)
    (h : (transferMachine β).Leads Any x z) : z.Answers i c handle :=
  Machine.Leads.keeps (I := fun s => s.Answers i c handle) (fun _ _ _ hs _ h => hs.step h) h hm

/-- A call on another handle does nothing to the transfer. -/
theorem apart_step (hx : x.Valid) (ht : x.transfers i = some t) (hc : x.calls c = some k)
    (hne : k.handle ≠ t.handle) (ha : TransferAction.IsOf c a) (h : x.step a = some y) :
    y.transfers i = some t ∧ y.registry = x.registry ∧ y.fs = x.fs := by
  have hput {j : ℕ} {u u' : Transfer β} (hu : x.transfers j = some u)
      (hh : u.handle = k.handle) : (x.put j u').transfers i = some t := by
    refine (put_transfers_of_ne ?_).trans ht
    rintro rfl
    obtain rfl := Option.some.inj (ht.symm.trans hu)
    exact hne hh.symm
  obtain rfl | rfl | rfl := ha
  · cases steps h with
    | move ht' hm => cases hm
    | found hd hk hi => exact ⟨ht, rfl, rfl⟩
    | missing hd hk hi => exact ⟨ht, rfl, rfl⟩
  · cases steps h with
    | move ht' hm => cases hm
    | take hd hk hu hs =>
        obtain rfl := Option.some.inj (hc.symm.trans hd)
        obtain ⟨u, hu', hh⟩ := (hx.link _ _ hd).holding _ hk
        obtain rfl := Option.some.inj (hu.symm.trans hu')
        exact ⟨hput hu hh, rfl, rfl⟩
    | taken hd hk hu hs => exact ⟨ht, rfl, rfl⟩
  · cases steps h with
    | move ht' hm => cases hm
    | signal hd hk hu ho =>
        obtain rfl := Option.some.inj (hc.symm.trans hd)
        obtain ⟨u, hu', hh, -⟩ := (hx.link _ _ hd).sending _ hk
        obtain rfl := Option.some.inj (hu.symm.trans hu')
        exact ⟨hput hu hh, rfl, rfl⟩
    | unheard hd hk hu ho => exact ⟨ht, rfl, rfl⟩

theorem cancelProtocol (hx : (transferMachine β).Reachable Any x) (ht : x.transfers i = some t) :
    x.CancelProtocol i t := by
  have hv : x.Valid := valid_invariant.reachable hx
  have hs := hv.sound i t ht
  have hcompletions := hs.completions
  have hch := hv.channelled i t ht
  refine ⟨?_, ?_, ?_, ?_, ?_, ?_⟩
  · rw [hcompletions]
    cases t.outer.completed <;> simp
  · intro hc
    obtain ⟨r, hr⟩ := Option.isSome_iff_exists.mp (hc.completed ht hs)
    rw [hcompletions, hr]
    rfl
  · intro hmem
    rw [hcompletions, Option.mem_toList] at hmem
    exact hch.sent (hch.cancelled (OuterPhase.result_of_completed hmem))
  · intro hne y z k hy hz hk
    have hgone : x.IsGone i t.handle := by
      refine ⟨t, ht, rfl, ?_⟩
      cases ho : t.outer with
      | flushing r => rfl
      | forwarding r bytes => rfl
      | settling r => rfl
      | done r => rfl
      | _ =>
          rw [hcompletions, ho] at hne
          exact absurd rfl hne
    have hy' := Option.some.inj hy
    have hstart : y.Misses i x.callCount t.handle := by
      refine ⟨hv.step hy, hgone.step hv hy, ?_, ?_⟩
      · rw [← hy']
        exact Nat.lt_succ_self _
      · intro k hk
        rw [← hy'] at hk
        obtain rfl := Option.some.inj (putCall_calls_self.symm.trans hk)
        exact ⟨rfl, .inl rfl⟩
    have hz' := hstart.leads hz
    obtain ⟨hh, hp | hp⟩ := hz'.call k hk
    · refine .inr ⟨hp, ?_⟩
      have hnone := Registry.get_eq_error.mpr ⟨hz'.gone.items hz'.valid, rfl⟩
      simp [TransferRun.step, TransferRun.get, hk, hp, hh, hnone]
    · exact .inl hp
  · intro c hc z k e hz hk hh hp
    have hstart : x.Answers i c t.handle := by
      refine ⟨hv, ⟨t, ht, rfl⟩, ?_⟩
      intro k e hk _ hp
      exact absurd hp (hc k _ hk)
    exact (hstart.leads hz).call k e hk hh hp
  · intro c k a y hc hne ha hy
    exact apart_step hv ht hc hne ha hy

/-- A transfer that is cancelled while it dials, up to its completion. -/
def cancelledActions : List (TransferAction ℕ) :=
  [.download 1 [47, 97] 7, .outer 0 .poll, .start 0, .inner 0 .poll, .inner 0 (.lookup true),
    .inner 0 .yield, .cancel 1, .get 0, .take 0, .send 0, .outer 0 .cancelled, .remove 0,
    .outer 0 .complete]

def cancelledRun : TransferRun ℕ :=
  ((transferMachine ℕ).run { fs := fun _ => none } cancelledActions).getD { fs := fun _ => none }

theorem cancelledRun_reachable : (transferMachine ℕ).Reachable Any cancelledRun :=
  Machine.reachable_getD (M := transferMachine ℕ) ⟨fun _ => none, rfl⟩ (by decide +kernel) _

theorem cancelProtocol_cancelledRun :
    ∃ t, cancelledRun.transfers 0 = some t ∧ t.completions = [.error .cancelled] ∧
      cancelledRun.CancelProtocol 0 t :=
  ⟨_, rfl, rfl, cancelProtocol cancelledRun_reachable rfl⟩

end TransferRun

end Iroh.Core
