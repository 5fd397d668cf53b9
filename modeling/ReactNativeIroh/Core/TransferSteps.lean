import ReactNativeIroh.Core.Transfers

/-!
# The steps of the transfers

`Steps` says once what a step of the machine can do.  Every invariant of the machine is
proved by a case analysis on it.  An invariant of each transfer by itself is proved by
`transfers_invariant`, which leaves the moves of one transfer.
-/

namespace Iroh.Core

open Transition

variable {β : Type*}

/-! ## The inner task -/

/-- What a step of the inner task, or of a file operation it started, can do. -/
inductive DownloadSteps (endpoint : ℕ) (dest : Path) (content : β) (d : Download β) :
    InnerAction → Download β → List TransferEvent → Prop where
  | poll (hl : d.inner.phase.isLive = true) (hp : d.inner.polled = false)
      (ha : d.inner.aborted = false) :
      DownloadSteps endpoint dest content d .poll
        { d with inner := { d.inner with polled := true } } []
  | yield (hw : d.inner.phase.awaits = true) (hp : d.inner.polled = true) :
      DownloadSteps endpoint dest content d .yield
        { d with inner := { d.inner with polled := false } } []
  | drop (hl : d.inner.phase.isLive = true) (hp : d.inner.polled = false)
      (ha : d.inner.aborted = true) :
      DownloadSteps endpoint dest content d .drop { d with inner := d.inner.goto .dropped } []
  | opened (hk : d.inner.phase = .lookup) (hp : d.inner.polled = true) :
      DownloadSteps endpoint dest content d (.lookup true)
        { d with inner := d.inner.goto .dialing } []
  | closed (hk : d.inner.phase = .lookup) (hp : d.inner.polled = true) :
      DownloadSteps endpoint dest content d (.lookup false)
        { d with inner :=
          d.inner.finish (.returned (.error (.invalidHandle (.ofNat endpoint)))) } []
  | connected (hk : d.inner.phase = .dialing) (hp : d.inner.polled = true) :
      DownloadSteps endpoint dest content d (.connect (.ok ()))
        { d with inner := d.inner.goto (.streaming false) } []
  | unconnected {text : String} (hk : d.inner.phase = .dialing) (hp : d.inner.polled = true) :
      DownloadSteps endpoint dest content d (.connect (.error text))
        { d with inner :=
          d.inner.finish (.returned (.error (.blobDownload ("connect: " ++ text)))) } []
  | next {finished : Bool} {item : Option GetProgressItem}
      (hk : d.inner.phase = .streaming finished) (hp : d.inner.polled = true) :
      DownloadSteps endpoint dest content d (.next item)
        { d with inner := (d.inner.next finished item).1 } (d.inner.next finished item).2
  | due {finished : Bool} {offered bytes now : ℕ} {coalescer : Coalescer}
      (hk : d.inner.phase = .reporting finished offered) (hp : d.inner.polled = true)
      (ho : d.coalescer.offerAt offered now = (coalescer, some bytes)) :
      DownloadSteps endpoint dest content d (.offer now)
        { d with inner := d.inner.goto (.emitting finished bytes), coalescer } []
  | kept {finished : Bool} {offered now : ℕ} {coalescer : Coalescer}
      (hk : d.inner.phase = .reporting finished offered) (hp : d.inner.polled = true)
      (ho : d.coalescer.offerAt offered now = (coalescer, none)) :
      DownloadSteps endpoint dest content d (.offer now)
        { d with inner := d.inner.goto (.streaming finished), coalescer } []
  | emit {finished : Bool} {bytes : ℕ} (hk : d.inner.phase = .emitting finished bytes)
      (hp : d.inner.polled = true) :
      DownloadSteps endpoint dest content d .emit
        { d with inner := d.inner.goto (.streaming finished) } [.emitted bytes]
  | resume {phase : ExportPhase} (hk : d.inner.phase = .exporting) (hp : d.inner.polled = true)
      (ho : d.inner.op = .finished phase) :
      DownloadSteps endpoint dest content d .resume { d with inner := d.inner.resume phase } []
  | panic {text : String} (hl : d.inner.phase.isLive = true) (hp : d.inner.polled = true) :
      DownloadSteps endpoint dest content d (.panic text)
        { d with inner := d.inner.finish (.panicked text) } []
  | effect {fault : Option String} {phase phase' : ExportPhase} {fs : FileSystem β}
      (ho : d.inner.op = .running phase)
      (he : exportStep dest content fault phase d.fs = some (phase', fs)) :
      DownloadSteps endpoint dest content d (.effect fault)
        { d with inner := { d.inner with op := .finished phase' }, fs } (fileEvents phase phase')

/-- What the inner task and its file operations record. -/
def TransferEvent.ofInner : TransferEvent → Bool
  | .progress _ | .emitted _ | .removed | .written => true
  | _ => false

theorem DownloadSteps.events {endpoint : ℕ} {dest : Path} {content : β} {d d' : Download β}
    {a : InnerAction} {events : List TransferEvent}
    (h : DownloadSteps endpoint dest content d a d' events) :
    ∀ e ∈ events, e.ofInner = true := by
  cases h with
  | next hk hp =>
      rename_i item
      rcases item with _ | ⟨_ | _ | _⟩
      · simp only [InnerTask.next]
        split <;> simp
      · simp [InnerTask.next, TransferEvent.ofInner]
      · simp [InnerTask.next]
      · simp [InnerTask.next]
  | emit hk hp => simp [TransferEvent.ofInner]
  | effect ho he =>
      unfold fileEvents
      split <;> simp [TransferEvent.ofInner]
  | _ => simp

theorem Download.steps {endpoint : ℕ} {dest : Path} {content : β} {d d' : Download β}
    {a : InnerAction} {events : List TransferEvent}
    (h : d.step endpoint dest content a = some (d', events)) :
    DownloadSteps endpoint dest content d a d' events := by
  cases a with
  | poll =>
      simp only [Download.step, Option.ite_none_right_eq_some, Option.some.injEq,
        Prod.mk.injEq] at h
      obtain ⟨⟨hl, hp, ha⟩, rfl, rfl⟩ := h
      exact .poll hl hp ha
  | yield =>
      simp only [Download.step, Option.ite_none_right_eq_some, Option.some.injEq,
        Prod.mk.injEq] at h
      obtain ⟨⟨hw, hp⟩, rfl, rfl⟩ := h
      exact .yield hw hp
  | drop =>
      simp only [Download.step, Option.ite_none_right_eq_some, Option.some.injEq,
        Prod.mk.injEq] at h
      obtain ⟨⟨hl, hp, ha⟩, rfl, rfl⟩ := h
      exact .drop hl hp ha
  | lookup isOpen =>
      simp only [Download.step] at h
      split at h
      · rename_i hk hp
        split at h
        · rename_i ho
          subst ho
          obtain ⟨rfl, rfl⟩ := Prod.mk.inj (Option.some.inj h)
          exact .opened hk hp
        · rename_i ho
          rw [Bool.not_eq_true] at ho
          subst ho
          obtain ⟨rfl, rfl⟩ := Prod.mk.inj (Option.some.inj h)
          exact .closed hk hp
      · cases h
  | connect result =>
      simp only [Download.step] at h
      split at h
      · rename_i hk hp
        split at h
        · obtain ⟨rfl, rfl⟩ := Prod.mk.inj (Option.some.inj h)
          exact .connected hk hp
        · obtain ⟨rfl, rfl⟩ := Prod.mk.inj (Option.some.inj h)
          exact .unconnected hk hp
      · cases h
  | next item =>
      simp only [Download.step] at h
      split at h
      · rename_i finished hk hp
        obtain ⟨rfl, rfl⟩ := Prod.mk.inj (Option.some.inj h)
        exact .next hk hp
      · cases h
  | offer now =>
      simp only [Download.step] at h
      split at h
      · rename_i finished offered hk hp
        split at h
        · rename_i coalescer bytes ho
          obtain ⟨rfl, rfl⟩ := Prod.mk.inj (Option.some.inj h)
          exact .due hk hp ho
        · rename_i coalescer ho
          obtain ⟨rfl, rfl⟩ := Prod.mk.inj (Option.some.inj h)
          exact .kept hk hp ho
      · cases h
  | emit =>
      simp only [Download.step] at h
      split at h
      · rename_i finished bytes hk hp
        obtain ⟨rfl, rfl⟩ := Prod.mk.inj (Option.some.inj h)
        exact .emit hk hp
      · cases h
  | resume =>
      simp only [Download.step] at h
      split at h
      · rename_i phase hk hp ho
        obtain ⟨rfl, rfl⟩ := Prod.mk.inj (Option.some.inj h)
        exact .resume hk hp ho
      · cases h
  | panic text =>
      simp only [Download.step, Option.ite_none_right_eq_some, Option.some.injEq,
        Prod.mk.injEq] at h
      obtain ⟨⟨hl, hp⟩, rfl, rfl⟩ := h
      exact .panic hl hp
  | effect fault =>
      simp only [Download.step] at h
      split at h
      · rename_i phase ho
        obtain ⟨⟨phase', fs⟩, he, heq⟩ := Option.map_eq_some_iff.mp h
        obtain ⟨rfl, rfl⟩ := Prod.mk.inj heq
        exact .effect ho he
      · cases h

namespace Transfer

variable {t t' : Transfer β} {fs fs' : FileSystem β} {a : InnerAction}

theorem innerStep_eq_some (h : t.innerStep fs a = some (t', fs')) :
    ∃ d events,
      DownloadSteps t.endpoint t.dest t.content ⟨t.inner, t.coalescer, fs⟩ a d events ∧
      t' = { t with inner := d.inner, coalescer := d.coalescer, log := t.log ++ events } ∧
      fs' = d.fs := by
  obtain ⟨⟨d, events⟩, hd, heq⟩ := Option.map_eq_some_iff.mp h
  obtain ⟨rfl, rfl⟩ := Prod.mk.inj heq
  exact ⟨d, events, Download.steps hd, rfl, rfl⟩

end Transfer

/-- What a step of the task that `blob_download` spawns can do. -/
inductive OuterSteps (t : Transfer β) : OuterAction → Transfer β → Prop where
  | poll (ho : t.outer = .unpolled) :
      OuterSteps t .poll { t with outer := .selecting, inner := t.inner.goto .lookup }
  | cancelled (ho : t.outer = .selecting) (hs : t.signal = .sent ∨ t.signal = .closed) :
      OuterSteps t .cancelled
        { t with outer := .removing (.error .cancelled), inner := { t.inner with aborted := true } }
  | joined {result : Outcome} (ho : t.outer = .selecting)
      (hj : t.inner.phase.joined = some result) :
      OuterSteps t .joined { t with outer := .removing result }
  | complete {result : Outcome} (ho : t.outer = .completing result) :
      OuterSteps t .complete
        { t with outer := .flushing result, log := t.log ++ [.completed result] }
  | flushed {result : Outcome} {now bytes : ℕ} {coalescer : Coalescer}
      (ho : t.outer = .flushing result) (hf : t.coalescer.flush now = (coalescer, some bytes)) :
      OuterSteps t (.flush now) { t with outer := .forwarding result bytes, coalescer }
  | nothing {result : Outcome} {now : ℕ} {coalescer : Coalescer}
      (ho : t.outer = .flushing result) (hf : t.coalescer.flush now = (coalescer, none)) :
      OuterSteps t (.flush now) { t with outer := .settling result, coalescer }
  | forward {result : Outcome} {bytes : ℕ} (ho : t.outer = .forwarding result bytes) :
      OuterSteps t .forward { t with outer := .settling result, log := t.log ++ [.emitted bytes] }
  | settle {result : Outcome} (ho : t.outer = .settling result) :
      OuterSteps t .settle { t with outer := .done result, log := t.log ++ [.settled result] }

namespace Transfer

theorem outerSteps {t t' : Transfer β} {a : OuterAction} (h : t.outerStep a = some t') :
    OuterSteps t a t' := by
  cases a with
  | poll =>
      simp only [outerStep] at h
      split at h
      · rename_i ho
        obtain rfl := Option.some.inj h
        exact .poll ho
      · cases h
  | cancelled =>
      simp only [outerStep] at h
      split at h
      · rename_i ho hs
        obtain rfl := Option.some.inj h
        exact .cancelled ho (.inl hs)
      · rename_i ho hs
        obtain rfl := Option.some.inj h
        exact .cancelled ho (.inr hs)
      · cases h
  | joined =>
      simp only [outerStep] at h
      split at h
      · rename_i result ho hj
        obtain rfl := Option.some.inj h
        exact .joined ho hj
      · cases h
  | complete =>
      simp only [outerStep] at h
      split at h
      · rename_i result ho
        obtain rfl := Option.some.inj h
        exact .complete ho
      · cases h
  | flush now =>
      simp only [outerStep] at h
      split at h
      · rename_i result ho
        split at h
        · rename_i coalescer bytes hf
          obtain rfl := Option.some.inj h
          exact .flushed ho hf
        · rename_i coalescer hf
          obtain rfl := Option.some.inj h
          exact .nothing ho hf
      · cases h
  | forward =>
      simp only [outerStep] at h
      split at h
      · rename_i result bytes ho
        obtain rfl := Option.some.inj h
        exact .forward ho
      · cases h
  | settle =>
      simp only [outerStep] at h
      split at h
      · rename_i result ho
        obtain rfl := Option.some.inj h
        exact .settle ho
      · cases h

end Transfer

/-! ## The transfers -/

/-- A step of a transfer's own tasks, or of the thread that started it. -/
inductive Move (fs : FileSystem β) (i : ℕ) (t : Transfer β) :
    TransferAction β → Transfer β → FileSystem β → Prop where
  | start {t' : Transfer β} (h : t.start = some t') : Move fs i t (.start i) t' fs
  | inner {a : InnerAction} {t' : Transfer β} {fs' : FileSystem β}
      (h : t.innerStep fs a = some (t', fs')) : Move fs i t (.inner i a) t' fs'
  | outer {a : OuterAction} {t' : Transfer β} (h : OuterSteps t a t') :
      Move fs i t (.outer i a) t' fs

/-- What a step of the machine can do. -/
inductive Steps (x : TransferRun β) : TransferAction β → TransferRun β → Prop where
  | download (endpoint : ℕ) (dest : Path) (content : β) :
      Steps x (.download endpoint dest content)
        { x.put x.count { handle := x.registry.next, endpoint, dest, content } with
          registry := x.registry.insert x.count, count := x.count + 1 }
  | move {i : ℕ} {t t' : Transfer β} {fs : FileSystem β} {a : TransferAction β}
      (ht : x.transfers i = some t) (hm : Move x.fs i t a t' fs) :
      Steps x a { x.put i t' with fs }
  | remove {i : ℕ} {t : Transfer β} {result : Outcome} (ht : x.transfers i = some t)
      (ho : t.outer = .removing result) :
      Steps x (.remove i)
        { x.put i { t with outer := .completing result } with
          registry := x.registry.remove t.handle }
  | cancel (handle : ℕ) :
      Steps x (.cancel handle)
        { x.putCall x.callCount { handle } with callCount := x.callCount + 1 }
  | found {c i : ℕ} {k : CancelCall} (hc : x.calls c = some k) (hk : k.phase = .begun)
      (hi : x.registry.items k.handle = some i) :
      Steps x (.get c) (x.putCall c { k with phase := .holding i })
  | missing {c : ℕ} {k : CancelCall} (hc : x.calls c = some k) (hk : k.phase = .begun)
      (hi : x.registry.items k.handle = none) :
      Steps x (.get c)
        (x.putCall c { k with phase := .returned (.error (.invalidHandle (.ofNat k.handle))) })
  | take {c i : ℕ} {k : CancelCall} {t : Transfer β} (hc : x.calls c = some k)
      (hk : k.phase = .holding i) (ht : x.transfers i = some t) (hs : t.hasSender = true) :
      Steps x (.take c)
        ((x.put i { t with hasSender := false }).putCall c { k with phase := .sending i })
  | taken {c i : ℕ} {k : CancelCall} {t : Transfer β} (hc : x.calls c = some k)
      (hk : k.phase = .holding i) (ht : x.transfers i = some t) (hs : t.hasSender = false) :
      Steps x (.take c) (x.putCall c { k with phase := .returned (.ok ()) })
  | signal {c i : ℕ} {k : CancelCall} {t : Transfer β} (hc : x.calls c = some k)
      (hk : k.phase = .sending i) (ht : x.transfers i = some t)
      (ho : t.outer.isSelecting = true) :
      Steps x (.send c)
        ((x.put i { t with signal := .sent }).putCall c
          { k with phase := .returned (.ok ()), signalled := true })
  | unheard {c i : ℕ} {k : CancelCall} {t : Transfer β} (hc : x.calls c = some k)
      (hk : k.phase = .sending i) (ht : x.transfers i = some t)
      (ho : t.outer.isSelecting = false) :
      Steps x (.send c) (x.putCall c { k with phase := .returned (.ok ()) })
  | dropState {i : ℕ} {t : Transfer β} (ht : x.transfers i = some t) (hs : t.hasSender = true)
      (hr : x.registry.items t.handle = none) (hh : x.isHeld i = false) :
      Steps x (.dropState i) (x.put i { t with hasSender := false, signal := .closed })

namespace TransferRun

variable {x y : TransferRun β} {a : TransferAction β} {i j c : ℕ} {t t' : Transfer β}
  {k : CancelCall}

@[simp] theorem put_transfers_self : (x.put i t).transfers i = some t := Function.update_self ..

theorem put_transfers_of_ne (h : j ≠ i) : (x.put i t).transfers j = x.transfers j :=
  Function.update_of_ne h ..

@[simp] theorem putCall_calls_self : (x.putCall c k).calls c = some k := Function.update_self ..

theorem putCall_calls_of_ne {d : ℕ} (h : d ≠ c) : (x.putCall c k).calls d = x.calls d :=
  Function.update_of_ne h ..

/-- A transfer of the state after `put` is the one put there, or an old one. -/
theorem put_transfers_eq_some (h : (x.put i t).transfers j = some t') :
    (j = i ∧ t' = t) ∨ (j ≠ i ∧ x.transfers j = some t') :=
  update_eq_some h

theorem putCall_calls_eq_some {d : ℕ} {k' : CancelCall}
    (h : (x.putCall c k).calls d = some k') :
    (d = c ∧ k' = k) ∨ (d ≠ c ∧ x.calls d = some k') :=
  update_eq_some h

theorem steps_of_get (hc : x.calls c = some k) (h : x.get c k = some y) : Steps x (.get c) y := by
  unfold get at h
  split at h
  · rename_i i hk hi
    obtain rfl := Option.some.inj h
    exact .found hc hk (Registry.get_eq_ok.mp hi)
  · rename_i e hk he
    obtain ⟨hi, rfl⟩ := Registry.get_eq_error.mp he
    obtain rfl := Option.some.inj h
    exact .missing hc hk hi
  · cases h

theorem steps_of_take (hc : x.calls c = some k) (hk : k.phase = .holding i)
    (ht : x.transfers i = some t) : Steps x (.take c) (x.take c k i t) := by
  unfold take
  split
  · rename_i hs
    exact .take hc hk ht hs
  · rename_i hs
    exact .taken hc hk ht (Bool.not_eq_true _ ▸ hs)

theorem steps_of_send (hc : x.calls c = some k) (hk : k.phase = .sending i)
    (ht : x.transfers i = some t) : Steps x (.send c) (x.send c k i t) := by
  unfold send
  split
  · rename_i ho
    exact .signal hc hk ht ho
  · rename_i ho
    exact .unheard hc hk ht (Bool.not_eq_true _ ▸ ho)

/-- Every step of the machine is one of these. -/
theorem steps (h : x.step a = some y) : Steps x a y := by
  cases a with
  | download endpoint dest content =>
      obtain rfl := Option.some.inj h
      exact .download endpoint dest content
  | start i =>
      obtain ⟨t, ht, h⟩ := Option.bind_eq_some_iff.mp h
      obtain ⟨t', hs, rfl⟩ := Option.map_eq_some_iff.mp h
      exact .move ht (.start hs)
  | inner i a =>
      obtain ⟨t, ht, h⟩ := Option.bind_eq_some_iff.mp h
      obtain ⟨⟨t', fs⟩, hs, rfl⟩ := Option.map_eq_some_iff.mp h
      exact .move ht (.inner hs)
  | outer i a =>
      obtain ⟨t, ht, h⟩ := Option.bind_eq_some_iff.mp h
      obtain ⟨t', hs, rfl⟩ := Option.map_eq_some_iff.mp h
      exact .move ht (.outer (Transfer.outerSteps hs))
  | remove i =>
      obtain ⟨t, ht, h⟩ := Option.bind_eq_some_iff.mp h
      unfold remove at h
      split at h
      · rename_i result ho
        obtain rfl := Option.some.inj h
        exact .remove ht ho
      · cases h
  | cancel handle =>
      obtain rfl := Option.some.inj h
      exact .cancel handle
  | get c =>
      obtain ⟨k, hc, h⟩ := Option.bind_eq_some_iff.mp h
      exact steps_of_get hc h
  | take c =>
      obtain ⟨k, hc, h⟩ := Option.bind_eq_some_iff.mp h
      split at h
      · rename_i i hk
        obtain ⟨t, ht, rfl⟩ := Option.map_eq_some_iff.mp h
        exact steps_of_take hc hk ht
      · cases h
  | send c =>
      obtain ⟨k, hc, h⟩ := Option.bind_eq_some_iff.mp h
      split at h
      · rename_i i hk
        obtain ⟨t, ht, rfl⟩ := Option.map_eq_some_iff.mp h
        exact steps_of_send hc hk ht
      · cases h
  | dropState i =>
      obtain ⟨t, ht, h⟩ := Option.bind_eq_some_iff.mp h
      split at h
      · rename_i hg
        obtain rfl := Option.some.inj h
        exact .dropState ht hg.1 hg.2.1 hg.2.2
      · cases h

/-! ## Invariants of each transfer by itself -/

/-- What a fresh transfer has, and every move and every change of the cancel channel keeps,
all transfers have. -/
theorem transfers_invariant {G : TransferRun β → TransferAction β → Prop}
    {P : Transfer β → Prop}
    (hnew : ∀ handle endpoint dest content, P { handle, endpoint, dest, content })
    (hmove : ∀ x i t a t' fs, x.transfers i = some t → P t → G x a → Move x.fs i t a t' fs → P t')
    (hremove : ∀ t result, P t → t.outer = .removing result →
      P { t with outer := .completing result })
    (hcancel : ∀ t b s, P t → P { t with hasSender := b, signal := s }) :
    (transferMachine β).Invariant G fun x => ∀ i t, x.transfers i = some t → P t where
  init := by
    rintro x ⟨fs, rfl⟩ i t ht
    cases ht
  step := by
    intro x a y hx hG h j t' hj
    cases steps h with
    | download endpoint dest content =>
        obtain ⟨-, rfl⟩ | ⟨-, hj⟩ := put_transfers_eq_some hj
        · exact hnew _ _ _ _
        · exact hx j t' hj
    | move ht hm =>
        obtain ⟨-, rfl⟩ | ⟨-, hj⟩ := put_transfers_eq_some hj
        · exact hmove _ _ _ _ _ _ ht (hx _ _ ht) hG hm
        · exact hx j t' hj
    | remove ht ho =>
        obtain ⟨-, rfl⟩ | ⟨-, hj⟩ := put_transfers_eq_some hj
        · exact hremove _ _ (hx _ _ ht) ho
        · exact hx j t' hj
    | cancel handle => exact hx j t' hj
    | found hc hk hi => exact hx j t' hj
    | missing hc hk hi => exact hx j t' hj
    | take hc hk ht hs =>
        obtain ⟨-, rfl⟩ | ⟨-, hj⟩ := put_transfers_eq_some hj
        · exact hcancel _ _ _ (hx _ _ ht)
        · exact hx j t' hj
    | taken hc hk ht hs => exact hx j t' hj
    | signal hc hk ht ho =>
        obtain ⟨-, rfl⟩ | ⟨-, hj⟩ := put_transfers_eq_some hj
        · exact hcancel _ _ _ (hx _ _ ht)
        · exact hx j t' hj
    | unheard hc hk ht ho => exact hx j t' hj
    | dropState ht hs hr hh =>
        obtain ⟨-, rfl⟩ | ⟨-, hj⟩ := put_transfers_eq_some hj
        · exact hcancel _ _ _ (hx _ _ ht)
        · exact hx j t' hj

end TransferRun

end Iroh.Core
