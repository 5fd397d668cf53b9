import ReactNativeIroh.Core.Quiescence
import ReactNativeIroh.Core.Subscriptions

/-!
# The handle before the events

`download_blob`, `watch_addr` and `gossip_subscribe` hand the handle out by `on_start`.  In
all three the task that reports events is spawned before, so it may report some before
`on_start` is called.

`on_start` comes first in a run in which nothing is delivered to a task before the handle
was handed out (`StartsFirst`).
-/

namespace Iroh.Core

open Transition

/-! ## Subscriptions -/

section Subscriptions

variable {ε κ : Type*}

namespace SubscriptionEvent

def isStarted : SubscriptionEvent κ → Bool
  | .started _ => true
  | _ => false

/-- It is a callback that counts. -/
def isCallback (p : κ → Bool) : SubscriptionEvent κ → Bool
  | .callback call => p call
  | _ => false

end SubscriptionEvent

def Subscription.isStarted (s : Subscription κ) : Bool :=
  match s.starter with
  | .started _ => true
  | _ => false

/-- `on_start` is invoked before the first callback that counts. -/
def HandleFirst (p : κ → Bool) (log : List (SubscriptionEvent κ)) : Prop :=
  Preceded (fun e => e.isStarted = true) (fun e => e.isCallback p = true) log

instance (p : κ → Bool) (log : List (SubscriptionEvent κ)) : Decidable (HandleFirst p log) :=
  Preceded.decidable log

namespace Subscription

variable {p : κ → Bool} {kind : SubscriptionKind ε κ} {s t : Subscription κ}

/-- While the handle was not handed out, no callback that counts is made. -/
structure Ordered (p : κ → Bool) (s : Subscription κ) : Prop where
  log : HandleFirst p s.log
  started : s.isStarted = true → ∃ e ∈ s.log, e.isStarted = true
  idle : s.isStarted = false → ∀ call, s.phase = .calling call → p call = false

theorem Ordered.make : (Subscription.make kind).Ordered p := by
  unfold Subscription.make
  split <;> exact ⟨.nil, nofun, fun _ => nofun⟩

/-- An event that is no callback that counts may be recorded. -/
theorem Ordered.append {e : SubscriptionEvent κ} (h : s.Ordered p)
    (he : e.isCallback p = false) : HandleFirst p (s.log ++ [e]) := by
  refine h.log.append ?_
  intro b hb
  rw [List.mem_singleton.mp hb, he]
  nofun

theorem Ordered.join {result : Except String Unit} (h : s.Ordered p)
    (ht : s.join result = some t) : t.Ordered p := by
  unfold Subscription.join at ht
  split at ht
  · obtain rfl := Option.some.inj ht
    exact ⟨h.log, nofun, fun _ => nofun⟩
  · rename_i e hs
    obtain rfl := Option.some.inj ht
    refine ⟨h.append rfl, nofun, fun _ => h.idle ?_⟩
    rw [isStarted, hs]
  · cases ht

theorem Ordered.start (h : s.Ordered p) (ht : s.start = some t) : t.Ordered p := by
  unfold Subscription.start at ht
  split at ht
  · obtain rfl := Option.some.inj ht
    exact ⟨h.append rfl, fun _ => ⟨_, List.mem_append_right _ List.mem_cons_self, rfl⟩, nofun⟩
  · cases ht

theorem Ordered.register {handle : ℕ} (h : s.Ordered p) (hs : s.starter = .spawned) :
    { s with starter := .registered handle }.Ordered p := by
  refine ⟨h.log, nofun, fun _ => h.idle ?_⟩
  rw [isStarted, hs]

theorem Ordered.poll (h : s.Ordered p) (ht : s.poll = some t) : t.Ordered p := by
  unfold Subscription.poll at ht
  split at ht
  · obtain rfl := Option.some.inj ht
    exact ⟨h.log, h.started, h.idle⟩
  · cases ht

theorem Ordered.yield (h : s.Ordered p) (ht : s.yield = some t) : t.Ordered p := by
  unfold Subscription.yield at ht
  split at ht
  · obtain rfl := Option.some.inj ht
    exact ⟨h.log, h.started, h.idle⟩
  · cases ht

theorem Ordered.drop (h : s.Ordered p) (ht : s.drop = some t) : t.Ordered p := by
  unfold Subscription.drop at ht
  split at ht
  · obtain rfl := Option.some.inj ht
    exact ⟨h.log, h.started, fun _ => nofun⟩
  · cases ht

/-- Only what is delivered after `on_start` leads to a callback that counts. -/
theorem Ordered.next {item : Option ε} (h : s.Ordered p) (ht : s.next kind item = some t)
    (hG : (item.bind kind.forward).any p = true → s.isStarted = true) : t.Ordered p := by
  unfold Subscription.next at ht
  split at ht
  · rename_i call _ _ hcall
    obtain rfl := Option.some.inj ht
    refine ⟨h.log, h.started, ?_⟩
    intro hs call' hc
    obtain rfl := ForwardPhase.calling.inj hc
    refine Bool.eq_false_iff.mpr fun hp => ?_
    have hstarted : s.isStarted = true := hG (by rw [hcall]; exact hp)
    exact nomatch hs.symm.trans hstarted
  · obtain rfl := Option.some.inj ht
    exact ⟨h.log, h.started, fun _ => nofun⟩
  · cases ht

theorem Ordered.call (h : s.Ordered p) (ht : s.call = some t) : t.Ordered p := by
  unfold Subscription.call at ht
  split at ht
  · rename_i call hphase
    obtain rfl := Option.some.inj ht
    refine ⟨?_, ?_, fun _ => nofun⟩
    · cases hs : s.isStarted with
      | true => exact h.log.appendAfter (h.started hs)
      | false => exact h.append (h.idle hs call hphase)
    · intro hs
      obtain ⟨e, he, hst⟩ := h.started hs
      exact ⟨e, List.mem_append_left _ he, hst⟩
  · cases ht

end Subscription

/-- The subscription to which the step delivers an item that leads to a callback that
counts. -/
def SubscriptionAction.delivers (kind : SubscriptionKind ε κ) (p : κ → Bool) :
    SubscriptionAction ε → Option ℕ
  | .next i item => if (item.bind kind.forward).any p then some i else none
  | _ => none

namespace SubscriptionRun

variable {x y : SubscriptionRun κ} {i j : ℕ} {s t : Subscription κ} {kind : SubscriptionKind ε κ}

/-- Nothing is delivered before the handle was handed out. -/
def StartsFirst (kind : SubscriptionKind ε κ) (p : κ → Bool) (x : SubscriptionRun κ)
    (a : SubscriptionAction ε) : Prop :=
  ∀ i ∈ a.delivers kind p, ∀ s ∈ x.subscriptions i, s.isStarted = true

instance {p : κ → Bool} {a : SubscriptionAction ε} : Decidable (StartsFirst kind p x a) :=
  inferInstanceAs
    (Decidable (∀ i ∈ a.delivers kind p, ∀ s ∈ x.subscriptions i, s.isStarted = true))

theorem ordered_put {p : κ → Bool} (hx : ∀ i s, x.subscriptions i = some s → s.Ordered p)
    (ht : t.Ordered p) : ∀ j u, (x.put i t).subscriptions j = some u → u.Ordered p := by
  intro j u hj
  obtain ⟨-, rfl⟩ | ⟨-, hj⟩ := update_eq_some hj
  · exact ht
  · exact hx j u hj

theorem ordered_stop {p : κ → Bool} (hx : ∀ i s, x.subscriptions i = some s → s.Ordered p)
    (handle : ℕ) : ∀ i s, (x.stop handle).subscriptions i = some s → s.Ordered p := by
  cases hi : x.registry.items handle with
  | none =>
      simp only [stop, hi]
      exact hx
  | some i =>
      cases hs : x.subscriptions i with
      | none =>
          simp only [stop, hi, hs]
          exact hx
      | some s =>
          simp only [stop, hi, hs]
          have h := hx i s hs
          exact ordered_put hx ⟨h.log, h.started, h.idle⟩

theorem ordered_invariant (kind : SubscriptionKind ε κ) (p : κ → Bool) :
    (subscriptionMachine kind).Invariant (StartsFirst kind p) fun x =>
      ∀ i s, x.subscriptions i = some s → s.Ordered p where
  init := by
    rintro x rfl i s hs
    cases hs
  step := by
    intro x a y hx hG h
    cases a with
    | subscribe =>
        obtain rfl := Option.some.inj h
        exact ordered_put hx .make
    | join i result =>
        obtain ⟨s, hs, h⟩ := Option.bind_eq_some_iff.mp h
        obtain ⟨t, ht, rfl⟩ := Option.map_eq_some_iff.mp h
        exact ordered_put hx ((hx i s hs).join ht)
    | register i =>
        obtain ⟨s, hs, h⟩ := Option.bind_eq_some_iff.mp h
        unfold register at h
        split at h
        · rename_i hstarter
          obtain rfl := Option.some.inj h
          exact ordered_put hx ((hx i s hs).register hstarter)
        · cases h
    | start i =>
        obtain ⟨s, hs, h⟩ := Option.bind_eq_some_iff.mp h
        obtain ⟨t, ht, rfl⟩ := Option.map_eq_some_iff.mp h
        exact ordered_put hx ((hx i s hs).start ht)
    | poll i =>
        obtain ⟨s, hs, h⟩ := Option.bind_eq_some_iff.mp h
        obtain ⟨t, ht, rfl⟩ := Option.map_eq_some_iff.mp h
        exact ordered_put hx ((hx i s hs).poll ht)
    | yield i =>
        obtain ⟨s, hs, h⟩ := Option.bind_eq_some_iff.mp h
        obtain ⟨t, ht, rfl⟩ := Option.map_eq_some_iff.mp h
        exact ordered_put hx ((hx i s hs).yield ht)
    | drop i =>
        obtain ⟨s, hs, h⟩ := Option.bind_eq_some_iff.mp h
        obtain ⟨t, ht, rfl⟩ := Option.map_eq_some_iff.mp h
        exact ordered_put hx ((hx i s hs).drop ht)
    | next i item =>
        obtain ⟨s, hs, h⟩ := Option.bind_eq_some_iff.mp h
        obtain ⟨t, ht, rfl⟩ := Option.map_eq_some_iff.mp h
        refine ordered_put hx ((hx i s hs).next ht fun hp => hG i ?_ s hs)
        exact if_pos hp
    | call i =>
        obtain ⟨s, hs, h⟩ := Option.bind_eq_some_iff.mp h
        obtain ⟨t, ht, rfl⟩ := Option.map_eq_some_iff.mp h
        exact ordered_put hx ((hx i s hs).call ht)
    | stop handle =>
        obtain rfl := Option.some.inj h
        exact ordered_stop hx handle

end SubscriptionRun

end Subscriptions

/-! ## Downloads -/

namespace TransferEvent

def isStarted : TransferEvent → Bool
  | .started _ => true
  | _ => false

/-- The bridge reports progress or settles the promise. -/
def isReport : TransferEvent → Bool
  | .emitted _ | .settled _ => true
  | _ => false

end TransferEvent

/-- `onStart` is called before the first progress event and before the settlement. -/
def StartFirst (log : List TransferEvent) : Prop :=
  Preceded (fun e : TransferEvent => e.isStarted = true) (fun e => e.isReport = true) log

instance (log : List TransferEvent) : Decidable (StartFirst log) := Preceded.decidable log

/-- `on_progress` runs. -/
def InnerPhase.reports : InnerPhase → Bool
  | .reporting _ _ | .emitting _ _ => true
  | _ => false

section Downloads

variable {β : Type*}

/-- Without an item of progress, the inner task comes to no report. -/
theorem Download.reports_step {endpoint : ℕ} {dest : Path} {content : β} {d d' : Download β}
    {a : InnerAction} {events : List TransferEvent}
    (h : DownloadSteps endpoint dest content d a d' events)
    (ha : ∀ bytes, a ≠ .next (some (.progress bytes))) (hd : d.inner.phase.reports = false) :
    d'.inner.phase.reports = false ∧ ∀ e ∈ events, e.isReport = false := by
  cases h with
  | poll hl hp ha => exact ⟨hd, List.forall_mem_nil _⟩
  | yield hw hp => exact ⟨hd, List.forall_mem_nil _⟩
  | next hk hp =>
      rename_i item
      rcases item with _ | ⟨bytes | _ | _⟩
      · simp only [InnerTask.next]
        split <;> exact ⟨rfl, List.forall_mem_nil _⟩
      · exact absurd rfl (ha bytes)
      · exact ⟨rfl, List.forall_mem_nil _⟩
      · exact ⟨rfl, List.forall_mem_nil _⟩
  | due hk hp ho =>
      rw [hk] at hd
      cases hd
  | kept hk hp ho => exact ⟨rfl, List.forall_mem_nil _⟩
  | emit hk hp =>
      rw [hk] at hd
      cases hd
  | resume hk hp ho =>
      refine ⟨?_, List.forall_mem_nil _⟩
      unfold InnerTask.resume
      split
      · rfl
      · rfl
      · exact hd
  | effect ho he =>
      refine ⟨hd, ?_⟩
      unfold fileEvents
      split <;> simp [TransferEvent.isReport]
  | _ => exact ⟨rfl, List.forall_mem_nil _⟩

namespace Transfer

variable {t t' : Transfer β}

/-- While the handle was not handed out, the transfer comes to no report. -/
structure Ordered (t : Transfer β) : Prop where
  log : StartFirst t.log
  started : t.isStarted = true → ∃ e ∈ t.log, e.isStarted = true
  idle : t.isStarted = false → t.outer.isSelecting = true ∧ t.inner.phase.reports = false

/-- After `on_start`, anything may be recorded. -/
theorem Ordered.after (h : t.Ordered) (hs : t.isStarted = true) (events : List TransferEvent)
    (outer : OuterPhase) (inner : InnerTask) (coalescer : Coalescer) :
    Ordered { t with outer, inner, coalescer, log := t.log ++ events } where
  log := h.log.appendAfter (h.started hs)
  started _ := by
    obtain ⟨e, he, hst⟩ := h.started hs
    exact ⟨e, List.mem_append_left _ he, hst⟩
  idle hf := nomatch hs.symm.trans hf

theorem Ordered.innerStep {fs fs' : FileSystem β} {a : InnerAction} (h : t.Ordered)
    (ht : t.innerStep fs a = some (t', fs'))
    (hG : ∀ bytes, a = .next (some (.progress bytes)) → t.isStarted = true) : t'.Ordered := by
  obtain ⟨d, events, hd, rfl, -⟩ := innerStep_eq_some ht
  rcases Bool.eq_false_or_eq_true t.isStarted with hs | hs
  · exact h.after hs events _ _ _
  · have ha (bytes : ℕ) : a ≠ .next (some (.progress bytes)) := by
      intro ha
      exact nomatch hs.symm.trans (hG bytes ha)
    obtain ⟨hr, he⟩ := Download.reports_step hd ha (h.idle hs).2
    refine ⟨h.log.append ?_, fun hst => ?_, fun _ => ⟨(h.idle hs).1, hr⟩⟩
    · intro e hmem
      simp [he e hmem]
    · exact nomatch hs.symm.trans hst

theorem Ordered.outerStep {a : OuterAction} (h : t.Ordered) (ht : OuterSteps t a t')
    (hG : a = .cancelled ∨ a = .joined → t.isStarted = true) : t'.Ordered := by
  have hlate (hw : t.outer.isSelecting = false) : t.isStarted = true := by
    refine Bool.not_eq_false _ ▸ fun hs => ?_
    exact nomatch hw.symm.trans (h.idle hs).1
  have hafter (hs : t.isStarted = true) (outer : OuterPhase) (inner : InnerTask)
      (coalescer : Coalescer) : Ordered { t with outer, inner, coalescer } := by
    simpa using h.after hs [] outer inner coalescer
  cases ht with
  | poll ho => exact ⟨h.log, h.started, fun _ => ⟨rfl, rfl⟩⟩
  | cancelled ho hsig => exact hafter (hG (.inl rfl)) _ _ _
  | joined ho hj => exact hafter (hG (.inr rfl)) _ _ _
  | complete ho => exact h.after (hlate (by rw [ho]; rfl)) _ _ _ _
  | flushed ho hf => exact hafter (hlate (by rw [ho]; rfl)) _ _ _
  | nothing ho hf => exact hafter (hlate (by rw [ho]; rfl)) _ _ _
  | forward ho => exact h.after (hlate (by rw [ho]; rfl)) _ _ _ _
  | settle ho => exact h.after (hlate (by rw [ho]; rfl)) _ _ _ _

theorem Ordered.start (h : t.Ordered) (ht : t.start = some t') : t'.Ordered := by
  unfold Transfer.start at ht
  split at ht
  · cases ht
  · obtain rfl := Option.some.inj ht
    refine ⟨h.log.append ?_, fun _ => ⟨_, List.mem_append_right _ List.mem_cons_self, rfl⟩, nofun⟩
    intro e he
    rw [List.mem_singleton.mp he]
    nofun

end Transfer

/-- The transfer to which the step delivers progress or its end. -/
def TransferAction.delivers : TransferAction β → Option ℕ
  | .inner i (.next (some (.progress _))) => some i
  | .outer i .cancelled | .outer i .joined => some i
  | _ => none

namespace TransferRun

variable {x : TransferRun β} {i : ℕ} {t : Transfer β}

/-- Nothing is delivered before the handle was handed out. -/
def StartsFirst (x : TransferRun β) (a : TransferAction β) : Prop :=
  ∀ i ∈ a.delivers, ∀ t ∈ x.transfers i, t.isStarted = true

instance (x : TransferRun β) (a : TransferAction β) : Decidable (StartsFirst x a) :=
  inferInstanceAs (Decidable (∀ i ∈ a.delivers, ∀ t ∈ x.transfers i, t.isStarted = true))

theorem ordered_invariant : (transferMachine β).Invariant StartsFirst fun x =>
    ∀ i t, x.transfers i = some t → t.Ordered := by
  refine transfers_invariant ?_ ?_ ?_ ?_
  · intro handle endpoint dest content
    exact ⟨.nil, nofun, fun _ => ⟨rfl, rfl⟩⟩
  · intro x i t a t' fs hi ht hG hm
    cases hm with
    | start h => exact ht.start h
    | inner h => exact ht.innerStep h fun bytes ha => hG i (by rw [ha]; rfl) t hi
    | outer h =>
        refine ht.outerStep h ?_
        rintro (rfl | rfl)
        · exact hG i rfl t hi
        · exact hG i rfl t hi
  · intro t result ht ho
    refine ⟨ht.log, ht.started, fun hs => ?_⟩
    have := (ht.idle hs).1
    rw [ho] at this
    cases this
  · intro t b s ht
    exact ⟨ht.log, ht.started, ht.idle⟩

end TransferRun

end Downloads

/-! ## The three together -/

/-- The message lines of a topic, as against the changes of its neighbors. -/
def GossipCall.isMessage : GossipCall → Bool
  | .onMessage _ => true
  | .onNeighbor _ => false

theorem onStart_first (α β : Type*) :
    (∀ (x : SubscriptionRun α) (i : ℕ) (s : Subscription α),
      (subscriptionMachine (watchAddr α)).Reachable
        (SubscriptionRun.StartsFirst (watchAddr α) fun _ => true) x →
      x.subscriptions i = some s → HandleFirst (fun _ => true) s.log) ∧
    (∀ (x : SubscriptionRun GossipCall) (i : ℕ) (s : Subscription GossipCall),
      (subscriptionMachine gossipSubscribe).Reachable
        (SubscriptionRun.StartsFirst gossipSubscribe GossipCall.isMessage) x →
      x.subscriptions i = some s → HandleFirst GossipCall.isMessage s.log) ∧
    ∀ (x : TransferRun β) (i : ℕ) (t : Transfer β),
      (transferMachine β).Reachable TransferRun.StartsFirst x →
      x.transfers i = some t → StartFirst t.log := by
  refine ⟨?_, ?_, ?_⟩
  · intro x i s hx hs
    exact ((SubscriptionRun.ordered_invariant _ _).reachable hx i s hs).log
  · intro x i s hx hs
    exact ((SubscriptionRun.ordered_invariant _ _).reachable hx i s hs).log
  · intro x i t hx ht
    exact (TransferRun.ordered_invariant.reachable hx i t ht).log

/-- The state a list of actions leads to. -/
def watchAfter (actions : List (SubscriptionAction ℕ)) : SubscriptionRun ℕ :=
  ((subscriptionMachine (watchAddr ℕ)).run {} actions).getD {}

def gossipAfter (actions : List (SubscriptionAction GossipEvent)) : SubscriptionRun GossipCall :=
  ((subscriptionMachine gossipSubscribe).run {} actions).getD {}

def downloadAfter (actions : List (TransferAction ℕ)) : TransferRun ℕ :=
  ((transferMachine ℕ).run { fs := fun _ => none } actions).getD { fs := fun _ => none }

/-- The calling thread hands the handle out, and then a worker polls the task. -/
def startThenPoll : List (SubscriptionAction ℕ) :=
  [.subscribe, .register 0, .start 0, .poll 0, .next 0 (some 5), .call 0]

def joinStartThenPoll : List (SubscriptionAction GossipEvent) :=
  [.subscribe, .join 0 (.ok ()), .register 0, .start 0, .poll 0,
    .next 0 (some (.received "a" [104])), .call 0]

def startThenDownload : List (TransferAction ℕ) :=
  [.download 1 [47, 97] 7, .start 0, .outer 0 .poll, .inner 0 .poll, .inner 0 (.lookup true),
    .inner 0 (.connect (.ok ())), .inner 0 (.next (some (.progress 10))), .inner 0 (.offer 0),
    .inner 0 .emit]

theorem onStart_first_runs :
    (∃ s, (watchAfter startThenPoll).subscriptions 0 = some s ∧ s.log.length = 2 ∧
      HandleFirst (fun _ => true) s.log) ∧
    (∃ s, (gossipAfter joinStartThenPoll).subscriptions 0 = some s ∧ s.log.length = 2 ∧
      HandleFirst GossipCall.isMessage s.log) ∧
    ∃ t, (downloadAfter startThenDownload).transfers 0 = some t ∧ t.log.length = 3 ∧
      StartFirst t.log := by
  obtain ⟨hwatch, hgossip, hdownload⟩ := onStart_first ℕ ℕ
  refine ⟨⟨_, rfl, rfl, hwatch (watchAfter startThenPoll) 0 _ ?_ rfl⟩,
    ⟨_, rfl, rfl, hgossip (gossipAfter joinStartThenPoll) 0 _ ?_ rfl⟩,
    ⟨_, rfl, rfl, hdownload (downloadAfter startThenDownload) 0 _ ?_ rfl⟩⟩
  · exact Machine.reachable_getD_of_guarded (M := subscriptionMachine (watchAddr ℕ)) rfl
      (by decide +kernel) (by decide +kernel) _
  · exact Machine.reachable_getD_of_guarded (M := subscriptionMachine gossipSubscribe) rfl
      (by decide +kernel) (by decide +kernel) _
  · exact Machine.reachable_getD_of_guarded (M := transferMachine ℕ) ⟨fun _ => none, rfl⟩
      (by decide +kernel) (by decide +kernel) _

/-- A worker polls the task before the calling thread hands the handle out. -/
def pollThenStart : List (SubscriptionAction ℕ) :=
  [.subscribe, .poll 0, .next 0 (some 5), .call 0, .register 0, .start 0]

def joinPollThenStart : List (SubscriptionAction GossipEvent) :=
  [.subscribe, .join 0 (.ok ()), .poll 0, .next 0 (some (.received "a" [104])), .call 0,
    .register 0, .start 0]

def downloadThenStart : List (TransferAction ℕ) :=
  [.download 1 [47, 97] 7, .outer 0 .poll, .inner 0 .poll, .inner 0 (.lookup true),
    .inner 0 (.connect (.ok ())), .inner 0 (.next (some (.progress 10))), .inner 0 (.offer 0),
    .inner 0 .emit, .inner 0 (.next (some (.error "gone"))), .outer 0 .joined, .remove 0,
    .outer 0 .complete, .outer 0 (.flush 0), .outer 0 .settle, .start 0]

theorem not_onStart_first :
    (∃ x s, (subscriptionMachine (watchAddr ℕ)).Reachable Any x ∧ x.subscriptions 0 = some s ∧
      s.log = [.callback 5, .started 1] ∧ ¬ HandleFirst (fun _ => true) s.log) ∧
    (∃ x s, (subscriptionMachine gossipSubscribe).Reachable Any x ∧ x.subscriptions 0 = some s ∧
      s.log.length = 2 ∧ ¬ HandleFirst GossipCall.isMessage s.log) ∧
    ∃ x t, (transferMachine ℕ).Reachable Any x ∧ x.transfers 0 = some t ∧
      t.log = [.progress 10, .emitted 10, .completed (.error (.blobDownload "gone")),
        .settled (.error (.blobDownload "gone")), .started 1] ∧ ¬ StartFirst t.log := by
  refine ⟨⟨watchAfter pollThenStart, _, ?_, rfl, rfl, by decide +kernel⟩,
    ⟨gossipAfter joinPollThenStart, _, ?_, rfl, rfl, by decide +kernel⟩,
    downloadAfter downloadThenStart, _, ?_, rfl, rfl, by decide +kernel⟩
  · exact Machine.reachable_getD (M := subscriptionMachine (watchAddr ℕ)) rfl
      (by decide +kernel) _
  · exact Machine.reachable_getD (M := subscriptionMachine gossipSubscribe) rfl
      (by decide +kernel) _
  · exact Machine.reachable_getD (M := transferMachine ℕ) ⟨fun _ => none, rfl⟩
      (by decide +kernel) _

end Iroh.Core
