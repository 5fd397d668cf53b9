import ReactNativeIroh.Core.InboundSteps
import ReactNativeIroh.Lib.Handover

/-!
# What becomes of an accepted connection

The queue of an ALPN is handed over as `Handover` describes: the task that holds the lock
owns the queue, takes a connection, registers it under a fresh handle and passes it on.
Every step of the machine is one of `Handover`, or two, or none.

The connections that wait are dropped only when no one has a reference to the receiver, and
then no one ever gets one again.
-/

namespace Iroh.Core.InboundRun

open Transition

variable {x y : InboundRun} {l c : ℕ} {t t' : Listener} {a : ListenerAction}

/-! ## The queue as it is handed over -/

/-- The connection that was taken off the queue and not passed on yet, and its handle. -/
def carried (x : InboundRun) : Option (ℕ × Option ℕ) :=
  x.lock.bind fun l => (x.listeners l).bind fun t => t.phase.carried

def Delivered.delivery (d : Delivered) : Delivery ℕ := ⟨d.listener, d.conn, d.handle⟩

/-- The queue, its owner and what was handed over. -/
def handover (x : InboundRun) : Handover ℕ where
  arrived := x.accepted
  waiting := x.queue
  owner := x.lock
  carried := x.carried
  next := x.connections.next
  others := x.others
  handed := x.handed.map Delivered.delivery
  lost := x.dropped
  refused := x.refused.map Prod.fst

/-- The machine that the queue of an ALPN is an instance of. -/
abbrev handovers : Machine (Handover ℕ) (HandoverAction ℕ) := handoverMachine ℕ INBOUND_BACKLOG

theorem leads_reap (x : InboundRun) : handovers.Leads Any x.handover x.reap.handover := by
  unfold reap
  split
  · exact .refl
  · exact Handover.leads_lose

/-- The listener that holds the lock carries what is carried. -/
theorem Owned.carried (h : x.Owned) (ht : x.listeners l = some t) (hp : t.phase.holds = true) :
    x.carried = t.phase.carried := by
  simp [InboundRun.carried, h.owner l t ht hp, ht]

theorem carried_putListener (hl : x.lock = some l) :
    (x.putListener l t').carried = t'.phase.carried := by
  simp [InboundRun.carried, putListener, hl]

theorem handover_eq {p : Option (ℕ × Option ℕ)} (hp : x.carried = p) :
    x.handover = ⟨x.accepted, x.queue, x.lock, p, x.connections.next, x.others,
      x.handed.map Delivered.delivery, x.dropped, x.refused.map Prod.fst⟩ := by
  rw [← hp]
  rfl

/-- A listener that changes, and carries what it carried. -/
theorem handover_put_same (ht : x.listeners l = some t)
    (hc : t'.phase.carried = t.phase.carried) :
    (x.putListener l t').handover = x.handover := by
  have hcarried : (x.putListener l t').carried = x.carried := by
    unfold InboundRun.carried
    cases hl : x.lock with
    | none => simp [putListener, hl]
    | some m =>
        rcases eq_or_ne m l with rfl | hne
        · simp [putListener, hl, ht, hc]
        · simp [putListener, hl, Function.update_of_ne hne]
  unfold handover
  rw [hcarried]
  rfl

theorem leads_unlock (h : x.Owned) (ht : x.listeners l = some t) (hp : t.phase.holds = true)
    (hc : t.phase.carried = none) : handovers.Leads Any x.handover (x.unlock l t').handover := by
  have hcarried : x.carried = none := (h.carried ht hp).trans hc
  refine .trans ?_ (leads_reap _)
  rw [handover_eq hcarried, handover_eq (x := { x.putListener l t' with lock := none }) rfl]
  exact Handover.leads_release rfl

/-- A step of the owner of the lock. -/
theorem leads_task (h : x.Owned) (ht : x.listeners l = some t) (hs : TaskSteps x l t a y) :
    handovers.Leads Any x.handover y.handover := by
  cases hs with
  | poll hp => exact .of_eq (handover_put_same ht rfl)
  | yield hp => exact .of_eq (handover_put_same ht rfl)
  | drop hp ha => exact leads_unlock h ht (by rw [hp]; rfl) (by rw [hp]; rfl)
  | @recv conn queue hp hq =>
      have hl : x.lock = some l := h.owner l t ht (by rw [hp]; rfl)
      have hcarried : x.carried = none := (h.carried ht (by rw [hp]; rfl)).trans (by rw [hp]; rfl)
      have hput : { x.putListener l { t with phase := .taken conn } with queue }.carried =
          some (conn, none) := carried_putListener hl
      rw [handover_eq hput]
      exact Handover.leads_take hl hcarried hq
  | ending hp hq hr => exact .of_eq (handover_put_same ht (by rw [hp]; rfl))
  | @insert conn hp =>
      have hl : x.lock = some l := h.owner l t ht (by rw [hp]; rfl)
      have hcarried : x.carried = some (conn, none) :=
        (h.carried ht (by rw [hp]; rfl)).trans (by rw [hp]; rfl)
      have hput : { x.putListener l { t with phase := .registered conn x.connections.next } with
          connections := x.connections.insert (some conn) }.carried =
          some (conn, some x.connections.next) := carried_putListener hl
      rw [handover_eq hput]
      exact Handover.leads_stamp hcarried
  | @deliver conn handle hp =>
      have hl : x.lock = some l := h.owner l t ht (by rw [hp]; rfl)
      have hcarried : x.carried = some (conn, some handle) :=
        (h.carried ht (by rw [hp]; rfl)).trans (by rw [hp]; rfl)
      have hput : InboundRun.carried { x.putListener l { t with phase := .waiting } with
          handed := x.handed ++ [⟨l, conn, handle⟩] } = none := carried_putListener hl
      rw [handover_eq hput, List.map_append]
      exact Handover.leads_deliver hl hcarried
  | onClose hp => exact .of_eq (handover_put_same ht (by rw [hp]; rfl))
  | finish hp => exact leads_unlock h ht (by rw [hp]; rfl) (by rw [hp]; rfl)

theorem leads_refused (x : InboundRun) (e : TrySendError) :
    handovers.Leads Any x.handover (InboundRun.handover
      { x with accepted := x.accepted + 1, refused := x.refused ++ [(x.accepted, e)] }) := by
  unfold handover
  rw [List.map_append]
  exact Handover.leads_refuse

theorem leads_accept (x : InboundRun) : handovers.Leads Any x.handover x.accept.handover := by
  unfold accept
  split
  · exact leads_refused x .closed
  · split
    · rename_i hlen
      exact Handover.leads_arrive hlen
    · exact leads_refused x .full

theorem leads_tryLock (x : InboundRun) (alpn : String) (c : ℕ) :
    handovers.Leads Any x.handover (x.tryLock alpn c).handover := by
  unfold InboundRun.tryLock
  split
  · rename_i hlock
    have hcarried : x.carried = none := by simp [InboundRun.carried, hlock]
    have hlocked : InboundRun.carried
        { (x.putListener x.listenerCount {}).putCall c (.spawned x.listenerCount) with
          lock := some x.listenerCount
          listenerCount := x.listenerCount + 1 } = none := by
      simp [InboundRun.carried, putListener, putCall, ListenerPhase.carried]
    rw [handover_eq hcarried, handover_eq hlocked]
    exact Handover.leads_acquire hlock
  · exact leads_reap (x.putCall c _)

/-- The task of a listener is only told to stop. -/
theorem stop_handover (x : InboundRun) (handle : ℕ) : (x.stop handle).handover = x.handover := by
  unfold InboundRun.stop
  split
  · split
    · rename_i ht
      exact handover_put_same ht rfl
    · rfl
  · rfl
  · rfl

/-- A step is matched by a run of the handover. -/
theorem leads_step {endpoint : ℕ} {alpn : String} {b : InboundAction} (hx : x.Owned)
    (h : Steps endpoint alpn x b y) : handovers.Leads Any x.handover y.handover := by
  cases h with
  | accept hr => exact leads_accept x
  | listen => exact .refl
  | tryLock hc => exact leads_tryLock x alpn _
  | register hc => exact .refl
  | stop handle => exact .of_eq (stop_handover x handle)
  | task ht hs => exact leads_task hx ht hs
  | close => exact .refl
  | shutdown hopen => exact .refl
  | release hopen => exact leads_reap { x with stateHeld := false }
  | connect => exact Handover.leads_other
  | disconnect handle => exact .refl
  | listenOther => exact .refl

theorem lawful {endpoint : ℕ} {alpn : String}
    (hx : (inboundMachine endpoint alpn).Reachable Any x) :
    x.handover.Lawful INBOUND_BACKLOG := by
  refine (Handover.lawful_invariant ℕ INBOUND_BACKLOG).reachable ?_
  refine Machine.Reachable.simulates handover (owned_invariant endpoint alpn) ?_ ?_ hx
  · rintro x rfl
    rfl
  · intro x b y hx _ h
    exact leads_step hx (steps h)

/-! ## The references to the receiver -/

theorem isLookedUp_iff :
    x.isLookedUp = true ↔ ∃ c < x.callCount, x.calls c = some .holding := by
  simp only [isLookedUp, List.any_eq_true, List.mem_range]
  constructor
  · rintro ⟨c, hc, h⟩
    split at h
    · rename_i hcall
      exact ⟨c, hc, hcall⟩
    · cases h
  · rintro ⟨c, hc, hcall⟩
    exact ⟨c, hc, by rw [hcall]⟩

theorem isReachable_iff :
    x.isReachable = true ↔
      x.stateHeld = true ∨ (∃ l, x.lock = some l) ∨
        ∃ c < x.callCount, x.calls c = some .holding := by
  simp only [isReachable, Bool.or_eq_true, Option.isSome_iff_exists, isLookedUp_iff, or_assoc]

theorem reap_handed : x.reap.handed = x.handed := by
  unfold reap
  split <;> rfl

theorem reap_of_isReachable (h : x.isReachable = true) : x.reap = x := if_pos h

/-- The calls that have looked the queue up are among those that had. -/
theorem isReachable_of_imp (hs : y.stateHeld = true → x.stateHeld = true) (hl : y.lock = x.lock)
    (hc : ∀ c < y.callCount, y.calls c = some .holding →
      c < x.callCount ∧ x.calls c = some .holding) :
    y.isReachable = true → x.isReachable = true := by
  simp only [isReachable_iff, hl]
  rintro (h | h | ⟨c, hlt, hcall⟩)
  · exact .inl (hs h)
  · exact .inr (.inl h)
  · exact .inr (.inr ⟨c, hc c hlt hcall⟩)

theorem putCall_eq_some {d : ℕ} {p q : ListenPhase} (h : (x.putCall c p).calls d = some q) :
    (d = c ∧ q = p) ∨ (d ≠ c ∧ x.calls d = some q) :=
  update_eq_some h

/-- As long as someone has a reference to the receiver, no connection was dropped, and those
that were refused were refused by a full queue. -/
structure Kept (x : InboundRun) : Prop where
  numbered : ∀ c p, x.calls c = some p → c < x.callCount
  held : x.isOpen = true → x.stateHeld = true
  kept : x.isReachable = true → x.dropped = [] ∧ ∀ r ∈ x.refused, r.2 = .full

/-- A step that drops and refuses nothing, and after which no one has a reference who had none. -/
theorem Kept.congr (h : x.Kept) (hc : ∀ c p, y.calls c = some p → c < y.callCount)
    (ho : y.isOpen = true → y.stateHeld = true)
    (hr : y.isReachable = true → x.isReachable = true) (hd : y.dropped = x.dropped)
    (hf : y.refused = x.refused) : y.Kept where
  numbered := hc
  held := ho
  kept hy := by
    rw [hd, hf]
    exact h.kept (hr hy)

theorem Kept.reap (h : x.Kept) : x.reap.Kept := by
  unfold InboundRun.reap
  split
  · exact h
  · rename_i hr
    refine ⟨h.numbered, h.held, ?_⟩
    intro hr'
    exact absurd hr' hr

theorem Kept.accept (h : x.Kept) : x.accept.Kept := by
  unfold InboundRun.accept
  split
  · rename_i hr
    refine ⟨h.numbered, h.held, ?_⟩
    intro hr'
    exact absurd (hr'.symm.trans hr) nofun
  · split
    · exact ⟨h.numbered, h.held, h.kept⟩
    · refine ⟨h.numbered, h.held, ?_⟩
      intro hr
      obtain ⟨hd, hf⟩ := h.kept hr
      refine ⟨hd, ?_⟩
      intro r hmem
      obtain hmem | hmem := List.mem_append.mp hmem
      · exact hf r hmem
      · rw [List.mem_singleton.mp hmem]

/-- A call that finds the endpoint is a reference only where there was one. -/
theorem Kept.listen (h : x.Kept) (endpoint : ℕ) : (x.listen endpoint).Kept := by
  have hput := @putCall_eq_some x x.callCount
  refine h.congr ?_ h.held ?_ rfl rfl
  · intro d q hd
    obtain ⟨rfl, -⟩ | ⟨-, hd⟩ := hput hd
    · exact Nat.lt_succ_self _
    · exact Nat.lt_succ_of_lt (h.numbered d q hd)
  · intro hr
    by_cases hopen : x.isOpen = true
    · exact isReachable_iff.mpr (.inl (h.held hopen))
    · refine isReachable_of_imp (y := x.listen endpoint) id rfl ?_ hr
      intro d _ hd
      obtain ⟨-, hq⟩ | ⟨-, hd⟩ := hput hd
      · rw [if_neg hopen] at hq
        cases hq
      · exact ⟨h.numbered d _ hd, hd⟩

theorem Kept.tryLock (h : x.Kept) (alpn : String) (hc : x.calls c = some .holding) :
    (x.tryLock alpn c).Kept := by
  have hlt := h.numbered c _ hc
  have hreach : x.isReachable = true := isReachable_iff.mpr (.inr (.inr ⟨c, hlt, hc⟩))
  have hnumbered : ∀ {p : ListenPhase} d q, (x.putCall c p).calls d = some q → d < x.callCount := by
    intro p d q hd
    obtain ⟨rfl, -⟩ | ⟨-, hd⟩ := putCall_eq_some hd
    · exact hlt
    · exact h.numbered d q hd
  unfold InboundRun.tryLock
  split
  · exact h.congr hnumbered h.held (fun _ => hreach) rfl rfl
  · refine Kept.reap ?_
    exact h.congr hnumbered h.held (fun _ => hreach) rfl rfl

theorem Kept.register (h : x.Kept) (hc : x.calls c = some (.spawned l)) :
    Kept { x.putCall c (.returned (.ok x.registry.next)) with
      registry := x.registry.insert (some l) } := by
  refine h.congr ?_ h.held (isReachable_of_imp id rfl ?_) rfl rfl
  · intro d q hd
    obtain ⟨rfl, -⟩ | ⟨-, hd⟩ := putCall_eq_some (x := x) hd
    · exact h.numbered d _ hc
    · exact h.numbered d q hd
  · intro d hlt hd
    obtain ⟨-, hq⟩ | ⟨-, hd⟩ := putCall_eq_some (x := x) hd
    · cases hq
    · exact ⟨hlt, hd⟩

theorem Kept.stop (h : x.Kept) (handle : ℕ) : (x.stop handle).Kept := by
  unfold InboundRun.stop
  split
  · split
    · exact ⟨h.numbered, h.held, h.kept⟩
    · exact ⟨h.numbered, h.held, h.kept⟩
  · exact ⟨h.numbered, h.held, h.kept⟩
  · exact h

/-- The owner of the lock is a reference, so what it leaves was kept. -/
theorem Kept.task (h : x.Kept) (ho : x.Owned) (ht : x.listeners l = some t)
    (hs : TaskSteps x l t a y) : y.Kept := by
  have hunlock (hp : t.phase.holds = true) (t' : Listener) : (x.unlock l t').Kept := by
    have hreach : x.isReachable = true :=
      isReachable_iff.mpr (.inr (.inl ⟨l, ho.owner l t ht hp⟩))
    refine Kept.reap ?_
    exact h.congr h.numbered h.held (fun _ => hreach) rfl rfl
  cases hs with
  | poll hp => exact ⟨h.numbered, h.held, h.kept⟩
  | yield hp => exact ⟨h.numbered, h.held, h.kept⟩
  | drop hp ha => exact hunlock (by rw [hp]; rfl) _
  | recv hp hq => exact ⟨h.numbered, h.held, h.kept⟩
  | ending hp hq hr => exact ⟨h.numbered, h.held, h.kept⟩
  | insert hp => exact ⟨h.numbered, h.held, h.kept⟩
  | deliver hp => exact ⟨h.numbered, h.held, h.kept⟩
  | onClose hp => exact ⟨h.numbered, h.held, h.kept⟩
  | finish hp => exact hunlock (by rw [hp]; rfl) _

theorem Kept.release (h : x.Kept) (hopen : x.isOpen = false) :
    { x with stateHeld := false }.reap.Kept := by
  refine Kept.reap ?_
  refine h.congr h.numbered (fun ho => absurd (ho.symm.trans hopen) nofun) ?_ rfl rfl
  exact isReachable_of_imp (fun hs => absurd hs Bool.false_ne_true) rfl
    fun c hlt hc => ⟨hlt, hc⟩

theorem kept_invariant (endpoint : ℕ) (alpn : String) :
    (inboundMachine endpoint alpn).Invariant Any (fun x => x.Owned ∧ x.Kept) := by
  refine (owned_invariant endpoint alpn).under ?_ ?_
  · rintro x rfl
    refine ⟨?_, fun _ => rfl, fun _ => ⟨rfl, ?_⟩⟩
    · intro c p hc
      cases hc
    · intro r hr
      cases hr
  · intro x b y ho hx _ h
    cases steps h with
    | accept hr => exact hx.accept
    | listen => exact hx.listen endpoint
    | tryLock hc => exact hx.tryLock alpn hc
    | register hc => exact hx.register hc
    | stop handle => exact hx.stop handle
    | task ht hs => exact hx.task ho ht hs
    | close => exact ⟨hx.numbered, fun hopen => absurd hopen Bool.false_ne_true, hx.kept⟩
    | shutdown hopen => exact ⟨hx.numbered, hx.held, hx.kept⟩
    | release hopen => exact hx.release hopen
    | connect => exact ⟨hx.numbered, hx.held, hx.kept⟩
    | disconnect handle => exact ⟨hx.numbered, hx.held, hx.kept⟩
    | listenOther => exact ⟨hx.numbered, hx.held, hx.kept⟩

/-! ## The law of the queue -/

/-- What holds of the connections accepted so far.

A connection that was accepted was handed over, or is in the hands of the listener that has
just received it, or waits, or was dropped with the queue, or was refused. -/
structure InboundLaw (x : InboundRun) : Prop where
  exclusive : ∀ l m t u, x.listeners l = some t → x.listeners m = some u →
    t.phase.holds = true → u.phase.holds = true → l = m
  held : ∀ l, x.lock = some l → ∃ t, x.listeners l = some t ∧ t.phase.holds = true
  bounded : x.queue.length ≤ INBOUND_BACKLOG
  account : (x.handed.map Delivered.conn ++ x.carried.toList.map Prod.fst ++ x.queue ++
    x.dropped ++ x.refused.map Prod.fst).Perm (List.range x.accepted)
  order : (x.handed.map Delivered.conn ++ x.carried.toList.map Prod.fst ++ x.queue).Pairwise
    (· < ·)
  fresh : (x.handed.map Delivered.handle ++ x.carried.toList.filterMap Prod.snd ++
    x.others).Nodup
  full : x.accept.refused = x.refused ++ [(x.accepted, .full)] →
    x.queue.length = INBOUND_BACKLOG
  kept : (x.isOpen = true ∨ ∃ l t, x.listeners l = some t ∧ t.phase.holds = true) →
    x.dropped = [] ∧ ∀ r ∈ x.refused, r.2 = .full
  stop : ∀ handle, (x.stop handle).queue = x.queue ∧ (x.stop handle).carried = x.carried ∧
    (x.stop handle).handed = x.handed ∧ (x.stop handle).dropped = x.dropped ∧
    (x.stop handle).refused = x.refused
  drop : ∀ l t y, x.listeners l = some t → x.taskStep l t .drop = some y →
    x.carried = none ∧ y.handed = x.handed ∧ (x.isOpen = true → y.queue = x.queue)

theorem Kept.of_open (h : x.Kept)
    (ho : x.isOpen = true ∨ ∃ l, x.lock = some l) : x.isReachable = true := by
  refine isReachable_iff.mpr ?_
  obtain hopen | hlock := ho
  · exact .inl (h.held hopen)
  · exact .inr (.inl hlock)

theorem refused_full (h : x.accept.refused = x.refused ++ [(x.accepted, .full)])
    (hb : x.queue.length ≤ INBOUND_BACKLOG) : x.queue.length = INBOUND_BACKLOG := by
  unfold accept at h
  split at h
  · rw [List.append_cancel_left_eq] at h
    cases h
  · split at h
    · have hlen := congrArg List.length h
      simp at hlen
    · rename_i hlt
      exact Nat.le_antisymm hb (Nat.le_of_not_lt hlt)

theorem stop_records (x : InboundRun) (handle : ℕ) :
    (x.stop handle).handed = x.handed ∧ (x.stop handle).refused = x.refused := by
  unfold InboundRun.stop
  split
  · split <;> exact ⟨rfl, rfl⟩
  · exact ⟨rfl, rfl⟩
  · exact ⟨rfl, rfl⟩

theorem inboundLaw {endpoint : ℕ} {alpn : String}
    (hx : (inboundMachine endpoint alpn).Reachable Any x) : InboundLaw x := by
  obtain ⟨ho, hk⟩ := (kept_invariant endpoint alpn).reachable hx
  have hl := lawful hx
  have hconn : x.handover.handed.map Delivery.item = x.handed.map Delivered.conn := by
    rw [handover, List.map_map]
    rfl
  have hhandle : x.handover.handed.map Delivery.ticket = x.handed.map Delivered.handle := by
    rw [handover, List.map_map]
    rfl
  have hline : x.handover.line =
      x.handed.map Delivered.conn ++ x.carried.toList.map Prod.fst ++ x.queue := by
    rw [Handover.line, hconn]
    rfl
  refine ⟨?_, ho.locked, hl.bounded, ?_, ?_, ?_, fun h => refused_full h hl.bounded, ?_, ?_, ?_⟩
  · intro l m t u ht hu hpt hpu
    exact Option.some.inj ((ho.owner l t ht hpt).symm.trans (ho.owner m u hu hpu))
  · have := hl.account
    rwa [hline] at this
  · have := hl.order
    rwa [hline] at this
  · have := hl.fresh
    rwa [Handover.tickets, hhandle] at this
  · rintro (hopen | ⟨l, t, ht, hp⟩)
    · exact hk.kept (hk.of_open (.inl hopen))
    · exact hk.kept (hk.of_open (.inr ⟨l, ho.owner l t ht hp⟩))
  · intro handle
    have hsame := stop_handover x handle
    obtain ⟨hhanded, hrefused⟩ := stop_records x handle
    exact ⟨congrArg Handover.waiting hsame, congrArg Handover.carried hsame, hhanded,
      congrArg Handover.lost hsame, hrefused⟩
  · intro l t y ht h
    cases taskSteps h with
    | drop hp ha =>
        refine ⟨(ho.carried ht (by rw [hp]; rfl)).trans (by rw [hp]; rfl), ?_, ?_⟩
        · exact reap_handed
        · intro hopen
          have hreach : { x.putListener l { t with phase := .dropped } with
              lock := none }.isReachable = true := isReachable_iff.mpr (.inl (hk.held hopen))
          rw [InboundRun.unlock, reap_of_isReachable hreach]
          rfl

def chatAfter (actions : List InboundAction) : InboundRun :=
  ((inboundMachine 1 "chat").run {} actions).getD {}

/-- A listener is stopped with connections in the queue, and another one goes on with them. -/
def listenStopListen : List InboundAction :=
  [.accept, .listen, .tryLock 0, .register 0, .accept, .task 0 .poll, .task 0 .recv,
    .task 0 .insert, .stop 1, .task 0 .deliver, .task 0 .yield, .connect, .task 0 .drop, .accept,
    .listen, .tryLock 1, .register 1, .task 1 .poll, .task 1 .recv, .task 1 .insert,
    .task 1 .deliver]

theorem inboundLaw_listenStopListen :
    (chatAfter listenStopListen).handed = [⟨0, 0, 1⟩, ⟨1, 1, 3⟩] ∧
      (chatAfter listenStopListen).queue = [2] ∧ InboundLaw (chatAfter listenStopListen) := by
  have hx : (inboundMachine 1 "chat").Reachable Any (chatAfter listenStopListen) :=
    Machine.reachable_getD rfl (by decide +kernel) _
  exact ⟨by decide +kernel, by decide +kernel, inboundLaw hx⟩

/-- The endpoint is closed while a connection waits, and no listener is attached. -/
def acceptClose : List InboundAction := [.accept, .close, .shutdown, .release]

theorem not_waiting_or_handed_or_refused :
    ¬ ∀ x, (inboundMachine 1 "chat").Reachable Any x → ∀ conn < x.accepted,
      conn ∈ x.queue ∨ conn ∈ x.handed.map Delivered.conn ∨ (conn, .full) ∈ x.refused := by
  intro h
  have hx : (inboundMachine 1 "chat").Reachable Any (chatAfter acceptClose) :=
    Machine.reachable_getD rfl (by decide +kernel) _
  have hall := h _ hx 0 (by decide +kernel)
  revert hall
  decide +kernel

end Iroh.Core.InboundRun
