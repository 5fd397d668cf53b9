import ReactNativeIroh.Core.InboundQueue

/-!
# The owner of an inbound queue

The task that holds the lock of the queue is the only one that can receive from it.  The
lock goes from one task to the next only when the first is over, be it that it ended or that it
was aborted and dropped.
-/

namespace Iroh.Core.InboundRun

open Transition

variable {x y : InboundRun} {l m c : ℕ} {t t' u : Listener} {a : ListenerAction}

/-! ## The steps -/

/-- What a step of the task of a listener can do. -/
inductive TaskSteps (x : InboundRun) (l : ℕ) (t : Listener) :
    ListenerAction → InboundRun → Prop where
  | poll (hp : t.phase.holds = true) :
      TaskSteps x l t .poll (x.putListener l { t with polled := true })
  | yield (hp : t.phase = .waiting) :
      TaskSteps x l t .yield (x.putListener l { t with polled := false })
  | drop (hp : t.phase = .waiting) (ha : t.aborted = true) :
      TaskSteps x l t .drop (x.unlock l { t with phase := .dropped })
  | recv {conn : ℕ} {queue : List ℕ} (hp : t.phase = .waiting) (hq : x.queue = conn :: queue) :
      TaskSteps x l t .recv { x.putListener l { t with phase := .taken conn } with queue }
  | ending (hp : t.phase = .waiting) (hq : x.queue = []) (hr : x.routed = false) :
      TaskSteps x l t .recv (x.putListener l { t with phase := .ending })
  | insert {conn : ℕ} (hp : t.phase = .taken conn) :
      TaskSteps x l t .insert
        { x.putListener l { t with phase := .registered conn x.connections.next } with
          connections := x.connections.insert (some conn) }
  | deliver {conn handle : ℕ} (hp : t.phase = .registered conn handle) :
      TaskSteps x l t .deliver
        { x.putListener l { t with phase := .waiting } with
          handed := x.handed ++ [⟨l, conn, handle⟩] }
  | onClose (hp : t.phase = .ending) :
      TaskSteps x l t .onClose
        { x.putListener l { t with phase := .closed } with closes := x.closes ++ [l] }
  | finish (hp : t.phase = .closed) :
      TaskSteps x l t .finish (x.unlock l { t with phase := .ended, polled := false })

theorem taskSteps (h : x.taskStep l t a = some y) : TaskSteps x l t a y := by
  cases a with
  | poll =>
      obtain ⟨hp, h⟩ := Option.ite_none_right_eq_some.mp h
      obtain rfl := Option.some.inj h
      exact .poll hp.1
  | yield =>
      simp only [taskStep] at h
      split at h
      · rename_i hp _
        obtain rfl := Option.some.inj h
        exact .yield hp
      · cases h
  | drop =>
      simp only [taskStep] at h
      split at h
      · rename_i hp _ ha
        obtain rfl := Option.some.inj h
        exact .drop hp ha
      · cases h
  | recv =>
      simp only [taskStep] at h
      split at h
      · rename_i conn queue hp _ hq
        obtain rfl := Option.some.inj h
        exact .recv hp hq
      · rename_i hp _ hq
        split at h
        · cases h
        · rename_i hr
          obtain rfl := Option.some.inj h
          exact .ending hp hq (Bool.not_eq_true _ ▸ hr)
      · cases h
  | insert =>
      simp only [taskStep] at h
      split at h
      · rename_i conn hp
        obtain rfl := Option.some.inj h
        exact .insert hp
      · cases h
  | deliver =>
      simp only [taskStep] at h
      split at h
      · rename_i conn handle hp
        obtain rfl := Option.some.inj h
        exact .deliver hp
      · cases h
  | onClose =>
      simp only [taskStep] at h
      split at h
      · rename_i hp
        obtain rfl := Option.some.inj h
        exact .onClose hp
      · cases h
  | finish =>
      simp only [taskStep] at h
      split at h
      · rename_i hp
        obtain rfl := Option.some.inj h
        exact .finish hp
      · cases h

/-- What a step of the machine can do. -/
inductive Steps (endpoint : ℕ) (alpn : String) (x : InboundRun) :
    InboundAction → InboundRun → Prop where
  | accept (hr : x.routed = true) : Steps endpoint alpn x .accept x.accept
  | listen : Steps endpoint alpn x .listen (x.listen endpoint)
  | tryLock {c : ℕ} (hc : x.calls c = some .holding) :
      Steps endpoint alpn x (.tryLock c) (x.tryLock alpn c)
  | register {c l : ℕ} (hc : x.calls c = some (.spawned l)) :
      Steps endpoint alpn x (.register c)
        { x.putCall c (.returned (.ok x.registry.next)) with
          registry := x.registry.insert (some l) }
  | stop (handle : ℕ) : Steps endpoint alpn x (.stop handle) (x.stop handle)
  | task {l : ℕ} {t : Listener} {a : ListenerAction} {y : InboundRun}
      (ht : x.listeners l = some t) (hs : TaskSteps x l t a y) :
      Steps endpoint alpn x (.task l a) y
  | close : Steps endpoint alpn x .close { x with isOpen := false }
  | shutdown (hopen : x.isOpen = false) :
      Steps endpoint alpn x .shutdown { x with routed := false }
  | release (hopen : x.isOpen = false) :
      Steps endpoint alpn x .release { x with stateHeld := false }.reap
  | connect :
      Steps endpoint alpn x .connect
        { x with
          connections := x.connections.insert none, others := x.others ++ [x.connections.next] }
  | disconnect (handle : ℕ) :
      Steps endpoint alpn x (.disconnect handle)
        { x with connections := x.connections.remove handle }
  | listenOther :
      Steps endpoint alpn x .listenOther { x with registry := x.registry.insert none }

theorem steps {endpoint : ℕ} {alpn : String} {b : InboundAction}
    (h : x.step endpoint alpn b = some y) : Steps endpoint alpn x b y := by
  cases b with
  | accept =>
      obtain ⟨hr, h⟩ := Option.ite_none_right_eq_some.mp h
      obtain rfl := Option.some.inj h
      exact .accept hr
  | listen =>
      obtain rfl := Option.some.inj h
      exact .listen
  | tryLock c =>
      simp only [InboundRun.step] at h
      split at h
      · rename_i hc
        obtain rfl := Option.some.inj h
        exact .tryLock hc
      · cases h
  | register c =>
      simp only [InboundRun.step] at h
      split at h
      · rename_i hc
        obtain rfl := Option.some.inj h
        exact .register hc
      · cases h
  | stop handle =>
      obtain rfl := Option.some.inj h
      exact .stop handle
  | task l a =>
      obtain ⟨t, ht, h⟩ := Option.bind_eq_some_iff.mp h
      exact .task ht (taskSteps h)
  | close =>
      obtain rfl := Option.some.inj h
      exact .close
  | shutdown =>
      obtain ⟨hopen, h⟩ := Option.ite_none_left_eq_some.mp h
      obtain rfl := Option.some.inj h
      exact .shutdown (Bool.eq_false_iff.mpr hopen)
  | release =>
      obtain ⟨hopen, h⟩ := Option.ite_none_left_eq_some.mp h
      obtain rfl := Option.some.inj h
      exact .release (Bool.eq_false_iff.mpr hopen)
  | connect =>
      obtain rfl := Option.some.inj h
      exact .connect
  | disconnect handle =>
      obtain rfl := Option.some.inj h
      exact .disconnect handle
  | listenOther =>
      obtain rfl := Option.some.inj h
      exact .listenOther

/-! ## The updates -/

@[simp] theorem putListener_self : (x.putListener l t).listeners l = some t :=
  Function.update_self ..

theorem putListener_of_ne (h : m ≠ l) : (x.putListener l t).listeners m = x.listeners m :=
  Function.update_of_ne h ..

theorem putListener_eq_some (h : (x.putListener l t).listeners m = some u) :
    (m = l ∧ u = t) ∨ (m ≠ l ∧ x.listeners m = some u) :=
  update_eq_some h

@[simp] theorem reap_listeners : x.reap.listeners = x.listeners := by
  unfold reap
  split <;> rfl

@[simp] theorem reap_lock : x.reap.lock = x.lock := by
  unfold reap
  split <;> rfl

/-! ## The owner of the queue -/

/-- The listener that holds the lock is the only one that is not over. -/
structure Owned (x : InboundRun) : Prop where
  owner : ∀ l t, x.listeners l = some t → t.phase.holds = true → x.lock = some l
  locked : ∀ l, x.lock = some l → ∃ t, x.listeners l = some t ∧ t.phase.holds = true

theorem Owned.congr (h : x.Owned) (hl : y.listeners = x.listeners) (hk : y.lock = x.lock) :
    y.Owned where
  owner := by
    rw [hl, hk]
    exact h.owner
  locked := by
    rw [hl, hk]
    exact h.locked

/-- A listener may change as long as it stays in possession of the lock, or out of it. -/
theorem Owned.put (h : x.Owned) (ht : x.listeners l = some t)
    (hh : t'.phase.holds = t.phase.holds) : (x.putListener l t').Owned where
  owner := by
    intro m u hm hu
    obtain ⟨rfl, rfl⟩ | ⟨-, hm⟩ := putListener_eq_some hm
    · exact h.owner m t ht (hh ▸ hu)
    · exact h.owner m u hm hu
  locked := by
    intro m hm
    obtain ⟨u, hu, hp⟩ := h.locked m hm
    rcases eq_or_ne m l with rfl | hne
    · obtain rfl := Option.some.inj (ht.symm.trans hu)
      exact ⟨t', putListener_self, hh.trans hp⟩
    · exact ⟨u, (putListener_of_ne hne).trans hu, hp⟩

/-- The lock goes with the listener that held it. -/
theorem Owned.unlock (h : x.Owned) (ht : x.listeners l = some t) (hp : t.phase.holds = true)
    (hp' : t'.phase.holds = false) : (x.unlock l t').Owned := by
  refine Owned.congr (x := { x.putListener l t' with lock := none }) ?_ reap_listeners reap_lock
  refine ⟨?_, nofun⟩
  intro m u hm hu
  obtain ⟨rfl, rfl⟩ | ⟨hne, hm⟩ := putListener_eq_some hm
  · rw [hp'] at hu
    cases hu
  · have hl := (h.owner l t ht hp).symm.trans (h.owner m u hm hu)
    exact absurd (Option.some.inj hl).symm hne

theorem Owned.tryLock (h : x.Owned) (alpn : String) (c : ℕ) : (x.tryLock alpn c).Owned := by
  unfold InboundRun.tryLock
  split
  · rename_i hlock
    refine ⟨?_, ?_⟩
    · intro m u hm hu
      obtain ⟨rfl, -⟩ | ⟨-, hm⟩ := putListener_eq_some hm
      · rfl
      · have := h.owner m u hm hu
        rw [hlock] at this
        cases this
    · intro m hm
      obtain rfl := Option.some.inj hm
      exact ⟨{}, putListener_self, rfl⟩
  · exact h.congr reap_listeners reap_lock

theorem Owned.stop (h : x.Owned) (handle : ℕ) : (x.stop handle).Owned := by
  unfold InboundRun.stop
  split
  · split
    · rename_i ht
      refine (h.put ht ?_).congr rfl rfl
      rfl
    · exact h.congr rfl rfl
  · exact h.congr rfl rfl
  · exact h

theorem Owned.accept (h : x.Owned) : x.accept.Owned := by
  unfold InboundRun.accept
  split
  · exact h.congr rfl rfl
  · split <;> exact h.congr rfl rfl

theorem Owned.task (h : x.Owned) (ht : x.listeners l = some t) (hs : TaskSteps x l t a y) :
    y.Owned := by
  cases hs with
  | poll hp => exact h.put ht rfl
  | yield hp => exact h.put ht rfl
  | drop hp ha => exact h.unlock ht (by rw [hp]; rfl) rfl
  | recv hp hq => exact (h.put ht (by rw [hp]; rfl)).congr rfl rfl
  | ending hp hq hr => exact h.put ht (by rw [hp]; rfl)
  | insert hp => exact (h.put ht (by rw [hp]; rfl)).congr rfl rfl
  | deliver hp => exact (h.put ht (by rw [hp]; rfl)).congr rfl rfl
  | onClose hp => exact (h.put ht (by rw [hp]; rfl)).congr rfl rfl
  | finish hp => exact h.unlock ht (by rw [hp]; rfl) rfl

theorem owned_invariant (endpoint : ℕ) (alpn : String) :
    (inboundMachine endpoint alpn).Invariant Any Owned where
  init := by
    rintro x rfl
    refine ⟨?_, ?_⟩
    · intro l t ht
      cases ht
    · intro l hl
      cases hl
  step := by
    intro x b y hx _ h
    cases steps h with
    | accept hr => exact hx.accept
    | listen => exact hx.congr rfl rfl
    | tryLock hc => exact hx.tryLock alpn _
    | register hc => exact hx.congr rfl rfl
    | stop handle => exact hx.stop handle
    | task ht hs => exact hx.task ht hs
    | close => exact hx.congr rfl rfl
    | shutdown hopen => exact hx.congr rfl rfl
    | release hopen => exact hx.congr reap_listeners reap_lock
    | connect => exact hx.congr rfl rfl
    | disconnect handle => exact hx.congr rfl rfl
    | listenOther => exact hx.congr rfl rfl

end Iroh.Core.InboundRun
