import ReactNativeIroh.Core.InboundLaw

/-!
# Listening again

Stopping a listener only tells its task to stop.  The lock of the queue is free when the runtime
has dropped the task, so a call of `stream_listen` that comes after the stop finds the receiver
unlocked exactly when the task was dropped before the call tries the lock.
-/

namespace Iroh.Core.InboundRun

open Transition

variable {endpoint : ℕ} {alpn : String} {x y : InboundRun} {l c : ℕ} {t : Listener}
  {a : ListenerAction} {b : InboundAction}

/-- Every listener of the ALPN was stopped, or has ended. -/
def Stopped (x : InboundRun) : Prop :=
  ∀ l t, x.listeners l = some t → t.aborted = true ∨ t.phase.holds = false

/-- The task of every listener that was stopped is over. -/
def Released (x : InboundRun) : Prop :=
  ∀ l t, x.listeners l = some t → t.aborted = true → t.phase.holds = false

/-- The endpoint stays open, and no call of `stream_listen` but `c` takes the lock. -/
def Relisten (c : ℕ) (_ : InboundRun) (b : InboundAction) : Prop :=
  b ≠ .close ∧ ∀ d, b = .tryLock d → d = c

/-- The call tries the lock when the listeners that were stopped are over. -/
def RelistenReleased (c : ℕ) (x : InboundRun) (b : InboundAction) : Prop :=
  Relisten c x b ∧ ∀ d, b = .tryLock d → x.Released

/-! ## What the steps leave alone -/

@[simp] theorem reap_calls : x.reap.calls = x.calls := by
  unfold reap
  split <;> rfl

@[simp] theorem reap_isOpen : x.reap.isOpen = x.isOpen := by
  unfold reap
  split <;> rfl

/-- The step of a task changes its listener, which stays stopped if it was. -/
theorem TaskSteps.frame (hs : TaskSteps x l t a y) :
    (∃ t', y.listeners = Function.update x.listeners l (some t') ∧ t'.aborted = t.aborted) ∧
      y.calls = x.calls ∧ y.isOpen = x.isOpen := by
  cases hs with
  | poll hp => exact ⟨⟨_, rfl, rfl⟩, rfl, rfl⟩
  | yield hp => exact ⟨⟨_, rfl, rfl⟩, rfl, rfl⟩
  | drop hp ha => exact ⟨⟨_, reap_listeners, rfl⟩, reap_calls, reap_isOpen⟩
  | recv hp hq => exact ⟨⟨_, rfl, rfl⟩, rfl, rfl⟩
  | ending hp hq hr => exact ⟨⟨_, rfl, rfl⟩, rfl, rfl⟩
  | insert hp => exact ⟨⟨_, rfl, rfl⟩, rfl, rfl⟩
  | deliver hp => exact ⟨⟨_, rfl, rfl⟩, rfl, rfl⟩
  | onClose hp => exact ⟨⟨_, rfl, rfl⟩, rfl, rfl⟩
  | finish hp => exact ⟨⟨_, reap_listeners, rfl⟩, reap_calls, reap_isOpen⟩

/-- Only a listener that has the lock takes a step. -/
theorem TaskSteps.holds (hs : TaskSteps x l t a y) : t.phase.holds = true := by
  cases hs with
  | poll hp => exact hp
  | yield hp | drop hp _ | recv hp _ | ending hp _ _ | insert hp | deliver hp | onClose hp
    | finish hp => rw [hp]; rfl

theorem accept_frame (x : InboundRun) :
    x.accept.listeners = x.listeners ∧ x.accept.calls = x.calls ∧ x.accept.isOpen = x.isOpen := by
  unfold accept
  split
  · exact ⟨rfl, rfl, rfl⟩
  · split <;> exact ⟨rfl, rfl, rfl⟩

theorem stop_frame (x : InboundRun) (handle : ℕ) :
    (x.stop handle).calls = x.calls ∧ (x.stop handle).isOpen = x.isOpen := by
  unfold InboundRun.stop
  split
  · split <;> exact ⟨rfl, rfl⟩
  · exact ⟨rfl, rfl⟩
  · exact ⟨rfl, rfl⟩

/-! ## The listeners stay stopped -/

theorem Stopped.congr (h : x.Stopped) (hl : y.listeners = x.listeners) : y.Stopped := by
  intro l t ht
  exact h l t (hl ▸ ht)

theorem Stopped.task (h : x.Stopped) (ht : x.listeners l = some t) (hs : TaskSteps x l t a y) :
    y.Stopped := by
  obtain ⟨⟨t', hl, ha⟩, -⟩ := hs.frame
  intro m u hu
  rw [hl] at hu
  obtain ⟨rfl, rfl⟩ | ⟨-, hm⟩ := update_eq_some hu
  · obtain hstopped | hover := h m t ht
    · exact .inl (ha.trans hstopped)
    · rw [hs.holds] at hover
      cases hover
  · exact h m u hm

theorem Stopped.stop (h : x.Stopped) (handle : ℕ) : (x.stop handle).Stopped := by
  unfold InboundRun.stop
  split
  · split
    · intro m u hu
      obtain ⟨rfl, rfl⟩ | ⟨-, hm⟩ := putListener_eq_some hu
      · exact .inl rfl
      · exact h m u hm
    · exact h.congr rfl
  · exact h.congr rfl
  · exact h

/-- Once the stopped listeners are over, the lock is free. -/
theorem Stopped.unlocked (h : x.Stopped) (ho : x.Owned) (hr : x.Released) : x.lock = none := by
  cases hlock : x.lock with
  | none => rfl
  | some l =>
      obtain ⟨t, ht, hp⟩ := ho.locked l hlock
      obtain hstopped | hover := h l t ht
      · rw [hr l t ht hstopped] at hp
        cases hp
      · rw [hover] at hp
        cases hp

/-! ## The call that listens again -/

/-- The call is not made yet, or tries the lock next, or has taken it. -/
inductive Again (x : InboundRun) (c : ℕ) : Prop where
  | unmade (hc : x.calls c = none) (hs : x.Stopped)
  | holding (hc : x.calls c = some .holding) (hs : x.Stopped)
  | spawned (l : ℕ) (hc : x.calls c = some (.spawned l))
  | listening (handle : ℕ) (hc : x.calls c = some (.returned (.ok handle)))

theorem Again.congr (h : x.Again c) (hc : y.calls c = x.calls c)
    (hs : x.Stopped → y.Stopped) : y.Again c := by
  cases h with
  | unmade hx hst => exact .unmade (hc.trans hx) (hs hst)
  | holding hx hst => exact .holding (hc.trans hx) (hs hst)
  | spawned l hx => exact .spawned l (hc.trans hx)
  | listening handle hx => exact .listening handle (hc.trans hx)

theorem Again.listen (h : x.Again c) (hk : x.Kept) (hopen : x.isOpen = true) :
    (x.listen endpoint).Again c := by
  rcases eq_or_ne c x.callCount with rfl | hne
  · have hcall : (x.listen endpoint).calls x.callCount = some .holding := by
      simp [InboundRun.listen, putCall, hopen]
    cases h with
    | unmade hx hst => exact .holding hcall (hst.congr rfl)
    | holding hx _ => exact absurd (hk.numbered _ _ hx) (Nat.lt_irrefl _)
    | spawned l hx => exact absurd (hk.numbered _ _ hx) (Nat.lt_irrefl _)
    | listening handle hx => exact absurd (hk.numbered _ _ hx) (Nat.lt_irrefl _)
  · exact h.congr (Function.update_of_ne hne ..) fun hst => hst.congr rfl

theorem Again.tryLock (h : x.Again c) (alpn : String) (ho : x.Owned) (hr : x.Released)
    (hc : x.calls c = some .holding) : (x.tryLock alpn c).Again c := by
  have hstopped : x.Stopped := by
    cases h with
    | unmade hx hst => exact hst
    | holding hx hst => exact hst
    | spawned l hx => rw [hx] at hc; cases hc
    | listening handle hx => rw [hx] at hc; cases hc
  have hlock := hstopped.unlocked ho hr
  refine .spawned x.listenerCount ?_
  simp [InboundRun.tryLock, hlock, putCall]

theorem Again.register (h : x.Again c) {d : ℕ} (hd : x.calls d = some (.spawned l)) :
    Again { x.putCall d (.returned (.ok x.registry.next)) with
      registry := x.registry.insert (some l) } c := by
  rcases eq_or_ne c d with rfl | hne
  · exact .listening x.registry.next (Function.update_self ..)
  · exact h.congr (Function.update_of_ne hne ..) fun hst => hst.congr rfl

theorem Again.step (h : x.Again c) (hopen : x.isOpen = true) (ho : x.Owned) (hk : x.Kept)
    (hG : RelistenReleased c x b) (hs : Steps endpoint alpn x b y) :
    y.isOpen = true ∧ y.Again c := by
  cases hs with
  | accept hr =>
      obtain ⟨hl, hc, hop⟩ := accept_frame x
      exact ⟨hop.trans hopen, h.congr (congrFun hc c) fun hst => hst.congr hl⟩
  | listen => exact ⟨hopen, h.listen hk hopen⟩
  | tryLock hc =>
      obtain rfl := hG.1.2 _ rfl
      have hagain := h.tryLock alpn ho (hG.2 _ rfl) hc
      refine ⟨?_, hagain⟩
      unfold InboundRun.tryLock
      split
      · exact hopen
      · exact reap_isOpen.trans hopen
  | register hc => exact ⟨hopen, h.register hc⟩
  | stop handle =>
      obtain ⟨hc, hop⟩ := stop_frame x handle
      exact ⟨hop.trans hopen, h.congr (congrFun hc c) fun hst => hst.stop handle⟩
  | task ht hs =>
      obtain ⟨-, hc, hop⟩ := hs.frame
      exact ⟨hop.trans hopen, h.congr (congrFun hc c) fun hst => hst.task ht hs⟩
  | close => exact absurd rfl hG.1.1
  | shutdown hclosed => rw [hopen] at hclosed; cases hclosed
  | release hclosed => rw [hopen] at hclosed; cases hclosed
  | connect => exact ⟨hopen, h.congr rfl fun hst => hst.congr rfl⟩
  | disconnect handle => exact ⟨hopen, h.congr rfl fun hst => hst.congr rfl⟩
  | listenOther => exact ⟨hopen, h.congr rfl fun hst => hst.congr rfl⟩

/-- A run that goes on from a state in which the listeners are stopped. -/
theorem Again.run (hx : (inboundMachine endpoint alpn).Reachable Any x) (hopen : x.isOpen = true)
    (hs : x.Stopped) (hc : x.callCount ≤ c)
    (hy : (inboundMachine endpoint alpn).Leads (RelistenReleased c) x y) : y.Again c := by
  have hkept := (kept_invariant endpoint alpn).reachable hx
  have hunmade : x.calls c = none := by
    cases hcall : x.calls c with
    | none => rfl
    | some p => exact absurd (hkept.2.numbered c p hcall) (Nat.not_lt.mpr hc)
  have hrun : (y.Owned ∧ y.Kept) ∧ y.isOpen = true ∧ y.Again c := by
    refine Machine.Leads.keeps (I := fun z => (z.Owned ∧ z.Kept) ∧ z.isOpen = true ∧ z.Again c)
      ?_ hy ⟨hkept, hopen, .unmade hunmade hs⟩
    rintro z a w ⟨⟨ho, hk⟩, hop, hagain⟩ hG h
    refine ⟨(kept_invariant endpoint alpn).step z a w ⟨ho, hk⟩ trivial h, ?_⟩
    exact hagain.step hop ho hk hG (steps h)
  exact hrun.2.2

/-- A call that tries the lock while the task of a stopped listener is not over. -/
theorem tryLock_of_not_released (ho : x.Owned) (hr : ¬ x.Released) :
    (x.tryLock alpn c).calls c =
      some (.returned (.error (.streamListen ("already listening on alpn " ++ alpn)))) := by
  simp only [Released, not_forall] at hr
  obtain ⟨l, t, ht, -, hp⟩ := hr
  have hlock := ho.owner l t ht (Bool.not_eq_false _ ▸ hp)
  simp [InboundRun.tryLock, hlock, putCall]

/-- A call that comes after the stop of the only listener. -/
theorem relisten (hx : (inboundMachine endpoint alpn).Reachable Any x) (hopen : x.isOpen = true)
    (hs : x.Stopped) (hc : x.callCount ≤ c) :
    (∀ y, (inboundMachine endpoint alpn).Leads (RelistenReleased c) x y →
      ∀ r, y.calls c = some (.returned r) → ∃ handle, r = .ok handle) ∧
    ∀ y, (inboundMachine endpoint alpn).Leads (Relisten c) x y →
      y.calls c = some .holding → ¬ y.Released →
      (y.tryLock alpn c).calls c =
        some (.returned (.error (.streamListen ("already listening on alpn " ++ alpn)))) := by
  refine ⟨?_, ?_⟩
  · intro y hy r hr
    cases Again.run hx hopen hs hc hy with
    | unmade hcall _ => rw [hcall] at hr; cases hr
    | holding hcall _ => rw [hcall] at hr; cases hr
    | spawned l hcall => rw [hcall] at hr; cases hr
    | listening handle hcall =>
        rw [hcall] at hr
        cases hr
        exact ⟨handle, rfl⟩
  · intro y hy _ hr
    have howned : y.Owned := by
      refine Machine.Leads.keeps ?_ hy ((owned_invariant endpoint alpn).reachable hx)
      intro z a w hz _ h
      exact (owned_invariant endpoint alpn).step z a w hz trivial h
    exact tryLock_of_not_released howned hr

/-- The listener of an ALPN is stopped, and its task was not dropped yet. -/
def listenStop : List InboundAction := [.listen, .tryLock 0, .register 0, .stop 1]

theorem stopped_listenStop : (chatAfter listenStop).Stopped := by
  have hlisteners : (chatAfter listenStop).listeners =
      Function.update (Function.update (fun _ => none) 0 (some {})) 0
        (some { aborted := true }) := rfl
  intro l t ht
  rw [hlisteners] at ht
  obtain ⟨-, rfl⟩ | ⟨hne, ht⟩ := update_eq_some ht
  · exact .inl rfl
  · rw [Function.update_of_ne hne] at ht
    cases ht

/-- The call that follows at once. -/
def listenAtOnce : List InboundAction := listenStop ++ [.listen]

/-- The call that follows when the task was dropped. -/
def listenAfterDrop : List InboundAction := listenStop ++ [.task 0 .drop, .listen]

theorem leads_listenAtOnce :
    (inboundMachine 1 "chat").Leads (Relisten 1) (chatAfter listenStop) (chatAfter listenAtOnce) :=
  .single .listen ⟨nofun, nofun⟩ rfl

theorem not_released_listenAtOnce : ¬ (chatAfter listenAtOnce).Released := by
  intro h
  cases h 0 { aborted := true } rfl rfl

theorem released_listenAfterDrop : (chatAfter listenAfterDrop).Released := by
  have hlisteners : (chatAfter listenAfterDrop).listeners =
      Function.update (chatAfter listenStop).listeners 0
        (some { phase := .dropped, aborted := true }) := rfl
  intro l t ht ha
  rw [hlisteners] at ht
  obtain ⟨-, rfl⟩ | ⟨hne, ht⟩ := update_eq_some ht
  · rfl
  · have hnone : (chatAfter listenStop).listeners l = none := by
      have : (chatAfter listenStop).listeners =
          Function.update (Function.update (fun _ => none) 0 (some {})) 0
            (some { aborted := true }) := rfl
      simp [this, Function.update_of_ne hne]
    rw [hnone] at ht
    cases ht

theorem leads_listenAfterDrop :
    (inboundMachine 1 "chat").Leads (RelistenReleased 1) (chatAfter listenStop)
      (chatAfter (listenAfterDrop ++ [.tryLock 1, .register 1])) := by
  refine .cons (.task 0 .drop) ⟨⟨nofun, nofun⟩, nofun⟩ rfl ?_
  refine .cons .listen ⟨⟨nofun, nofun⟩, nofun⟩ rfl ?_
  refine .cons (.tryLock 1) ⟨⟨nofun, ?_⟩, ?_⟩ rfl ?_
  · rintro d ⟨⟩
    rfl
  · rintro d -
    exact released_listenAfterDrop
  · exact .single (.register 1) ⟨⟨nofun, nofun⟩, nofun⟩ rfl

theorem relisten_listenStop :
    (∃ handle, (chatAfter (listenAfterDrop ++ [.tryLock 1, .register 1])).calls 1 =
      some (.returned (.ok handle))) ∧
    ((chatAfter listenAtOnce).tryLock "chat" 1).calls 1 =
      some (.returned (.error (.streamListen "already listening on alpn chat"))) := by
  have hx : (inboundMachine 1 "chat").Reachable Any (chatAfter listenStop) :=
    Machine.reachable_getD rfl (by decide +kernel) _
  obtain ⟨hok, herr⟩ := relisten hx rfl stopped_listenStop (c := 1) (Nat.le_refl 1)
  refine ⟨?_, herr _ leads_listenAtOnce rfl not_released_listenAtOnce⟩
  obtain ⟨handle, h⟩ := hok _ leads_listenAfterDrop (.ok 2) rfl
  exact ⟨handle, h ▸ rfl⟩

theorem not_relisten :
    ¬ ∀ x, (inboundMachine 1 "chat").Reachable Any x → x.isOpen = true → x.Stopped →
      ∀ c, x.callCount ≤ c → ∀ y, (inboundMachine 1 "chat").Leads (Relisten c) x y →
        ∀ r, y.calls c = some (.returned r) → ∃ handle, r = .ok handle := by
  intro h
  have hx : (inboundMachine 1 "chat").Reachable Any (chatAfter listenStop) :=
    Machine.reachable_getD rfl (by decide +kernel) _
  have hlock : (inboundMachine 1 "chat").Leads (Relisten 1) (chatAfter listenAtOnce)
      ((chatAfter listenAtOnce).tryLock "chat" 1) := by
    refine .single (.tryLock 1) ⟨nofun, ?_⟩ rfl
    rintro d ⟨⟩
    rfl
  obtain ⟨handle, hr⟩ := h _ hx rfl stopped_listenStop 1 (Nat.le_refl 1) _
    (leads_listenAtOnce.trans hlock) (.error (.streamListen "already listening on alpn chat")) rfl
  cases hr

end Iroh.Core.InboundRun
