import ReactNativeIroh.Core.AcceptTask

/-!
# The close of a connection and its report

The accept task calls `on_close` with the reason of the connection, once.  But dropping the state of
the connection aborts the task, and `stream_close_connection` drops it right after it has
closed the connection.  The close is reported if the task is not parked, or about to be,
when the last reference to the state goes.
-/

namespace Iroh.Core.RawConnection

open Transition

variable {handle : ℕ} {x y z : RawConnection} {p : AcceptPhase} {a : AcceptAction}
  {b : RawConnectionAction}

/-! ## The steps -/

/-- What a step of the accept task can do. -/
inductive TaskSteps (x : RawConnection) : AcceptPhase → AcceptAction → RawConnection → Prop where
  | poll (ha : x.aborted = false) : TaskSteps x .waiting .poll (x.put .polled)
  | accept :
      TaskSteps x .polled .accept { x.put .accepted with incoming := x.incoming - 1 }
  | insert :
      TaskSteps x .accepted .insert
        { x.put (.registered x.streams.next) with streams := x.streams.insert x.framing }
  | deliver (handle : ℕ) :
      TaskSteps x (.registered handle) .deliver
        { x.put .polled with handed := x.handed ++ [handle] }
  | pend (hr : x.reason = none) : TaskSteps x .polled .pend (x.put .pending)
  | park : TaskSteps x .pending .park (x.put .waiting)
  | drop (ha : x.aborted = true) : TaskSteps x .waiting .drop (x.put .dropped)
  | fail {err : ConnectionError} (hr : x.reason = some err) :
      TaskSteps x .polled .fail (x.put (.failed err))
  | onClose (err : ConnectionError) :
      TaskSteps x (.failed err) .onClose
        { x.put .reported with closes := x.closes ++ [connectionCloseReason err] }
  | finish : TaskSteps x .reported .finish (x.put .ended)

theorem taskSteps (h : x.taskStep p a = some y) : TaskSteps x p a y := by
  cases a with
  | poll =>
      obtain ⟨⟨rfl, ha⟩, hy⟩ := Option.ite_none_right_eq_some.mp h
      obtain rfl := Option.some.inj hy
      exact .poll ha
  | accept =>
      obtain ⟨⟨rfl, -⟩, hy⟩ := Option.ite_none_right_eq_some.mp h
      obtain rfl := Option.some.inj hy
      exact .accept
  | insert =>
      obtain ⟨rfl, hy⟩ := Option.ite_none_right_eq_some.mp h
      obtain rfl := Option.some.inj hy
      exact .insert
  | deliver =>
      simp only [taskStep] at h
      split at h
      · obtain rfl := Option.some.inj h
        exact .deliver _
      · cases h
  | pend =>
      obtain ⟨⟨rfl, -, hr⟩, hy⟩ := Option.ite_none_right_eq_some.mp h
      obtain rfl := Option.some.inj hy
      exact .pend hr
  | park =>
      obtain ⟨rfl, hy⟩ := Option.ite_none_right_eq_some.mp h
      obtain rfl := Option.some.inj hy
      exact .park
  | drop =>
      obtain ⟨⟨rfl, ha⟩, hy⟩ := Option.ite_none_right_eq_some.mp h
      obtain rfl := Option.some.inj hy
      exact .drop ha
  | fail =>
      simp only [taskStep] at h
      split at h
      · rename_i hr
        obtain rfl := Option.some.inj h
        exact .fail hr
      · cases h
  | onClose =>
      simp only [taskStep] at h
      split at h
      · obtain rfl := Option.some.inj h
        exact .onClose _
      · cases h
  | finish =>
      obtain ⟨rfl, hy⟩ := Option.ite_none_right_eq_some.mp h
      obtain rfl := Option.some.inj hy
      exact .finish

/-- What a step of the machine can do. -/
inductive Steps (handle : ℕ) (x : RawConnection) : RawConnectionAction → RawConnection → Prop where
  | peerOpen : Steps handle x .peerOpen { x with incoming := x.incoming + 1 }
  | lose (err : ConnectionError) : Steps handle x (.lose err) (x.terminate err)
  | subscribe (framing : Framing) (hs : x.subscription = .unsubscribed) :
      Steps handle x (.subscribe framing) (x.subscribe handle framing)
  | spawn (hs : x.subscription = .lookedUp) :
      Steps handle x .spawn { x.put .waiting with subscription := .spawned }
  | store (hs : x.subscription = .spawned) :
      Steps handle x .store { x with subscription := .returned (.ok ()), stored := true }.release
  | task {p : AcceptPhase} {a : AcceptAction} {y : RawConnection} (hp : x.task = some p)
      (hs : TaskSteps x p a y) : Steps handle x (.task a) y
  | remove :
      Steps handle x .remove
        (if x.registered then { x with registered := false, closing := .removed } else x)
  | close (hc : x.closing = .removed) :
      Steps handle x .close { x.terminate .locallyClosed with closing := .closed }
  | dropState (hc : x.closing = .closed) :
      Steps handle x .dropState { x with closing := .returned }.release
  | openStream :
      Steps handle x .openStream
        (if x.registered then { x with opening := x.opening ++ [x.framing] } else x)
  | opened {i : ℕ} {framing : Framing} (ok : Bool) (hi : x.opening[i]? = some framing) :
      Steps handle x (.opened i ok)
        { x with
          opening := x.opening.eraseIdx i
          streams := if ok then x.streams.insert framing else x.streams }.release

theorem steps (h : x.step handle b = some y) : Steps handle x b y := by
  cases b with
  | peerOpen =>
      obtain ⟨-, h⟩ := Option.ite_none_right_eq_some.mp h
      obtain rfl := Option.some.inj h
      exact .peerOpen
  | lose err =>
      obtain rfl := Option.some.inj h
      exact .lose err
  | subscribe framing =>
      simp only [step] at h
      split at h
      · rename_i hs
        obtain rfl := Option.some.inj h
        exact .subscribe framing hs
      · cases h
  | spawn =>
      simp only [step] at h
      split at h
      · rename_i hs
        obtain rfl := Option.some.inj h
        exact .spawn hs
      · cases h
  | store =>
      simp only [step] at h
      split at h
      · rename_i hs
        obtain rfl := Option.some.inj h
        exact .store hs
      · cases h
  | task a =>
      obtain ⟨p, hp, h⟩ := Option.bind_eq_some_iff.mp h
      exact .task hp (taskSteps h)
  | remove =>
      obtain rfl := Option.some.inj h
      exact .remove
  | close =>
      obtain ⟨hc, h⟩ := Option.ite_none_right_eq_some.mp h
      obtain rfl := Option.some.inj h
      exact .close hc
  | dropState =>
      obtain ⟨hc, h⟩ := Option.ite_none_right_eq_some.mp h
      obtain rfl := Option.some.inj h
      exact .dropState hc
  | openStream =>
      obtain rfl := Option.some.inj h
      exact .openStream
  | opened i ok =>
      simp only [step] at h
      split at h
      · rename_i hi
        obtain rfl := Option.some.inj h
        exact .opened ok hi
      · cases h

/-! ## What the task has reported -/

/-- What was reported when the task is in this phase. -/
def Fits (x : RawConnection) : AcceptPhase → Prop
  | .failed err => x.reason = some err ∧ x.closes = []
  | .reported | .ended => ∃ err, x.reason = some err ∧ x.closes = [connectionCloseReason err]
  | _ => x.closes = []

/-- The task reports the reason of the connection, and the state is dropped only once the
connection has one. -/
structure Sound (x : RawConnection) : Prop where
  fits : ∀ p, x.task = some p → x.Fits p
  silent : x.task = none → x.closes = []
  unspawned : x.subscription = .unsubscribed ∨ x.subscription = .lookedUp → x.task = none
  spawned : x.subscription = .spawned ∨ x.subscription = .returned (.ok ()) ∨ x.stored = true →
    ∃ p, x.task = some p
  stored : ∀ p, x.task = some p → x.subscription = .spawned ∨ x.stored = true
  removed : x.registered = false → x.closing ≠ .unclosed
  closed : x.closing = .closed ∨ x.closing = .returned → ∃ err, x.reason = some err
  aborted : x.aborted = true → (∃ err, x.reason = some err) ∧ x.stored = true

theorem Fits.congr (h : x.Fits p) (hr : ∀ err, x.reason = some err → y.reason = some err)
    (hc : y.closes = x.closes) : y.Fits p := by
  cases p with
  | failed err => exact ⟨hr err h.1, hc.trans h.2⟩
  | reported | ended =>
      obtain ⟨err, hreason, hcloses⟩ := h
      exact ⟨err, hr err hreason, hc.trans hcloses⟩
  | waiting | polled | pending | accepted | registered _ | dropped => exact hc.trans h

theorem terminate_reason {err e : ConnectionError} (h : x.reason = some err) :
    (x.terminate e).reason = some err := by
  simp [terminate, h]

theorem terminate_ended (x : RawConnection) (e : ConnectionError) :
    ∃ err, (x.terminate e).reason = some err := by
  cases h : x.reason with
  | none => exact ⟨e, by simp [terminate, h]⟩
  | some err => exact ⟨err, terminate_reason h⟩

/-- The state is dropped after its connection was closed. -/
theorem Sound.ended (h : x.Sound) (hr : x.references = 0) : ∃ err, x.reason = some err := by
  have hregistered : x.registered = false := by
    cases hx : x.registered with
    | false => rfl
    | true => simp [references, hx] at hr
  refine h.closed ?_
  cases hc : x.closing with
  | unclosed => exact absurd hc (h.removed hregistered)
  | removed => simp [references, hc, ClosingPhase.refers] at hr
  | closed => exact .inl rfl
  | returned => exact .inr rfl

theorem Sound.release (h : x.Sound) : x.release.Sound where
  fits := h.fits
  silent := h.silent
  unspawned := h.unspawned
  spawned := h.spawned
  stored := h.stored
  removed := h.removed
  closed := h.closed
  aborted := by
    intro ha
    obtain ha | ha := Bool.or_eq_true_iff.mp ha
    · exact h.aborted ha
    · obtain ⟨hrefs, hstored⟩ := Bool.and_eq_true_iff.mp ha
      exact ⟨h.ended (beq_iff_eq.mp hrefs), hstored⟩

/-- The task moves on, and the rest of the state is as it was. -/
theorem Sound.move (h : x.Sound) {q : AcceptPhase} (hp : x.task = some p)
    (ht : y.task = some q) (hq : y.Fits q) (hsub : y.subscription = x.subscription)
    (hst : y.stored = x.stored) (hreg : y.registered = x.registered)
    (hcl : y.closing = x.closing) (hr : y.reason = x.reason) (ha : y.aborted = x.aborted) :
    y.Sound where
  fits r hy := by
    obtain rfl := Option.some.inj (ht.symm.trans hy)
    exact hq
  silent hy := by rw [ht] at hy; cases hy
  unspawned hy := by
    rw [hsub] at hy
    rw [h.unspawned hy] at hp
    cases hp
  spawned _ := ⟨q, ht⟩
  stored _ _ := by
    rw [hsub, hst]
    exact h.stored p hp
  removed hy := by
    rw [hcl]
    exact h.removed (hreg ▸ hy)
  closed hy := by
    rw [hr]
    exact h.closed (hcl ▸ hy)
  aborted hy := by
    rw [hr, hst]
    exact h.aborted (ha ▸ hy)

theorem Sound.task (h : x.Sound) (hp : x.task = some p) (hs : TaskSteps x p a y) : y.Sound := by
  have hfits := h.fits p hp
  cases hs with
  | poll ha => exact h.move hp rfl hfits rfl rfl rfl rfl rfl rfl
  | accept => exact h.move hp rfl hfits rfl rfl rfl rfl rfl rfl
  | insert => exact h.move hp rfl hfits rfl rfl rfl rfl rfl rfl
  | deliver handle => exact h.move hp rfl hfits rfl rfl rfl rfl rfl rfl
  | pend hr => exact h.move hp rfl hfits rfl rfl rfl rfl rfl rfl
  | park => exact h.move hp rfl hfits rfl rfl rfl rfl rfl rfl
  | drop ha => exact h.move hp rfl hfits rfl rfl rfl rfl rfl rfl
  | fail hr => exact h.move hp rfl ⟨hr, hfits⟩ rfl rfl rfl rfl rfl rfl
  | onClose err =>
      obtain ⟨hreason, hcloses⟩ := hfits
      refine h.move hp rfl ⟨err, hreason, ?_⟩ rfl rfl rfl rfl rfl rfl
      show x.closes ++ _ = _
      rw [hcloses, List.nil_append]
  | finish => exact h.move hp rfl hfits rfl rfl rfl rfl rfl rfl

theorem Sound.terminate (h : x.Sound) (err : ConnectionError) : (x.terminate err).Sound where
  fits p hp := (h.fits p hp).congr (fun _ hr => terminate_reason hr) rfl
  silent := h.silent
  unspawned := h.unspawned
  spawned := h.spawned
  stored := h.stored
  removed := h.removed
  closed hc := by
    obtain ⟨e, he⟩ := h.closed hc
    exact ⟨e, terminate_reason he⟩
  aborted ha := by
    obtain ⟨⟨e, he⟩, hstored⟩ := h.aborted ha
    exact ⟨⟨e, terminate_reason he⟩, hstored⟩

theorem Sound.subscribe (h : x.Sound) (hs : x.subscription = .unsubscribed) (framing : Framing) :
    (x.subscribe handle framing).Sound := by
  have htask := h.unspawned (.inl hs)
  have hstored {q : Prop} : ∀ p, x.task = some p → q := by
    intro p hp
    rw [htask] at hp
    cases hp
  unfold RawConnection.subscribe
  split
  · refine ⟨h.fits, h.silent, fun _ => htask, ?_, fun _ => hstored _, h.removed, h.closed,
      h.aborted⟩
    rintro (hy | hy | hy)
    · cases hy
    · cases hy
    · exact h.spawned (.inr (.inr hy))
  · refine ⟨h.fits, h.silent, fun _ => htask, ?_, fun _ => hstored _, h.removed, h.closed,
      h.aborted⟩
    rintro (hy | hy | hy)
    · cases hy
    · cases hy
    · exact h.spawned (.inr (.inr hy))

theorem Sound.spawn (h : x.Sound) (hs : x.subscription = .lookedUp) :
    Sound { x.put .waiting with subscription := .spawned } where
  fits p hp := by
    obtain rfl := Option.some.inj hp
    exact h.silent (h.unspawned (.inr hs))
  silent hy := by cases hy
  unspawned hy := by obtain hy | hy := hy <;> cases hy
  spawned _ := ⟨_, rfl⟩
  stored _ _ := .inl rfl
  removed := h.removed
  closed := h.closed
  aborted := h.aborted

theorem Sound.store (h : x.Sound) (hs : x.subscription = .spawned) :
    Sound { x with subscription := .returned (.ok ()), stored := true } where
  fits := h.fits
  silent := h.silent
  unspawned hy := by obtain hy | hy := hy <;> cases hy
  spawned _ := h.spawned (.inl hs)
  stored _ _ := .inr rfl
  removed := h.removed
  closed := h.closed
  aborted ha := ⟨(h.aborted ha).1, rfl⟩

theorem Sound.remove (h : x.Sound) :
    Sound (if x.registered then { x with registered := false, closing := .removed } else x) := by
  split
  · exact ⟨h.fits, h.silent, h.unspawned, h.spawned, h.stored, fun _ => nofun, nofun, h.aborted⟩
  · exact h

theorem Sound.step (h : x.Sound) (hs : Steps handle x b y) : y.Sound := by
  cases hs with
  | peerOpen => exact ⟨h.fits, h.silent, h.unspawned, h.spawned, h.stored, h.removed, h.closed,
      h.aborted⟩
  | lose err => exact h.terminate err
  | subscribe framing hsub => exact h.subscribe hsub framing
  | spawn hsub => exact h.spawn hsub
  | store hsub => exact (h.store hsub).release
  | task hp hs => exact h.task hp hs
  | remove => exact h.remove
  | close hc =>
      have ht := h.terminate .locallyClosed
      have hended := x.terminate_ended .locallyClosed
      exact ⟨ht.fits, ht.silent, ht.unspawned, ht.spawned, ht.stored, fun _ => nofun,
        fun _ => hended, ht.aborted⟩
  | dropState hc =>
      have hreason := h.closed (.inl hc)
      exact Sound.release ⟨h.fits, h.silent, h.unspawned, h.spawned, h.stored, fun _ => nofun,
        fun _ => hreason, h.aborted⟩
  | openStream =>
      split
      · exact ⟨h.fits, h.silent, h.unspawned, h.spawned, h.stored, h.removed, h.closed, h.aborted⟩
      · exact h
  | opened ok hi =>
      exact Sound.release ⟨h.fits, h.silent, h.unspawned, h.spawned, h.stored, h.removed, h.closed,
        h.aborted⟩

theorem sound_invariant (handle : ℕ) : (rawConnectionMachine handle).Invariant Any Sound where
  init := by
    rintro x rfl
    refine ⟨nofun, fun _ => rfl, fun _ => rfl, ?_, nofun, nofun, ?_, nofun⟩
    · rintro (h | h | h) <;> cases h
    · rintro (h | h) <;> cases h
  step := by
    intro x b y hx _ h
    exact hx.step (steps h)

/-! ## The last reference -/

/-- The step lets go of a reference to the state. -/
def releases : RawConnectionAction → Bool
  | .store | .dropState | .opened _ _ => true
  | _ => false

/-- The last reference to the state goes when the task is neither parked nor about to be. -/
def Attended (x : RawConnection) (b : RawConnectionAction) : Prop :=
  releases b = true → x.references = 1 → x.task ≠ some .waiting ∧ x.task ≠ some .pending

instance : Decidable (Attended x b) :=
  inferInstanceAs (Decidable (releases b = true → x.references = 1 →
    x.task ≠ some .waiting ∧ x.task ≠ some .pending))

/-- A task that was aborted is not parked, and no task was dropped. -/
structure Minded (x : RawConnection) : Prop where
  kept : x.task ≠ some .dropped
  awake : x.aborted = true → x.task ≠ some .waiting ∧ x.task ≠ some .pending

/-- The task was aborted when it was parked or about to be, and has reported nothing. -/
structure Lost (x : RawConnection) : Prop where
  aborted : x.aborted = true
  task : x.task = some .waiting ∨ x.task = some .pending ∨ x.task = some .dropped

/-- A step that lets go of a reference drops the state if it was the last. -/
theorem aborted_release (h : y.release.aborted = true) : y.aborted = true ∨ y.references = 0 := by
  obtain h | h := Bool.or_eq_true_iff.mp h
  · exact .inl h
  · exact .inr (beq_iff_eq.mp (Bool.and_eq_true_iff.mp h).1)

theorem Minded.release (h : x.Minded) (hG : Attended x b) (hb : releases b = true)
    (hrefs : x.references = y.references + 1) (ht : y.task = x.task)
    (ha : y.aborted = x.aborted) : y.release.Minded := by
  refine ⟨?_, ?_⟩
  · show y.task ≠ _
    rw [ht]
    exact h.kept
  · intro haborted
    show y.task ≠ _ ∧ y.task ≠ _
    rw [ht]
    obtain hbefore | hlast := aborted_release haborted
    · exact h.awake (ha ▸ hbefore)
    · exact hG hb (by rw [hrefs, hlast])

theorem Minded.congr (h : x.Minded) (ht : y.task = x.task) (ha : y.aborted = x.aborted) :
    y.Minded where
  kept := ht ▸ h.kept
  awake := by
    rw [ht, ha]
    exact h.awake

/-- A worker that has a task in hand goes on until the task has nothing to do. -/
theorem minded_of_task {q : AcceptPhase} (ht : y.task = some q)
    (ha : y.aborted = x.aborted) (hd : q ≠ .dropped)
    (hq : x.aborted = true → q ≠ .waiting ∧ q ≠ .pending) : y.Minded := by
  have hne {r : AcceptPhase} (hr : q ≠ r) : y.task ≠ some r := by
    rw [ht]
    exact fun heq => hr (Option.some.inj heq)
  refine ⟨hne hd, ?_⟩
  intro haborted
  obtain ⟨hw, hp⟩ := hq (ha ▸ haborted)
  exact ⟨hne hw, hne hp⟩

theorem Minded.task (h : x.Minded) (hx : x.Sound) (hp : x.task = some p)
    (hs : TaskSteps x p a y) : y.Minded := by
  cases hs with
  | poll ha => exact minded_of_task rfl rfl nofun fun _ => ⟨nofun, nofun⟩
  | accept => exact minded_of_task rfl rfl nofun fun _ => ⟨nofun, nofun⟩
  | insert => exact minded_of_task rfl rfl nofun fun _ => ⟨nofun, nofun⟩
  | deliver handle => exact minded_of_task rfl rfl nofun fun _ => ⟨nofun, nofun⟩
  | pend hr =>
      refine minded_of_task rfl rfl nofun fun ha => ?_
      obtain ⟨⟨err, herr⟩, -⟩ := hx.aborted ha
      rw [hr] at herr
      cases herr
  | park => exact minded_of_task rfl rfl nofun fun ha => absurd hp (h.awake ha).2
  | drop ha => exact absurd hp (h.awake ha).1
  | fail hr => exact minded_of_task rfl rfl nofun fun _ => ⟨nofun, nofun⟩
  | onClose err => exact minded_of_task rfl rfl nofun fun _ => ⟨nofun, nofun⟩
  | finish => exact minded_of_task rfl rfl nofun fun _ => ⟨nofun, nofun⟩

/-- The steps that let go of a reference let go of one. -/
theorem references_store (hs : x.subscription = .spawned) :
    x.references =
      references { x with subscription := .returned (.ok ()), stored := true } + 1 := by
  simp only [references, hs, SubscribePhase.refers, Bool.toNat_true, Bool.toNat_false]
  omega

theorem references_dropState (hc : x.closing = .closed) :
    x.references = references { x with closing := .returned } + 1 := by
  simp only [references, hc, ClosingPhase.refers, Bool.toNat_true, Bool.toNat_false]
  omega

theorem references_opened {i : ℕ} {framing : Framing} (hi : x.opening[i]? = some framing)
    (streams : Registry Framing) :
    x.references = references { x with opening := x.opening.eraseIdx i, streams } + 1 := by
  obtain ⟨hlt, -⟩ := List.getElem?_eq_some_iff.mp hi
  simp only [references, List.length_eraseIdx_of_lt hlt]
  omega

theorem Minded.step (h : x.Minded) (hx : x.Sound) (hG : Attended x b) (hs : Steps handle x b y) :
    y.Minded := by
  cases hs with
  | peerOpen => exact h.congr rfl rfl
  | lose err => exact h.congr rfl rfl
  | subscribe framing hsub =>
      unfold RawConnection.subscribe
      split <;> exact h.congr rfl rfl
  | spawn hsub =>
      refine minded_of_task (x := x) rfl rfl nofun fun ha => ?_
      obtain ⟨p, hp⟩ := hx.spawned (.inr (.inr (hx.aborted ha).2))
      rw [hx.unspawned (.inr hsub)] at hp
      cases hp
  | store hsub => exact h.release hG rfl (references_store hsub) rfl rfl
  | task hp hs => exact h.task hx hp hs
  | remove => split <;> exact h.congr rfl rfl
  | close hc => exact h.congr rfl rfl
  | dropState hc => exact h.release hG rfl (references_dropState hc) rfl rfl
  | openStream => split <;> exact h.congr rfl rfl
  | opened ok hi => exact h.release hG rfl (references_opened hi _) rfl rfl

theorem minded_invariant (handle : ℕ) :
    (rawConnectionMachine handle).Invariant Attended (fun x => x.Sound ∧ x.Minded) := by
  refine (sound_invariant handle).guard.under ?_ ?_
  · rintro x rfl
    exact ⟨nofun, nofun⟩
  · intro x b y hs hx hG h
    exact hx.step hs hG (steps h)

theorem Lost.congr (h : x.Lost) (ht : y.task = x.task)
    (ha : x.aborted = true → y.aborted = true) : y.Lost :=
  ⟨ha h.aborted, ht ▸ h.task⟩

/-- What was lost stays lost. -/
theorem Lost.step (h : x.Lost) (hs : Steps handle x b y) : y.Lost := by
  cases hs with
  | peerOpen => exact h.congr rfl id
  | lose err => exact h.congr rfl id
  | subscribe framing hsub =>
      unfold RawConnection.subscribe
      split <;> exact h.congr rfl id
  | spawn hsub => exact ⟨h.aborted, .inl rfl⟩
  | store hsub => exact h.congr rfl fun ha => by simp [RawConnection.release, ha]
  | task hp hs =>
      have htask := h.task
      rw [hp] at htask
      cases hs with
      | poll ha => rw [h.aborted] at ha; cases ha
      | park => exact ⟨h.aborted, .inl rfl⟩
      | drop ha => exact ⟨h.aborted, .inr (.inr rfl)⟩
      | accept | insert | deliver _ | pend _ | fail _ | onClose _ | finish =>
          obtain h | h | h := htask <;> cases h
  | remove => split <;> exact h.congr rfl id
  | close hc => exact h.congr rfl id
  | dropState hc => exact h.congr rfl fun ha => by simp [RawConnection.release, ha]
  | openStream => split <;> exact h.congr rfl id
  | opened ok hi => exact h.congr rfl fun ha => by simp [RawConnection.release, ha]

theorem Lost.unreported (h : x.Lost) (hx : x.Sound) : x.closes = [] := by
  obtain h | h | h := h.task
  · exact hx.fits _ h
  · exact hx.fits _ h
  · exact hx.fits _ h

/-- The task has its handle stored when the last reference goes. -/
theorem lost_of_not_attended (hx : x.Sound) (hG : ¬ Attended x b) (hs : Steps handle x b y) :
    y.Lost := by
  simp only [Attended, Classical.not_imp, not_and_or, not_not] at hG
  obtain ⟨hb, hrefs, hp⟩ := hG
  have htask : x.task = some .waiting ∨ x.task = some .pending ∨ x.task = some .dropped := by
    obtain hp | hp := hp
    · exact .inl hp
    · exact .inr (.inl hp)
  have hstored : x.subscription = .spawned ∨ x.stored = true := by
    obtain hp | hp := hp
    · exact hx.stored _ hp
    · exact hx.stored _ hp
  have hdrop {w : RawConnection} (ht : w.task = x.task) (hlast : x.references = w.references + 1)
      (hst : w.stored = true) : w.release.Lost := by
    refine ⟨?_, ?_⟩
    · have hzero : w.references = 0 := by omega
      simp [RawConnection.release, hzero, hst]
    · show w.task = _ ∨ w.task = _ ∨ w.task = _
      rw [ht]
      exact htask
  -- While the subscription has not returned, it refers to the state as well.
  have hreturned (hmore : x.subscription = .spawned → 2 ≤ x.references) : x.stored = true := by
    obtain hsub | hst := hstored
    · have := hmore hsub
      omega
    · exact hst
  cases hs with
  | store hsub => exact hdrop rfl (references_store hsub) rfl
  | dropState hc =>
      refine hdrop rfl (references_dropState hc) (hreturned fun hsub => ?_)
      simp only [references, hsub, hc, SubscribePhase.refers, ClosingPhase.refers, Bool.toNat_true]
      omega
  | opened ok hi =>
      refine hdrop rfl (references_opened hi _) (hreturned fun hsub => ?_)
      obtain ⟨hlt, -⟩ := List.getElem?_eq_some_iff.mp hi
      simp only [references, hsub, SubscribePhase.refers, Bool.toNat_true]
      omega
  | peerOpen | lose _ | subscribe _ _ | spawn _ | task _ _ | remove | close _ | openStream =>
      cases hb

/-! ## The report -/

/-- The task can take no step. -/
def Quiet (handle : ℕ) (x : RawConnection) : Prop := ∀ a, x.step handle (.task a) = none

/-- A close by one of the two sides. -/
def Deliberate : ConnectionError → Bool
  | .locallyClosed | .applicationClosed _ => true
  | .other _ => false

/-- `on_close` was called once, with no error if and only if the close was deliberate. -/
def CloseReported (x : RawConnection) : Prop :=
  ∃ err r, x.reason = some err ∧ x.closes = [r] ∧ (r = none ↔ Deliberate err = true)

theorem connectionCloseReason_eq_none (err : ConnectionError) :
    connectionCloseReason err = none ↔ Deliberate err = true := by
  cases err <;> simp [connectionCloseReason, Deliberate]

theorem ended_of_quiet (hq : x.Quiet handle) (hp : x.task = some p)
    (hr : ∃ err, x.reason = some err) : p = .ended ∨ p = .dropped := by
  obtain ⟨err, hr⟩ := hr
  have hnone (a : AcceptAction) : x.taskStep p a = none := by
    have := hq a
    simpa [RawConnection.step, hp] using this
  cases p with
  | waiting =>
      cases ha : x.aborted with
      | false => exact absurd (hnone .poll) (by simp [taskStep, ha])
      | true => exact absurd (hnone .drop) (by simp [taskStep, ha])
  | polled => exact absurd (hnone .fail) (by simp [taskStep, hr])
  | pending => exact absurd (hnone .park) (by simp [taskStep])
  | accepted => exact absurd (hnone .insert) (by simp [taskStep])
  | registered h => exact absurd (hnone .deliver) (by simp [taskStep])
  | failed e => exact absurd (hnone .onClose) (by simp [taskStep])
  | reported => exact absurd (hnone .finish) (by simp [taskStep])
  | ended => exact .inl rfl
  | dropped => exact .inr rfl

/-- Every close is reported in a run in which the task is attended when the state is dropped,
and none is after a step that drops the state when it is not. -/
theorem closeReported (handle : ℕ) :
    (∀ x, (rawConnectionMachine handle).Reachable Attended x →
      x.subscription = .returned (.ok ()) → x.reason ≠ none → x.Quiet handle → x.CloseReported) ∧
    ∀ x b y, (rawConnectionMachine handle).Reachable Any x → ¬ Attended x b →
      x.step handle b = some y →
      ∀ z, (rawConnectionMachine handle).Leads Any y z → z.closes = [] := by
  refine ⟨?_, ?_⟩
  · intro x hx hsub hreason hq
    obtain ⟨hs, hm⟩ := (minded_invariant handle).reachable hx
    obtain ⟨p, hp⟩ := hs.spawned (.inr (.inl hsub))
    obtain rfl | rfl := ended_of_quiet hq hp (Option.ne_none_iff_exists'.mp hreason)
    · obtain ⟨err, hr, hc⟩ := hs.fits _ hp
      exact ⟨err, _, hr, hc, connectionCloseReason_eq_none err⟩
    · exact absurd hp hm.kept
  · intro x b y hx hG hstep z hz
    have hs := (sound_invariant handle).reachable hx
    have hlost := lost_of_not_attended hs hG (steps hstep)
    have hrun : z.Sound ∧ z.Lost := by
      refine Machine.Leads.keeps (I := fun w => w.Sound ∧ w.Lost) ?_ hz
        ⟨hs.step (steps hstep), hlost⟩
      rintro w a v ⟨hw, hl⟩ - h
      exact ⟨hw.step (steps h), hl.step (steps h)⟩
    exact hrun.2.unreported hrun.1

def connectionAfter (actions : List RawConnectionAction) : RawConnection :=
  ((rawConnectionMachine 7).run {} actions).getD {}

/-- The peer closes a connection, the task reports it, and the host closes it after. -/
def closeByPeer : List RawConnectionAction :=
  [.subscribe .framed, .spawn, .store, .task .poll, .peerOpen, .task .accept, .task .insert,
    .task .deliver, .lose (.applicationClosed "done"), .task .fail, .task .onClose, .task .finish,
    .remove, .close, .dropState]

/-- The host closes a connection that is idle. -/
def closeIdle : List RawConnectionAction :=
  [.subscribe .framed, .spawn, .task .poll, .store, .task .pend, .task .park, .remove, .close]

theorem closeReported_closeByPeer :
    (connectionAfter closeByPeer).CloseReported ∧
      (connectionAfter (closeIdle ++ [.dropState, .task .drop])).closes = [] := by
  have hx : (rawConnectionMachine 7).Reachable Attended (connectionAfter closeByPeer) :=
    Machine.reachable_getD_of_guarded rfl (by decide +kernel) (by decide +kernel) _
  have hidle : (rawConnectionMachine 7).Reachable Any (connectionAfter closeIdle) :=
    Machine.reachable_getD rfl (by decide +kernel) _
  have hq : (connectionAfter closeByPeer).Quiet 7 := by
    intro a
    cases a <;> rfl
  obtain ⟨hreported, hlost⟩ := closeReported 7
  refine ⟨hreported _ hx rfl nofun hq, ?_⟩
  exact hlost _ .dropState (connectionAfter (closeIdle ++ [.dropState])) hidle (by decide +kernel)
    rfl _ (.single (.task .drop) trivial rfl)

theorem not_closeReported :
    ¬ ∀ x, (rawConnectionMachine 7).Reachable Any x → x.subscription = .returned (.ok ()) →
      x.reason ≠ none → x.Quiet 7 → x.CloseReported := by
  intro h
  have hx : (rawConnectionMachine 7).Reachable Any
      (connectionAfter (closeIdle ++ [.dropState, .task .drop])) :=
    Machine.reachable_getD rfl (by decide +kernel) _
  have hq : (connectionAfter (closeIdle ++ [.dropState, .task .drop])).Quiet 7 := by
    intro a
    cases a <;> rfl
  obtain ⟨err, r, -, hc, -⟩ := h _ hx rfl nofun hq
  cases hc

end Iroh.Core.RawConnection
