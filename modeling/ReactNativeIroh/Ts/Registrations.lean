import ReactNativeIroh.Ts.ListenerLoop

/-!
# Registrations of listeners

Every `listen` makes a registration of its own, with its own unsubscribe function, and the
watchable counts them one by one.  The listeners themselves are a set, so two registrations of one
function share its entry, and the first of them to be unsubscribed takes the entry away.

A `RegistrationRun` is a watchable whose listeners do not call back, but may throw.  For each push
it keeps which listeners were called, and which were due: those of the registrations that were
active, while the watchable was open.
-/

namespace Iroh

open Transition

/-- A push: the listeners it called, those of the registrations that were active, and those that
had been unsubscribed since they were last subscribed. -/
structure Round (φ α : Type*) where
  value : α
  called : List φ
  due : List φ
  dropped : List φ
deriving DecidableEq

structure RegistrationRun (φ α ε ω : Type*) where
  watchable : Watchable φ α ε := {}
  owner : ω
  /-- The listeners unsubscribed since they were last subscribed. -/
  dropped : List φ := []
  rounds : List (Round φ α) := []
deriving DecidableEq

/-- What can happen.  A push comes with whether each listener it calls throws. -/
inductive RegistrationAction (φ α ε κ : Type*) where
  | push (v : α) (throws : List Bool)
  | close (error : Option ε)
  | consumer (i : κ) (e : ConsumerEvent φ)

namespace Watchable

variable {φ α ε : Type*}

/-- The listeners of the registrations that are active. -/
def active (s : Watchable φ α ε) : List φ := (s.registrations.filter (·.2)).map Prod.fst

/-- The listeners a push owes a call, one for each registration. -/
def due (s : Watchable φ α ε) : List φ := if s.closed then [] else s.active

/-- What becomes of the listeners unsubscribed since they were last subscribed. -/
def drops [DecidableEq φ] (s : Watchable φ α ε) (dropped : List φ) : ConsumerEvent φ → List φ
  | .listen listener => dropped.filter (· ≠ listener)
  | .unsubscribe k => dropped ++ (s.stops k).toList
  | _ => dropped

end Watchable

section Model

variable {φ α ε ω κ : Type*} [DecidableEq φ] (h : κ → WatchableHooks φ α ε ω)

namespace RegistrationRun

def after (i : κ) (e : ConsumerEvent φ) (x : RegistrationRun φ α ε ω) :
    RegistrationRun φ α ε ω :=
  let (watchable, owner) := Watchable.consume (h i) e (x.watchable, x.owner)
  { x with watchable, owner, dropped := x.watchable.drops x.dropped e }

/-- What is kept of a push. -/
def round (x : RegistrationRun φ α ε ω) (v : α) (pushed : Watchable φ α ε × ω) :
    RegistrationRun φ α ε ω :=
  { x with
    watchable := pushed.1
    owner := pushed.2
    rounds := x.rounds ++ [{
      value := v
      called := (pushed.1.calls.drop x.watchable.calls.length).map Prod.fst
      due := x.watchable.due
      dropped := x.dropped }] }

def step (x : RegistrationRun φ α ε ω) :
    RegistrationAction φ α ε κ → Option (RegistrationRun φ α ε ω)
  | .push v throws =>
      if x.watchable.listeners.length ≤ throws.length then
        (Watchable.reentrantPush h v (throws.map Reaction.quiet) (x.watchable, x.owner)).map
          (x.round v)
      else none
  | .close error => some { x with watchable := x.watchable.close error }
  | .consumer i e => some (x.after h i e)

end RegistrationRun

/-- The machine of one watchable whose listeners do not call back. -/
def registrationMachine :
    Machine (RegistrationRun φ α ε ω) (RegistrationAction φ α ε κ) where
  init x := ∃ w, x = { owner := w }
  step := RegistrationRun.step h

end Model

/-! ## The set and the registrations -/

namespace Watchable

variable {φ α ε ω : Type*} {h : WatchableHooks φ α ε ω} {s : Watchable φ α ε} {f : φ}
  {dropped : List φ}

theorem mem_active : f ∈ s.active ↔ (f, true) ∈ s.registrations := by
  simp [active]

theorem due_open (hs : s.closed = false) : s.due = s.active := by
  rw [due, if_neg (Bool.eq_false_iff.mp hs)]

theorem due_closed (hs : s.closed = true) : s.due = [] := if_pos hs

/-- Unsubscribing a registration leaves those of other listeners. -/
theorem mem_set_of_ne {g : φ} {k : ℕ} (hk : s.registrations[k]? = some (f, true)) (hg : g ≠ f) :
    (g, true) ∈ s.registrations.set k (f, false) ↔ (g, true) ∈ s.registrations := by
  constructor
  · intro hmem
    rcases List.mem_or_eq_of_mem_set hmem with hmem | he
    · exact hmem
    · exact absurd (Prod.mk.inj he).1 hg
  · intro hmem
    obtain ⟨i, hi⟩ := List.mem_iff_getElem?.mp hmem
    have hne : k ≠ i := by
      rintro rfl
      exact hg (Prod.mk.inj (Option.some.inj (hi.symm.trans hk))).1
    exact List.mem_of_getElem? ((List.getElem?_set_ne hne).trans hi)

/-- The set holds the listeners that have an active registration, but for those that were
unsubscribed since they were last subscribed. -/
structure Tracked (s : Watchable φ α ε) (dropped : List φ) : Prop where
  listed : s.Listed
  mem : s.closed = false → ∀ f, f ∈ s.listeners ↔ f ∈ s.active ∧ f ∉ dropped

theorem tracked_new : ({} : Watchable φ α ε).Tracked [] where
  listed := ⟨List.nodup_nil, nofun⟩
  mem _ f := by simp [active]

theorem Tracked.push (hs : s.Tracked dropped) (v : α) : (s.push v).Tracked dropped := by
  cases hc : s.closed with
  | true => rwa [push_closed hc]
  | false =>
      obtain ⟨made, he⟩ := push_open hc v
      rw [he]
      exact ⟨⟨hs.listed.nodup, hs.listed.closed⟩, hs.mem⟩

theorem Tracked.close (hs : s.Tracked dropped) (error : Option ε) :
    (s.close error).Tracked dropped where
  listed := hs.listed.close error
  mem hopen := absurd (hopen.symm.trans (close_closed error s)) Bool.noConfusion

/-- A push calls the listeners of the set, which a close has emptied. -/
theorem Listed.push_calls (hs : s.Listed) (v : α) :
    (s.push v).calls = s.calls ++ s.listeners.map fun listener => (listener, v) := by
  cases hc : s.closed with
  | true => rw [push_closed hc, hs.closed hc, List.map_nil, List.append_nil]
  | false =>
      obtain ⟨made, he⟩ := push_open hc v
      rw [he]

theorem close_calls (error : Option ε) (s : Watchable φ α ε) : (s.close error).calls = s.calls := by
  rcases MayClose.cases (.inr ⟨error, rfl⟩) with he | ⟨-, -, -, hcalls⟩
  · rw [he]
  · exact hcalls

/-- Whatever a consumer does, the set goes with the registrations but for those dropped. -/
theorem Tracked.consume [DecidableEq φ] (hs : s.Tracked dropped) (hh : Closes h)
    (e : ConsumerEvent φ) (w : ω) :
    (consume h e (s, w)).1.Tracked (s.drops dropped e) := by
  have hconsumed := consume_consumed hh e s w
  refine ⟨hs.listed.consume hh e w, fun hopen g => ?_⟩
  rcases hconsumed.listeners with ⟨hclosed, hlisteners⟩ | ⟨hclosed, -⟩
  · rw [hopen] at hclosed
    have hmem := hs.mem hclosed.symm
    have hnodup := hs.listed.nodup
    rw [mem_active, hconsumed.registrations, hlisteners]
    simp only [mem_active] at hmem
    cases e with
    | listen f =>
        have hlistens : s.listens (.listen f) =
            if f ∈ s.listeners then s.listeners else s.listeners ++ [f] := by
          simp [listens, ← hclosed]
        have hregisters : s.registers (.listen f) = s.registrations ++ [(f, true)] :=
          if_neg (by simp [← hclosed])
        rw [hlistens, hregisters]
        by_cases hg : g = f
        · subst hg
          simp only [drops, List.mem_append, List.mem_singleton, or_true, true_and, List.mem_filter]
          split
          · next hin => simp [hin]
          · simp
        · have hstays : g ∈ (if f ∈ s.listeners then s.listeners else s.listeners ++ [f]) ↔
              g ∈ s.listeners := by
            split
            · exact Iff.rfl
            · simp [hg]
          rw [hstays, hmem g]
          simp [drops, hg]
    | unsubscribe k =>
        simp only [listens, registers, drops]
        cases hk : s.stops k with
        | none => simp [hmem]
        | some f =>
            show g ∈ s.listeners.erase f ↔
              (g, true) ∈ s.registrations.set k (f, false) ∧ g ∉ dropped ++ [f]
            by_cases hg : g = f
            · subst hg
              simp [hnodup.not_mem_erase]
            · rw [List.mem_erase_of_ne hg, mem_set_of_ne (stops_eq_some.mp hk) hg, hmem g]
              simp [hg]
    | createIterator => exact hmem g
    | next k => exact hmem g
    | «return» k => exact hmem g
  · exact absurd (hopen.symm.trans hclosed) Bool.noConfusion

end Watchable

/-! ## One push -/

namespace Round

variable {φ α : Type*} {r : Round φ α}

/-- No listener that was due had been unsubscribed since it was last subscribed. -/
def Kept (r : Round φ α) : Prop := ∀ f ∈ r.due, f ∉ r.dropped

/-- A push called the listeners that were due, each once, but for those dropped. -/
structure Fair (r : Round φ α) : Prop where
  nodup : r.called.Nodup
  mem : ∀ f, f ∈ r.called ↔ f ∈ r.due ∧ f ∉ r.dropped

/-- One call for each registration. -/
theorem Fair.perm_iff (hr : r.Fair) : r.called.Perm r.due ↔ r.due.Nodup ∧ r.Kept := by
  constructor
  · intro hperm
    exact ⟨hperm.nodup_iff.mp hr.nodup, fun f hf => ((hr.mem f).mp (hperm.mem_iff.mpr hf)).2⟩
  · rintro ⟨hnodup, hkept⟩
    refine (List.perm_ext_iff_of_nodup hr.nodup hnodup).mpr fun f => ?_
    rw [hr.mem]
    exact ⟨fun hf => hf.1, fun hf => ⟨hf, hkept f hf⟩⟩

/-- One call for each listener that has a registration. -/
theorem Fair.count_iff [DecidableEq φ] (hr : r.Fair) :
    (∀ f, r.called.count f = if f ∈ r.due then 1 else 0) ↔ r.Kept := by
  constructor
  · intro hcount f hf
    have hpos : 0 < r.called.count f := by
      rw [hcount, if_pos hf]
      exact Nat.one_pos
    exact ((hr.mem f).mp (List.count_pos_iff.mp hpos)).2
  · intro hkept f
    split
    · next hf => exact List.count_eq_one_of_mem hr.nodup ((hr.mem f).mpr ⟨hf, hkept f hf⟩)
    · next hf => exact List.count_eq_zero.mpr fun hmem => hf ((hr.mem f).mp hmem).1

end Round

/-! ## Runs -/

section Runs

variable {φ α ε ω κ : Type*} [DecidableEq φ] {h : κ → WatchableHooks φ α ε ω}
  {x y : RegistrationRun φ α ε ω}

namespace RegistrationRun

/-- The listeners are called by the pushes. -/
def CalledByPush (x : RegistrationRun φ α ε ω) : Prop :=
  x.watchable.calls = x.rounds.flatMap fun r => r.called.map fun listener => (listener, r.value)

/-- Each registration has its listener called once for each push while it is active and the
watchable open, and never otherwise. -/
structure Independent (x : RegistrationRun φ α ε ω) : Prop where
  calls : x.CalledByPush
  each : ∀ r ∈ x.rounds, r.called.Perm r.due

/-- The same, where one call serves all the registrations of a listener. -/
structure Served (x : RegistrationRun φ α ε ω) : Prop where
  calls : x.CalledByPush
  each : ∀ r ∈ x.rounds, ∀ f, r.called.count f = if f ∈ r.due then 1 else 0

structure Sound (x : RegistrationRun φ α ε ω) : Prop where
  tracked : x.watchable.Tracked x.dropped
  calls : x.CalledByPush
  fair : ∀ r ∈ x.rounds, r.Fair

/-- A push calls its listeners whether they throw or not. -/
theorem Sound.step_push (hx : x.Sound) (v : α) {throws : List Bool}
    (hlength : x.watchable.listeners.length ≤ throws.length) :
    (registrationMachine h).step x (.push v throws) =
      some (x.round v (x.watchable.push v, x.owner)) := by
  show (if _ then _ else _) = _
  rw [if_pos hlength, Watchable.reentrantPush_quiet hx.tracked.listed x.owner v hlength]
  rfl

omit [DecidableEq φ] in
theorem Sound.round (hx : x.Sound) (v : α) :
    (x.round v (x.watchable.push v, x.owner)).Sound := by
  have hcalls := hx.tracked.listed.push_calls v
  have hcalled : ((x.watchable.push v).calls.drop x.watchable.calls.length).map Prod.fst =
      x.watchable.listeners := by
    rw [hcalls, List.drop_left, List.map_map]
    exact List.map_id _
  refine ⟨hx.tracked.push v, ?_, fun r hr => ?_⟩
  · show (x.watchable.push v).calls = _
    rw [RegistrationRun.round, List.flatMap_append, List.flatMap_singleton, hcalled, hcalls]
    exact congrArg (· ++ _) hx.calls
  · rcases List.mem_append.mp hr with hr | hr
    · exact hx.fair r hr
    · obtain rfl := List.mem_singleton.mp hr
      constructor
      · exact hcalled ▸ hx.tracked.listed.nodup
      · intro f
        show f ∈ ((x.watchable.push v).calls.drop x.watchable.calls.length).map Prod.fst ↔
          f ∈ x.watchable.due ∧ f ∉ x.dropped
        rw [hcalled]
        cases hc : x.watchable.closed with
        | true => simp [hx.tracked.listed.closed hc, Watchable.due_closed hc]
        | false =>
            rw [Watchable.due_open hc]
            exact hx.tracked.mem hc f

theorem sound_invariant (hh : ∀ i, Watchable.Closes (h i)) :
    (registrationMachine h).Invariant Any (Sound (φ := φ)) where
  init x hx := by
    obtain ⟨w, rfl⟩ := hx
    exact ⟨Watchable.tracked_new, rfl, nofun⟩
  step x a y hx _ hy := by
    cases a with
    | push v throws =>
        by_cases hlength : x.watchable.listeners.length ≤ throws.length
        · rw [hx.step_push v hlength] at hy
          obtain rfl := Option.some.inj hy
          exact hx.round v
        · have hnone : (registrationMachine h).step x (.push v throws) = none := if_neg hlength
          cases hnone.symm.trans hy
    | close error =>
        obtain rfl := Option.some.inj hy
        exact ⟨hx.tracked.close error,
          (Watchable.close_calls error x.watchable).trans hx.calls, hx.fair⟩
    | consumer i e =>
        obtain rfl := Option.some.inj hy
        exact ⟨hx.tracked.consume (hh i) e x.owner,
          (Watchable.consume_consumed (hh i) e x.watchable x.owner).calls.trans hx.calls, hx.fair⟩

/-- Each registration is served on its own exactly when every push, while the watchable is open,
finds the active registrations to be of different listeners, none of which had a registration
unsubscribed since it was last subscribed.  The latter alone is what it takes when one call serves
all the registrations of a listener.  Listeners that throw change nothing. -/
theorem registrations_iff (hh : ∀ i, Watchable.Closes (h i))
    (hx : (registrationMachine h).Reachable Any x) :
    (Independent x ↔ ∀ r ∈ x.rounds, r.due.Nodup ∧ r.Kept) ∧
    (Served x ↔ ∀ r ∈ x.rounds, r.Kept) ∧
    ∀ v throws, x.watchable.listeners.length ≤ throws.length →
      (registrationMachine h).step x (.push v throws) =
        some (x.round v (x.watchable.push v, x.owner)) := by
  have hsound := (sound_invariant hh).reachable hx
  refine ⟨⟨fun hind r hr => ?_, fun hsingle => ⟨hsound.calls, fun r hr => ?_⟩⟩,
    ⟨fun hserved r hr => ?_, fun hkept => ⟨hsound.calls, fun r hr => ?_⟩⟩,
    fun v _ hlength => hsound.step_push v hlength⟩
  · exact (hsound.fair r hr).perm_iff.mp (hind.each r hr)
  · exact (hsound.fair r hr).perm_iff.mpr (hsingle r hr)
  · exact (hsound.fair r hr).count_iff.mp (hserved.each r hr)
  · exact (hsound.fair r hr).count_iff.mpr (hkept r hr)

end RegistrationRun

end Runs

namespace RegistrationRun

/-- The run that some actions lead to, on a watchable without hooks. -/
def ofActions (as : List (RegistrationAction ℕ ℕ Unit Unit)) : RegistrationRun ℕ ℕ Unit Unit :=
  ((registrationMachine noHooks).run { owner := () } as).getD { owner := () }

/-- Two listeners, the first of which throws, and is unsubscribed and subscribed again. -/
def twoListeners : List (RegistrationAction ℕ ℕ Unit Unit) :=
  [.consumer () (.listen 0), .consumer () (.listen 1), .push 7 [true, false],
    .consumer () (.unsubscribe 0), .push 8 [false], .consumer () (.listen 0),
    .push 9 [false, false], .close none, .push 10 []]

theorem registrations_iff_twoListeners :
    (ofActions twoListeners).watchable.calls = [(0, 7), (1, 7), (1, 8), (1, 9), (0, 9)] ∧
    (Independent (ofActions twoListeners) ↔
      ∀ r ∈ (ofActions twoListeners).rounds, r.due.Nodup ∧ r.Kept) ∧
    (Served (ofActions twoListeners) ↔ ∀ r ∈ (ofActions twoListeners).rounds, r.Kept) ∧
    ∀ v throws, (ofActions twoListeners).watchable.listeners.length ≤ throws.length →
      (registrationMachine noHooks).step (ofActions twoListeners) (.push v throws) =
        some ((ofActions twoListeners).round v
          ((ofActions twoListeners).watchable.push v, (ofActions twoListeners).owner)) :=
  ⟨by decide +kernel, registrations_iff (fun _ => Watchable.closes_none)
    (Machine.reachable_getD (M := registrationMachine noHooks) ⟨(), rfl⟩
      (by decide +kernel) _)⟩

/-- One listener is subscribed twice, and the first of the two is unsubscribed. -/
def subscribedTwice : List (RegistrationAction ℕ ℕ Unit Unit) :=
  [.consumer () (.listen 0), .consumer () (.listen 0), .consumer () (.unsubscribe 0), .push 7 []]

/-- The second registration is active, and its listener is not called. -/
theorem subscribedTwice_silent :
    (registrationMachine noHooks).Reachable Any (ofActions subscribedTwice) ∧
    (ofActions subscribedTwice).rounds = [⟨7, [], [0], [0]⟩] ∧
    ¬ Independent (ofActions subscribedTwice) ∧ ¬ Served (ofActions subscribedTwice) := by
  have hrounds : (ofActions subscribedTwice).rounds = [⟨7, [], [0], [0]⟩] := by decide +kernel
  have hmem : (⟨7, [], [0], [0]⟩ : Round ℕ ℕ) ∈ (ofActions subscribedTwice).rounds := by
    rw [hrounds]
    exact List.mem_singleton_self _
  refine ⟨Machine.reachable_getD (M := registrationMachine noHooks) ⟨(), rfl⟩
    (by decide +kernel) _, hrounds, fun h => ?_, fun h => ?_⟩
  · exact absurd (h.each _ hmem).length_eq (by decide)
  · exact absurd (h.each _ hmem 0) (by decide)

end RegistrationRun

end Iroh
