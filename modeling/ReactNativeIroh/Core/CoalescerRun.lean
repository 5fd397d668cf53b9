import Mathlib.Data.List.Chain
import ReactNativeIroh.Core.Coalesce
import ReactNativeIroh.Lib.Conflation
import ReactNativeIroh.Lib.Machine

/-!
# Runs of a coalescer

The calls of `offer_at` and `flush` are made one at a time, and the time of a call is not before
that of the one before it.  The run records the values that were offered, and the values that were
emitted with the time of the call that emitted them.
-/

namespace Iroh.Core

open Conflation Transition

/-- A value that the sink was called with, when, and whether it was just offered. -/
structure Emission where
  value : ℕ
  time : ℕ
  isOffer : Bool
deriving DecidableEq

structure CoalescerRun where
  coalescer : Coalescer
  now : ℕ := 0
  offered : List ℕ := []
  emitted : List Emission := []

inductive CoalescerAction where
  | offerAt (value now : ℕ)
  | flush (now : ℕ)

namespace CoalescerRun

/-- A call at a time that is not past. -/
def step (x : CoalescerRun) : CoalescerAction → Option CoalescerRun
  | .offerAt value now =>
      if x.now ≤ now then
        let (coalescer, sent) := x.coalescer.offerAt value now
        some {
          coalescer
          now
          offered := x.offered ++ [value]
          emitted := x.emitted ++ sent.toList.map fun v => ⟨v, now, true⟩ }
      else none
  | .flush now =>
      if x.now ≤ now then
        let (coalescer, sent) := x.coalescer.flush now
        some { x with
          coalescer
          now
          emitted := x.emitted ++ sent.toList.map fun v => ⟨v, now, false⟩ }
      else none

/-- The values emitted. -/
def values (x : CoalescerRun) : List ℕ := x.emitted.map Emission.value

/-- An offer that is emitted comes no sooner than the interval allows. -/
def Spaced (minInterval : ℕ) (e e' : Emission) : Prop :=
  e'.isOffer = true → e.time + minInterval ≤ e'.time

end CoalescerRun

def coalescerMachine (minInterval : ℕ) : Machine CoalescerRun CoalescerAction where
  init x := x = { coalescer := { minInterval } }
  step := CoalescerRun.step

namespace CoalescerRun

variable {x y : CoalescerRun} {minInterval value now : ℕ}

/-! ## What a call does -/

/-- The interval has passed since the last emission. -/
def Due (x : CoalescerRun) (now : ℕ) : Prop :=
  ∀ e ∈ x.emitted.getLast?, e.time + x.coalescer.minInterval ≤ now

structure Sound (minInterval : ℕ) (x : CoalescerRun) : Prop where
  interval : x.coalescer.minInterval = minInterval
  lastEmit : x.coalescer.lastEmit = x.emitted.getLast?.map Emission.time
  past : ∀ e ∈ x.emitted, e.time ≤ x.now
  first : x.emitted = [] → x.coalescer.pending = none
  conflates : Conflates x.offered x.values x.coalescer.pending
  spaced : x.emitted.IsChain (Spaced minInterval)

theorem Sound.due_iff (h : x.Sound minInterval) (hnow : x.now ≤ now) :
    x.coalescer.due now = true ↔ x.Due now := by
  unfold Coalescer.due Due
  rw [h.lastEmit]
  cases hlast : x.emitted.getLast? with
  | none => simp
  | some e =>
      have hpast := h.past e (List.mem_of_getLast? hlast)
      simp only [Option.map_some, decide_eq_true_eq, Option.mem_def, Option.some.injEq,
        forall_eq']
      omega

/-- An emission at the end keeps the times in order. -/
theorem Sound.emit (h : x.Sound minInterval) (hnow : x.now ≤ now) (value : ℕ) (isOffer : Bool)
    (hdue : isOffer = true → x.Due now) (coalescer : Coalescer) (offered : List ℕ)
    (hinterval : coalescer.minInterval = minInterval) (hlast : coalescer.lastEmit = some now)
    (hpending : coalescer.pending = none)
    (hconflates : Conflates offered (x.values ++ [value]) none) :
    Sound minInterval
      { coalescer, now, offered, emitted := x.emitted ++ [⟨value, now, isOffer⟩] } where
  interval := hinterval
  lastEmit := by rw [hlast, List.getLast?_concat, Option.map_some]
  past e he := by
    rcases List.mem_append.mp he with he | he
    · exact (h.past e he).trans hnow
    · rw [List.mem_singleton.mp he]
  first _ := hpending
  conflates := by
    rw [hpending, values, List.map_append]
    exact hconflates
  spaced := by
    refine List.isChain_append.mpr ⟨h.spaced, List.isChain_singleton _, fun e he e' he' => ?_⟩
    obtain rfl := Option.some.inj he'
    intro hoffer
    have hlate := hdue hoffer e he
    rwa [h.interval] at hlate

theorem step_offerAt (h : x.step (.offerAt value now) = some y) :
    x.now ≤ now ∧ y = {
      coalescer := (x.coalescer.offerAt value now).1
      now
      offered := x.offered ++ [value]
      emitted := x.emitted ++
        (x.coalescer.offerAt value now).2.toList.map fun v => ⟨v, now, true⟩ } := by
  simp only [step] at h
  split at h
  · next hnow => exact ⟨hnow, (Option.some.inj h).symm⟩
  · cases h

theorem step_flush (h : x.step (.flush now) = some y) :
    x.now ≤ now ∧ y = { x with
      coalescer := (x.coalescer.flush now).1
      now
      emitted := x.emitted ++
        (x.coalescer.flush now).2.toList.map fun v => ⟨v, now, false⟩ } := by
  simp only [step] at h
  split at h
  · next hnow => exact ⟨hnow, (Option.some.inj h).symm⟩
  · cases h

/-- An offer that is due is emitted, and another one is kept. -/
theorem Sound.offerAt (h : x.Sound minInterval) (hy : x.step (.offerAt value now) = some y) :
    y.Sound minInterval ∧ y.offered = x.offered ++ [value] ∧
      (x.Due now ∧ y.emitted = x.emitted ++ [⟨value, now, true⟩] ∨
        ¬ x.Due now ∧ y.emitted = x.emitted) := by
  obtain ⟨hnow, rfl⟩ := step_offerAt hy
  by_cases hdue : x.Due now
  · have hoffer : x.coalescer.offerAt value now =
        ({ x.coalescer with lastEmit := some now, pending := none }, some value) :=
      if_pos ((h.due_iff hnow).mpr hdue)
    rw [hoffer]
    refine ⟨?_, rfl, .inl ⟨hdue, rfl⟩⟩
    exact h.emit hnow value true (fun _ => hdue) _ _ h.interval rfl rfl (h.conflates.pass value)
  · have hoffer : x.coalescer.offerAt value now =
        ({ x.coalescer with pending := some value }, none) :=
      if_neg fun hd => hdue ((h.due_iff hnow).mp hd)
    rw [hoffer, Option.toList_none, List.map_nil, List.append_nil]
    refine ⟨⟨h.interval, h.lastEmit, fun e he => (h.past e he).trans hnow, fun hnil => ?_,
      h.conflates.keep value, h.spaced⟩, rfl, .inr ⟨hdue, rfl⟩⟩
    -- nothing was emitted yet, so the offer was due
    refine absurd (fun e he => ?_) hdue
    rw [show x.emitted = [] from hnil] at he
    cases he

/-- After a flush nothing is kept. -/
theorem Sound.flush (h : x.Sound minInterval) (hy : x.step (.flush now) = some y) :
    y.Sound minInterval ∧ y.offered = x.offered ∧ y.coalescer.pending = none ∧
      (x.coalescer.pending = none → y.emitted = x.emitted) := by
  obtain ⟨hnow, rfl⟩ := step_flush hy
  unfold Coalescer.flush
  cases hp : x.coalescer.pending with
  | none =>
      rw [Option.toList_none, List.map_nil, List.append_nil]
      exact ⟨⟨h.interval, h.lastEmit, fun e he => (h.past e he).trans hnow, h.first, h.conflates,
        h.spaced⟩, rfl, hp, fun _ => rfl⟩
  | some value =>
      refine ⟨?_, rfl, rfl, nofun⟩
      refine h.emit hnow value false nofun _ _ h.interval rfl rfl ?_
      exact (hp ▸ h.conflates).take

theorem sound_new (minInterval : ℕ) :
    Sound minInterval { coalescer := { minInterval } } where
  interval := rfl
  lastEmit := rfl
  past := List.forall_mem_nil _
  first _ := rfl
  conflates := .nil
  spaced := .nil

theorem sound_invariant (minInterval : ℕ) :
    (coalescerMachine minInterval).Invariant Any (Sound minInterval) where
  init := by
    rintro x rfl
    exact sound_new minInterval
  step x a y h _ hy := by
    cases a with
    | offerAt value now => exact (h.offerAt hy).1
    | flush now => exact (h.flush hy).1

/-! ## The law -/

/-- What the sink was called with, and what the next call does. -/
structure Law (minInterval : ℕ) (x : CoalescerRun) : Prop where
  /-- Every offer is emitted at most once, and they are emitted in order. -/
  order : x.values.Sublist x.offered
  monotone : x.offered.Pairwise (· ≤ ·) → x.values.Pairwise (· ≤ ·)
  spaced : x.emitted.IsChain (Spaced minInterval)
  first : ∀ value now y, x.step (.offerAt value now) = some y → x.offered = [] →
    y.emitted = [⟨value, now, true⟩]
  /-- An offer is emitted at once or not at all, and it is where it is due. -/
  offer : ∀ value now y, x.step (.offerAt value now) = some y →
    (y.emitted = x.emitted ++ [⟨value, now, true⟩] ∨ y.emitted = x.emitted) ∧
      (y.emitted = x.emitted ++ [⟨value, now, true⟩] ↔
        ∀ e ∈ x.emitted.getLast?, e.time + minInterval ≤ now)
  flushed : ∀ now y, x.step (.flush now) = some y → y.values.getLast? = y.offered.getLast?
  flushedAgain : ∀ now y, x.step (.flush now) = some y → ∀ later z,
    y.step (.flush later) = some z → z.emitted = y.emitted

theorem Sound.obeys (h : x.Sound minInterval) : x.Law minInterval where
  order := h.conflates.sublist
  monotone hp := hp.sublist h.conflates.sublist
  spaced := h.spaced
  first value now y hy hnil := by
    have hempty : x.emitted = [] := by
      have hs := h.conflates.sublist
      rw [hnil, List.sublist_nil] at hs
      exact List.map_eq_nil_iff.mp hs
    obtain ⟨-, -, ⟨-, he⟩ | ⟨hdue, -⟩⟩ := h.offerAt hy
    · rw [he, hempty, List.nil_append]
    · refine absurd (fun e he => ?_) hdue
      rw [hempty] at he
      cases he
  offer value now y hy := by
    have hdue : x.Due now ↔ ∀ e ∈ x.emitted.getLast?, e.time + minInterval ≤ now := by
      rw [Due, h.interval]
    rw [← hdue]
    obtain ⟨-, -, ⟨hd, he⟩ | ⟨hd, he⟩⟩ := h.offerAt hy
    · exact ⟨.inl he, iff_of_true he hd⟩
    · refine ⟨.inr he, iff_of_false (fun hc => ?_) hd⟩
      rw [he] at hc
      exact absurd hc (by simp)
  flushed now y hy := by
    obtain ⟨hsound, -, hnone, -⟩ := h.flush hy
    exact (hnone ▸ hsound.conflates).caughtUp
  flushedAgain now y hy later z hz := by
    obtain ⟨hsound, -, hnone, -⟩ := h.flush hy
    exact (hsound.flush hz).2.2.2 hnone

theorem coalescer_law (hx : (coalescerMachine minInterval).Reachable Any x) :
    x.Law minInterval :=
  ((sound_invariant minInterval).reachable hx).obeys

/-- Values within an interval, a flush, and an offer just after it. -/
def burst : CoalescerRun :=
  ((coalescerMachine 34).run { coalescer := { minInterval := 34 } }
    [.offerAt 1 100, .offerAt 2 101, .offerAt 3 102, .flush 110, .offerAt 4 134,
      .offerAt 5 144]).getD { coalescer := { minInterval := 34 } }

theorem coalescer_law_burst : burst.values = [1, 3, 5] ∧ burst.Law 34 :=
  ⟨by decide, coalescer_law (Machine.reachable_getD (M := coalescerMachine 34) rfl (by decide) _)⟩

end CoalescerRun

end Iroh.Core
