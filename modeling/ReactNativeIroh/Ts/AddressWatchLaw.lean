import ReactNativeIroh.Ts.Attachment
import ReactNativeIroh.Ts.EndpointTeardown

/-!
# The life cycle of the address watch

A native watch runs while the fan-out is open and a consumer is attached.  The fan-out counts
them itself (`Watched.count`), and the endpoint holds the id of the watch that runs.

`Fresh` says what is assumed of the native side: a watch that is started has a new id.
-/

namespace Iroh

open Transition

/-! ## The watch goes by the count -/

namespace NativeWatch

/-- The watches started and not stopped. -/
def live (w : NativeWatch) : List ℕ := w.started.filter fun watchId => decide (watchId ∉ w.stopped)

/-- Of watches with different ids, the one that the endpoint holds is the one that is live. -/
theorem Accounted.live {w : NativeWatch} (h : w.Accounted) (hfresh : w.started.Nodup) :
    w.live = w.addressWatchId.toList := by
  rw [h] at hfresh
  obtain ⟨-, -, hdisjoint⟩ := List.nodup_append'.mp hfresh
  rw [NativeWatch.live, h, List.filter_append]
  have hstopped : w.stopped.filter (fun watchId => decide (watchId ∉ w.stopped)) = [] :=
    List.filter_eq_nil_iff.mpr fun watchId hmem => by simp [hmem]
  have hheld : w.addressWatchId.toList.filter (fun watchId => decide (watchId ∉ w.stopped)) =
      w.addressWatchId.toList :=
    List.filter_eq_self.mpr fun watchId hmem =>
      decide_eq_true fun hin => hdisjoint hin hmem
  rw [hstopped, hheld, List.nil_append]

theorem stop_started (w : NativeWatch) : w.stopNativeAddrWatch.started = w.started := by
  unfold stopNativeAddrWatch
  cases w.addressWatchId with
  | none => rfl
  | some watchId => rfl

theorem stop_addressWatchId (w : NativeWatch) : w.stopNativeAddrWatch.addressWatchId = none := by
  unfold stopNativeAddrWatch
  cases hid : w.addressWatchId with
  | none => exact hid
  | some watchId => rfl

end NativeWatch

namespace AddressWatch

variable {φ α : Type*} {s s' : Watchable φ α IrohError} {w : NativeWatch}
  {start : Except IrohError ℕ}

/-- The watch runs while the fan-out is open and counts a consumer. -/
structure Running (p : Watchable φ α IrohError × NativeWatch) : Prop where
  live : p.2.addressWatchId.isSome = true ↔ p.1.closed = false ∧ 0 < p.1.subscribers
  accounted : p.2.Accounted
  fresh : p.2.started.Nodup

namespace Running

/-- Nothing happens but to values. -/
theorem same (h : Running (s, w)) (hs : s'.subscribers = s.subscribers)
    (hclosed : s'.closed = s.closed) : Running (s', w) where
  live := by
    rw [hs, hclosed]
    exact h.live
  accounted := h.accounted
  fresh := h.fresh

/-- A consumer attaches: the first one starts the watch, or ends the fan-out. -/
theorem retain (h : Running (s, w)) (hopen : s.closed = false) (hs : 0 ≤ s.subscribers)
    (hstart : ∀ watchId, start = .ok watchId → watchId ∉ w.started) :
    Running (Watchable.retain (hooks start) (s, w)) := by
  have hlive : w.addressWatchId.isSome = true ↔ s.closed = false ∧ 0 < s.subscribers := h.live
  simp only [Watchable.retain]
  split
  · next hone =>
      have hnone : w.addressWatchId = none := by
        have hzero : ¬ 0 < s.subscribers := by omega
        simpa [hzero] using hlive
      simp only [hooks, startNativeAddrWatch, hnone, Option.isSome_none, Bool.false_eq_true,
        if_false]
      cases start with
      | ok watchId =>
          have hstopped : w.started = w.stopped := by
            simpa [NativeWatch.Accounted, hnone] using h.accounted
          refine ⟨⟨fun _ => ⟨hopen, by simp only [hone]; decide⟩, fun _ => rfl⟩, ?_, ?_⟩
          · rw [NativeWatch.Accounted, hstopped]
            rfl
          · exact List.nodup_append'.mpr ⟨h.fresh, List.nodup_singleton _,
              List.disjoint_singleton.mpr (hstart watchId rfl)⟩
      | error e =>
          refine ⟨?_, h.accounted, h.fresh⟩
          rw [hnone, Watchable.close_closed]
          simp
  · next hmore =>
      have hpos : 0 < s.subscribers := by omega
      have hsome : w.addressWatchId.isSome = true := hlive.mpr ⟨hopen, hpos⟩
      refine ⟨⟨fun _ => ⟨hopen, ?_⟩, fun _ => hsome⟩, h.accounted, h.fresh⟩
      show 0 < s.subscribers + 1
      omega

/-- A consumer detaches: with the last one the watch stops. -/
theorem release (h : Running (s, w)) (hs : 0 < s.subscribers) :
    Running (Watchable.release (hooks start) (s, w)) := by
  have hlive : w.addressWatchId.isSome = true ↔ s.closed = false ∧ 0 < s.subscribers := h.live
  simp only [Watchable.release]
  split
  · next hzero =>
      refine ⟨⟨fun hsome => ?_, fun hpos => ?_⟩, h.accounted.stop.accounted, ?_⟩
      · rw [hooks, NativeWatch.stop_addressWatchId] at hsome
        cases hsome
      · have hpos : 0 < s.subscribers - 1 := hpos.2
        omega
      · rw [hooks, NativeWatch.stop_started]
        exact h.fresh
  · next hmore =>
      have hpos : 0 < s.subscribers - 1 := by omega
      refine ⟨hlive.trans ?_, h.accounted, h.fresh⟩
      exact ⟨fun ho => ⟨ho.1, hpos⟩, fun ho => ⟨ho.1, hs⟩⟩

section Consumers

variable [DecidableEq φ] (hs : s.Counted)

include hs

omit [DecidableEq φ] in
theorem nonneg : 0 ≤ s.subscribers := by
  have hcount : s.subscribers = (s.attached : ℤ) := hs
  omega

theorem listen (h : Running (s, w)) (listener : φ)
    (hstart : ∀ watchId, start = .ok watchId → watchId ∉ w.started) :
    Running (Watchable.listen (hooks start) listener (s, w)) := by
  simp only [Watchable.listen]
  split
  · exact h
  · next hopen =>
      have hopen : s.closed = false := by simpa using hopen
      have hsame : Running ({ s with
          listeners := if listener ∈ s.listeners then s.listeners else s.listeners ++ [listener] },
          w) := h.same rfl rfl
      have hretain := hsame.retain hopen (nonneg hs) hstart
      exact hretain.same rfl rfl

omit [DecidableEq φ] in
theorem createIterator (h : Running (s, w))
    (hstart : ∀ watchId, start = .ok watchId → watchId ∉ w.started) :
    Running (Watchable.createIterator (hooks start) (s, w)) := by
  simp only [Watchable.createIterator]
  split
  · exact h.same rfl rfl
  · next hopen =>
      have hopen : s.closed = false := by simpa using hopen
      have hsame : Running ({ s with
          iterators := s.iterators ++ [s.made.length], made := s.made ++ [{}] }, w) :=
        h.same rfl rfl
      have hnonneg : 0 ≤ s.subscribers := nonneg hs
      exact hsame.retain hopen hnonneg hstart

theorem unsubscribe (h : Running (s, w)) (k : ℕ) :
    Running (Watchable.unsubscribe (hooks start) k (s, w)) := by
  have hcount : s.subscribers = (s.attached : ℤ) := hs
  simp only [Watchable.unsubscribe]
  split
  · next listener hk =>
      have hattached := Watchable.attached_unregister hk
      have hsame : Running ({ s with
          registrations := s.registrations.set k (listener, false)
          listeners := s.listeners.erase listener }, w) := h.same rfl rfl
      refine hsame.release ?_
      show 0 < s.subscribers
      omega
  · exact h

omit [DecidableEq φ] in
theorem detach (h : Running (s, w)) (k : ℕ) :
    Running (Watchable.detach (hooks start) k (s, w)) := by
  have hcount : s.subscribers = (s.attached : ℤ) := hs
  simp only [Watchable.detach]
  split
  · exact h
  · next it hk =>
      split
      · exact h
      · next hit =>
          have hattached := Watchable.attached_detach hk (by simpa using hit)
          have hsame : Running ({ s.modify k fun it => { it with detached := true } with
              iterators := s.iterators.erase k }, w) := h.same rfl rfl
          refine hsame.release ?_
          show 0 < s.subscribers
          omega

theorem consume (h : Running (s, w)) (e : ConsumerEvent φ)
    (hstart : ∀ watchId, start = .ok watchId → watchId ∉ w.started) :
    Running (Watchable.consume (hooks start) e (s, w)) := by
  cases e with
  | listen listener => exact h.listen hs listener hstart
  | unsubscribe k => exact h.unsubscribe hs k
  | createIterator => exact h.createIterator hs hstart
  | next k => exact h.same rfl rfl
  | «return» k =>
      have hdetached : Running (Watchable.detach (hooks start) k (s, w)) := h.detach hs k
      exact hdetached.same rfl rfl

end Consumers

end Running

/-- The invariant of the watch, with its fan-out. -/
structure Watched (p : Watchable φ α IrohError × NativeWatch) : Prop where
  count : p.1.Counted
  running : Running p

theorem watched_new : Watched (({}, {}) : Watchable φ α IrohError × NativeWatch) where
  count := rfl
  running := ⟨⟨nofun, fun h => absurd h.2 (lt_irrefl 0)⟩, rfl, List.nodup_nil⟩

theorem Watched.live (h : Watched (s, w)) :
    w.addressWatchId.isSome = true ↔ s.closed = false ∧ 0 < s.attached := by
  have hcount : s.subscribers = (s.attached : ℤ) := h.count
  refine h.running.live.trans (and_congr_right fun _ => ?_)
  show 0 < s.subscribers ↔ 0 < s.attached
  omega

/-- The fan-out, as its consumers will find it. -/
def fanOut (x : AddressWatch φ α) : Watchable φ α IrohError := x.addressWatch.getD {}

theorem Watched.handle [DecidableEq φ] {x : AddressWatch φ α} (h : Watched (x.fanOut, x.native))
    (e : AddressEvent φ α) (hstart : ∀ watchId, start = .ok watchId → watchId ∉ x.native.started) :
    Watched ((handle start e x).fanOut, (handle start e x).native) := by
  cases e with
  | addrChanges => exact h
  | consumer e =>
      exact ⟨h.count.consume (feeds_hooks start) e, h.running.consume h.count e hstart⟩
  | change addr =>
      cases addr with
      | none => exact h
      | some addr =>
          obtain ⟨addressWatch, native⟩ := x
          cases addressWatch with
          | none => exact h
          | some s =>
              have hsame := Watchable.SameConsumers.push (s := s) addr
              exact ⟨h.count.same hsame,
                h.running.same hsame.subscribers (Watchable.push_sameClosed s addr)⟩

/-- The teardown stops the watch and ends the fan-out. -/
theorem Watched.shut {x : AddressWatch φ α} (h : Watched (x.fanOut, x.native)) :
    Watched (x.shut.fanOut, x.shut.native) := by
  obtain ⟨addressWatch, native⟩ := x
  have hnone : native.stopNativeAddrWatch.addressWatchId = none :=
    NativeWatch.stop_addressWatchId native
  have haccounted := h.running.accounted.stop.accounted
  have hfresh : native.stopNativeAddrWatch.started.Nodup := by
    rw [NativeWatch.stop_started]
    exact h.running.fresh
  cases addressWatch with
  | none =>
      refine ⟨rfl, ⟨fun hsome => ?_, fun hpos => absurd hpos.2 (lt_irrefl 0)⟩, haccounted, hfresh⟩
      rw [AddressWatch.shut, hnone] at hsome
      cases hsome
  | some s =>
      refine ⟨h.count.same (.close none), ⟨fun hsome => ?_, fun hpos => ?_⟩, haccounted, hfresh⟩
      · rw [AddressWatch.shut, hnone] at hsome
        cases hsome
      · have hopen : (s.close none).closed = false := hpos.1
        rw [Watchable.close_closed] at hopen
        cases hopen

end AddressWatch

/-! ## Runs of an endpoint -/

namespace EndpointRun

variable {φ α : Type*} {x y : EndpointRun φ α} {a : EndpointAction φ α}

/-- A native watch that is started has a new id. -/
def Fresh (x : EndpointRun φ α) : EndpointAction φ α → Prop
  | .address _ (.ok watchId) => watchId ∉ x.endpoint.addressWatch.native.started
  | _ => True

/-- The watch goes by its consumers, and none runs once the endpoint is closed. -/
structure Watching (x : EndpointRun φ α) : Prop where
  watched : AddressWatch.Watched (x.endpoint.addressWatch.fanOut, x.endpoint.addressWatch.native)
  stopped : x.endpoint.closePromise.isSettled = true → x.endpoint.addressWatch.native.Stopped

section Runs

variable [DecidableEq φ]

omit [DecidableEq φ] in
theorem Fresh.started {e : AddressEvent φ α} {start : Except IrohError ℕ}
    (h : x.Fresh (.address e start)) (watchId : ℕ) (hs : start = .ok watchId) :
    watchId ∉ x.endpoint.addressWatch.native.started := by
  subst hs
  exact h

/-- A closed endpoint stays closed, and its watches are what they were. -/
theorem Moves.settled (hm : x.Moves a y) (hclosed : x.endpoint.closePromise.isSettled = true)
    (hstopped : x.endpoint.addressWatch.native.Stopped) :
    y.endpoint.closePromise.isSettled = true ∧
      y.endpoint.addressWatch.native = x.endpoint.addressWatch.native := by
  have hunknown := known_of_settled hclosed
  cases hm with
  | subscribe hknown capacity => rw [hunknown] at hknown; cases hknown
  | listen hknown alpn options hnew => rw [hunknown] at hknown; cases hknown
  | connected hc hknown hnew wraps =>
      cases wraps with
      | false => exact ⟨hclosed, rfl⟩
      | true => exact ⟨hclosed, rfl⟩
  | started hknown e start => rw [hunknown] at hknown; cases hknown
  | refused e error =>
      exact ⟨hclosed, AddressWatch.handle_keeps (AddressWatch.hooks_same error hstopped) e rfl⟩
  | close hknown => rw [hunknown] at hknown; cases hknown
  | closed hpending error => rw [hpending] at hclosed; cases hclosed
  | _ => exact ⟨hclosed, rfl⟩

theorem Watching.watched_moves (h : x.Watching) (hG : x.Fresh a) (hm : x.Moves a y) :
    AddressWatch.Watched (y.endpoint.addressWatch.fanOut, y.endpoint.addressWatch.native) := by
  cases hm with
  | connected hc hknown hnew wraps =>
      cases wraps with
      | false => exact h.watched
      | true => exact h.watched
  | started hknown e start => exact h.watched.handle e hG.started
  | refused e error => exact h.watched.handle e nofun
  | closed hpending error => exact h.watched.shut
  | _ => exact h.watched

theorem Watching.moves (h : x.Watching) (hG : x.Fresh a) (hm : x.Moves a y) : y.Watching := by
  refine ⟨h.watched_moves hG hm, fun hsettled => ?_⟩
  cases hx : x.endpoint.closePromise.isSettled with
  | true =>
      rw [(hm.settled hx (h.stopped hx)).2]
      exact h.stopped hx
  | false =>
      obtain ⟨error, rfl⟩ := closed_of_moves hx hsettled hm
      exact h.watched.running.accounted.stop

theorem watching_invariant (maxConcurrentDownloads : Option Number) :
    (endpointMachine φ α maxConcurrentDownloads).Invariant Fresh Watching where
  init x hx := by
    have hnew : x = { endpoint := .new maxConcurrentDownloads } := hx
    subst hnew
    exact ⟨AddressWatch.watched_new, nofun⟩
  step x a y hx hG hy := hx.moves hG (step_moves hy)

/-- What holds of the address watch at every moment of the life of an endpoint. -/
structure WatchLife (maxConcurrentDownloads : Option Number) (x : EndpointRun φ α) : Prop where
  /-- One native watch runs at most. -/
  one : x.endpoint.addressWatch.native.live.length ≤ 1
  /-- One runs while the fan-out is open and a consumer is attached. -/
  live : x.endpoint.addressWatch.native.live ≠ [] ↔
    x.endpoint.addressWatch.fanOut.closed = false ∧ 0 < x.endpoint.addressWatch.fanOut.attached
  /-- A watch is stopped once at most. -/
  once : x.endpoint.addressWatch.native.stopped.Nodup
  /-- None runs once the endpoint is closed, and none is started. -/
  ended : x.endpoint.closePromise.isSettled = true →
    x.endpoint.addressWatch.native.live = [] ∧
      ∀ y, (endpointMachine φ α maxConcurrentDownloads).Leads Fresh x y →
        y.endpoint.addressWatch.native = x.endpoint.addressWatch.native

theorem Watching.watchLife (h : x.Watching) (maxConcurrentDownloads : Option Number) :
    x.WatchLife maxConcurrentDownloads := by
  have hlive := h.watched.running.accounted.live h.watched.running.fresh
  refine ⟨?_, ?_, ?_, fun hsettled => ⟨?_, fun y hy => ?_⟩⟩
  · rw [hlive]
    exact Option.length_toList_le
  · rw [hlive, ← h.watched.live]
    cases x.endpoint.addressWatch.native.addressWatchId with
    | none => simp
    | some watchId => simp
  · have hfresh := h.watched.running.fresh
    rw [h.watched.running.accounted] at hfresh
    exact (List.nodup_append'.mp hfresh).1
  · rw [hlive, (h.stopped hsettled).1]
    rfl
  · refine (hy.keeps (I := fun y => y.endpoint.closePromise.isSettled = true ∧
      y.endpoint.addressWatch.native = x.endpoint.addressWatch.native) ?_ ⟨hsettled, rfl⟩).2
    rintro y a z ⟨hclosed, hsame⟩ - hz
    have hstopped := h.stopped hsettled
    rw [← hsame] at hstopped
    obtain ⟨hclosed', hsame'⟩ := (step_moves hz).settled hclosed hstopped
    exact ⟨hclosed', hsame'.trans hsame⟩

theorem address_watch_life (maxConcurrentDownloads : Option Number)
    (hx : (endpointMachine φ α maxConcurrentDownloads).Reachable Fresh x) :
    x.WatchLife maxConcurrentDownloads :=
  ((watching_invariant maxConcurrentDownloads).reachable hx).watchLife maxConcurrentDownloads

end Runs

instance decidableFresh (x : EndpointRun φ α) : (a : EndpointAction φ α) → Decidable (x.Fresh a)
  | .address _ (.ok _) => inferInstanceAs (Decidable (_ ∉ _))
  | .address _ (.error _) => .isTrue trivial
  | .downloads _ => .isTrue trivial
  | .subscribe _ => .isTrue trivial
  | .subscription _ _ => .isTrue trivial
  | .listen _ _ _ => .isTrue trivial
  | .listener _ _ _ => .isTrue trivial
  | .connect _ => .isTrue trivial
  | .connected _ _ _ => .isTrue trivial
  | .connectFailed _ => .isTrue trivial
  | .connection _ _ => .isTrue trivial
  | .close => .isTrue trivial
  | .closed _ => .isTrue trivial

/-- A call on an endpoint that the native side does not know. -/
def stale : IrohError := ⟨.invalidHandle, "invalid or stale handle: 3"⟩

/-- A listener that comes and goes, an iterator that goes while the endpoint is being closed, and
a listener that comes then. -/
def comesAndGoes : List (EndpointAction Unit Unit) :=
  [.address (.consumer (.listen ())) (.ok 5), .address (.change (some ())) (.ok 6),
    .address (.consumer (.unsubscribe 0)) (.ok 6), .address (.consumer (.unsubscribe 0)) (.ok 6),
    .address (.consumer .createIterator) (.ok 6), .close,
    .address (.consumer (.return 0)) (.error stale),
    .address (.consumer (.listen ())) (.error stale), .closed none]

theorem address_watch_life_comes_and_goes :
    (ran comesAndGoes).endpoint.addressWatch.native =
        { started := [5, 6], stopped := [5, 6] } ∧
      (ran comesAndGoes).WatchLife (some (.ofNat 1)) :=
  ⟨by decide, address_watch_life (some (.ofNat 1)) (Machine.reachable_of_guarded comesAndGoes
    (s := created) rfl (by decide) (by rfl))⟩

end EndpointRun

end Iroh
