import ReactNativeIroh.Core.RawStream

/-!
# The calls on a stream

Any number of calls may be under way on a stream.  They are accounted for (`Calls`): which
of them refer to it, which of them has the receive half, and whether its task runs.
-/

namespace Iroh.Core

open Delimited Transition

namespace RawStream

variable {handle : UInt64} {x y : RawStream} {p : ReadPhase} {a : RawStreamAction}

/-! ## The steps -/

/-- What a step of the read task can do. -/
inductive TaskSteps (x : RawStream) : ReadPhase → RawStream → Prop where
  | poll {r : Reading} : x.state.aborted = false → TaskSteps x (.parked r) (x.put (.polled r))
  | read {r : Reading} (n : ℕ) : r.Gives (.bytes (x.arrived.take n)) →
      TaskSteps x (.polled r) { x.put (r.feed (.bytes (x.arrived.take n))).phase with
        arrived := x.arrived.drop n, consumed := x.consumed ++ x.arrived.take n }
  | finished {r : Reading} : x.ending = some .finished → x.arrived = [] →
      TaskSteps x (.polled r) (x.put (r.feed .finished).phase)
  | failed {r : Reading} {err : ReadError} : x.ending = some (.failed err) →
      TaskSteps x (.polled r) (x.put (.closing (readCloseReason err)))
  | park {r : Reading} : TaskSteps x (.polled r) (x.put (.parked r))
  | drop {r : Reading} : x.state.aborted = true → TaskSteps x (.parked r) (x.put .dropped)
  | onData (chunk : List UInt8) (r : Reading) :
      TaskSteps x (.calling chunk r) ((x.put (.polled r)).call (.onData chunk))
  | onClose (outcome : Option IrohError) :
      TaskSteps x (.closing outcome) ((x.put .ended).call (.onClose outcome))

theorem taskSteps {b : ReadAction} (h : x.readStep p b = some y) : TaskSteps x p y := by
  cases b with
  | poll =>
      simp only [readStep] at h
      split at h
      · split at h
        · cases h
        · next ha =>
            obtain rfl := Option.some.inj h
            exact .poll (by simpa using ha)
      · cases h
  | read n =>
      simp only [readStep] at h
      split at h
      · obtain ⟨⟨hpos, hwanted, hlength⟩, hy⟩ := Option.ite_none_right_eq_some.mp h
        obtain rfl := Option.some.inj hy
        have htake : (x.arrived.take n).length = n := List.length_take_of_le hlength
        refine .read n ⟨?_, htake.trans_le hwanted⟩
        exact List.ne_nil_of_length_pos (htake.symm ▸ hpos)
      · cases h
  | readEnd =>
      simp only [readStep] at h
      split at h
      · next he =>
          obtain ⟨harrived, hy⟩ := Option.ite_none_right_eq_some.mp h
          obtain rfl := Option.some.inj hy
          exact .finished he harrived
      · next r err he =>
          obtain rfl := Option.some.inj h
          rw [Reading.feed_failed]
          exact .failed he
      · cases h
  | park =>
      simp only [readStep] at h
      split at h
      · obtain ⟨-, hy⟩ := Option.ite_none_right_eq_some.mp h
        obtain rfl := Option.some.inj hy
        exact .park
      · cases h
  | drop =>
      simp only [readStep] at h
      split at h
      · obtain ⟨ha, hy⟩ := Option.ite_none_right_eq_some.mp h
        obtain rfl := Option.some.inj hy
        exact .drop ha
      · cases h
  | onData =>
      simp only [readStep] at h
      split at h
      · obtain rfl := Option.some.inj h
        exact .onData _ _
      · cases h
  | onClose =>
      simp only [readStep] at h
      split at h
      · obtain rfl := Option.some.inj h
        exact .onClose _
      · cases h

/-- What a step can do. -/
inductive Steps (handle : UInt64) (x : RawStream) : RawStreamAction → RawStream → Prop where
  | arrive (bytes : List UInt8) : x.ending = none →
      Steps handle x (.arrive bytes) { x with arrived := x.arrived ++ bytes }
  | finish : x.ending = none → Steps handle x .finish { x with ending := some .finished }
  | fail (err : ReadError) : x.ending = none →
      Steps handle x (.fail err) { x with ending := some (.failed err) }
  | lookUp : x.state.registered = true → Steps handle x .subscribe
      { x with state := { x.state with calls := x.state.calls + 1 }
               readers := x.readers ++ [.lookedUp] }
  | unknown : x.state.registered = false → Steps handle x .subscribe
      { x with readers := x.readers ++ [.returned (.error (.invalidHandle handle))] }
  | take {i : ℕ} : x.readers[i]? = some .lookedUp → x.recv = true →
      Steps handle x (.take i) { x.reader i .taken with recv := false }
  | refuse {i : ℕ} : x.readers[i]? = some .lookedUp → x.recv = false →
      Steps handle x (.take i)
        { x.reader i (.returned (.error alreadyRead)) with state := x.state.leave }
  | spawn {i : ℕ} : x.readers[i]? = some .taken →
      Steps handle x (.spawn i) ((x.put (.parked (.start x.framing))).reader i .spawned)
  | store {i : ℕ} : x.readers[i]? = some .spawned →
      Steps handle x (.store i) { x.reader i (.returned (.ok ())) with state := x.state.store }
  | send : x.state.registered = true → Steps handle x .send
      { x with state := { x.state with calls := x.state.calls + 1 }, others := x.others + 1 }
  | close : x.state.registered = true → Steps handle x .close
      { x with state := { x.state with registered := false, calls := x.state.calls + 1 }
               others := x.others + 1 }
  | closed : Steps handle x .close x
  | leave : 0 < x.others → Steps handle x .leave
      { x with state := x.state.leave, others := x.others - 1 }
  | task {a : ReadAction} {p : ReadPhase} {y : RawStream} : x.task = some p → TaskSteps x p y →
      Steps handle x (.task a) y

theorem steps (h : x.step handle a = some y) : Steps handle x a y := by
  cases a with
  | arrive bytes =>
      obtain ⟨he, hy⟩ := Option.ite_none_right_eq_some.mp h
      obtain rfl := Option.some.inj hy
      exact .arrive bytes he
  | finish =>
      obtain ⟨he, hy⟩ := Option.ite_none_right_eq_some.mp h
      obtain rfl := Option.some.inj hy
      exact .finish he
  | fail err =>
      obtain ⟨he, hy⟩ := Option.ite_none_right_eq_some.mp h
      obtain rfl := Option.some.inj hy
      exact .fail err he
  | subscribe =>
      obtain rfl := Option.some.inj h
      rw [subscribe]
      split
      · next hr =>
          obtain ⟨hregistered, rfl⟩ := Retained.enter_eq_some hr
          exact .lookUp hregistered
      · next hr => exact .unknown (Retained.enter_eq_none hr)
  | take i =>
      simp only [step] at h
      split at h
      · next hi =>
          obtain rfl := Option.some.inj h
          rw [takeRecv]
          split
          · next hrecv => exact .take hi hrecv
          · next hrecv => exact .refuse hi (by simpa using hrecv)
      · cases h
  | spawn i =>
      simp only [step] at h
      split at h
      · next hi =>
          obtain rfl := Option.some.inj h
          exact .spawn hi
      · cases h
  | store i =>
      simp only [step] at h
      split at h
      · next hi =>
          obtain rfl := Option.some.inj h
          exact .store hi
      · cases h
  | send =>
      obtain ⟨state, hr, rfl⟩ := Option.map_eq_some_iff.mp h
      obtain ⟨hregistered, rfl⟩ := Retained.enter_eq_some hr
      exact .send hregistered
  | close =>
      simp only [step] at h
      split at h
      · next hr =>
          obtain ⟨hregistered, rfl⟩ := Retained.remove_eq_some hr
          obtain rfl := Option.some.inj h
          exact .close hregistered
      · obtain rfl := Option.some.inj h
        exact .closed
  | leave =>
      obtain ⟨hpos, hy⟩ := Option.ite_none_right_eq_some.mp h
      obtain rfl := Option.some.inj hy
      exact .leave hpos
  | task a =>
      obtain ⟨p, hp, hy⟩ := Option.bind_eq_some_iff.mp h
      exact .task hp (taskSteps hy)

/-! ## The calls -/

/-- Every call is accounted for. -/
structure Calls (handle : UInt64) (x : RawStream) : Prop where
  sound : x.state.Sound
  calls : x.state.calls = x.others + x.readers.countP ReaderPhase.refers
  taken : x.readers.countP ReaderPhase.isTaken + x.readers.countP ReaderPhase.started =
    (!x.recv).toNat
  started : x.readers.countP ReaderPhase.started = x.task.isSome.toNat
  stored : x.readers.countP ReaderPhase.succeeded = x.state.stored.toNat
  refused : ∀ e, .returned (.error e) ∈ x.readers →
    (e = .invalidHandle handle ∧ x.state.registered = false) ∨ (e = alreadyRead ∧ x.recv = false)

/-- A call that refers to the stream keeps it. -/
theorem Calls.reader_refers (h : x.Calls handle) {i : ℕ} {p : ReaderPhase}
    (hi : x.readers[i]? = some p) (hp : p.refers = true) : 0 < x.state.calls := by
  have hpos : 0 < x.readers.countP ReaderPhase.refers :=
    List.countP_pos_iff.mpr ⟨p, List.mem_of_getElem? hi, hp⟩
  have := h.calls
  omega

theorem TaskSteps.task_isSome (h : TaskSteps x p y) : y.task.isSome = true := by
  cases h <;> rfl

/-- What a step of the read task leaves. -/
theorem TaskSteps.calls (h : TaskSteps x p y) :
    y.framing = x.framing ∧ y.state = x.state ∧ y.recv = x.recv ∧ y.readers = x.readers ∧
      y.others = x.others ∧ y.ending = x.ending := by
  cases h <;> exact ⟨rfl, rfl, rfl, rfl, rfl, rfl⟩

/-- What a step does to the references. -/
theorem Steps.state (h : x.Calls handle) (hs : Steps handle x a y) :
    y.state = x.state ∨ x.state.Moves y.state := by
  cases hs with
  | arrive | finish | fail | unknown | take | spawn | closed => exact .inl rfl
  | lookUp hr => exact .inr (.enter hr)
  | send hr => exact .inr (.enter hr)
  | close hr => exact .inr (.remove hr)
  | refuse hi => exact .inr (.leave (h.reader_refers hi rfl))
  | store hi => exact .inr (.store (h.reader_refers hi rfl))
  | leave ho =>
      have := h.calls
      exact .inr (.leave (by omega))
  | task _ ht => exact .inl ht.calls.2.1

/-- A call of `stream_subscribe` goes from one phase to another, and the books balance. -/
theorem Calls.reader (h : x.Calls handle) {i : ℕ} {p q : ReaderPhase}
    (hi : x.readers[i]? = some p) (hsound : y.state.Sound) (hy : y.readers = x.readers.set i q)
    (hothers : y.others = x.others)
    (hcalls : y.state.calls + p.refers.toNat = x.state.calls + q.refers.toNat)
    (htaken : (!y.recv).toNat + (p.isTaken.toNat + p.started.toNat) =
      (!x.recv).toNat + (q.isTaken.toNat + q.started.toNat))
    (hstarted : y.task.isSome.toNat + p.started.toNat = x.task.isSome.toNat + q.started.toNat)
    (hstored : y.state.stored.toNat + p.succeeded.toNat = x.state.stored.toNat + q.succeeded.toNat)
    (hregistered : y.state.registered = x.state.registered) (hrecv : y.recv = true → x.recv = true)
    (hrefused : ∀ e, q = .returned (.error e) → e = alreadyRead ∧ y.recv = false) :
    y.Calls handle := by
  have hcount := fun f => countP_set_add (f := f) (b := q) hi
  have hrefers := hcount ReaderPhase.refers
  have histaken := hcount ReaderPhase.isTaken
  have hspawned := hcount ReaderPhase.started
  have hsucceeded := hcount ReaderPhase.succeeded
  have h₁ := h.calls
  have h₂ := h.taken
  have h₃ := h.started
  have h₄ := h.stored
  rw [← hy] at hrefers histaken hspawned hsucceeded
  refine ⟨hsound, by omega, by omega, by omega, by omega, fun e he => ?_⟩
  rw [hy] at he
  rcases List.mem_or_eq_of_mem_set he with hmem | heq
  · rcases h.refused e hmem with ⟨hinvalid, hclosed⟩ | ⟨halready, hfalse⟩
    · exact .inl ⟨hinvalid, hregistered.trans hclosed⟩
    · refine .inr ⟨halready, ?_⟩
      by_contra htrue
      rw [hrecv (by simpa using htrue)] at hfalse
      cases hfalse
  · exact .inr (hrefused e heq.symm)

/-- The handle of the task is stored by the call that spawned it. -/
theorem Calls.not_stored (h : x.Calls handle) {i : ℕ} (hi : x.readers[i]? = some .spawned) :
    x.state.stored = false := by
  have hcount := fun f => countP_set_add (f := f) (b := .lookedUp) hi
  have hspawned : _ + 1 = _ + 0 := hcount ReaderPhase.started
  have hsucceeded : _ + 0 = _ + 0 := hcount ReaderPhase.succeeded
  have hle : (x.readers.set i .lookedUp).countP ReaderPhase.succeeded ≤
      (x.readers.set i .lookedUp).countP ReaderPhase.started := by
    refine List.countP_mono_left fun p _ hp => ?_
    cases p with
    | returned result => cases result <;> exact hp
    | lookedUp | taken | spawned => cases hp
  have hone := Bool.toNat_le x.task.isSome
  have h₃ := h.started
  have h₄ := h.stored
  cases hs : x.state.stored with
  | false => rfl
  | true =>
      rw [hs, Bool.toNat_true] at h₄
      omega

theorem Calls.step (h : x.Calls handle) (hs : Steps handle x a y) : y.Calls handle := by
  have hsound : y.state.Sound := by
    rcases hs.state h with heq | hm
    · exact heq ▸ h.sound
    · exact h.sound.moves hm
  have hcalls := h.calls
  cases hs with
  | arrive => exact ⟨hsound, h.calls, h.taken, h.started, h.stored, h.refused⟩
  | finish => exact ⟨hsound, h.calls, h.taken, h.started, h.stored, h.refused⟩
  | fail => exact ⟨hsound, h.calls, h.taken, h.started, h.stored, h.refused⟩
  | closed => exact ⟨hsound, h.calls, h.taken, h.started, h.stored, h.refused⟩
  | lookUp hr =>
      refine ⟨hsound, ?_, ?_, ?_, ?_, fun e he => h.refused e (by simpa using he)⟩
      · simp [ReaderPhase.refers, hcalls, Nat.add_assoc]
      · simpa [ReaderPhase.isTaken, ReaderPhase.started] using h.taken
      · simpa [ReaderPhase.started] using h.started
      · simpa [ReaderPhase.succeeded] using h.stored
  | unknown hr =>
      refine ⟨hsound, ?_, ?_, ?_, ?_, fun e he => ?_⟩
      · simpa [ReaderPhase.refers] using h.calls
      · simpa [ReaderPhase.isTaken, ReaderPhase.started] using h.taken
      · simpa [ReaderPhase.started] using h.started
      · simpa [ReaderPhase.succeeded] using h.stored
      · rcases List.mem_append.mp he with hmem | hnew
        · exact h.refused e hmem
        · obtain rfl : e = .invalidHandle handle := by simpa using hnew
          exact .inl ⟨rfl, hr⟩
  | take hi hrecv =>
      exact h.reader hi hsound rfl rfl rfl (by rw [hrecv]; rfl) rfl rfl rfl (fun _ => hrecv) nofun
  | refuse hi hrecv =>
      have hpos := h.reader_refers hi rfl
      refine h.reader hi hsound rfl rfl ?_ rfl rfl rfl rfl id fun e he => ?_
      · show x.state.calls - 1 + 1 = x.state.calls + 0
        omega
      · cases he
        exact ⟨rfl, hrecv⟩
  | spawn hi =>
      have hmem : 0 < x.readers.countP ReaderPhase.isTaken :=
        List.countP_pos_iff.mpr ⟨.taken, List.mem_of_getElem? hi, rfl⟩
      have hone := Bool.toNat_le (!x.recv)
      have htaken := h.taken
      have hstarted := h.started
      refine h.reader hi hsound rfl rfl rfl rfl ?_ rfl rfl id nofun
      show 1 + 0 = x.task.isSome.toNat + 1
      omega
  | store hi =>
      have hpos := h.reader_refers hi rfl
      refine h.reader hi hsound rfl rfl ?_ rfl rfl ?_ rfl id nofun
      · show x.state.calls - 1 + 1 = x.state.calls + 0
        omega
      · rw [h.not_stored hi]
        rfl
  | send hr =>
      refine ⟨hsound, ?_, h.taken, h.started, h.stored, h.refused⟩
      show x.state.calls + 1 = x.others + 1 + x.readers.countP ReaderPhase.refers
      omega
  | close hr =>
      refine ⟨hsound, ?calls, h.taken, h.started, h.stored, fun e he => ?refused⟩
      case calls =>
        show x.state.calls + 1 = x.others + 1 + x.readers.countP ReaderPhase.refers
        omega
      case refused => exact (h.refused e he).imp_left fun hinvalid => ⟨hinvalid.1, rfl⟩
  | leave ho =>
      refine ⟨hsound, ?_, h.taken, h.started, h.stored, h.refused⟩
      show x.state.calls - 1 = x.others - 1 + x.readers.countP ReaderPhase.refers
      omega
  | task hp ht =>
      obtain ⟨-, hstate, hrecv, hreaders, hothers, -⟩ := ht.calls
      have hsome : y.task.isSome = x.task.isSome := by rw [ht.task_isSome, hp]; rfl
      exact ⟨hsound, by rw [hstate, hothers, hreaders, hcalls], by rw [hreaders, hrecv, h.taken],
        by rw [hreaders, hsome, h.started], by rw [hreaders, hstate, h.stored],
        by rw [hreaders, hrecv, hstate]; exact h.refused⟩

end RawStream

end Iroh.Core
