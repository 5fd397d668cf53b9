import Mathlib.Data.List.Nodup
import ReactNativeIroh.Core.Error
import ReactNativeIroh.Core.Frame
import ReactNativeIroh.Lib.Machine

/-!
# The tasks that share a send half

`stream_send` and `stream_close` look the stream up, and spawn a task that takes the
lock of its send half.  A task of a send writes its bytes in pieces and releases the
lock; then its completion is called.  The task of a close finishes the stream.

A step of the machine is a call from the host, or what one task does between two
await points: its first poll, which queues it for the lock, its admission, a piece
that the transport takes, the end of one `write_all`, an error of the transport, the
release of the lock, the completion.  Any waiting task may be admitted; that the lock
is fair is a guard (`Fifo`) of the results that need it.

Beside the tasks the state records, for the statements only, the order in which they
were first polled and in which they were admitted, what was on the wire at the
finish, and which sends had been confirmed when `stream_close` was called.
-/

namespace Iroh.Core

open Transition

/-- What a task is for. -/
inductive Job where
  | send (data : List UInt8)
  | close
deriving DecidableEq

/-- Where a task is. -/
inductive Phase where
  | refused (err : IrohError)
  | spawned
  | waiting
  /-- It holds the lock.  These buffers are still to be passed to `write_all`. -/
  | holding (rest : List (List UInt8))
  | released (result : Except IrohError Unit)
  | done (result : Except IrohError Unit)

/-- A call, with what it has written so far. -/
structure Task where
  job : Job
  written : List UInt8 := []
  phase : Phase

/-- One stream, and the calls made on it. -/
structure SendRun where
  handle : UInt64
  framing : Framing
  registered : Bool := true
  calls : ℕ := 0
  tasks : ℕ → Option Task := fun _ => none
  waiters : List ℕ := []
  holder : Option ℕ := none
  wire : List UInt8 := []
  polled : List ℕ := []
  served : List ℕ := []
  finishedAt : Option (List UInt8) := none
  confirmed : List ℕ := []

inductive SendAction where
  | send (data : List UInt8)
  | close
  | poll (i : ℕ)
  | acquire (i : ℕ)
  | write (i n : ℕ)
  | next (i : ℕ)
  | fail (i : ℕ) (err : WriteError)
  | release (i : ℕ)
  | finish (i : ℕ)
  | complete (i : ℕ)

/-- What the task passes to `write_all`. -/
def Job.writes (framing : Framing) : Job → List (List UInt8)
  | .send data => Core.writes framing data
  | .close => []

/-- The bytes of the task. -/
def Job.bytes (framing : Framing) (job : Job) : List UInt8 := (job.writes framing).flatten

def Job.isSend : Job → Bool
  | .send _ => true
  | .close => false

namespace Phase

/-- The task has been admitted. -/
def isServed : Phase → Bool
  | .holding _ | .released _ | .done _ => true
  | _ => false

def isHolding : Phase → Bool
  | .holding _ => true
  | _ => false

/-- The call has been answered. -/
def isOver : Phase → Bool
  | .refused _ | .done _ => true
  | _ => false

end Phase

/-- The completion of a send fired with `Ok`. -/
def Task.isConfirmed (t : Task) : Bool :=
  t.job.isSend && match t.phase with
    | .done (.ok ()) => true
    | _ => false

namespace SendRun

/-- Record call number `calls`. -/
def call (x : SendRun) (job : Job) (phase : Phase) : SendRun :=
  { x with
    calls := x.calls + 1
    tasks := Function.update x.tasks x.calls (some { job, phase }) }

def put (x : SendRun) (i : ℕ) (t : Task) : SendRun :=
  { x with tasks := Function.update x.tasks i (some t) }

/-- The part of `stream_send` that runs on the caller's thread. -/
def admission (x : SendRun) (data : List UInt8) : Phase :=
  if !x.registered then .refused (.invalidHandle x.handle)
  else if !accepts x.framing data then
    .refused (.streamFrameTooLarge
      s!"{data.length} bytes exceeds the {MAX_FRAME_SIZE}-byte frame limit")
  else .spawned

/-- The sends that have been confirmed. -/
def confirmedSends (x : SendRun) : List ℕ :=
  (List.range x.calls).filter fun i => (x.tasks i).any Task.isConfirmed

def step (x : SendRun) : SendAction → Option SendRun
  | .send data => some (x.call (.send data) (x.admission data))
  | .close =>
      if x.registered then
        some { x.call .close .spawned with registered := false, confirmed := x.confirmedSends }
      else some x
  | .poll i =>
      match x.tasks i with
      | some ⟨job, written, .spawned⟩ =>
          some { x.put i ⟨job, written, .waiting⟩ with
            waiters := x.waiters ++ [i], polled := x.polled ++ [i] }
      | _ => none
  | .acquire i =>
      match x.tasks i, x.holder with
      | some ⟨job, written, .waiting⟩, none =>
          some { x.put i ⟨job, written, .holding (job.writes x.framing)⟩ with
            waiters := x.waiters.erase i, holder := some i, served := x.served ++ [i] }
      | _, _ => none
  | .write i n =>
      match x.tasks i with
      | some ⟨job, written, .holding (buf :: rest)⟩ =>
          if 0 < n ∧ n ≤ buf.length ∧ x.finishedAt = none then
            some { x.put i ⟨job, written ++ buf.take n, .holding (buf.drop n :: rest)⟩ with
              wire := x.wire ++ buf.take n }
          else none
      | _ => none
  | .next i =>
      match x.tasks i with
      | some ⟨job, written, .holding ([] :: rest)⟩ => some (x.put i ⟨job, written, .holding rest⟩)
      | _ => none
  | .fail i err =>
      match x.tasks i with
      | some ⟨job, written, .holding ((_ :: _) :: _)⟩ =>
          some { x.put i ⟨job, written, .released (.error (writeError err))⟩ with holder := none }
      | _ => none
  | .release i =>
      match x.tasks i with
      | some ⟨.send data, written, .holding []⟩ =>
          some { x.put i ⟨.send data, written, .released (.ok ())⟩ with holder := none }
      | _ => none
  | .finish i =>
      match x.tasks i with
      | some ⟨.close, written, .holding []⟩ =>
          some { x.put i ⟨.close, written, .released (.ok ())⟩ with
            holder := none, finishedAt := some (x.finishedAt.getD x.wire) }
      | _ => none
  | .complete i =>
      match x.tasks i with
      | some ⟨job, written, .released result⟩ => some (x.put i ⟨job, written, .done result⟩)
      | _ => none

/-- Everything a step can do. -/
inductive Moves (x : SendRun) : SendAction → SendRun → Prop where
  | send (data : List UInt8) : Moves x (.send data) (x.call (.send data) (x.admission data))
  | close : x.registered = true → Moves x .close
      { x.call .close .spawned with registered := false, confirmed := x.confirmedSends }
  | closed : x.registered = false → Moves x .close x
  | poll {i job written} : x.tasks i = some ⟨job, written, .spawned⟩ → Moves x (.poll i)
      { x.put i ⟨job, written, .waiting⟩ with
        waiters := x.waiters ++ [i], polled := x.polled ++ [i] }
  | acquire {i job written} : x.tasks i = some ⟨job, written, .waiting⟩ → x.holder = none →
      Moves x (.acquire i)
        { x.put i ⟨job, written, .holding (job.writes x.framing)⟩ with
          waiters := x.waiters.erase i, holder := some i, served := x.served ++ [i] }
  | write {i n job written buf rest} : x.tasks i = some ⟨job, written, .holding (buf :: rest)⟩ →
      0 < n → x.finishedAt = none → Moves x (.write i n)
        { x.put i ⟨job, written ++ buf.take n, .holding (buf.drop n :: rest)⟩ with
          wire := x.wire ++ buf.take n }
  | next {i job written rest} : x.tasks i = some ⟨job, written, .holding ([] :: rest)⟩ →
      Moves x (.next i) (x.put i ⟨job, written, .holding rest⟩)
  | fail {i err job written rest} : x.tasks i = some ⟨job, written, .holding rest⟩ →
      Moves x (.fail i err)
        { x.put i ⟨job, written, .released (.error (writeError err))⟩ with holder := none }
  | release {i data written} : x.tasks i = some ⟨.send data, written, .holding []⟩ →
      Moves x (.release i)
        { x.put i ⟨.send data, written, .released (.ok ())⟩ with holder := none }
  | finish {i written} : x.tasks i = some ⟨.close, written, .holding []⟩ → Moves x (.finish i)
      { x.put i ⟨.close, written, .released (.ok ())⟩ with
        holder := none, finishedAt := some (x.finishedAt.getD x.wire) }
  | complete {i job written result} : x.tasks i = some ⟨job, written, .released result⟩ →
      Moves x (.complete i) (x.put i ⟨job, written, .done result⟩)

theorem step_moves {x y : SendRun} {a : SendAction} (h : x.step a = some y) : x.Moves a y := by
  cases a with
  | send data =>
      obtain rfl := Option.some.inj h
      exact .send data
  | close =>
      simp only [step] at h
      split at h
      · next hr =>
          obtain rfl := Option.some.inj h
          exact .close hr
      · next hr =>
          obtain rfl := Option.some.inj h
          exact .closed (by simpa using hr)
  | poll i =>
      simp only [step] at h
      split at h
      · next ht => obtain rfl := Option.some.inj h; exact .poll ht
      · cases h
  | acquire i =>
      simp only [step] at h
      split at h
      · next ht hh => obtain rfl := Option.some.inj h; exact .acquire ht hh
      · cases h
  | write i n =>
      simp only [step] at h
      split at h
      · next ht =>
          split at h
          · next hn => obtain rfl := Option.some.inj h; exact .write ht hn.1 hn.2.2
          · cases h
      · cases h
  | next i =>
      simp only [step] at h
      split at h
      · next ht => obtain rfl := Option.some.inj h; exact .next ht
      · cases h
  | fail i err =>
      simp only [step] at h
      split at h
      · next ht => obtain rfl := Option.some.inj h; exact .fail ht
      · cases h
  | release i =>
      simp only [step] at h
      split at h
      · next ht => obtain rfl := Option.some.inj h; exact .release ht
      · cases h
  | finish i =>
      simp only [step] at h
      split at h
      · next ht => obtain rfl := Option.some.inj h; exact .finish ht
      · cases h
  | complete i =>
      simp only [step] at h
      split at h
      · next ht => obtain rfl := Option.some.inj h; exact .complete ht
      · cases h

end SendRun

/-- The machine of a stream that was just opened. -/
def sendMachine (handle : UInt64) (framing : Framing) : Machine SendRun SendAction where
  init x := x = { handle, framing }
  step := SendRun.step

/-! ## The invariant -/

/-- What a task has written, by where it is. -/
def Task.Wrote (framing : Framing) (t : Task) : Prop :=
  match t.phase with
  | .refused _ | .spawned | .waiting => t.written = []
  | .holding rest => t.written ++ rest.flatten = t.job.bytes framing
  | .released (.ok ()) | .done (.ok ()) => t.written = t.job.bytes framing
  | .released (.error _) | .done (.error _) => t.written <+: t.job.bytes framing

namespace Task.Wrote

variable {framing : Framing} {t : Task}

theorem unserved (h : t.Wrote framing) (hp : t.phase.isServed = false) : t.written = [] := by
  obtain ⟨job, written, phase⟩ := t
  cases phase with
  | refused _ => exact h
  | spawned => exact h
  | waiting => exact h
  | holding _ => cases hp
  | released _ => cases hp
  | done _ => cases hp

/-- A task has written a front of its bytes. -/
theorem front (h : t.Wrote framing) : t.written <+: t.job.bytes framing := by
  obtain ⟨job, written, phase⟩ := t
  cases phase with
  | refused _ => exact (unserved h rfl).symm ▸ List.nil_prefix
  | spawned => exact (unserved h rfl).symm ▸ List.nil_prefix
  | waiting => exact (unserved h rfl).symm ▸ List.nil_prefix
  | holding rest => exact ⟨_, h⟩
  | released result =>
      cases result with
      | ok _ => exact ⟨[], (List.append_nil _).trans h⟩
      | error _ => exact h
  | done result =>
      cases result with
      | ok _ => exact ⟨[], (List.append_nil _).trans h⟩
      | error _ => exact h

end Task.Wrote

namespace SendRun

/-- Where a task is, in the lists of the stream. -/
structure Fits (x : SendRun) (i : ℕ) (t : Task) : Prop where
  waiting : i ∈ x.waiters ↔ t.phase = .waiting
  served : i ∈ x.served ↔ t.phase.isServed = true
  holds : x.holder = some i ↔ t.phase.isHolding = true
  wrote : t.Wrote x.framing

/-- The bytes a call has written. -/
def writtenBy (x : SendRun) (i : ℕ) : List UInt8 := ((x.tasks i).map Task.written).getD []

/-- The invariant of every run.  The lock has one holder, which was admitted last,
and what is on the wire was written by the calls in the order of admission. -/
structure Valid (x : SendRun) : Prop where
  fits : ∀ i t, x.tasks i = some t → x.Fits i t
  fresh : ∀ i, x.tasks i = none → i ∉ x.waiters ∧ i ∉ x.served ∧ x.holder ≠ some i
  known : ∀ i, x.calls ≤ i → x.tasks i = none
  nodup : x.served.Nodup ∧ x.waiters.Nodup
  last : ∀ i, x.holder = some i → ∃ before, x.served = before ++ [i]
  wire : x.wire = x.served.flatMap x.writtenBy

variable {x : SendRun} {i j : ℕ} {t : Task}

theorem valid_new (handle : UInt64) (framing : Framing) : Valid { handle, framing } where
  fits _ _ h := nomatch h
  fresh _ _ := ⟨List.not_mem_nil, List.not_mem_nil, nofun⟩
  known _ _ := rfl
  nodup := ⟨List.nodup_nil, List.nodup_nil⟩
  last _ h := nomatch h
  wire := rfl

@[simp] theorem put_tasks_self : (x.put i t).tasks i = some t := by
  simp [put]

theorem put_tasks_of_ne (h : j ≠ i) : (x.put i t).tasks j = x.tasks j := by
  simp [put, h]

theorem writtenBy_of_tasks (h : x.tasks i = some t) : x.writtenBy i = t.written := by
  simp [writtenBy, h]

theorem nodup_append_singleton {l : List ℕ} (h : l.Nodup) (hi : i ∉ l) : (l ++ [i]).Nodup := by
  simpa using h.concat hi

/-- Another task moves: what a task needs of the lists is unchanged. -/
theorem Fits.congr {y : SendRun} (h : x.Fits i t) (hframing : y.framing = x.framing)
    (hw : i ∈ y.waiters ↔ i ∈ x.waiters) (hs : i ∈ y.served ↔ i ∈ x.served)
    (hh : y.holder = some i ↔ x.holder = some i) : y.Fits i t where
  waiting := hw.trans h.waiting
  served := hs.trans h.served
  holds := hh.trans h.holds
  wrote := hframing ▸ h.wrote

namespace Valid

/-- A task that holds the lock is the last one that was admitted. -/
theorem holding (h : x.Valid) (ht : x.tasks i = some t) (hh : t.phase.isHolding = true) :
    x.holder = some i ∧ ∃ before, x.served = before ++ [i] ∧ i ∉ before := by
  have hi : x.holder = some i := (h.fits i t ht).holds.2 hh
  obtain ⟨before, hs⟩ := h.last i hi
  have hnodup := h.nodup.1
  rw [hs, List.nodup_append] at hnodup
  exact ⟨hi, before, hs, fun hb => hnodup.2.2 i hb i List.mem_cons_self rfl⟩

/-- One task moves and the others stay where they are. -/
theorem move {y : SendRun} {t' : Task} (h : x.Valid) (ht : x.tasks i = some t)
    (htasks : y.tasks = Function.update x.tasks i (some t')) (hcalls : y.calls = x.calls)
    (hframing : y.framing = x.framing) (here : y.Fits i t')
    (others : ∀ j, j ≠ i → (j ∈ y.waiters ↔ j ∈ x.waiters) ∧ (j ∈ y.served ↔ j ∈ x.served) ∧
      (y.holder = some j ↔ x.holder = some j))
    (nodup : y.served.Nodup ∧ y.waiters.Nodup)
    (last : ∀ j, y.holder = some j → ∃ before, y.served = before ++ [j])
    (wire : y.wire = y.served.flatMap y.writtenBy) : y.Valid where
  fits j t'' hj := by
    by_cases hji : j = i
    · subst hji
      rw [htasks, Function.update_self] at hj
      exact Option.some.inj hj ▸ here
    · rw [htasks, Function.update_of_ne hji] at hj
      obtain ⟨hw, hs, hh⟩ := others j hji
      exact (h.fits j t'' hj).congr hframing hw hs hh
  fresh j hj := by
    have hji : j ≠ i := by
      rintro rfl
      simp [htasks] at hj
    rw [htasks, Function.update_of_ne hji] at hj
    obtain ⟨hw, hs, hh⟩ := others j hji
    exact (h.fresh j hj).imp (mt hw.1) (And.imp (mt hs.1) (mt hh.1))
  known j hj := by
    have hji : j ≠ i := by
      rintro rfl
      rw [h.known j (hcalls ▸ hj)] at ht
      cases ht
    rw [htasks, Function.update_of_ne hji]
    exact h.known j (hcalls ▸ hj)
  nodup := nodup
  last := last
  wire := wire

/-- What is on the wire, when a task moves without writing. -/
theorem wire_of_put (h : x.Valid) {y : SendRun} {t' : Task} (ht : x.tasks i = some t)
    (htasks : y.tasks = Function.update x.tasks i (some t')) (hwritten : t'.written = t.written)
    (hwire : y.wire = x.wire) (hserved : y.served = x.served) :
    y.wire = y.served.flatMap y.writtenBy := by
  rw [hwire, hserved, h.wire]
  refine List.flatMap_congr fun j _ => ?_
  by_cases hji : j = i
  · subst hji
    simp [writtenBy, htasks, ht, hwritten]
  · simp [writtenBy, htasks, Function.update_of_ne hji]

/-- A call is recorded. -/
theorem call (h : x.Valid) (job : Job) {phase : Phase}
    (hphase : phase = .spawned ∨ ∃ err, phase = .refused err) : (x.call job phase).Valid := by
  have hnone : x.tasks x.calls = none := h.known x.calls le_rfl
  obtain ⟨hw, hs, hh⟩ := h.fresh x.calls hnone
  refine ⟨fun j t hj => ?_, fun j hj => ?_, fun j hj => ?_, h.nodup, h.last, ?_⟩
  · by_cases hji : j = x.calls
    · subst hji
      obtain rfl : ({ job, phase } : Task) = t := by simpa [SendRun.call] using hj
      rcases hphase with rfl | ⟨err, rfl⟩
      · exact ⟨by simpa [SendRun.call] using hw, by simpa [SendRun.call, Phase.isServed] using hs,
          by simpa [SendRun.call, Phase.isHolding] using hh, rfl⟩
      · exact ⟨by simpa [SendRun.call] using hw, by simpa [SendRun.call, Phase.isServed] using hs,
          by simpa [SendRun.call, Phase.isHolding] using hh, rfl⟩
    · have hj' : x.tasks j = some t := by simpa [SendRun.call, hji] using hj
      exact (h.fits j t hj').congr rfl Iff.rfl Iff.rfl Iff.rfl
  · have hji : j ≠ x.calls := by
      rintro rfl
      simp [SendRun.call] at hj
    exact h.fresh j (by simpa [SendRun.call, hji] using hj)
  · have hj' : x.calls + 1 ≤ j := hj
    have hji : j ≠ x.calls := by omega
    simpa [SendRun.call, hji] using h.known j (by omega)
  · have hwire : (x.call job phase).wire = x.served.flatMap x.writtenBy := h.wire
    rw [hwire]
    refine (List.flatMap_congr fun j hj => ?_).symm
    have hji : j ≠ x.calls := ne_of_mem_of_not_mem hj hs
    simp [writtenBy, SendRun.call, hji]

theorem poll (h : x.Valid) {job : Job} {written : List UInt8}
    (ht : x.tasks i = some ⟨job, written, .spawned⟩) :
    Valid { x.put i ⟨job, written, .waiting⟩ with
      waiters := x.waiters ++ [i], polled := x.polled ++ [i] } := by
  have hfits := h.fits i _ ht
  have hw : i ∉ x.waiters := fun hw => nomatch hfits.waiting.1 hw
  exact h.move ht rfl rfl rfl ⟨by simp, hfits.served, hfits.holds, hfits.wrote⟩
    (fun j hj => ⟨by simp [hj], Iff.rfl, Iff.rfl⟩) ⟨h.nodup.1, nodup_append_singleton h.nodup.2 hw⟩
    h.last (h.wire_of_put ht rfl rfl rfl rfl)

theorem acquire (h : x.Valid) {job : Job} {written : List UInt8}
    (ht : x.tasks i = some ⟨job, written, .waiting⟩) (hfree : x.holder = none) :
    Valid { x.put i ⟨job, written, .holding (job.writes x.framing)⟩ with
      waiters := x.waiters.erase i, holder := some i, served := x.served ++ [i] } := by
  have hfits := h.fits i _ ht
  have hs : i ∉ x.served := fun hs => nomatch hfits.served.1 hs
  have hwritten : written = [] := hfits.wrote
  subst hwritten
  refine h.move ht rfl rfl rfl ⟨?_, by simp [Phase.isServed], by simp [Phase.isHolding], rfl⟩
    (fun j hj => ⟨List.mem_erase_of_ne hj, by simp [hj], by simp [hfree, Ne.symm hj]⟩)
    ⟨nodup_append_singleton h.nodup.1 hs, h.nodup.2.erase i⟩ (fun j hj => ?_) ?_
  · exact iff_of_false (fun hmem => h.nodup.2.not_mem_erase hmem) nofun
  · obtain rfl := Option.some.inj hj
    exact ⟨x.served, rfl⟩
  · have hwire := h.wire_of_put (y := x.put i ⟨job, [], .holding (job.writes x.framing)⟩) ht rfl rfl
      rfl rfl
    have hnothing : (x.put i ⟨job, [], .holding (job.writes x.framing)⟩).writtenBy i = [] :=
      writtenBy_of_tasks put_tasks_self
    show x.wire = (x.served ++ [i]).flatMap _
    rw [List.flatMap_append]
    refine hwire.trans (Eq.trans (List.append_nil _).symm (congrArg _ ?_))
    exact (List.flatMap_singleton ..).trans hnothing |>.symm

/-- The holder passes a piece to the transport. -/
theorem write (h : x.Valid) {job : Job} {written buf : List UInt8} {rest : List (List UInt8)}
    (ht : x.tasks i = some ⟨job, written, .holding (buf :: rest)⟩) (n : ℕ) :
    Valid { x.put i ⟨job, written ++ buf.take n, .holding (buf.drop n :: rest)⟩ with
      wire := x.wire ++ buf.take n } := by
  have hfits := h.fits i _ ht
  obtain ⟨-, before, hserved, hnew⟩ := h.holding ht rfl
  have hwrote : written ++ (buf :: rest).flatten = job.bytes x.framing := hfits.wrote
  refine h.move ht rfl rfl rfl ⟨hfits.waiting.trans ?_, hfits.served, hfits.holds, ?_⟩
    (fun j _ => ⟨Iff.rfl, Iff.rfl, Iff.rfl⟩) h.nodup h.last ?_
  · exact iff_of_false nofun nofun
  · show (written ++ buf.take n) ++ (buf.drop n :: rest).flatten = job.bytes x.framing
    rw [← hwrote, List.flatten_cons, List.flatten_cons, List.append_assoc, ← List.append_assoc _ _
      rest.flatten, List.take_append_drop]
  · show x.wire ++ buf.take n = x.served.flatMap _
    rw [h.wire, hserved, List.flatMap_append, List.flatMap_append, List.append_assoc]
    refine congr (congrArg _ ?_) ?_
    · refine List.flatMap_congr fun j hj => ?_
      have hji : j ≠ i := ne_of_mem_of_not_mem hj hnew
      simp [writtenBy, put, hji]
    · simp [writtenBy, put, ht]

/-- The holder goes on to the next buffer. -/
theorem next (h : x.Valid) {job : Job} {written : List UInt8} {rest : List (List UInt8)}
    (ht : x.tasks i = some ⟨job, written, .holding ([] :: rest)⟩) :
    (x.put i ⟨job, written, .holding rest⟩).Valid := by
  have hfits := h.fits i _ ht
  refine h.move ht rfl rfl rfl ⟨hfits.waiting.trans ?_, hfits.served, hfits.holds, hfits.wrote⟩
    (fun j _ => ⟨Iff.rfl, Iff.rfl, Iff.rfl⟩) h.nodup h.last (h.wire_of_put ht rfl rfl rfl rfl)
  exact iff_of_false nofun nofun

/-- The holder releases the lock. -/
theorem release (h : x.Valid) {y : SendRun} {job : Job} {written : List UInt8}
    {rest : List (List UInt8)} (ht : x.tasks i = some ⟨job, written, .holding rest⟩)
    (result : Except IrohError Unit) (hresult : result = .ok () → rest = [])
    (hy : y = { x.put i ⟨job, written, .released result⟩ with
      holder := none, finishedAt := y.finishedAt }) : y.Valid := by
  have hfits := h.fits i _ ht
  obtain ⟨hholder, -⟩ := h.holding ht rfl
  have hwrote : written ++ rest.flatten = job.bytes x.framing := hfits.wrote
  rw [hy]
  refine h.move ht rfl rfl rfl ⟨hfits.waiting.trans ?_, hfits.served, by simp [Phase.isHolding], ?_⟩
    (fun j hj => ⟨Iff.rfl, Iff.rfl, ?_⟩) h.nodup nofun (h.wire_of_put ht rfl rfl rfl rfl)
  · exact iff_of_false nofun nofun
  · cases result with
    | error err => exact ⟨_, hwrote⟩
    | ok u =>
        obtain rfl := hresult rfl
        exact (List.append_nil _).symm.trans hwrote
  · rw [hholder]
    exact iff_of_false nofun fun he => hj (Option.some.inj he).symm

theorem complete (h : x.Valid) {job : Job} {written : List UInt8} {result : Except IrohError Unit}
    (ht : x.tasks i = some ⟨job, written, .released result⟩) :
    (x.put i ⟨job, written, .done result⟩).Valid := by
  have hfits := h.fits i _ ht
  refine h.move ht rfl rfl rfl ⟨hfits.waiting.trans ?_, hfits.served, hfits.holds, ?_⟩
    (fun j _ => ⟨Iff.rfl, Iff.rfl, Iff.rfl⟩) h.nodup h.last (h.wire_of_put ht rfl rfl rfl rfl)
  · exact iff_of_false nofun nofun
  · cases result with
    | ok u => exact hfits.wrote
    | error err => exact hfits.wrote

end Valid

theorem admission_cases (x : SendRun) (data : List UInt8) :
    x.admission data = .spawned ∨ ∃ err, x.admission data = .refused err := by
  unfold admission
  split
  · exact Or.inr ⟨_, rfl⟩
  · split
    · exact Or.inr ⟨_, rfl⟩
    · exact Or.inl rfl

/-- Every step keeps the invariant. -/
theorem Valid.moves {y : SendRun} {a : SendAction} (h : x.Valid) (hm : x.Moves a y) : y.Valid := by
  cases hm with
  | send data => exact h.call _ (x.admission_cases data)
  | close _ =>
      have hcall := h.call .close (Or.inl rfl)
      exact ⟨fun i t ht => (hcall.fits i t ht).congr rfl Iff.rfl Iff.rfl Iff.rfl, hcall.fresh,
        hcall.known, hcall.nodup, hcall.last, hcall.wire⟩
  | closed _ => exact h
  | poll ht => exact h.poll ht
  | acquire ht hfree => exact h.acquire ht hfree
  | write ht _ _ => exact h.write ht _
  | next ht => exact h.next ht
  | fail ht => exact h.release ht (.error _) nofun rfl
  | release ht => exact h.release ht (.ok ()) (fun _ => rfl) rfl
  | finish ht => exact h.release ht (.ok ()) (fun _ => rfl) rfl
  | complete ht => exact h.complete ht

/-! ## What a step keeps of a task -/

theorem put_keeps {t₀ t₁ : Task} (h₀ : x.tasks i = some t₀) (hjob : t₁.job = t₀.job)
    (hlive : t₀.phase.isOver = false) (ht : x.tasks j = some t) :
    ∃ t', (x.put i t₁).tasks j = some t' ∧ t'.job = t.job ∧
      (t.phase.isOver = true → t' = t) := by
  by_cases hji : j = i
  · subst hji
    obtain rfl := Option.some.inj (h₀.symm.trans ht)
    refine ⟨t₁, put_tasks_self, hjob, fun hover => ?_⟩
    rw [hlive] at hover
    cases hover
  · exact ⟨t, (put_tasks_of_ne hji).trans ht, rfl, fun _ => rfl⟩

theorem call_keeps (h : x.Valid) (job : Job) (phase : Phase) (ht : x.tasks j = some t) :
    (x.call job phase).tasks j = some t := by
  have hji : j ≠ x.calls := by
    rintro rfl
    rw [h.known _ le_rfl] at ht
    cases ht
  simp [SendRun.call, hji, ht]

/-- A task keeps its job, and a call that is over stays as it is. -/
theorem Moves.keeps {y : SendRun} {a : SendAction} (h : x.Valid) (hm : x.Moves a y)
    (ht : x.tasks j = some t) :
    ∃ t', y.tasks j = some t' ∧ t'.job = t.job ∧ (t.phase.isOver = true → t' = t) := by
  cases hm with
  | send data => exact ⟨t, call_keeps h _ _ ht, rfl, fun _ => rfl⟩
  | close _ => exact ⟨t, call_keeps h _ _ ht, rfl, fun _ => rfl⟩
  | closed _ => exact ⟨t, ht, rfl, fun _ => rfl⟩
  | poll h₀ => exact put_keeps h₀ rfl rfl ht
  | acquire h₀ _ => exact put_keeps h₀ rfl rfl ht
  | write h₀ _ _ => exact put_keeps h₀ rfl rfl ht
  | next h₀ => exact put_keeps h₀ rfl rfl ht
  | fail h₀ => exact put_keeps h₀ rfl rfl ht
  | release h₀ => exact put_keeps h₀ rfl rfl ht
  | finish h₀ => exact put_keeps h₀ rfl rfl ht
  | complete h₀ => exact put_keeps h₀ rfl rfl ht

theorem put_origin {t₀ t₁ : Task} (h₀ : x.tasks i = some t₀)
    (ht : (x.put i t₁).tasks j = some t) : ∃ t', x.tasks j = some t' := by
  by_cases hji : j = i
  · exact ⟨t₀, hji ▸ h₀⟩
  · exact ⟨t, (put_tasks_of_ne hji).symm.trans ht⟩

theorem call_origin {job : Job} {phase : Phase} (ht : (x.call job phase).tasks j = some t) :
    (∃ t', x.tasks j = some t') ∨ (j = x.calls ∧ t = { job, phase }) := by
  by_cases hji : j = x.calls
  · subst hji
    exact Or.inr ⟨rfl, by simpa [SendRun.call, eq_comm] using ht⟩
  · exact Or.inl ⟨t, by simpa [SendRun.call, hji] using ht⟩

/-- A task was there before the step, or it is the one of the call. -/
theorem Moves.origin {y : SendRun} {a : SendAction} (hm : x.Moves a y) (ht : y.tasks j = some t) :
    (∃ t', x.tasks j = some t') ∨
      (j = x.calls ∧
        ((∃ data, a = .send data ∧ t = { job := .send data, phase := x.admission data }) ∨
          t = { job := .close, phase := .spawned })) := by
  cases hm with
  | send data =>
      exact (call_origin ht).imp_right fun h => ⟨h.1, Or.inl ⟨data, rfl, h.2⟩⟩
  | close _ => exact (call_origin ht).imp_right fun h => ⟨h.1, Or.inr h.2⟩
  | closed _ => exact Or.inl ⟨t, ht⟩
  | poll h₀ => exact Or.inl (put_origin h₀ ht)
  | acquire h₀ _ => exact Or.inl (put_origin h₀ ht)
  | write h₀ _ _ => exact Or.inl (put_origin h₀ ht)
  | next h₀ => exact Or.inl (put_origin h₀ ht)
  | fail h₀ => exact Or.inl (put_origin h₀ ht)
  | release h₀ => exact Or.inl (put_origin h₀ ht)
  | finish h₀ => exact Or.inl (put_origin h₀ ht)
  | complete h₀ => exact Or.inl (put_origin h₀ ht)

end SendRun

theorem send_valid_invariant (handle : UInt64) (framing : Framing) :
    (sendMachine handle framing).Invariant Any SendRun.Valid where
  init x hx := by
    obtain rfl := hx
    exact SendRun.valid_new handle framing
  step _ _ _ hx _ hy := hx.moves (SendRun.step_moves hy)

end Iroh.Core
