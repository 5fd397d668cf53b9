import ReactNativeIroh.Core.Coalesce
import ReactNativeIroh.Core.Export
import ReactNativeIroh.Core.Registry
import ReactNativeIroh.Lib.Machine

/-!
# Downloads and their cancellation

`blob_download` registers a transfer, spawns a task for it and returns its handle.  The
task runs `download_inner` as a task of its own, and waits until that has ended or the
cancel signal has arrived.  Then it removes the handle, and calls `on_complete`.
`HybridIroh::download_blob` calls `on_start` with the handle, forwards progress through
a coalescer, and settles the promise of the caller on completion.

A step of the machine is what one thread does between two points where another can
interfere.  A task is only polled while a worker runs it.  An abort is a request: a task
that is being polled carries on until it yields at an await, and is dropped then.  A file
operation runs on a thread of its own, and dropping the task that awaits it does not
stop it.

Time is in milliseconds.  The log of a transfer is what was done for it, in order.
-/

namespace Iroh.Core

open Transition

/-- What a task of a transfer answers with. -/
abbrev Outcome := Except IrohError Unit

inductive TransferEvent where
  /-- The bridge called `onStart`. -/
  | started (handle : ℕ)
  /-- `on_progress` was invoked. -/
  | progress (bytes : ℕ)
  /-- The destination was removed. -/
  | removed
  /-- The destination was written. -/
  | written
  /-- `on_complete` was invoked. -/
  | completed (result : Outcome)
  /-- The bridge called `onProgress`. -/
  | emitted (bytes : ℕ)
  /-- The bridge settled the promise. -/
  | settled (result : Outcome)

/-! ## The task of `download_inner` -/

inductive GetProgressItem where
  | progress (bytes : ℕ)
  | done
  | error (text : String)

/-- Where `download_inner` is. -/
inductive InnerPhase where
  | unspawned
  | lookup
  | dialing
  | streaming (finished : Bool)
  /-- `on_progress` runs, and has not offered the value yet. -/
  | reporting (finished : Bool) (bytes : ℕ)
  /-- `on_progress` runs, and the value has still to be passed to the sink. -/
  | emitting (finished : Bool) (bytes : ℕ)
  | exporting
  | returned (result : Outcome)
  | panicked (text : String)
  | dropped

/-- The file operation that was started last. -/
inductive FileOp where
  | idle
  | running (phase : ExportPhase)
  /-- The phase is the one the export has reached. -/
  | finished (phase : ExportPhase)

structure InnerTask where
  phase : InnerPhase := .unspawned
  polled : Bool := false
  aborted : Bool := false
  op : FileOp := .idle

/-- What `download_inner` and the file operations it started can reach. -/
structure Download (β : Type*) where
  inner : InnerTask
  coalescer : Coalescer
  fs : FileSystem β

inductive InnerAction where
  | poll
  | yield
  | drop
  /-- The endpoint is open or not. -/
  | lookup (isOpen : Bool)
  | connect (result : Except String Unit)
  | next (item : Option GetProgressItem)
  | offer (now : ℕ)
  | emit
  /-- The result of the file operation is there. -/
  | resume
  | panic (text : String)
  /-- The file operation takes effect. -/
  | effect (fault : Option String)

namespace InnerPhase

/-- The task waits for something outside it. -/
def awaits : InnerPhase → Bool
  | .dialing | .streaming _ | .exporting => true
  | _ => false

/-- The task can still be polled. -/
def isLive : InnerPhase → Bool
  | .unspawned | .returned _ | .panicked _ | .dropped => false
  | _ => true

end InnerPhase

namespace InnerTask

def goto (k : InnerTask) (phase : InnerPhase) : InnerTask := { k with phase }

/-- The task ends while it is polled. -/
def finish (k : InnerTask) (phase : InnerPhase) : InnerTask := { k with phase, polled := false }

/-- One turn of the loop over the stream. -/
def next (k : InnerTask) (finished : Bool) :
    Option GetProgressItem → InnerTask × List TransferEvent
  | some (.progress bytes) => (k.goto (.reporting finished bytes), [.progress bytes])
  | some .done => (k.goto (.streaming true), [])
  | some (.error text) => (k.finish (.returned (.error (.blobDownload text))), [])
  | none =>
      if finished then ({ k with phase := .exporting, op := .running .inspecting }, [])
      else
        (k.finish (.returned (.error (.blobDownload "transfer stream ended before completion"))),
          [])

/-- The operation after the one that has finished. -/
def resume (k : InnerTask) : ExportPhase → InnerTask
  | .done => { k.finish (.returned (.ok ())) with op := .idle }
  | .failed e => { k.finish (.returned (.error e)) with op := .idle }
  | phase => { k with op := .running phase }

end InnerTask

/-- What a file operation does to the destination. -/
def fileEvents : ExportPhase → ExportPhase → List TransferEvent
  | .removing, .exporting => [.removed]
  | .exporting, .done => [.written]
  | _, _ => []

namespace Download

variable {β : Type*}

def step (endpoint : ℕ) (dest : Path) (content : β) (d : Download β) :
    InnerAction → Option (Download β × List TransferEvent)
  | .poll =>
      if d.inner.phase.isLive ∧ d.inner.polled = false ∧ d.inner.aborted = false then
        some ({ d with inner := { d.inner with polled := true } }, [])
      else none
  | .yield =>
      if d.inner.phase.awaits ∧ d.inner.polled then
        some ({ d with inner := { d.inner with polled := false } }, [])
      else none
  | .drop =>
      if d.inner.phase.isLive ∧ d.inner.polled = false ∧ d.inner.aborted then
        some ({ d with inner := d.inner.goto .dropped }, [])
      else none
  | .lookup isOpen =>
      match d.inner.phase, d.inner.polled with
      | .lookup, true =>
          if isOpen then some ({ d with inner := d.inner.goto .dialing }, [])
          else
            some ({ d with inner :=
              d.inner.finish (.returned (.error (.invalidHandle (.ofNat endpoint)))) }, [])
      | _, _ => none
  | .connect result =>
      match d.inner.phase, d.inner.polled with
      | .dialing, true =>
          match result with
          | .ok () => some ({ d with inner := d.inner.goto (.streaming false) }, [])
          | .error text =>
              some ({ d with inner :=
                d.inner.finish (.returned (.error (.blobDownload ("connect: " ++ text)))) }, [])
      | _, _ => none
  | .next item =>
      match d.inner.phase, d.inner.polled with
      | .streaming finished, true =>
          some ({ d with inner := (d.inner.next finished item).1 },
            (d.inner.next finished item).2)
      | _, _ => none
  | .offer now =>
      match d.inner.phase, d.inner.polled with
      | .reporting finished bytes, true =>
          match d.coalescer.offerAt bytes now with
          | (coalescer, some bytes) =>
              some ({ d with inner := d.inner.goto (.emitting finished bytes), coalescer }, [])
          | (coalescer, none) =>
              some ({ d with inner := d.inner.goto (.streaming finished), coalescer }, [])
      | _, _ => none
  | .emit =>
      match d.inner.phase, d.inner.polled with
      | .emitting finished bytes, true =>
          some ({ d with inner := d.inner.goto (.streaming finished) }, [.emitted bytes])
      | _, _ => none
  | .resume =>
      match d.inner.phase, d.inner.polled, d.inner.op with
      | .exporting, true, .finished phase => some ({ d with inner := d.inner.resume phase }, [])
      | _, _, _ => none
  | .panic text =>
      if d.inner.phase.isLive ∧ d.inner.polled then
        some ({ d with inner := d.inner.finish (.panicked text) }, [])
      else none
  | .effect fault =>
      match d.inner.op with
      | .running phase =>
          (exportStep dest content fault phase d.fs).map fun (phase', fs) =>
            ({ d with inner := { d.inner with op := .finished phase' }, fs },
              fileEvents phase phase')
      | _ => none

end Download

/-! ## The transfers -/

/-- `PROGRESS_MIN_INTERVAL`. -/
def PROGRESS_MIN_INTERVAL : ℕ := 34

/-- What the receiver of the cancel channel sees. -/
inductive CancelSignal where
  | waiting
  | sent
  /-- The sender was dropped. -/
  | closed
deriving DecidableEq

/-- Where the task that `blob_download` spawns is. -/
inductive OuterPhase where
  | unpolled
  | selecting
  | removing (result : Outcome)
  | completing (result : Outcome)
  | flushing (result : Outcome)
  | forwarding (result : Outcome) (bytes : ℕ)
  | settling (result : Outcome)
  | done (result : Outcome)

namespace OuterPhase

/-- The task still waits for the inner task or the signal. -/
def isSelecting : OuterPhase → Bool
  | .unpolled | .selecting => true
  | _ => false

/-- The handle of the transfer is registered. -/
def isRegistered : OuterPhase → Bool
  | .unpolled | .selecting | .removing _ => true
  | _ => false

/-- The terminal result, once there is one. -/
def result : OuterPhase → Option Outcome
  | .unpolled | .selecting => none
  | .removing r | .completing r | .flushing r | .forwarding r _ | .settling r | .done r => some r

/-- The result `on_complete` was invoked with. -/
def completed : OuterPhase → Option Outcome
  | .unpolled | .selecting | .removing _ | .completing _ => none
  | .flushing r | .forwarding r _ | .settling r | .done r => some r

end OuterPhase

structure Transfer (β : Type*) where
  handle : ℕ
  endpoint : ℕ
  dest : Path
  content : β
  isStarted : Bool := false
  /-- The sender is still in the state of the transfer. -/
  hasSender : Bool := true
  signal : CancelSignal := .waiting
  outer : OuterPhase := .unpolled
  inner : InnerTask := {}
  coalescer : Coalescer := { minInterval := PROGRESS_MIN_INTERVAL }
  log : List TransferEvent := []

inductive OuterAction where
  | poll
  | cancelled
  | joined
  | complete
  | flush (now : ℕ)
  | forward
  | settle

/-- What joining the inner task gives, if it has ended. -/
def InnerPhase.joined : InnerPhase → Option Outcome
  | .returned result => some result
  | .panicked text => some (.error (.internal ("download task failed: " ++ text)))
  | .dropped => some (.error (.internal "download task failed: task was cancelled"))
  | _ => none

namespace Transfer

variable {β : Type*}

/-- A step of the inner task. -/
def innerStep (t : Transfer β) (fs : FileSystem β) (a : InnerAction) :
    Option (Transfer β × FileSystem β) :=
  (Download.step t.endpoint t.dest t.content ⟨t.inner, t.coalescer, fs⟩ a).map fun (d, events) =>
    ({ t with inner := d.inner, coalescer := d.coalescer, log := t.log ++ events }, d.fs)

/-- A step of the task that `blob_download` spawns. -/
def outerStep (t : Transfer β) : OuterAction → Option (Transfer β)
  | .poll =>
      match t.outer with
      | .unpolled => some { t with outer := .selecting, inner := t.inner.goto .lookup }
      | _ => none
  | .cancelled =>
      match t.outer, t.signal with
      | .selecting, .sent | .selecting, .closed =>
          some { t with
            outer := .removing (.error .cancelled), inner := { t.inner with aborted := true } }
      | _, _ => none
  | .joined =>
      match t.outer, t.inner.phase.joined with
      | .selecting, some result => some { t with outer := .removing result }
      | _, _ => none
  | .complete =>
      match t.outer with
      | .completing result =>
          some { t with outer := .flushing result, log := t.log ++ [.completed result] }
      | _ => none
  | .flush now =>
      match t.outer with
      | .flushing result =>
          match t.coalescer.flush now with
          | (coalescer, some bytes) => some { t with outer := .forwarding result bytes, coalescer }
          | (coalescer, none) => some { t with outer := .settling result, coalescer }
      | _ => none
  | .forward =>
      match t.outer with
      | .forwarding result bytes =>
          some { t with outer := .settling result, log := t.log ++ [.emitted bytes] }
      | _ => none
  | .settle =>
      match t.outer with
      | .settling result => some { t with outer := .done result, log := t.log ++ [.settled result] }
      | _ => none

/-- The bridge hands the handle out. -/
def start (t : Transfer β) : Option (Transfer β) :=
  if t.isStarted then none
  else some { t with isStarted := true, log := t.log ++ [.started t.handle] }

end Transfer

/-! ## The machine -/

/-- Where a call of `blob_download_cancel` is. -/
inductive CancelPhase where
  | begun
  /-- It has looked the transfer up. -/
  | holding (i : ℕ)
  /-- It has taken the sender. -/
  | sending (i : ℕ)
  | returned (result : Outcome)

structure CancelCall where
  handle : ℕ
  phase : CancelPhase := .begun
  /-- The receiver was there when the signal was sent. -/
  signalled : Bool := false

structure TransferRun (β : Type*) where
  registry : Registry ℕ := .new
  transfers : ℕ → Option (Transfer β) := fun _ => none
  count : ℕ := 0
  calls : ℕ → Option CancelCall := fun _ => none
  callCount : ℕ := 0
  fs : FileSystem β

inductive TransferAction (β : Type*) where
  /-- `blob_download`, of a ticket that parsed and an absolute destination. -/
  | download (endpoint : ℕ) (dest : Path) (content : β)
  | start (i : ℕ)
  | inner (i : ℕ) (a : InnerAction)
  | outer (i : ℕ) (a : OuterAction)
  | remove (i : ℕ)
  | cancel (handle : ℕ)
  | get (c : ℕ)
  | take (c : ℕ)
  | send (c : ℕ)
  /-- The last reference to the state of a transfer is dropped. -/
  | dropState (i : ℕ)

namespace TransferRun

variable {β : Type*}

def put (x : TransferRun β) (i : ℕ) (t : Transfer β) : TransferRun β :=
  { x with transfers := Function.update x.transfers i (some t) }

def putCall (x : TransferRun β) (c : ℕ) (k : CancelCall) : TransferRun β :=
  { x with calls := Function.update x.calls c (some k) }

/-- A cancel call holds the state of the transfer. -/
def isHeld (x : TransferRun β) (i : ℕ) : Bool :=
  (List.range x.callCount).any fun c =>
    match x.calls c with
    | some ⟨_, .holding j, _⟩ => decide (j = i)
    | _ => false

/-- A call of `blob_download_cancel` looks the transfer up. -/
def get (x : TransferRun β) (c : ℕ) (k : CancelCall) : Option (TransferRun β) :=
  match k.phase, x.registry.get k.handle with
  | .begun, .ok i => some (x.putCall c { k with phase := .holding i })
  | .begun, .error e => some (x.putCall c { k with phase := .returned (.error e) })
  | _, _ => none

/-- It takes the sender, under the lock of the state. -/
def take (x : TransferRun β) (c : ℕ) (k : CancelCall) (i : ℕ) (t : Transfer β) : TransferRun β :=
  if t.hasSender then
    (x.put i { t with hasSender := false }).putCall c { k with phase := .sending i }
  else x.putCall c { k with phase := .returned (.ok ()) }

/-- It sends the signal.  That fails when the receiver is gone. -/
def send (x : TransferRun β) (c : ℕ) (k : CancelCall) (i : ℕ) (t : Transfer β) : TransferRun β :=
  if t.outer.isSelecting then
    (x.put i { t with signal := .sent }).putCall c
      { k with phase := .returned (.ok ()), signalled := true }
  else x.putCall c { k with phase := .returned (.ok ()) }

/-- `TRANSFERS.remove(handle)`. -/
def remove (x : TransferRun β) (i : ℕ) (t : Transfer β) : Option (TransferRun β) :=
  match t.outer with
  | .removing result =>
      some { x.put i { t with outer := .completing result } with
        registry := x.registry.remove t.handle }
  | _ => none

def step (x : TransferRun β) : TransferAction β → Option (TransferRun β)
  | .download endpoint dest content =>
      some { x.put x.count { handle := x.registry.next, endpoint, dest, content } with
        registry := x.registry.insert x.count
        count := x.count + 1 }
  | .start i => (x.transfers i).bind fun t => t.start.map (x.put i)
  | .inner i a =>
      (x.transfers i).bind fun t =>
        (t.innerStep x.fs a).map fun (t, fs) => { x.put i t with fs }
  | .outer i a => (x.transfers i).bind fun t => (t.outerStep a).map (x.put i)
  | .remove i => (x.transfers i).bind (x.remove i)
  | .cancel handle =>
      some { x.putCall x.callCount { handle } with callCount := x.callCount + 1 }
  | .get c => (x.calls c).bind (x.get c)
  | .take c =>
      (x.calls c).bind fun k =>
        match k.phase with
        | .holding i => (x.transfers i).map (x.take c k i)
        | _ => none
  | .send c =>
      (x.calls c).bind fun k =>
        match k.phase with
        | .sending i => (x.transfers i).map (x.send c k i)
        | _ => none
  | .dropState i =>
      (x.transfers i).bind fun t =>
        if t.hasSender ∧ x.registry.items t.handle = none ∧ x.isHeld i = false then
          some (x.put i { t with hasSender := false, signal := .closed })
        else none

end TransferRun

def transferMachine (β : Type*) : Machine (TransferRun β) (TransferAction β) where
  init x := ∃ fs, x = { fs }
  step := TransferRun.step

end Iroh.Core
