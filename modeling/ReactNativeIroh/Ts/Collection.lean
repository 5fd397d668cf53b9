import ReactNativeIroh.Ts.DownloadGate
import ReactNativeIroh.Ts.Manifest

/-!
# Collection transfers

A `CollectionTransferController` fetches the manifest of a collection and downloads each
child through the endpoint's queue.  `CollectionRun` is one of them together with the
downloads of its endpoint.  A child is known by the number of its transfer, and `created`
keeps what each child's `startDownload` was made with.

The manifest arrives in one turn of the host and `begin` goes on in a later one, so the
collection may be cancelled in between.  The listener that the collection has on a child
runs with the child's progress event, and its reaction to `child.done` in a later turn.
-/

namespace Iroh

open JsString Transition

/-- Live progress of one file. -/
structure FileProgress where
  name : JsString
  bytesReceived : ℕ := 0
  totalBytes : Option ℕ := none
  done : Bool := false
deriving DecidableEq

structure CollectionTransfer (φ : Type*) where
  hub : ProgressHub φ := {}
  fileStates : List FileProgress := []
  children : List ℕ := []
  childrenStarted : Bool := false
  cancelRequested : Bool := false
deriving DecidableEq

/-- What a child was made with by `createDownload`. -/
structure ChildDownload where
  transfer : ℕ
  ticket : JsString
  destPath : JsString
deriving DecidableEq

/-- The promise of `binding.collectionManifest`, and whether `begin` has seen it. -/
inductive ManifestPromise where
  | pending
  | settled (result : Except IrohError (List ManifestEntry))
  | seen (result : Except IrohError (List ManifestEntry))

/-- What the binding has answered. -/
def ManifestPromise.answer? : ManifestPromise → Option (Except IrohError (List ManifestEntry))
  | .pending => none
  | .settled result => some result
  | .seen result => some result

structure CollectionRun (φ : Type*) where
  run : DownloadsRun φ
  collection : CollectionTransfer φ := {}
  created : List ChildDownload := []
  manifest : ManifestPromise := .pending
  reacted : List ℕ := []

/-- What can happen.  `manifest` settles the binding's promise, `manifestReaction` is what
`begin` does with it, and `childDone` is the reaction to `child.done`.  `event` is
whatever happens to the downloads of the endpoint. -/
inductive CollectionAction (φ : Type*) where
  | manifest (result : Except IrohError (List ManifestEntry))
  | manifestReaction (throws : ℕ → Option IrohError)
  | cancel
  | childDone (k : ℕ)
  | event (e : DownloadEvent φ)
  | close

def cancelledCollection : IrohError :=
  ⟨.cancelled, "collection download cancelled before it started"⟩

namespace CollectionTransfer

variable {φ : Type*}

def isSettled (c : CollectionTransfer φ) : Bool := c.hub.isSettled

def settle (error : Option IrohError) (c : CollectionTransfer φ) : CollectionTransfer φ :=
  { c with hub := c.hub.settle error }

/-- The sum of the bytes of all files. -/
def total (c : CollectionTransfer φ) : ℕ := (c.fileStates.map FileProgress.bytesReceived).sum

def recomputeAggregate (c : CollectionTransfer φ) : CollectionTransfer φ :=
  if c.isSettled then c else { c with hub := c.hub.dispatch { bytesReceived := c.total } }

def checkAllDone (c : CollectionTransfer φ) : CollectionTransfer φ :=
  if c.isSettled || !c.childrenStarted then c
  else if c.fileStates.all FileProgress.done then c.settle none
  else c

/-- The listener on the progress of a child. -/
def childProgress (k bytesReceived : ℕ) (c : CollectionTransfer φ) : CollectionTransfer φ :=
  match c.children.idxOf? k with
  | none => c
  | some i =>
      { c with
        fileStates := c.fileStates.modify i fun file => { file with bytesReceived } }
        |>.recomputeAggregate

/-- A child has succeeded. -/
def childSucceeded (k : ℕ) (c : CollectionTransfer φ) : CollectionTransfer φ :=
  match c.children.idxOf? k with
  | none => c
  | some i =>
      { c with fileStates := c.fileStates.modify i fun file => { file with done := true } }
        |>.recomputeAggregate |>.checkAllDone

end CollectionTransfer

namespace CollectionRun

variable {φ : Type*} [DecidableEq φ]

/-- `fetchManifest`, once the binding has answered: every name is checked. -/
def fetchManifest (result : Except IrohError (List ManifestEntry)) :
    Except IrohError (List ManifestEntry) :=
  match result with
  | .error e => .error e
  | .ok entries => (Manifest.checkEntries entries).map fun _ => entries

def settle (error : Option IrohError) (x : CollectionRun φ) : CollectionRun φ :=
  { x with collection := x.collection.settle error }

/-- Cancel every child. -/
def cancelChildren (x : CollectionRun φ) : CollectionRun φ :=
  { x with
    run := x.collection.children.foldl (fun run k => run.after (.transfer k .cancel)) x.run }

def onChildError (error : IrohError) (x : CollectionRun φ) : CollectionRun φ :=
  if x.collection.isSettled then x else x.cancelChildren.settle (some error)

def cancel (x : CollectionRun φ) : CollectionRun φ :=
  if x.collection.isSettled then x
  else
    let x := { x with collection := { x.collection with cancelRequested := true } }.cancelChildren
    if x.collection.childrenStarted then x else x.settle (some cancelledCollection)

/-- Make a child and queue it, unless its ticket has not the shape of one. -/
def startChild (destDir : JsString) (throws : ℕ → Option IrohError) (entry : ManifestEntry)
    (x : CollectionRun φ) : Except IrohError (CollectionRun φ) :=
  (Manifest.validateTicketShape entry.ticket).map fun ticket =>
    let k := x.run.downloads.transfers.length
    { x with
      run := x.run.after (.download false throws)
      collection := { x.collection with children := x.collection.children ++ [k] }
      created := x.created ++ [⟨k, ticket, Manifest.childPath destDir entry.name⟩] }

/-- The loop of `begin` over the entries.  An exception ends it. -/
def startChildren (destDir : JsString) (throws : ℕ → Option IrohError) :
    List ManifestEntry → CollectionRun φ → CollectionRun φ × Bool
  | [], x => (x, true)
  | entry :: rest, x =>
      let x := { x with
        collection := { x.collection with
          fileStates := x.collection.fileStates ++ [{ name := entry.name }] } }
      match startChild destDir throws entry x with
      | .error _ => (x, false)
      | .ok x => startChildren destDir throws rest x
termination_by structural entries => entries

/-- What `begin` does with an accepted manifest. -/
def onManifest (destDir : JsString) (throws : ℕ → Option IrohError)
    (entries : List ManifestEntry) (x : CollectionRun φ) : CollectionRun φ :=
  if x.collection.cancelRequested || x.collection.isSettled then x
  else
    match startChildren destDir throws entries x with
    | (x, false) => x
    | (x, true) =>
        { x with collection := { x.collection with childrenStarted := true }.checkAllDone }

def manifestReaction (destDir : JsString) (throws : ℕ → Option IrohError)
    (result : Except IrohError (List ManifestEntry)) (x : CollectionRun φ) : CollectionRun φ :=
  match fetchManifest result with
  | .ok entries => x.onManifest destDir throws entries
  | .error e => x.settle (some e)

/-- The reaction to `child.done`, whose outcome is that of the child. -/
def childDone (k : ℕ) (outcome : Option IrohError) (x : CollectionRun φ) : CollectionRun φ :=
  let x := { x with reacted := x.reacted ++ [k] }
  match outcome with
  | none => { x with collection := x.collection.childSucceeded k }
  | some e => x.onChildError e

/-- The outcome of a transfer that is settled. -/
def outcome? (k : ℕ) (x : CollectionRun φ) : Option (Option IrohError) :=
  x.run.downloads.transfers[k]?.bind fun t => t.hub.outcome

/-- The collection hears of a child's progress while the child is not settled. -/
def observe (before : CollectionRun φ) (e : DownloadEvent φ) (x : CollectionRun φ) :
    CollectionRun φ :=
  match e with
  | .transfer k (.onProgress bytesReceived) =>
      if before.outcome? k = none then
        { x with collection := x.collection.childProgress k bytesReceived }
      else x
  | _ => x

def step (destDir : JsString) (x : CollectionRun φ) : CollectionAction φ → Option (CollectionRun φ)
  | .manifest result =>
      match x.manifest with
      | .pending => some { x with manifest := .settled result }
      | _ => none
  | .manifestReaction throws =>
      match x.manifest with
      | .settled result =>
          some (manifestReaction destDir throws result { x with manifest := .seen result })
      | _ => none
  | .cancel => some x.cancel
  | .childDone k =>
      if k ∈ x.collection.children ∧ k ∉ x.reacted then
        (x.outcome? k).map fun outcome => x.childDone k outcome
      else none
  | .event e =>
      (x.run.step (.event e)).map fun run => observe x e { x with run }
  | .close => (x.run.step .close).map fun run => { x with run }

/-- The paths that were handed to the native download. -/
def handed (x : CollectionRun φ) : List JsString :=
  (x.created.filter fun child => decide (child.transfer ∈ x.run.starts)).map ChildDownload.destPath

end CollectionRun

/-- `Endpoint.downloadCollection`, on the downloads of the endpoint.  Garbage fails at once. -/
def downloadCollection {φ : Type*} (ticket : JsString) (run : DownloadsRun φ) :
    Except IrohError (CollectionRun φ) :=
  (Manifest.validateTicketShape ticket).map fun _ => { run }

/-- The machine of a collection that is downloaded into a directory, on an endpoint that
may have other downloads. -/
def collectionMachine (φ : Type*) [DecidableEq φ] (cap : DownloadCap) (destDir : JsString) :
    Machine (CollectionRun φ) (CollectionAction φ) where
  init x := ∃ run ticket, (downloadsMachine φ cap).Reachable Any run ∧
    downloadCollection ticket run = .ok x
  step := CollectionRun.step destDir

end Iroh
