import ReactNativeIroh.Core.TransferSteps

/-!
# What a failed download leaves behind

`downloadInner` is `download_inner` as a function of what its awaits answer.  The destination
is cleared before the blob is exported, so between the removal and the export there is nothing
there, and an export that fails leaves it that way.

A run of the task that `blob_download` spawns returns what this function returns, and leaves
the file system the same (`returned_eq`), when nobody cancels it.
-/

namespace Iroh.Core

open Transition

/-- What the awaits of `download_inner` answer. -/
structure DownloadOutcomes where
  /-- The endpoint is open. -/
  isOpen : Bool := true
  connect : Except String Unit := .ok ()
  /-- What the stream yields before it ends. -/
  items : List GetProgressItem := [.done]
  inspectFault : Option String := none
  removeFault : Option String := none
  exportFault : Option String := none

section DownloadInner

variable {β : Type*}

/-- The loop over the stream, which ends it early on an error. -/
def fetch : Bool → List GetProgressItem → Outcome
  | finished, [] =>
      if finished then .ok ()
      else .error (.blobDownload "transfer stream ended before completion")
  | finished, .progress _ :: items => fetch finished items
  | _, .done :: items => fetch true items
  | _, .error text :: _ => .error (.blobDownload text)
termination_by structural _ items => items

/-- Remove a file at the destination.  A directory is never removed. -/
def clearExportTarget (dest : Path) (r : DownloadOutcomes) (fs : FileSystem β) :
    Outcome × FileSystem β :=
  match inspect dest r.inspectFault fs with
  | .failed e => (.error e, fs)
  | .removing =>
      match r.removeFault with
      | some text =>
          (.error (.blobExport ("could not replace existing destination file: " ++ text)), fs)
      | none => (.ok (), fs.set dest none)
  | _ => (.ok (), fs)

/-- Everything up to the export. -/
def downloadStream (endpoint : ℕ) (r : DownloadOutcomes) : Outcome :=
  if r.isOpen then
    match r.connect with
    | .ok () => fetch false r.items
    | .error text => .error (.blobDownload ("connect: " ++ text))
  else .error (.invalidHandle (.ofNat endpoint))

def downloadInner (endpoint : ℕ) (dest : Path) (content : β) (r : DownloadOutcomes)
    (fs : FileSystem β) : Outcome × FileSystem β :=
  match downloadStream endpoint r with
  | .error e => (.error e, fs)
  | .ok () =>
      match clearExportTarget dest r fs with
      | (.error e, fs) => (.error e, fs)
      | (.ok (), fs) =>
          match r.exportFault with
          | some text => (.error (.blobExport text), fs)
          | none => (.ok (), fs.set dest (some (.file content)))

end DownloadInner

/-! ## What is left at the destination -/

section Restores

variable {β : Type*} {endpoint : ℕ} {dest : Path} {content : β} {r : DownloadOutcomes}
  {fs : FileSystem β}

/-- A failed download leaves the destination as it was, one that succeeds writes the blob
there, and a directory stays. -/
structure Restores (endpoint : ℕ) (dest : Path) (content : β) (r : DownloadOutcomes)
    (fs : FileSystem β) : Prop where
  failed : ∀ e, (downloadInner endpoint dest content r fs).1 = .error e →
    (downloadInner endpoint dest content r fs).2 dest = fs dest
  succeeded : (downloadInner endpoint dest content r fs).1 = .ok () →
    (downloadInner endpoint dest content r fs).2 dest = some (.file content)
  directory : fs dest = some .directory →
    (downloadInner endpoint dest content r fs).2 dest = some .directory

/-- There is a file or a link at the destination, and it can be inspected and removed. -/
structure Removed (dest : Path) (r : DownloadOutcomes) (fs : FileSystem β) : Prop where
  inspected : r.inspectFault = none
  there : fs dest ≠ none
  file : fs dest ≠ some .directory
  removed : r.removeFault = none

/-- Inspecting the destination fails, or it finds something to remove, or nothing. -/
theorem inspect_cases (dest : Path) (fault : Option String) (fs : FileSystem β) :
    (∃ e, inspect dest fault fs = .failed e ∧ (fault ≠ none ∨ fs dest = some .directory)) ∨
    (inspect dest fault fs = .removing ∧ fault = none ∧ fs dest ≠ none ∧
      fs dest ≠ some .directory) ∨
    (inspect dest fault fs = .exporting ∧ fault = none ∧ fs dest = none) := by
  cases fault with
  | some text => exact Or.inl ⟨_, rfl, Or.inl (Option.some_ne_none _)⟩
  | none =>
      cases hn : fs dest with
      | none => exact Or.inr (Or.inr ⟨by simp [inspect, hn], rfl, rfl⟩)
      | some node =>
          cases node with
          | directory => exact Or.inl ⟨_, by simp only [inspect, hn]; rfl, Or.inr rfl⟩
          | file content => exact Or.inr (Or.inl ⟨by simp [inspect, hn], rfl, by simp, by simp⟩)
          | symlink target => exact Or.inr (Or.inl ⟨by simp [inspect, hn], rfl, by simp, by simp⟩)

/-- Clearing the destination removes what was there, or it changes nothing.  It fails on a
directory. -/
theorem clearExportTarget_cases (dest : Path) (r : DownloadOutcomes) (fs : FileSystem β) :
    (Removed dest r fs ∧ clearExportTarget dest r fs = (.ok (), fs.set dest none)) ∨
    (¬ Removed dest r fs ∧ ∃ e, clearExportTarget dest r fs = (.error e, fs)) ∨
    (fs dest = none ∧ clearExportTarget dest r fs = (.ok (), fs)) := by
  rcases inspect_cases dest r.inspectFault fs with
    ⟨e, hi, hwhy⟩ | ⟨hi, hfault, hthere, hfile⟩ | ⟨hi, -, hnone⟩
  · refine Or.inr (Or.inl ⟨fun h => ?_, e, by simp only [clearExportTarget, hi]⟩)
    rcases hwhy with hfault | hdirectory
    · exact hfault h.inspected
    · exact h.file hdirectory
  · cases hr : r.removeFault with
    | none => exact Or.inl ⟨⟨hfault, hthere, hfile, hr⟩, by simp only [clearExportTarget, hi, hr]⟩
    | some text =>
        refine Or.inr (Or.inl ⟨fun h => ?_, _, by simp only [clearExportTarget, hi, hr]; rfl⟩)
        rw [h.removed] at hr
        cases hr
  · exact Or.inr (Or.inr ⟨hnone, by simp only [clearExportTarget, hi]⟩)

/-- A download fails and leaves the destination alone, unless the blob is exported. -/
theorem restores_of_failed {e : IrohError}
    (h : downloadInner endpoint dest content r fs = (.error e, fs)) :
    Restores endpoint dest content r fs := by
  refine ⟨fun _ _ => ?_, fun hok => ?_, fun hdirectory => ?_⟩
  · rw [h]
  · rw [h] at hok
    cases hok
  · rw [h]
    exact hdirectory

/-- A blob that is exported is at the destination. -/
theorem restores_of_exported (fs' : FileSystem β) (hfile : fs dest ≠ some .directory)
    (h : downloadInner endpoint dest content r fs =
      (.ok (), fs'.set dest (some (.file content)))) :
    Restores endpoint dest content r fs := by
  refine ⟨fun _ herr => ?_, fun _ => ?_, fun hdirectory => absurd hdirectory hfile⟩
  · rw [h] at herr
    cases herr
  · rw [h]
    exact FileSystem.set_self ..

/-- A failed download leaves the destination as it was, unless a file or a link there was
removed for the blob, and the export of the blob failed. -/
theorem restores_iff (endpoint : ℕ) (dest : Path) (content : β) (r : DownloadOutcomes)
    (fs : FileSystem β) :
    Restores endpoint dest content r fs ↔
      ¬ (downloadStream endpoint r = .ok () ∧ Removed dest r fs ∧ r.exportFault.isSome = true) := by
  cases hs : downloadStream endpoint r with
  | error e =>
      have hfailed : downloadInner endpoint dest content r fs = (.error e, fs) := by
        simp only [downloadInner, hs]
      exact iff_of_true (restores_of_failed hfailed) fun h => by cases h.1
  | ok u =>
      rcases clearExportTarget_cases dest r fs with
        ⟨hremoved, hc⟩ | ⟨hremoved, e, hc⟩ | ⟨hnone, hc⟩
      · cases he : r.exportFault with
        | none =>
            refine iff_of_true (restores_of_exported (fs.set dest none) hremoved.file ?_)
              fun h => by cases h.2.2
            simp only [downloadInner, hs, hc, he]
        | some text =>
            -- nothing is there any more, although something was
            refine iff_of_false (fun h => ?_) fun h => h ⟨rfl, hremoved, rfl⟩
            have hfailed : downloadInner endpoint dest content r fs =
                (.error (.blobExport text), fs.set dest none) := by
              simp only [downloadInner, hs, hc, he]
            have hsame := h.failed (.blobExport text) (by rw [hfailed])
            rw [hfailed] at hsame
            exact hremoved.there (hsame.symm.trans (FileSystem.set_self ..))
      · have hfailed : downloadInner endpoint dest content r fs = (.error e, fs) := by
          simp only [downloadInner, hs, hc]
        exact iff_of_true (restores_of_failed hfailed) fun h => hremoved h.2.1
      · cases he : r.exportFault with
        | none =>
            refine iff_of_true (restores_of_exported fs (by simp [hnone]) ?_)
              fun h => by cases h.2.2
            simp only [downloadInner, hs, hc, he]
        | some text =>
            have hfailed : downloadInner endpoint dest content r fs =
                (.error (.blobExport text), fs) := by
              simp only [downloadInner, hs, hc, he]
            exact iff_of_true (restores_of_failed hfailed) fun h => h.2.1.there hnone

/-- A file system with a file of one byte, and nothing else. -/
def oneFile : FileSystem (List UInt8) :=
  FileSystem.set [47, 97] (some (.file [1])) fun _ => none

/-- The disk is full when the blob is exported. -/
def fullDisk : DownloadOutcomes := { exportFault := some "no space left on device" }

theorem not_restores_full :
    ¬ Restores 0 [47, 97] [2] fullDisk oneFile ∧ oneFile [47, 97] = some (.file [1]) ∧
      (downloadInner 0 [47, 97] [2] fullDisk oneFile).2 [47, 97] = none := by
  refine ⟨fun h => ?_, by decide, by decide⟩
  exact absurd (h.failed (.blobExport "no space left on device") rfl) (by decide)

end Restores

/-! ## The task that runs it -/

/-- The machine of the task of `download_inner`, once it was spawned. -/
def innerMachine {β : Type*} (endpoint : ℕ) (dest : Path) (content : β) (fs : FileSystem β) :
    Machine (Download β) InnerAction where
  init d := d.inner = { phase := .lookup } ∧ d.fs = fs
  step d a := (d.step endpoint dest content a).map Prod.fst

section Tracks

variable {β : Type*} {endpoint : ℕ} {dest : Path} {content : β} {fs₀ fs fs' : FileSystem β}

/-- How far the export has come, and what it has done to the file system. -/
inductive Exported (dest : Path) (content : β) (fs₀ : FileSystem β) :
    ExportPhase → FileSystem β → Prop where
  | inspecting : Exported dest content fs₀ .inspecting fs₀
  | removing (h : inspect dest none fs₀ = .removing) : Exported dest content fs₀ .removing fs₀
  | exporting {r : DownloadOutcomes} {fs : FileSystem β}
      (h : clearExportTarget dest r fs₀ = (.ok (), fs)) :
      Exported dest content fs₀ .exporting fs
  | done {r : DownloadOutcomes} {fs : FileSystem β}
      (h : clearExportTarget dest r fs₀ = (.ok (), fs)) :
      Exported dest content fs₀ .done (fs.set dest (some (.file content)))
  | uncleared {r : DownloadOutcomes} {fs : FileSystem β} {e : IrohError}
      (h : clearExportTarget dest r fs₀ = (.error e, fs)) :
      Exported dest content fs₀ (.failed e) fs
  | unexported {r : DownloadOutcomes} {fs : FileSystem β} {text : String}
      (h : clearExportTarget dest r fs₀ = (.ok (), fs)) :
      Exported dest content fs₀ (.failed (.blobExport text)) fs

/-- A file operation takes effect. -/
theorem Exported.step {phase phase' : ExportPhase} {fault : Option String}
    (h : Exported dest content fs₀ phase fs)
    (hs : exportStep dest content fault phase fs = some (phase', fs')) :
    Exported dest content fs₀ phase' fs' := by
  cases h with
  | inspecting =>
      obtain ⟨rfl, rfl⟩ := Prod.mk.inj (Option.some.inj hs)
      rcases inspect_cases dest fault fs₀ with ⟨e, hi, -⟩ | ⟨hi, rfl, -⟩ | ⟨hi, -⟩
      · rw [hi]
        exact .uncleared (r := { inspectFault := fault }) (by simp only [clearExportTarget, hi])
      · rw [hi]
        exact .removing hi
      · rw [hi]
        exact .exporting (r := { inspectFault := fault }) (by simp only [clearExportTarget, hi])
  | removing hi =>
      cases fault with
      | some text =>
          obtain ⟨rfl, rfl⟩ := Prod.mk.inj (Option.some.inj hs)
          exact .uncleared (r := { removeFault := some text })
            (by simp only [clearExportTarget, hi])
      | none =>
          simp only [exportStep, remove] at hs
          split at hs
          · cases hs
          · cases hs
          · obtain ⟨rfl, rfl⟩ := Prod.mk.inj (Option.some.inj hs)
            exact .exporting (r := {}) (by simp only [clearExportTarget, hi])
  | exporting hc =>
      cases fault with
      | some text =>
          obtain ⟨rfl, rfl⟩ := Prod.mk.inj (Option.some.inj hs)
          exact .unexported hc
      | none =>
          simp only [exportStep, exportBlob] at hs
          split at hs
          · obtain ⟨rfl, rfl⟩ := Prod.mk.inj (Option.some.inj hs)
            exact .done hc
          · cases hs
  | done hc => cases hs
  | uncleared hc => cases hs
  | unexported hc => cases hs

/-- Where the task is, and what it has done.  A task that panicked may have left anything. -/
inductive Tracks (endpoint : ℕ) (dest : Path) (content : β) (fs₀ : FileSystem β) :
    InnerPhase → FileOp → FileSystem β → Prop where
  | lookup : Tracks endpoint dest content fs₀ .lookup .idle fs₀
  | dialing : Tracks endpoint dest content fs₀ .dialing .idle fs₀
  | streaming {finished : Bool} (items : List GetProgressItem)
      (h : ∀ rest, fetch false (items ++ rest) = fetch finished rest) :
      Tracks endpoint dest content fs₀ (.streaming finished) .idle fs₀
  | reporting {finished : Bool} {bytes : ℕ} (items : List GetProgressItem)
      (h : ∀ rest, fetch false (items ++ rest) = fetch finished rest) :
      Tracks endpoint dest content fs₀ (.reporting finished bytes) .idle fs₀
  | emitting {finished : Bool} {bytes : ℕ} (items : List GetProgressItem)
      (h : ∀ rest, fetch false (items ++ rest) = fetch finished rest) :
      Tracks endpoint dest content fs₀ (.emitting finished bytes) .idle fs₀
  | running {items : List GetProgressItem} {phase : ExportPhase} {fs : FileSystem β}
      (h : fetch false items = .ok ()) (he : Exported dest content fs₀ phase fs) :
      Tracks endpoint dest content fs₀ .exporting (.running phase) fs
  | finished {items : List GetProgressItem} {phase : ExportPhase} {fs : FileSystem β}
      (h : fetch false items = .ok ()) (he : Exported dest content fs₀ phase fs) :
      Tracks endpoint dest content fs₀ .exporting (.finished phase) fs
  | returned {r : DownloadOutcomes} {result : Outcome} {fs : FileSystem β}
      (h : downloadInner endpoint dest content r fs₀ = (result, fs)) :
      Tracks endpoint dest content fs₀ (.returned result) .idle fs
  | panicked {text : String} {op : FileOp} {fs : FileSystem β} :
      Tracks endpoint dest content fs₀ (.panicked text) op fs

/-- The stream yields one item more, or it ends. -/
theorem Tracks.next {k : InnerTask} {finished : Bool} {items : List GetProgressItem}
    (h : ∀ rest, fetch false (items ++ rest) = fetch finished rest)
    (ho : k.op = .idle) (item : Option GetProgressItem) :
    Tracks endpoint dest content fs₀ (k.next finished item).1.phase (k.next finished item).1.op
      fs₀ := by
  have hend : fetch false items = fetch finished [] := by simpa using h []
  cases item with
  | some item =>
      cases item with
      | progress bytes =>
          simp only [InnerTask.next, InnerTask.goto, ho]
          refine .reporting (items ++ [.progress bytes]) fun rest => ?_
          rw [List.append_assoc, h]
          rfl
      | done =>
          simp only [InnerTask.next, InnerTask.goto, ho]
          refine .streaming (items ++ [.done]) fun rest => ?_
          rw [List.append_assoc, h]
          rfl
      | error text =>
          simp only [InnerTask.next, InnerTask.finish, ho]
          refine .returned (r := { items := items ++ [.error text] }) ?_
          have hfetch : fetch false (items ++ [.error text]) = .error (.blobDownload text) := by
            rw [h]
            rfl
          simp [downloadInner, downloadStream, hfetch]
  | none =>
      cases finished with
      | true =>
          simp only [InnerTask.next, if_true]
          exact .running hend .inspecting
      | false =>
          simp only [InnerTask.next, Bool.false_eq_true, if_false, InnerTask.finish, ho]
          refine .returned (r := { items }) ?_
          simp [downloadInner, downloadStream, hend, fetch]

/-- The task takes the result of a file operation. -/
theorem Tracks.resume {k : InnerTask} {items : List GetProgressItem} {phase : ExportPhase}
    (hk : k.phase = .exporting) (h : fetch false items = .ok ())
    (he : Exported dest content fs₀ phase fs) :
    Tracks endpoint dest content fs₀ (k.resume phase).phase (k.resume phase).op fs := by
  cases he with
  | inspecting =>
      simp only [InnerTask.resume, hk]
      exact .running h .inspecting
  | removing hi =>
      simp only [InnerTask.resume, hk]
      exact .running h (.removing hi)
  | exporting hc =>
      simp only [InnerTask.resume, hk]
      exact .running h (.exporting hc)
  | @done r fs hc =>
      refine .returned (r := { r with
        isOpen := true, connect := .ok (), items, exportFault := none }) ?_
      have hclear : clearExportTarget dest
          { r with isOpen := true, connect := .ok (), items, exportFault := none } fs₀ =
          (.ok (), fs) := hc
      simp [downloadInner, downloadStream, h, hclear]
  | @uncleared r fs e hc =>
      refine .returned (r := { r with isOpen := true, connect := .ok (), items }) ?_
      have hclear : clearExportTarget dest
          { r with isOpen := true, connect := .ok (), items } fs₀ = (.error e, fs) := hc
      simp [downloadInner, downloadStream, h, hclear]
  | @unexported r fs text hc =>
      refine .returned (r := { r with
        isOpen := true, connect := .ok (), items, exportFault := some text }) ?_
      have hclear : clearExportTarget dest
          { r with isOpen := true, connect := .ok (), items, exportFault := some text } fs₀ =
          (.ok (), fs) := hc
      simp [downloadInner, downloadStream, h, hclear]

theorem next_aborted (k : InnerTask) (finished : Bool) (item : Option GetProgressItem) :
    (k.next finished item).1.aborted = k.aborted := by
  cases item with
  | some item =>
      cases item with
      | progress bytes => rfl
      | done => rfl
      | error text => rfl
  | none =>
      cases finished with
      | true => rfl
      | false => rfl

theorem resume_aborted (k : InnerTask) (phase : ExportPhase) :
    (k.resume phase).aborted = k.aborted := by
  cases phase with
  | inspecting => rfl
  | removing => rfl
  | exporting => rfl
  | done => rfl
  | failed e => rfl

/-- What a step of the task keeps. -/
theorem Tracks.step {d d' : Download β} {a : InnerAction} {events : List TransferEvent}
    (ha : d.inner.aborted = false)
    (h : Tracks endpoint dest content fs₀ d.inner.phase d.inner.op d.fs)
    (hs : DownloadSteps endpoint dest content d a d' events) :
    d'.inner.aborted = false ∧
      Tracks endpoint dest content fs₀ d'.inner.phase d'.inner.op d'.fs := by
  obtain ⟨⟨phase, polled, aborted, op⟩, coalescer, fs⟩ := d
  cases hs with
  | poll hl hp ha' => exact ⟨ha, h⟩
  | yield hw hp => exact ⟨ha, h⟩
  | drop hl hp ha' => cases ha.symm.trans ha'
  | opened hk hp =>
      obtain rfl : phase = .lookup := hk
      cases h
      exact ⟨ha, .dialing⟩
  | closed hk hp =>
      obtain rfl : phase = .lookup := hk
      cases h
      exact ⟨ha, .returned (r := { isOpen := false }) (by simp [downloadInner, downloadStream])⟩
  | connected hk hp =>
      obtain rfl : phase = .dialing := hk
      cases h
      exact ⟨ha, .streaming [] fun _ => rfl⟩
  | @unconnected text hk hp =>
      obtain rfl : phase = .dialing := hk
      cases h
      exact ⟨ha, .returned (r := { connect := .error text })
        (by simp [downloadInner, downloadStream])⟩
  | @next finished item hk hp =>
      obtain rfl : phase = .streaming finished := hk
      cases h with
      | streaming items hitems =>
          exact ⟨(next_aborted _ finished item).trans ha, .next hitems rfl item⟩
  | due hk hp ho =>
      obtain rfl : phase = .reporting _ _ := hk
      cases h with
      | reporting items hitems => exact ⟨ha, .emitting items hitems⟩
  | kept hk hp ho =>
      obtain rfl : phase = .reporting _ _ := hk
      cases h with
      | reporting items hitems => exact ⟨ha, .streaming items hitems⟩
  | emit hk hp =>
      obtain rfl : phase = .emitting _ _ := hk
      cases h with
      | emitting items hitems => exact ⟨ha, .streaming items hitems⟩
  | resume hk hp ho =>
      obtain rfl : phase = .exporting := hk
      obtain rfl : op = .finished _ := ho
      cases h with
      | finished hitems he => exact ⟨(resume_aborted _ _).trans ha, .resume rfl hitems he⟩
  | panic hl hp => exact ⟨ha, .panicked⟩
  | effect ho he =>
      obtain rfl : op = .running _ := ho
      cases h with
      | running hitems hexported => exact ⟨ha, .finished hitems (hexported.step he)⟩
      | panicked => exact ⟨ha, .panicked⟩

theorem tracks_invariant :
    (innerMachine endpoint dest content fs₀).Invariant Any fun d =>
      d.inner.aborted = false ∧
        Tracks endpoint dest content fs₀ d.inner.phase d.inner.op d.fs where
  init d hd := by
    obtain ⟨hinner, rfl⟩ := hd
    rw [hinner]
    exact ⟨rfl, .lookup⟩
  step d a d' h _ hs := by
    obtain ⟨⟨d', events⟩, hstep, rfl⟩ := Option.map_eq_some_iff.mp hs
    exact h.2.step h.1 (Download.steps hstep)

/-- A task that has returned, and that nobody aborted, has done what `downloadInner` does. -/
theorem returned_eq {d : Download β} {result : Outcome}
    (hd : (innerMachine endpoint dest content fs₀).Reachable Any d)
    (hreturned : d.inner.phase = .returned result) :
    ∃ r, downloadInner endpoint dest content r fs₀ = (result, d.fs) := by
  obtain ⟨-, htracks⟩ := tracks_invariant.reachable hd
  obtain ⟨⟨phase, polled, aborted, op⟩, coalescer, fs⟩ := d
  obtain rfl : phase = .returned result := hreturned
  cases htracks with
  | @returned r result fs h => exact ⟨r, h⟩

end Tracks

end Iroh.Core
