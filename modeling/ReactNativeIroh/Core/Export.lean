import ReactNativeIroh.Core.Path
import ReactNativeIroh.Lib.Machine

/-!
# Exporting a blob

A fetched blob is written to its destination in up to three file operations.  The
destination is inspected, a file that is there is removed, and the blob is exported,
which fails when anything is at the destination.  A directory is never removed.

Each operation may fail with an error of the system, the `fault` of the step.  An
operation that cannot succeed has to fail.

`ExportRun` is the machine of several exports that run at the same time, each to its own
destination.
-/

namespace Iroh.Core

open Transition

/-- What a path of the file system holds. -/
inductive Node (β : Type*) where
  | file (content : β)
  | symlink (target : Path)
  | directory
deriving DecidableEq

abbrev FileSystem (β : Type*) := Path → Option (Node β)

namespace FileSystem

variable {β : Type*}

def set (path : Path) (node : Option (Node β)) (fs : FileSystem β) : FileSystem β :=
  Function.update fs path node

@[simp] theorem set_self (path : Path) (node : Option (Node β)) (fs : FileSystem β) :
    fs.set path node path = node :=
  Function.update_self ..

theorem set_other {path other : Path} (h : other ≠ path) (node : Option (Node β))
    (fs : FileSystem β) : fs.set path node other = fs other :=
  Function.update_of_ne h ..

end FileSystem

/-- How far an export has come. -/
inductive ExportPhase where
  | inspecting
  | removing
  | exporting
  | done
  | failed (e : IrohError)
deriving DecidableEq

section Step

variable {β : Type*}

/-- `symlink_metadata`, and what `clear_export_target` makes of it. -/
def inspect (dest : Path) (fault : Option String) (fs : FileSystem β) : ExportPhase :=
  match fault with
  | some text => .failed (.blobExport ("could not inspect destination path: " ++ text))
  | none =>
      match fs dest with
      | none => .exporting
      | some .directory => .failed (.blobExport "destination path is a directory")
      | some _ => .removing

/-- `remove_file`.  It removes a file or a link, and fails on anything else. -/
def remove (dest : Path) (fault : Option String) (fs : FileSystem β) :
    Option (ExportPhase × FileSystem β) :=
  match fault with
  | some text =>
      some (.failed (.blobExport ("could not replace existing destination file: " ++ text)), fs)
  | none =>
      match fs dest with
      | none => none
      | some .directory => none
      | some _ => some (.exporting, fs.set dest none)

/-- `export_with_opts`.  It fails when anything is at the destination. -/
def exportBlob (dest : Path) (content : β) (fault : Option String) (fs : FileSystem β) :
    Option (ExportPhase × FileSystem β) :=
  match fault with
  | some text => some (.failed (.blobExport text), fs)
  | none =>
      match fs dest with
      | none => some (.done, fs.set dest (some (.file content)))
      | some _ => none

/-- The next operation of an export. -/
def exportStep (dest : Path) (content : β) (fault : Option String) :
    ExportPhase → FileSystem β → Option (ExportPhase × FileSystem β)
  | .inspecting, fs => some (inspect dest fault fs, fs)
  | .removing, fs => remove dest fault fs
  | .exporting, fs => exportBlob dest content fault fs
  | .done, _ => none
  | .failed _, _ => none

variable {dest other : Path} {content : β} {fault : Option String} {phase phase' : ExportPhase}
  {fs fs' : FileSystem β}

/-- Everything the next operation of an export can do: it fails and leaves the file system as
it is, or it goes on. -/
theorem exportStep_cases (h : exportStep dest content fault phase fs = some (phase', fs')) :
    (∃ text, phase' = .failed (.blobExport text) ∧ fs' = fs) ∨
      (phase = .inspecting ∧ (phase' = .removing ∨ phase' = .exporting) ∧ fs' = fs) ∨
      (phase = .removing ∧ phase' = .exporting ∧ fs' = fs.set dest none) ∨
      phase = .exporting ∧ phase' = .done ∧ fs' = fs.set dest (some (.file content)) := by
  cases phase with
  | inspecting =>
      obtain ⟨rfl, rfl⟩ := Prod.mk.inj (Option.some.inj h)
      unfold inspect
      split
      · exact Or.inl ⟨_, rfl, rfl⟩
      · split
        · exact Or.inr (Or.inl ⟨rfl, Or.inr rfl, rfl⟩)
        · exact Or.inl ⟨_, rfl, rfl⟩
        · exact Or.inr (Or.inl ⟨rfl, Or.inl rfl, rfl⟩)
  | removing =>
      simp only [exportStep, remove] at h
      split at h
      · obtain ⟨rfl, rfl⟩ := Prod.mk.inj (Option.some.inj h)
        exact Or.inl ⟨_, rfl, rfl⟩
      · split at h
        · cases h
        · cases h
        · obtain ⟨rfl, rfl⟩ := Prod.mk.inj (Option.some.inj h)
          exact Or.inr (Or.inr (Or.inl ⟨rfl, rfl, rfl⟩))
  | exporting =>
      simp only [exportStep, exportBlob] at h
      split at h
      · obtain ⟨rfl, rfl⟩ := Prod.mk.inj (Option.some.inj h)
        exact Or.inl ⟨_, rfl, rfl⟩
      · split at h
        · obtain ⟨rfl, rfl⟩ := Prod.mk.inj (Option.some.inj h)
          exact Or.inr (Or.inr (Or.inr ⟨rfl, rfl, rfl⟩))
        · cases h
  | done => cases h
  | failed e => cases h

/-- An export touches no path but its destination. -/
theorem exportStep_other (h : exportStep dest content fault phase fs = some (phase', fs'))
    (hne : other ≠ dest) : fs' other = fs other := by
  rcases exportStep_cases h with ⟨_, -, rfl⟩ | ⟨-, -, rfl⟩ | ⟨-, -, rfl⟩ | ⟨-, -, rfl⟩
  · rfl
  · rfl
  · exact FileSystem.set_other hne _ _
  · exact FileSystem.set_other hne _ _

/-- An export that is done has written its blob. -/
theorem exportStep_done (h : exportStep dest content fault phase fs = some (.done, fs')) :
    fs' dest = some (.file content) := by
  rcases exportStep_cases h with ⟨_, hp, -⟩ | ⟨-, hp | hp, -⟩ | ⟨-, hp, -⟩ | ⟨-, -, rfl⟩
  · cases hp
  · cases hp
  · cases hp
  · cases hp
  · exact FileSystem.set_self ..

end Step

/-! ## Exports that run at the same time -/

/-- One file that is exported. -/
structure Export (β : Type*) where
  dest : Path
  content : β

/-- Exports that run at the same time. -/
structure ExportRun (β : Type*) where
  fs : FileSystem β
  phases : List ExportPhase

namespace ExportRun

variable {β : Type*}

/-- One export takes its next operation. -/
def step (exports : List (Export β)) (x : ExportRun β) : ℕ × Option String → Option (ExportRun β)
  | (i, fault) =>
      match exports[i]?, x.phases[i]? with
      | some e, some phase =>
          (exportStep e.dest e.content fault phase x.fs).map fun (phase, fs) =>
            { fs, phases := x.phases.set i phase }
      | _, _ => none

/-- All exports have written their blobs, as far as they know. -/
def Succeeded (x : ExportRun β) : Prop := ∀ phase ∈ x.phases, phase = .done

end ExportRun

/-- The machine of these exports. -/
def exportMachine {β : Type*} (exports : List (Export β)) :
    Machine (ExportRun β) (ℕ × Option String) where
  init x := x.phases = exports.map fun _ => .inspecting
  step := ExportRun.step exports

namespace ExportRun

variable {β : Type*} {exports : List (Export β)} {x : ExportRun β}

/-- Every export that is done has its own blob at its destination. -/
def Written (exports : List (Export β)) (x : ExportRun β) : Prop :=
  x.phases.length = exports.length ∧ ∀ (i : ℕ) (e : Export β), exports[i]? = some e →
    x.phases[i]? = some .done → x.fs e.dest = some (.file e.content)

/-- Exports to distinct destinations do not disturb each other. -/
theorem written_invariant (h : (exports.map Export.dest).Nodup) :
    (exportMachine exports).Invariant Any (Written exports) where
  init x hx := by
    refine ⟨by rw [hx, List.length_map], fun i e he hdone => ?_⟩
    rw [hx, List.getElem?_map, he] at hdone
    cases hdone
  step x a y hwritten _ hy := by
    obtain ⟨i, fault⟩ := a
    simp only [exportMachine, step] at hy
    split at hy
    · next e phase he hphase =>
        obtain ⟨⟨phase', fs'⟩, hstep, rfl⟩ := Option.map_eq_some_iff.mp hy
        refine ⟨by simpa using hwritten.1, fun j e' he' hdone => ?_⟩
        by_cases hij : i = j
        · subst hij
          obtain rfl := Option.some.inj (he.symm.trans he')
          have hlt := (List.getElem?_eq_some_iff.mp hphase).1
          rw [List.getElem?_set_self hlt] at hdone
          obtain rfl := Option.some.inj hdone
          exact exportStep_done hstep
        · rw [List.getElem?_set_ne hij] at hdone
          have hne : e'.dest ≠ e.dest := by
            intro hdest
            have hlt : i < (exports.map Export.dest).length := by
              rw [List.length_map]
              exact (List.getElem?_eq_some_iff.mp he).1
            refine hij ((List.getElem?_inj hlt h).mp ?_)
            rw [List.getElem?_map, List.getElem?_map, he, he', Option.map_some, Option.map_some,
              hdest]
          exact (exportStep_other hstep hne).trans (hwritten.2 j e' he' hdone)
    · cases hy

theorem succeeded_written (h : (exports.map Export.dest).Nodup)
    (hx : (exportMachine exports).Reachable Any x) (hdone : x.Succeeded) :
    ∀ e ∈ exports, x.fs e.dest = some (.file e.content) := by
  intro e he
  obtain ⟨hlength, hwritten⟩ := (written_invariant h).reachable hx
  obtain ⟨i, hi⟩ := List.mem_iff_getElem?.mp he
  have hlt := (List.getElem?_eq_some_iff.mp hi).1
  have hphase := List.getElem?_eq_getElem (hlength ▸ hlt : i < x.phases.length)
  exact hwritten i e hi (hphase.trans (by rw [hdone _ (List.getElem_mem _)]))

end ExportRun

end Iroh.Core
