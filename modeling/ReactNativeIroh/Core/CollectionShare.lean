import ReactNativeIroh.Core.Path

/-!
# Sharing a collection

`collection_share_inner` imports the files in order, pairs each with its base name, and
stores the pairs as a collection.  `SharedCollection` is what was stored and the ticket
for it.  The files that were imported stay imported when a later step fails.

The endpoint and its blob store are an argument, so what is proved holds of any of them.
-/

namespace Iroh.Core

/-- The hash of a blob. -/
abbrev Hash := BitVec 256

/-- The endpoint a collection is shared from, with what its blob store answers. -/
structure ShareEnv where
  endpoint : Except IrohError Unit
  addPath : Path → Except String Hash
  storeCollection : List (String × Hash) → Except String Hash
  createTag : Hash → Except String Unit
  ticket : Hash → String

structure SharedCollection where
  items : List (String × Hash)
  ticket : String
deriving DecidableEq

namespace ShareEnv

variable (env : ShareEnv)

/-- Import the files in order, each with its base name, and record what was imported. -/
def importAll : List Path → List Path → Except IrohError (List (String × Hash)) × List Path
  | [], imported => (.ok [], imported)
  | path :: rest, imported =>
      match requireAbsolute path "share path" with
      | .error e => (.error e, imported)
      | .ok path =>
          match path.fileName with
          | none =>
              (.error (.invalidPath ("share path has no file name: " ++ path.toStringLossy)),
                imported)
          | some name =>
              match env.addPath path with
              | .error text => (.error (.blobImport text), imported)
              | .ok hash =>
                  let (items, imported) := importAll rest (imported ++ [path])
                  (items.map fun items => (name.toStringLossy, hash) :: items, imported)
termination_by structural paths => paths

/-- Store the items as a collection, tag it and make its ticket. -/
def storeItems (items : List (String × Hash)) : Except IrohError SharedCollection :=
  match env.storeCollection items with
  | .error text => .error (.blobImport ("store collection: " ++ text))
  | .ok hash =>
      match env.createTag hash with
      | .error text => .error (.blobImport ("tag collection: " ++ text))
      | .ok () => .ok ⟨items, env.ticket hash⟩

/-- The shared collection, and the files that were imported. -/
def collectionShareInner (paths : List Path) : Except IrohError SharedCollection × List Path :=
  if paths = [] then (.error (.blobImport "a collection needs at least one file"), [])
  else
    match env.endpoint with
    | .error e => (.error e, [])
    | .ok () =>
        let (items, imported) := env.importAll paths []
        (items.bind env.storeItems, imported)

/-- `HybridIroh::share_collection`.  The paths arrive newline-joined, and empty segments
are dropped. -/
def shareCollection (pathsJoined : String) : Except IrohError SharedCollection × List Path :=
  env.collectionShareInner
    ((Separated.segments '\n' pathsJoined.toList).map fun s => Path.ofText (String.ofList s))

end ShareEnv

namespace Path

/-- The path can be a child of a collection. -/
structure Shareable (p : Path) : Prop where
  absolute : p.isAbsolute = true
  named : p.fileName.isSome = true

instance (p : Path) : Decidable p.Shareable :=
  decidable_of_iff (p.isAbsolute = true ∧ p.fileName.isSome = true)
    ⟨fun h => ⟨h.1, h.2⟩, fun h => ⟨h.absolute, h.named⟩⟩

end Path

namespace ShareEnv

variable {env : ShareEnv} {paths imported imported' : List Path} {items : List (String × Hash)}
  {shared : SharedCollection}

/-- When every file is imported, the files are all of them, in order, under their base names. -/
theorem importAll_ok (h : env.importAll paths imported = (.ok items, imported')) :
    imported' = imported ++ paths ∧ (∀ p ∈ paths, p.Shareable) ∧
      items.map Prod.fst = paths.map fun p => (p.fileName.getD []).toStringLossy := by
  induction paths generalizing imported items with
  | nil =>
      obtain ⟨hitems, rfl⟩ := Prod.mk.inj h
      obtain rfl := Except.ok.inj hitems
      exact ⟨(List.append_nil _).symm, nofun, rfl⟩
  | cons path rest ih =>
      simp only [importAll, requireAbsolute] at h
      by_cases habsolute : path.isAbsolute = true
      · rw [if_pos habsolute] at h
        simp only at h
        cases hname : path.fileName with
        | none => simp [hname] at h
        | some name =>
            simp only [hname] at h
            cases hadd : env.addPath path with
            | error text => simp [hadd] at h
            | ok hash =>
                simp only [hadd] at h
                obtain ⟨hitems, himported⟩ := Prod.mk.inj h
                cases hrest : (env.importAll rest (imported ++ [path])).1 with
                | error e => simp [hrest, Except.map] at hitems
                | ok rest' =>
                    obtain rfl : (name.toStringLossy, hash) :: rest' = items := by
                      simpa [hrest, Except.map] using hitems
                    obtain ⟨hall, hshareable, hnames⟩ := ih (Prod.ext hrest himported)
                    refine ⟨by simpa using hall, fun p hp => ?_, ?_⟩
                    · rcases List.mem_cons.mp hp with rfl | hp
                      · exact ⟨habsolute, by simp [hname]⟩
                      · exact hshareable p hp
                    · simp [hnames, hname]
      · rw [if_neg habsolute] at h
        simp at h

/-- A successful share has imported the given files and no others, and its items are their
base names, in order. -/
theorem collectionShareInner_ok (h : env.collectionShareInner paths = (.ok shared, imported)) :
    imported = paths ∧ paths ≠ [] ∧ (∀ p ∈ paths, p.Shareable) ∧
      shared.items.map Prod.fst = paths.map fun p => (p.fileName.getD []).toStringLossy := by
  unfold collectionShareInner at h
  by_cases hempty : paths = []
  · simp [hempty] at h
  · rw [if_neg hempty] at h
    cases hendpoint : env.endpoint with
    | error e => simp [hendpoint] at h
    | ok _ =>
        simp only [hendpoint] at h
        obtain ⟨hshared, himported⟩ := Prod.mk.inj h
        cases hitems : (env.importAll paths []).1 with
        | error e => simp [hitems, Except.bind] at hshared
        | ok items =>
            obtain ⟨hall, hshareable, hnames⟩ := importAll_ok (Prod.ext hitems himported)
            have hsame : shared.items = items := by
              simp only [hitems, Except.bind, storeItems] at hshared
              split at hshared
              · cases hshared
              · split at hshared
                · cases hshared
                · rw [← Except.ok.inj hshared]
            exact ⟨by simpa using hall, hempty, hshareable, hsame ▸ hnames⟩

/-- An endpoint whose blob store takes every file. -/
def accepting : ShareEnv where
  endpoint := .ok ()
  addPath _ := .ok 0
  storeCollection _ := .ok 0
  createTag _ := .ok ()
  ticket _ := "blob"

theorem accepting_importAll (h : ∀ p ∈ paths, p.Shareable) (imported : List Path) :
    ∃ items, accepting.importAll paths imported = (.ok items, imported ++ paths) := by
  induction paths generalizing imported with
  | nil => exact ⟨[], by simp [importAll]⟩
  | cons path rest ih =>
      obtain ⟨habsolute, hnamed⟩ := h path (List.mem_cons_self ..)
      obtain ⟨name, hname⟩ := Option.isSome_iff_exists.mp hnamed
      obtain ⟨items, hrest⟩ := ih (fun p hp => h p (List.mem_cons_of_mem _ hp)) (imported ++ [path])
      have hadd : accepting.addPath path = .ok 0 := rfl
      refine ⟨(name.toStringLossy, 0) :: items, ?_⟩
      simp [importAll, requireAbsolute, habsolute, hname, hadd, hrest, Except.map]

/-- Some endpoint shares every non-empty list of files that can be children. -/
theorem accepting_ok (hne : paths ≠ []) (h : ∀ p ∈ paths, p.Shareable) :
    ∃ shared, accepting.collectionShareInner paths = (.ok shared, paths) := by
  obtain ⟨items, hitems⟩ := accepting_importAll h []
  refine ⟨⟨items, "blob"⟩, ?_⟩
  simp only [collectionShareInner, if_neg hne, hitems]
  rfl

end ShareEnv

end Iroh.Core
