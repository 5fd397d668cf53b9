import ReactNativeIroh.Core.Export
import ReactNativeIroh.Ts.SharedCollection

/-!
# The files of a collection

Each child of a collection is written to its own path, `destDir/<name>`, by a download of
its own, and the downloads run at the same time.  The native side reads a path up to its
first NUL.

The content of a child is what its ticket names, so it is an argument here.  File names are
compared byte by byte, as Unix file systems do.
-/

namespace Iroh

open JsString Iroh.Core Transition

namespace CollectionFiles

variable {β : Type*}

/-- A child of a collection, as the native side knows it. -/
structure Child (β : Type*) where
  name : String
  ticket : String
  content : β

/-- The manifest of the children, as `JSON.parse` reads it. -/
def entries (children : List (Child β)) : List ManifestEntry :=
  children.map fun child => ⟨ofText child.name, ofText child.ticket⟩

/-- The path `binding.downloadBlob` is called with. -/
def destPath (destDir : JsString) (child : Child β) : JsString :=
  Manifest.childPath destDir (ofText child.name)

/-- The export of a child, to the path the native side reads. -/
def exportOf (destDir : JsString) (child : Child β) : Export β :=
  ⟨Path.ofText (native (destPath destDir child)), child.content⟩

/-- Every child has a path of its own, and once all downloads have succeeded it is a file
there with the child's content, in whatever order the downloads went on. -/
structure NoOverwrite (destDir : JsString) (children : List (Child β)) : Prop where
  distinct : ((children.map (exportOf destDir)).map Export.dest).Nodup
  written : ∀ x : ExportRun β, (exportMachine (children.map (exportOf destDir))).Reachable Any x →
    x.Succeeded → ∀ child ∈ children,
      x.fs (exportOf destDir child).dest = some (.file child.content)

variable {destDir : JsString} {children : List (Child β)}

/-- The native side reads the name, unless it stops in the directory before it. -/
theorem native_destPath {child : Child β} (hname : nul ∉ child.name.toList) :
    (native (destPath destDir child)).toList =
      if unit nul ∈ Manifest.trimSlashes destDir then
        (native (Manifest.trimSlashes destDir)).toList
      else (native (Manifest.trimSlashes destDir)).toList ++ '/' :: child.name.toList := by
  rw [destPath, Manifest.childPath, native_append_unit Manifest.single_slash (by decide),
    native_ofText hname]

/-- Dropping the trailing slashes drops no NUL. -/
theorem nul_mem_trimSlashes : unit nul ∈ Manifest.trimSlashes destDir ↔ unit nul ∈ destDir := by
  have hsplit : Manifest.trimSlashes destDir ++
      destDir.rtakeWhile (fun u => decide (u = unit '/')) = destDir :=
    List.rdropWhile_append_rtakeWhile
  constructor
  · intro h
    rw [← hsplit]
    exact List.mem_append_left _ h
  · intro h
    rw [← hsplit] at h
    refine (List.mem_append.mp h).resolve_right fun hslash => ?_
    exact absurd (List.mem_rtakeWhile_imp hslash) (by decide)

/-- The children of an accepted manifest have no NUL in their names. -/
theorem nul_notMem_name (h : Manifest.checkEntries (entries children) = .ok ())
    {child : Child β} (hchild : child ∈ children) : nul ∉ child.name.toList := by
  have hcontained := Manifest.checkEntries_ok_iff.mp h _ (List.mem_map_of_mem hchild)
  exact fun hmem => hcontained.no_nul ((mem_ofText single_nul).mpr hmem)

/-- Two children have one path exactly when they have one name, or when the native side
stops in the directory. -/
theorem dest_eq_iff (h : Manifest.checkEntries (entries children) = .ok ())
    {child child' : Child β} (hchild : child ∈ children) (hchild' : child' ∈ children) :
    (exportOf destDir child).dest = (exportOf destDir child').dest ↔
      unit nul ∈ destDir ∨ child.name = child'.name := by
  rw [exportOf, exportOf, Path.ofText_injective.eq_iff, ← String.toList_inj,
    native_destPath (nul_notMem_name h hchild), native_destPath (nul_notMem_name h hchild')]
  by_cases hnul : unit nul ∈ destDir
  · simp [hnul, nul_mem_trimSlashes]
  · simp [hnul, nul_mem_trimSlashes, String.toList_inj]

theorem distinct_iff (destDir : JsString)
    (h : Manifest.checkEntries (entries children) = .ok ()) :
    ((children.map (exportOf destDir)).map Export.dest).Nodup ↔
      children.length ≤ 1 ∨ unit nul ∉ destDir ∧ (children.map Child.name).Nodup := by
  have hpairs : ((children.map (exportOf destDir)).map Export.dest).Nodup ↔
      children.Pairwise fun a b => ¬ (unit nul ∈ destDir ∨ a.name = b.name) := by
    rw [List.map_map, List.nodup_iff_pairwise_ne, List.pairwise_map]
    exact List.Pairwise.iff_of_mem fun ha hb => not_congr (dest_eq_iff h ha hb)
  rw [hpairs]
  by_cases hnul : unit nul ∈ destDir
  · -- any two children have one path
    match children with
    | [] => simp
    | [child] => simp
    | a :: b :: rest =>
        refine iff_of_false (fun hp => ?_) (by simp [hnul])
        exact (List.pairwise_cons.mp hp).1 b (List.mem_cons_self ..) (Or.inl hnul)
  · have hnames : (children.Pairwise fun a b => ¬ (unit nul ∈ destDir ∨ a.name = b.name)) ↔
        (children.map Child.name).Nodup := by
      rw [List.nodup_iff_pairwise_ne, List.pairwise_map]
      simp [hnul]
    rw [hnames, and_iff_right hnul]
    refine ⟨Or.inr, fun hcond => hcond.elim (fun hlength => ?_) id⟩
    match children, hlength with
    | [], _ => exact List.nodup_nil
    | [child], _ => exact List.pairwise_singleton _ _
    | a :: b :: rest, hlength => exact absurd hlength (by simp)

/-- Children with paths of their own do not overwrite each other. -/
theorem noOverwrite_iff_distinct :
    NoOverwrite destDir children ↔
      ((children.map (exportOf destDir)).map Export.dest).Nodup := by
  refine ⟨fun ho => ho.distinct, fun hnodup => ⟨hnodup, fun x hx hdone child hchild => ?_⟩⟩
  exact ExportRun.succeeded_written hnodup hx hdone _ (List.mem_map_of_mem hchild)

/-- No child overwrites another exactly when there is one child at most, or when the names
are distinct and the directory has no NUL. -/
theorem noOverwrite_iff (h : Manifest.checkEntries (entries children) = .ok ()) :
    NoOverwrite destDir children ↔
      children.length ≤ 1 ∨ unit nul ∉ destDir ∧ (children.map Child.name).Nodup :=
  noOverwrite_iff_distinct.trans (distinct_iff destDir h)

/-- Two names, two files. -/
theorem noOverwrite_two :
    NoOverwrite (ofText "/dest") [(⟨"x.bin", "blob", 1⟩ : Child ℕ), ⟨"y.bin", "blob", 2⟩] :=
  (noOverwrite_iff (by decide +kernel)).mpr (.inr ⟨by decide +kernel, by decide +kernel⟩)

/-- The children of a shared collection have the base names of its sources. -/
theorem names_shared {env : ShareEnv} {paths imported : List Path}
    {shared : Core.SharedCollection}
    (h : env.collectionShareInner paths = (.ok shared, imported)) {ticketOf : Hash → String}
    (hmanifest : SharedCollection.manifest ticketOf shared = entries children) :
    children.map Child.name = paths.map fun p => (p.fileName.getD []).toStringLossy := by
  obtain ⟨-, -, -, hnames⟩ := ShareEnv.collectionShareInner_ok h
  have hmapped := congrArg (List.map ManifestEntry.name) hmanifest
  rw [SharedCollection.manifest, entries, List.map_map, List.map_map] at hmapped
  rw [← hnames]
  refine (List.map_injective_iff.mpr ofText_injective) ?_
  rw [List.map_map, List.map_map]
  exact hmapped.symm

/-- So two sources of one base name overwrite each other. -/
theorem noOverwrite_shared_iff {env : ShareEnv} {paths imported : List Path}
    {shared : Core.SharedCollection}
    (h : env.collectionShareInner paths = (.ok shared, imported)) {ticketOf : Hash → String}
    (hmanifest : SharedCollection.manifest ticketOf shared = entries children)
    (haccepted : Manifest.checkEntries (entries children) = .ok ()) :
    NoOverwrite destDir children ↔
      paths.length ≤ 1 ∨ unit nul ∉ destDir ∧
        (paths.map fun p => (p.fileName.getD []).toStringLossy).Nodup := by
  have hnames := names_shared h hmanifest
  have hlength : children.length = paths.length := by
    simpa using congrArg List.length hnames
  rw [noOverwrite_iff_distinct, distinct_iff destDir haccepted, hlength, hnames]

/-- The sources of a collection, two files of one name. -/
def namesakes : List Path := [Path.ofText "/a/x.bin", Path.ofText "/b/x.bin"]

/-- The children the receiver is told of. -/
def namesakeChildren : List (Child ℕ) := [⟨"x.bin", "blob", 1⟩, ⟨"x.bin", "blob", 2⟩]

/-- The downloads of the two files, one after the other. -/
def oneAfterTheOther : List (ℕ × Option String) :=
  [(0, none), (0, none), (1, none), (1, none), (1, none)]

def overwritten : ExportRun ℕ :=
  ((exportMachine (namesakeChildren.map (exportOf (ofText "/dest")))).run
    ⟨fun _ => none, [.inspecting, .inspecting]⟩ oneAfterTheOther).getD ⟨fun _ => none, []⟩

theorem overwritten_reachable :
    (exportMachine (namesakeChildren.map (exportOf (ofText "/dest")))).Reachable Any overwritten :=
  Machine.reachable_getD rfl (by decide +kernel) _

/-- Both downloads succeed, and the content of the first is lost. -/
theorem overwrites_namesake :
    namesakes.Nodup ∧
      ShareEnv.accepting.collectionShareInner namesakes =
        (.ok ⟨[("x.bin", 0), ("x.bin", 0)], "blob"⟩, namesakes) ∧
      SharedCollection.manifest (fun _ => "blob") ⟨[("x.bin", 0), ("x.bin", 0)], "blob"⟩ =
        entries namesakeChildren ∧
      Manifest.checkEntries (entries namesakeChildren) = .ok () ∧
      ¬ NoOverwrite (ofText "/dest") namesakeChildren := by
  refine ⟨by decide +kernel, by decide +kernel, by decide +kernel, by decide +kernel, fun h => ?_⟩
  have hdone : overwritten.Succeeded := by
    unfold ExportRun.Succeeded
    decide +kernel
  have hfirst := h.written overwritten overwritten_reachable hdone _ (List.mem_cons_self ..)
  revert hfirst
  decide +kernel

end CollectionFiles

end Iroh
