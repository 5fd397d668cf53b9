import ReactNativeIroh.Core.CollectionShare
import ReactNativeIroh.Ts.Manifest

/-!
# Sharing a collection

`Endpoint.shareCollection` joins the paths it is given, and the core imports the paths it
reads.  The name of a child is the base name of its file, and `downloadCollection` checks
that name on the other side.
-/

namespace Iroh

open JsString JoinedList Iroh.Core

namespace SharedCollection

/-- `Endpoint.shareCollection`. -/
def shareCollection (env : ShareEnv) (paths : List JsString) :
    Except Core.IrohError Core.SharedCollection × List Path :=
  env.shareCollection (native (join paths))

/-- The manifest of a collection, as `collection_manifest` resolves with it and
`JSON.parse` reads it. -/
def manifest (ticketOf : Hash → String) (shared : Core.SharedCollection) : List ManifestEntry :=
  shared.items.map fun (name, hash) => ⟨ofText name, ofText (ticketOf hash)⟩

/-- Whatever the endpoint, a share that succeeds has imported the given paths and no
others, in order. -/
def ImportsExactly (paths : List JsString) : Prop :=
  ∀ env shared imported, shareCollection env paths = (.ok shared, imported) →
    ∃ texts : List String, texts.map ofText = paths ∧ imported = texts.map Path.ofText

theorem shareCollection_eq (env : ShareEnv) (paths : List JsString) :
    shareCollection env paths = env.collectionShareInner ((received paths).map Path.ofText) := by
  rw [shareCollection, ShareEnv.shareCollection, received, splitJoined, List.map_map]
  rfl

/-- A share imports what it was given exactly when each path is plain, or when what the
core reads of them cannot be shared at all. -/
theorem importsExactly_iff (paths : List JsString) :
    ImportsExactly paths ↔
      (∀ s ∈ paths, Plain s) ∨ allPieces paths = [] ∨
        ∃ t ∈ allPieces paths, ¬ (Path.ofText t).Shareable := by
  rw [← received_eq_allPieces]
  constructor
  · intro h
    by_cases hplain : ∀ s ∈ paths, Plain s
    · exact Or.inl hplain
    · refine Or.inr ?_
      by_contra hshares
      push Not at hshares
      obtain ⟨hne, hshareable⟩ := hshares
      have hpaths : ∀ p ∈ (received paths).map Path.ofText, p.Shareable := by
        intro p hp
        obtain ⟨t, ht, rfl⟩ := List.mem_map.mp hp
        exact hshareable t ht
      obtain ⟨shared, hshared⟩ := ShareEnv.accepting_ok (by simpa using hne) hpaths
      rw [← shareCollection_eq] at hshared
      obtain ⟨texts, htexts, himported⟩ := h _ _ _ hshared
      obtain rfl := (List.map_injective_iff.mpr Path.ofText_injective) himported
      exact hplain (received_exact_iff.mp htexts)
  · rintro hcases env shared imported hshared
    rw [shareCollection_eq] at hshared
    obtain ⟨rfl, hne, hshareable, -⟩ := ShareEnv.collectionShareInner_ok hshared
    rcases hcases with hplain | hempty | ⟨t, ht, hunshareable⟩
    · exact ⟨received paths, received_exact_iff.mpr hplain, rfl⟩
    · exact absurd (by rw [hempty, List.map_nil]) hne
    · exact absurd (hshareable _ (List.mem_map_of_mem ht)) hunshareable

/-- The path of one file, whose name contains a newline. -/
def twoLines : JsString := ofText "/tmp/a\n/tmp/b"

/-- Two files are imported for the one path. -/
theorem imports_other_files : ¬ ImportsExactly [twoLines] := by
  intro h
  have hreceived : received [twoLines] = ["/tmp/a", "/tmp/b"] := by decide +kernel
  have hpaths : ∀ p ∈ ["/tmp/a", "/tmp/b"].map Path.ofText, p.Shareable := by decide +kernel
  obtain ⟨shared, hshared⟩ := ShareEnv.accepting_ok (by simp) hpaths
  have hsame := shareCollection_eq ShareEnv.accepting [twoLines]
  rw [hreceived, hshared] at hsame
  obtain ⟨texts, htexts, himported⟩ := h _ _ _ hsame
  have hlength := congrArg List.length htexts
  have htwo := congrArg List.length himported
  simp only [List.length_map, List.length_cons, List.length_nil] at hlength htwo
  omega

/-! ## The names of the children -/

/-- The base name has no byte that a child name may not have. -/
def Downloadable (p : Path) : Prop :=
  ∀ n, p.fileName = some n → Path.backslash ∉ n ∧ Path.nul ∉ n

/-- A text is a single path segment when it is not special and has none of the characters. -/
theorem contained_ofText_iff {t : String} :
    Manifest.Contained (ofText t) ↔
      (t ≠ "" ∧ t ≠ "." ∧ t ≠ "..") ∧ '/' ∉ t.toList ∧ '\\' ∉ t.toList ∧ nul ∉ t.toList := by
  have hslash : Single '/' := by decide
  have hback : Single '\\' := by decide
  constructor
  · rintro ⟨hne, hdot, hdots, hs, hb, hn⟩
    exact ⟨⟨fun h => hne (ofText_eq_nil.mpr h), fun h => hdot (congrArg ofText h),
      fun h => hdots (congrArg ofText h)⟩, fun h => hs ((mem_ofText hslash).mpr h),
      fun h => hb ((mem_ofText hback).mpr h), fun h => hn ((mem_ofText single_nul).mpr h)⟩
  · rintro ⟨⟨hne, hdot, hdots⟩, hs, hb, hn⟩
    exact ⟨fun h => hne (ofText_eq_nil.mp h), fun h => hdot (ofText_injective h),
      fun h => hdots (ofText_injective h), fun h => hs ((mem_ofText hslash).mp h),
      fun h => hb ((mem_ofText hback).mp h), fun h => hn ((mem_ofText single_nul).mp h)⟩

/-- The base name of a file passes the check when it has no backslash and no NUL. -/
theorem contained_fileName_iff {n : Path} (h : Path.Name n) :
    Manifest.Contained (ofText n.toStringLossy) ↔ Path.backslash ∉ n ∧ Path.nul ∉ n := by
  have hdot : Path.dot.toNat < 0x80 := by decide
  have hspecial : ∀ text : Path, (∀ a ∈ text, a.toNat < 0x80) → n ≠ text →
      n.toStringLossy ≠ String.ofList (text.map Utf8.ascii) :=
    fun text hascii hne hsame => hne ((Path.toStringLossy_eq_ascii hascii).mp hsame)
  have hchar : ∀ a : UInt8, a.toNat < 0x80 →
      (Utf8.ascii a ∉ n.toStringLossy.toList ↔ a ∉ n) :=
    fun a ha => not_congr (Path.mem_toStringLossy ha n)
  rw [contained_ofText_iff]
  constructor
  · rintro ⟨-, -, hback, hnul⟩
    exact ⟨(hchar Path.backslash (by decide)).mp hback, (hchar Path.nul (by decide)).mp hnul⟩
  · rintro ⟨hback, hnul⟩
    refine ⟨⟨?_, ?_, ?_⟩, ?_, ?_, ?_⟩
    · exact hspecial [] (List.forall_mem_nil _) h.segment.nonempty
    · exact hspecial [Path.dot] (List.forall_mem_singleton.mpr hdot) h.ne_dot
    · exact hspecial [Path.dot, Path.dot]
        (List.forall_mem_cons.mpr ⟨hdot, List.forall_mem_singleton.mpr hdot⟩) h.ne_dots
    · exact (hchar Path.slash (by decide)).mpr h.segment.separate
    · exact (hchar Path.backslash (by decide)).mpr hback
    · exact (hchar Path.nul (by decide)).mpr hnul

/-- The manifest of a shared collection is accepted exactly when no base name has a
backslash or a NUL. -/
theorem shared_accepted_iff {env : ShareEnv} {paths imported : List Path}
    {shared : Core.SharedCollection}
    (h : env.collectionShareInner paths = (.ok shared, imported)) (ticketOf : Hash → String) :
    Manifest.checkEntries (manifest ticketOf shared) = .ok () ↔ ∀ p ∈ paths, Downloadable p := by
  obtain ⟨-, -, hshareable, hnames⟩ := ShareEnv.collectionShareInner_ok h
  have hentries : (∀ entry ∈ manifest ticketOf shared, Manifest.Contained entry.name) ↔
      ∀ name ∈ shared.items.map Prod.fst, Manifest.Contained (ofText name) := by
    rw [manifest, List.forall_mem_map, List.forall_mem_map]
  rw [Manifest.checkEntries_ok_iff, hentries, hnames, List.forall_mem_map]
  refine forall₂_congr fun p hp => ?_
  obtain ⟨n, hn⟩ := Option.isSome_iff_exists.mp (hshareable p hp).named
  rw [hn, Option.getD_some, contained_fileName_iff (Path.name_of_fileName hn)]
  exact ⟨fun hc n' hn' => Option.some.inj (hn.symm.trans hn') ▸ hc, fun hd => hd n hn⟩

theorem shared_accepted_two :
    Manifest.checkEntries (manifest (fun _ => "blob") ⟨[("a", 0), ("b.txt", 0)], "blob"⟩) =
        .ok () ∧
      ∀ p ∈ [Path.ofText "/tmp/a", Path.ofText "/var/b.txt"], Downloadable p := by
  have hshared : ShareEnv.accepting.collectionShareInner
      [Path.ofText "/tmp/a", Path.ofText "/var/b.txt"] =
        (.ok ⟨[("a", 0), ("b.txt", 0)], "blob"⟩,
          [Path.ofText "/tmp/a", Path.ofText "/var/b.txt"]) := by decide +kernel
  exact ⟨by decide +kernel, (shared_accepted_iff hshared fun _ => "blob").mp (by decide +kernel)⟩

/-- A file whose name contains a backslash. -/
def backslashPath : Path := Path.ofText "/tmp/a\\b"

/-- That file can be shared, and the collection cannot be downloaded. -/
theorem shared_refused :
    ShareEnv.accepting.collectionShareInner [backslashPath] =
        (.ok ⟨[("a\\b", 0)], "blob"⟩, [backslashPath]) ∧
      Manifest.checkEntries (manifest (fun _ => "blob") ⟨[("a\\b", 0)], "blob"⟩) =
        .error ⟨.invalidPath,
          "collection child name \"a\\\\b\" is not a single path segment"⟩ :=
  ⟨by decide +kernel, by decide +kernel⟩

end SharedCollection

end Iroh
