import ReactNativeIroh.Ts.Collection

/-!
# A collection stays in its directory

The provider of a collection chooses the names of its children.  `Kept` is what every step
keeps of it: a child is only made from a manifest all of whose names were checked, and a
manifest that was refused rejects the collection.
-/

namespace Iroh

open JsString Transition

namespace CollectionRun

variable {φ : Type*} {destDir : JsString} {x y : CollectionRun φ}

/-- The collection was settled with an error. -/
def Rejected (x : CollectionRun φ) : Prop := ∃ e, x.collection.hub.outcome = some (some e)

/-- `begin` has not seen the manifest. -/
def Unseen (x : CollectionRun φ) : Prop := ∀ result, x.manifest ≠ .seen result

/-- Until `begin` has seen the manifest there is no child, and nothing but an error can have
settled the collection. -/
structure Idle (x : CollectionRun φ) : Prop where
  children : x.collection.children = []
  childrenStarted : x.collection.childrenStarted = false
  outcome : x.collection.hub.outcome = none ∨ x.Rejected

structure Kept (destDir : JsString) (x : CollectionRun φ) : Prop where
  idle : x.Unseen → x.Idle
  created : ∀ child ∈ x.created, ∃ entries, x.manifest = .seen (.ok entries) ∧
    Manifest.checkEntries entries = .ok () ∧
    ∃ entry ∈ entries, child.destPath = Manifest.childPath destDir entry.name
  rejected : ∀ result e, x.manifest = .seen result → fetchManifest result = .error e → x.Rejected

/-- What happens to a collection once its manifest was seen, or before: the children and
the manifest stay, and what is settled stays settled. -/
structure Settles (x y : CollectionRun φ) : Prop where
  created : y.created = x.created
  manifest : y.manifest = x.manifest
  rejected : x.Rejected → y.Rejected
  idle : x.Idle → y.Idle

theorem Kept.settles (h : x.Kept destDir) (hs : x.Settles y) : y.Kept destDir where
  idle hunseen := hs.idle (h.idle fun result => hs.manifest ▸ hunseen result)
  created child hchild := hs.manifest ▸ h.created child (hs.created ▸ hchild)
  rejected result e hseen he := hs.rejected (h.rejected result e (hs.manifest ▸ hseen) he)

theorem Settles.refl (x : CollectionRun φ) : x.Settles x := ⟨rfl, rfl, id, id⟩

/-- Settling with an error rejects, unless the collection was settled with success before. -/
theorem rejected_settle (h : x.collection.hub.outcome = none ∨ x.Rejected) (e : IrohError) :
    (x.settle (some e)).Rejected := by
  have houtcome := ProgressHub.settle_outcome (some e) x.collection.hub
  rcases h with h | ⟨e', h⟩
  · exact ⟨e, houtcome.trans (by rw [h]; rfl)⟩
  · exact ⟨e', houtcome.trans (by rw [h]; rfl)⟩

theorem settles_settle (e : IrohError) (x : CollectionRun φ) : x.Settles (x.settle (some e)) where
  created := rfl
  manifest := rfl
  rejected h := rejected_settle (Or.inr h) e
  idle h := ⟨h.children, h.childrenStarted, Or.inr (rejected_settle h.outcome e)⟩

/-- The children are what they were, and the hub is settled as it was. -/
theorem settles_of_collection (hcreated : y.created = x.created)
    (hmanifest : y.manifest = x.manifest)
    (hchildren : y.collection.children = x.collection.children)
    (hstarted : y.collection.childrenStarted = x.collection.childrenStarted)
    (houtcome : y.collection.hub.outcome = x.collection.hub.outcome) : x.Settles y where
  created := hcreated
  manifest := hmanifest
  rejected h := by rwa [Rejected, houtcome]
  idle h := ⟨hchildren.trans h.children, hstarted.trans h.childrenStarted, by
    rw [Rejected, houtcome]
    exact h.outcome⟩

theorem Settles.trans {z : CollectionRun φ} (h : x.Settles y) (h' : y.Settles z) :
    x.Settles z where
  created := h'.created.trans h.created
  manifest := h'.manifest.trans h.manifest
  rejected := h'.rejected ∘ h.rejected
  idle := h'.idle ∘ h.idle

variable [DecidableEq φ]

theorem settles_cancel (x : CollectionRun φ) : x.Settles x.cancel := by
  unfold cancel
  split
  · exact .refl x
  · have hrequested : x.Settles
        ({ x with collection := { x.collection with cancelRequested := true } }.cancelChildren) :=
      settles_of_collection rfl rfl rfl rfl rfl
    dsimp only
    split
    · exact hrequested
    · exact hrequested.trans (settles_settle _ _)

theorem settles_onChildError (e : IrohError) (x : CollectionRun φ) :
    x.Settles (x.onChildError e) := by
  unfold onChildError
  split
  · exact .refl x
  · have hcancelled : x.Settles x.cancelChildren := settles_of_collection rfl rfl rfl rfl rfl
    exact hcancelled.trans (settles_settle _ _)

end CollectionRun

namespace CollectionTransfer

variable {φ : Type*} {c c' : CollectionTransfer φ}

/-- A later state of the collection: what is settled stays settled, and without children
nothing changes. -/
structure Later (c c' : CollectionTransfer φ) : Prop where
  outcome : ∀ r, c.hub.outcome = some r → c'.hub.outcome = some r
  childless : c.children = [] → c' = c

theorem later_childProgress (k bytesReceived : ℕ) (c : CollectionTransfer φ) :
    c.Later (c.childProgress k bytesReceived) := by
  unfold childProgress
  split
  · exact ⟨fun _ h => h, fun _ => rfl⟩
  · next i hi =>
      refine ⟨fun r h => ?_, fun h => by simp [h] at hi⟩
      unfold recomputeAggregate
      split
      · exact h
      · exact h

theorem later_childSucceeded (k : ℕ) (c : CollectionTransfer φ) :
    c.Later (c.childSucceeded k) := by
  unfold childSucceeded
  split
  · exact ⟨fun _ h => h, fun _ => rfl⟩
  · next i hi =>
      refine ⟨fun r h => ?_, fun h => by simp [h] at hi⟩
      -- the aggregate is not dispatched and nothing is settled, since it is settled already
      have hsettled : ∀ files, ({ c with fileStates := files } : CollectionTransfer φ).isSettled =
          true := fun files => by simp [isSettled, ProgressHub.isSettled_eq, h]
      simp only [recomputeAggregate, hsettled, if_true, checkAllDone, Bool.true_or]
      exact h

end CollectionTransfer

namespace CollectionRun

variable {φ : Type*} {destDir : JsString} {x y : CollectionRun φ}

theorem settles_update {c : CollectionTransfer φ} (h : x.collection.Later c) :
    x.Settles { x with collection := c } where
  created := rfl
  manifest := rfl
  rejected := fun ⟨e, he⟩ => ⟨e, h.outcome _ he⟩
  idle hidle := by
    have hsame : c = x.collection := h.childless hidle.children
    exact ⟨hsame ▸ hidle.children, hsame ▸ hidle.childrenStarted, hsame ▸ hidle.outcome⟩

theorem settles_observe (before : CollectionRun φ) (e : DownloadEvent φ) (run : DownloadsRun φ)
    (x : CollectionRun φ) : x.Settles (observe before e { x with run }) := by
  have hrun : x.Settles { x with run } := settles_of_collection rfl rfl rfl rfl rfl
  unfold observe
  split
  · split
    · exact hrun.trans
        (settles_update (CollectionTransfer.later_childProgress _ _ x.collection))
    · exact hrun
  · exact hrun

variable [DecidableEq φ]

theorem settles_childDone (k : ℕ) (outcome : Option IrohError) (x : CollectionRun φ) :
    x.Settles (x.childDone k outcome) := by
  have hreacted : x.Settles { x with reacted := x.reacted ++ [k] } :=
    settles_of_collection rfl rfl rfl rfl rfl
  cases outcome with
  | none =>
      exact hreacted.trans (settles_update (CollectionTransfer.later_childSucceeded k x.collection))
  | some e => exact hreacted.trans (settles_onChildError e _)

/-- The loop makes a child for entries of the manifest only. -/
theorem startChildren_created (destDir : JsString) (throws : ℕ → Option IrohError)
    (entries : List ManifestEntry) (x : CollectionRun φ) :
    (startChildren destDir throws entries x).1.manifest = x.manifest ∧
      ∀ child ∈ (startChildren destDir throws entries x).1.created, child ∈ x.created ∨
        ∃ entry ∈ entries, child.destPath = Manifest.childPath destDir entry.name := by
  induction entries generalizing x with
  | nil => exact ⟨rfl, fun child hchild => Or.inl hchild⟩
  | cons entry rest ih =>
      simp only [startChildren, startChild]
      cases Manifest.validateTicketShape entry.ticket with
      | error e => exact ⟨rfl, fun child hchild => Or.inl hchild⟩
      | ok ticket =>
          obtain ⟨hmanifest, hcreated⟩ := ih
            { x with
              run := x.run.after (.download false throws)
              collection := { x.collection with
                fileStates := x.collection.fileStates ++ [{ name := entry.name }]
                children := x.collection.children ++ [x.run.downloads.transfers.length] }
              created := x.created ++ [⟨x.run.downloads.transfers.length, ticket,
                Manifest.childPath destDir entry.name⟩] }
          refine ⟨hmanifest, fun child hchild => ?_⟩
          rcases hcreated child hchild with hold | ⟨entry', hmem, hpath⟩
          · rcases List.mem_append.mp hold with hold | hnew
            · exact Or.inl hold
            · obtain rfl := List.mem_singleton.mp hnew
              exact Or.inr ⟨entry, List.mem_cons_self .., rfl⟩
          · exact Or.inr ⟨entry', List.mem_cons_of_mem _ hmem, hpath⟩

theorem onManifest_created (destDir : JsString) (throws : ℕ → Option IrohError)
    (entries : List ManifestEntry) (x : CollectionRun φ) :
    (x.onManifest destDir throws entries).manifest = x.manifest ∧
      ∀ child ∈ (x.onManifest destDir throws entries).created, child ∈ x.created ∨
        ∃ entry ∈ entries, child.destPath = Manifest.childPath destDir entry.name := by
  have hloop := startChildren_created destDir throws entries x
  unfold onManifest
  split
  · exact ⟨rfl, fun child hchild => Or.inl hchild⟩
  · split
    · next y hy => rwa [hy] at hloop
    · next y hy => rwa [hy] at hloop

/-- The manifest is handed to `begin` with all its names checked, or not at all. -/
theorem fetchManifest_ok {result : Except IrohError (List ManifestEntry)}
    {entries : List ManifestEntry} (h : fetchManifest result = .ok entries) :
    result = .ok entries ∧ Manifest.checkEntries entries = .ok () := by
  cases result with
  | error e => cases h
  | ok entries' =>
      unfold fetchManifest at h
      cases hcheck : Manifest.checkEntries entries' with
      | error e => simp [hcheck, Except.map] at h
      | ok u =>
          obtain rfl : entries' = entries := by simpa [hcheck, Except.map] using h
          exact ⟨rfl, hcheck⟩

theorem Kept.manifestReaction (h : x.Kept destDir) (throws : ℕ → Option IrohError)
    {result : Except IrohError (List ManifestEntry)} (hm : x.manifest = .settled result) :
    (CollectionRun.manifestReaction destDir throws result
      { x with manifest := .seen result }).Kept destDir := by
  have hunseen : x.Unseen := by
    intro result' hseen
    rw [hm] at hseen
    cases hseen
  have hidle := h.idle hunseen
  have hempty : ∀ child, child ∉ x.created := by
    intro child hchild
    obtain ⟨entries, hseen, -⟩ := h.created child hchild
    exact hunseen _ hseen
  unfold CollectionRun.manifestReaction
  cases hfetch : fetchManifest result with
  | error e =>
      have hrejected : ({ x with manifest := .seen result }.settle (some e)).Rejected :=
        rejected_settle (x := { x with manifest := .seen result }) hidle.outcome e
      exact ⟨fun hun => absurd rfl (hun result), fun child hchild => absurd hchild (hempty child),
        fun _ _ _ _ => hrejected⟩
  | ok entries =>
      obtain ⟨rfl, hcheck⟩ := fetchManifest_ok hfetch
      obtain ⟨hmanifest, hcreated⟩ := onManifest_created destDir throws entries
        { x with manifest := .seen (.ok entries) }
      refine ⟨fun hun => absurd hmanifest (hun _), fun child hchild => ?_,
        fun result e hseen he => ?_⟩
      · obtain ⟨entry, hmem, hpath⟩ := (hcreated child hchild).resolve_left (hempty child)
        exact ⟨entries, hmanifest, hcheck, entry, hmem, hpath⟩
      · have hsame := ManifestPromise.seen.inj (hmanifest.symm.trans hseen)
        rw [← hsame, hfetch] at he
        cases he

theorem kept_invariant (cap : DownloadCap) (destDir : JsString) :
    (collectionMachine φ cap destDir).Invariant Any (Kept destDir) where
  init x hx := by
    obtain ⟨run, ticket, -, hx⟩ := hx
    unfold downloadCollection at hx
    cases hticket : Manifest.validateTicketShape ticket with
    | error e => simp [hticket, Except.map] at hx
    | ok ticket =>
        obtain rfl : { run } = x := by simpa [hticket, Except.map] using hx
        refine ⟨fun _ => ⟨rfl, rfl, Or.inl rfl⟩, fun child hchild => ?_, fun result e hseen => ?_⟩
        · cases hchild
        · cases hseen
  step x a y hx _ hy := by
    cases a with
    | manifest result =>
        simp only [collectionMachine, step] at hy
        split at hy
        · next hm =>
            obtain rfl := Option.some.inj hy
            have hidle : x.Idle := hx.idle fun result' hseen => by
              rw [hm] at hseen
              cases hseen
            refine ⟨fun _ => ⟨hidle.children, hidle.childrenStarted, hidle.outcome⟩,
              fun child hchild => ?_, fun result e hseen => ?_⟩
            · obtain ⟨entries, hseen, -⟩ := hx.created child hchild
              rw [hm] at hseen
              cases hseen
            · cases hseen
        · cases hy
    | manifestReaction throws =>
        simp only [collectionMachine, step] at hy
        split at hy
        · next result hm =>
            obtain rfl := Option.some.inj hy
            exact hx.manifestReaction throws hm
        · cases hy
    | cancel =>
        obtain rfl := Option.some.inj hy
        exact hx.settles (settles_cancel x)
    | childDone k =>
        simp only [collectionMachine, step] at hy
        split at hy
        · obtain ⟨outcome, -, rfl⟩ := Option.map_eq_some_iff.mp hy
          exact hx.settles (settles_childDone k outcome x)
        · cases hy
    | event e =>
        obtain ⟨run, -, rfl⟩ := Option.map_eq_some_iff.mp hy
        exact hx.settles (settles_observe x e run x)
    | close =>
        simp only [collectionMachine, step] at hy
        obtain ⟨run, -, rfl⟩ := Option.map_eq_some_iff.mp hy
        exact hx.settles (settles_of_collection rfl rfl rfl rfl rfl)

/-- Every child is a direct child of the directory, made or handed to the native side, and
one name that is no single segment is enough for no child to be made and for the
collection to be rejected once `begin` has seen the manifest. -/
structure StaysIn (destDir : JsString) (x : CollectionRun φ) : Prop where
  created : ∀ child ∈ x.created, Manifest.DirectChild destDir child.destPath
  handed : ∀ path ∈ x.handed, Manifest.DirectChild destDir path
  refused : ∀ entries, x.manifest.answer? = some (.ok entries) →
    (∃ entry ∈ entries, ¬ Manifest.Contained entry.name) →
      x.created = [] ∧ (x.manifest = .seen (.ok entries) → x.Rejected)

/-- A collection that is downloaded into any directory but the empty string stays in it. -/
theorem stays_in (cap : DownloadCap) (hne : destDir ≠ [])
    (hx : (collectionMachine φ cap destDir).Reachable Any x) : x.StaysIn destDir := by
  have hkept := (kept_invariant cap destDir).reachable hx
  have hcreated : ∀ child ∈ x.created, Manifest.DirectChild destDir child.destPath := by
    intro child hchild
    obtain ⟨entries, -, hcheck, entry, hmem, hpath⟩ := hkept.created child hchild
    rw [hpath]
    exact Manifest.directChild hne (Manifest.checkEntries_ok_iff.mp hcheck entry hmem)
  refine ⟨hcreated, fun path hpath => ?_, fun entries hanswer hbad => ⟨?_, fun hseen => ?_⟩⟩
  · obtain ⟨child, hchild, rfl⟩ := List.mem_map.mp hpath
    exact hcreated child (List.mem_of_mem_filter hchild)
  · refine List.eq_nil_iff_forall_not_mem.mpr fun child hchild => ?_
    obtain ⟨entries', hseen, hcheck, -⟩ := hkept.created child hchild
    rw [hseen] at hanswer
    obtain rfl := Except.ok.inj (Option.some.inj hanswer)
    obtain ⟨entry, hmem, hname⟩ := hbad
    exact hname (Manifest.checkEntries_ok_iff.mp hcheck entry hmem)
  · cases hcheck : Manifest.checkEntries entries with
    | error e => exact hkept.rejected _ e hseen (by rw [fetchManifest, hcheck]; rfl)
    | ok u =>
        obtain ⟨entry, hmem, hname⟩ := hbad
        exact absurd (Manifest.checkEntries_ok_iff.mp hcheck entry hmem) hname

/-! ## Two runs -/

/-- A ticket of the shape of one. -/
def someTicket : JsString := ofText "blob" ++ List.replicate 53 (unit 'a')

/-- The manifest arrives and its children are started. -/
def fetched (names : List String) : List (CollectionAction ℕ) :=
  [.manifest (.ok (names.map fun name => ⟨ofText name, someTicket⟩)),
    .manifestReaction fun _ => none]

def fresh : CollectionRun ℕ :=
  { run := { downloads := { maxConcurrentDownloads := DownloadsRun.oneSlot } } }

theorem fresh_init (destDir : JsString) :
    (collectionMachine ℕ DownloadsRun.oneSlot destDir).init fresh :=
  ⟨_, someTicket, ⟨_, rfl, .refl⟩, by rfl⟩

/-- Two children, the second of which would escape the directory. -/
def escaping : CollectionRun ℕ :=
  ((collectionMachine ℕ DownloadsRun.oneSlot (ofText "/dest")).run fresh
    (fetched ["a", "../b"])).getD fresh

theorem stays_in_escaping : escaping.StaysIn (ofText "/dest") ∧ escaping.created = [] :=
  ⟨stays_in DownloadsRun.oneSlot (by decide)
    (Machine.reachable_getD (fresh_init _) (by decide +kernel) _), by decide +kernel⟩

/-- A child of the empty directory. -/
def rooted : CollectionRun ℕ :=
  ((collectionMachine ℕ DownloadsRun.oneSlot []).run fresh (fetched ["a"])).getD fresh

/-- It is downloaded into the root, which is not where the empty path leads. -/
theorem empty_leads_to_root :
    (collectionMachine ℕ DownloadsRun.oneSlot []).Reachable Any rooted ∧
      rooted.handed = [ofText "/a"] ∧
      (Manifest.normalize (ofText "/a")).parent ≠ Manifest.normalize [] :=
  ⟨Machine.reachable_getD (fresh_init _) (by decide +kernel) _, by decide +kernel,
    by decide +kernel⟩

end CollectionRun

end Iroh
