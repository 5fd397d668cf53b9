import ReactNativeIroh.Ts.CollectionContainment
import ReactNativeIroh.Ts.CollectionVerdict

/-!
# How the children of a collection are started

Until `begin` sees the manifest a collection is `Fresh`.  It is `Refused` when it is settled
before it has children, and then nothing of it changes.  When every ticket of the manifest
has the shape of one, the loop of `begin` makes a child for each entry, and the collection
goes on as its children do.
-/

namespace Iroh

open JsString Transition

/-- Every ticket has the shape of one. -/
def Manifest.TicketsShaped (entries : List ManifestEntry) : Prop :=
  ∀ entry ∈ entries, Manifest.validateTicketShape entry.ticket = .ok entry.ticket

instance (entries : List ManifestEntry) : Decidable (Manifest.TicketsShaped entries) :=
  inferInstanceAs (Decidable (∀ entry ∈ entries, _ = _))

/-- A transfer that has dispatched nothing. -/
structure TransferController.Silent {φ : Type*} (t : TransferController φ) : Prop where
  ends : t.hub.Ends
  told : t.hub.told = []

theorem Downloads.silent_lasting {φ : Type*} :
    Downloads.Lasting (TransferController.Silent (φ := φ)) where
  begin throws t _ h :=
    let hquiet := TransferController.Quiet.begin throws t
    ⟨hquiet.ends h.ends, hquiet.told.trans h.told⟩
  cancel t w h :=
    let hquiet := TransferController.Quiet.cancel t w
    ⟨hquiet.ends h.ends, hquiet.told.trans h.told⟩

namespace CollectionRun

variable {φ : Type*} {x y : CollectionRun φ} {e : IrohError}

/-! ## Before there are children -/

/-- No child was made, and the consumers were told nothing. -/
structure Childless (x : CollectionRun φ) : Prop where
  children : x.collection.children = []
  fileStates : x.collection.fileStates = []
  childrenStarted : x.collection.childrenStarted = false
  created : x.created = []
  reacted : x.reacted = []
  hub : x.collection.hub.Ends
  pushed : x.collection.hub.watchable.pushed = []

/-- `begin` has not seen the manifest, and nothing was settled. -/
structure Fresh (x : CollectionRun φ) : Prop where
  childless : x.Childless
  unseen : x.Unseen
  outcome : x.collection.hub.outcome = none
  cancelRequested : x.collection.cancelRequested = false

/-- The collection was settled with this error, and has no child. -/
structure Refused (e : IrohError) (x : CollectionRun φ) : Prop where
  childless : x.Childless
  outcome : x.collection.hub.outcome = some (some e)

theorem Fresh.isSettled (h : x.Fresh) : x.collection.isSettled = false := by
  rw [CollectionTransfer.isSettled, ProgressHub.isSettled_eq, h.outcome]
  rfl

theorem Refused.isSettled (h : x.Refused e) : x.collection.isSettled = true := by
  rw [CollectionTransfer.isSettled, ProgressHub.isSettled_eq, h.outcome]
  rfl

theorem Childless.settle (h : x.Childless) (error : Option IrohError) :
    (x.settle error).Childless where
  children := h.children
  fileStates := h.fileStates
  childrenStarted := h.childrenStarted
  created := h.created
  reacted := h.reacted
  hub := h.hub.settle error
  pushed := (ProgressHub.settle_pushed error _).trans h.pushed

/-- Settling a collection that is not settled refuses it. -/
theorem Childless.refused (h : x.Childless) (hn : x.collection.hub.outcome = none)
    (e : IrohError) : (x.settle (some e)).Refused e where
  childless := h.settle (some e)
  outcome := by
    have houtcome := ProgressHub.settle_outcome (some e) x.collection.hub
    rw [hn] at houtcome
    exact houtcome

/-- Nothing changes but the downloads and what is known of the manifest. -/
structure Idles (x y : CollectionRun φ) : Prop where
  collection : y.collection = x.collection
  created : y.created = x.created
  reacted : y.reacted = x.reacted

theorem Childless.idles (h : x.Childless) (hi : x.Idles y) : y.Childless := by
  have hc := hi.collection
  exact ⟨hc ▸ h.children, hc ▸ h.fileStates, hc ▸ h.childrenStarted, hi.created.trans h.created,
    hi.reacted.trans h.reacted, hc ▸ h.hub, hc ▸ h.pushed⟩

theorem Refused.idles (h : x.Refused e) (hi : x.Idles y) : y.Refused e :=
  ⟨h.childless.idles hi, hi.collection ▸ h.outcome⟩

/-- A collection without children hears nothing. -/
theorem Childless.observe (h : x.Childless) (before : CollectionRun φ) (e : DownloadEvent φ)
    (run : DownloadsRun φ) : x.Idles (CollectionRun.observe before e { x with run }) := by
  unfold CollectionRun.observe
  split
  · split
    · refine ⟨?_, rfl, rfl⟩
      simp only [CollectionTransfer.childProgress, h.children, List.idxOf?_nil]
    · exact ⟨rfl, rfl, rfl⟩
  · exact ⟨rfl, rfl, rfl⟩

variable [DecidableEq φ]

/-- Cancelling a collection without children cancels nothing else. -/
theorem Childless.cancel (h : x.Childless) (hs : x.collection.isSettled = false) :
    x.cancel = { x with collection := { x.collection with cancelRequested := true } }.settle
      (some cancelledCollection) := by
  simp [CollectionRun.cancel, hs, cancelChildren, h.children, h.childrenStarted]

theorem Fresh.cancel (h : x.Fresh) : x.cancel.Refused cancelledCollection := by
  have hrequested : ({ x with
      collection := { x.collection with cancelRequested := true } } : CollectionRun φ).Childless :=
    { h.childless with }
  rw [h.childless.cancel h.isSettled]
  exact hrequested.refused h.outcome cancelledCollection

/-- Everything that can happen to a collection without children.  `begin` goes on with the
manifest, the collection is cancelled, or nothing of it changes. -/
theorem Childless.step {destDir : JsString} {a : CollectionAction φ} (h : x.Childless)
    (hy : CollectionRun.step destDir x a = some y) :
    x.Idles y ∧ (y.manifest = x.manifest ∨ ∃ result, a = .manifest result ∧
        y.manifest = .settled result) ∨
      y = x.cancel ∨
      ∃ throws result, x.manifest = .settled result ∧
        y = manifestReaction destDir throws result { x with manifest := .seen result } := by
  cases a with
  | manifest result =>
      simp only [CollectionRun.step] at hy
      split at hy
      · obtain rfl := Option.some.inj hy
        exact Or.inl ⟨⟨rfl, rfl, rfl⟩, Or.inr ⟨result, rfl, rfl⟩⟩
      · cases hy
  | manifestReaction throws =>
      simp only [CollectionRun.step] at hy
      split at hy
      · next result hm => exact Or.inr (Or.inr ⟨throws, result, hm, (Option.some.inj hy).symm⟩)
      · cases hy
  | cancel => exact Or.inr (Or.inl (Option.some.inj hy).symm)
  | childDone k =>
      simp only [CollectionRun.step, Option.ite_none_right_eq_some] at hy
      rw [h.children] at hy
      cases hy.1.1
  | event e =>
      obtain ⟨run, -, rfl⟩ := Option.map_eq_some_iff.mp hy
      exact Or.inl ⟨h.observe x e run, Or.inl (settles_observe x e run x).manifest⟩
  | close =>
      simp only [CollectionRun.step] at hy
      obtain ⟨run, -, rfl⟩ := Option.map_eq_some_iff.mp hy
      exact Or.inl ⟨⟨rfl, rfl, rfl⟩, Or.inl rfl⟩

/-- Nothing of a refused collection changes. -/
theorem Refused.step {destDir : JsString} {a : CollectionAction φ} (h : x.Refused e)
    (hy : CollectionRun.step destDir x a = some y) : x.Idles y := by
  rcases h.childless.step hy with ⟨hidles, -⟩ | rfl | ⟨throws, result, -, rfl⟩
  · exact hidles
  · rw [CollectionRun.cancel, if_pos h.isSettled]
    exact ⟨rfl, rfl, rfl⟩
  · unfold manifestReaction
    split
    · have hs := h.isSettled
      simp only [onManifest, hs, Bool.or_true, if_true]
      exact ⟨rfl, rfl, rfl⟩
    · refine ⟨?_, rfl, rfl⟩
      simp only [CollectionRun.settle, CollectionTransfer.settle]
      rw [ProgressHub.settle_settled h.isSettled]

/-- `begin` sees the manifest once. -/
theorem seen_step {destDir : JsString} {a : CollectionAction φ}
    (hy : CollectionRun.step destDir x a = some y) {result : Except IrohError (List ManifestEntry)}
    (hm : x.manifest = .seen result) : y.manifest = .seen result := by
  cases a with
  | manifest result => simp [CollectionRun.step, hm] at hy
  | manifestReaction throws => simp [CollectionRun.step, hm] at hy
  | cancel =>
      obtain rfl := Option.some.inj hy
      exact (settles_cancel x).manifest.trans hm
  | childDone k =>
      simp only [CollectionRun.step, Option.ite_none_right_eq_some, Option.map_eq_some_iff] at hy
      obtain ⟨-, outcome, -, rfl⟩ := hy
      exact (settles_childDone k outcome x).manifest.trans hm
  | event e =>
      obtain ⟨run, -, rfl⟩ := Option.map_eq_some_iff.mp hy
      exact (settles_observe x e run x).manifest.trans hm
  | close =>
      simp only [CollectionRun.step] at hy
      obtain ⟨run, -, rfl⟩ := Option.map_eq_some_iff.mp hy
      exact hm

/-- What is unseen after a step was unseen before. -/
theorem Unseen.of_step {destDir : JsString} {a : CollectionAction φ} (h : y.Unseen)
    (hy : CollectionRun.step destDir x a = some y) : x.Unseen :=
  fun result hseen => h result (seen_step hy hseen)

/-- A fresh collection stays so, is cancelled, or `begin` goes on with its manifest. -/
theorem Fresh.step {destDir : JsString} {a : CollectionAction φ} (h : x.Fresh)
    (hy : CollectionRun.step destDir x a = some y) :
    y.Fresh ∧ (y.manifest = x.manifest ∨ ∃ result, a = .manifest result ∧
        y.manifest = .settled result) ∨
      y.Refused cancelledCollection ∨
      ∃ throws result, x.manifest = .settled result ∧
        y = manifestReaction destDir throws result { x with manifest := .seen result } := by
  rcases h.childless.step hy with ⟨hidles, hm⟩ | rfl | hreaction
  · refine Or.inl ⟨⟨h.childless.idles hidles, fun result hseen => ?_,
      hidles.collection ▸ h.outcome, hidles.collection ▸ h.cancelRequested⟩, hm⟩
    rcases hm with hm | ⟨result', -, hm⟩
    · exact h.unseen result (hm.symm.trans hseen)
    · cases hm.symm.trans hseen
  · exact Or.inr (Or.inl h.cancel)
  · exact Or.inr (Or.inr hreaction)

/-- A manifest that is refused rejects the collection. -/
theorem Fresh.reject (h : x.Fresh) (destDir : JsString) (throws : ℕ → Option IrohError)
    {result : Except IrohError (List ManifestEntry)} (he : fetchManifest result = .error e) :
    (manifestReaction destDir throws result { x with manifest := .seen result }).Refused e := by
  have hseen : ({ x with manifest := .seen result } : CollectionRun φ).Childless :=
    { h.childless with }
  simp only [manifestReaction, he]
  exact hseen.refused h.outcome e

/-! ## The loop -/

/-- A transfer is made and queued.  It has dispatched nothing. -/
theorem silent_download (throws : ℕ → Option IrohError) (run : DownloadsRun φ) :
    (run.after (.download false throws)).downloads.Has TransferController.Silent
      run.downloads.transfers.length := by
  refine Downloads.silent_lasting.pump ?_ throws _
  exact ⟨.new, by simp, rfl, rfl⟩

/-- What the loop makes of entries whose tickets are all well shaped: a child for each, in
the order of the entries, which have dispatched nothing. -/
theorem startChildren_shaped (destDir : JsString) (throws : ℕ → Option IrohError)
    {entries : List ManifestEntry} (hshaped : Manifest.TicketsShaped entries)
    (x : CollectionRun φ) :
    ∃ run ks created, startChildren destDir throws entries x =
        ({ x with
          run
          collection := { x.collection with
            fileStates := x.collection.fileStates ++ entries.map fun entry =>
              { name := entry.name }
            children := x.collection.children ++ ks }
          created }, true) ∧
      ks.length = entries.length ∧ ks.Nodup ∧
      (∀ k ∈ ks, x.run.downloads.transfers.length ≤ k ∧
        run.downloads.Has TransferController.Silent k) ∧
      ∀ k, x.run.downloads.Has TransferController.Silent k →
        run.downloads.Has TransferController.Silent k := by
  induction entries generalizing x with
  | nil =>
      refine ⟨x.run, [], x.created, ?_, rfl, List.nodup_nil, nofun, fun _ h => h⟩
      simp [startChildren]
  | cons entry rest ih =>
      have hticket := hshaped entry (List.mem_cons_self ..)
      have hsilent := silent_download throws x.run
      obtain ⟨run, ks, created, hloop, hlength, hnodup, hks, hkeep⟩ :=
        ih (fun entry hentry => hshaped entry (List.mem_cons_of_mem _ hentry))
          { x with
            run := x.run.after (.download false throws)
            collection := { x.collection with
              fileStates := x.collection.fileStates ++ [{ name := entry.name }]
              children := x.collection.children ++ [x.run.downloads.transfers.length] }
            created := x.created ++ [⟨x.run.downloads.transfers.length, entry.ticket,
              Manifest.childPath destDir entry.name⟩] }
      have hlt : x.run.downloads.transfers.length <
          (x.run.after (.download false throws)).downloads.transfers.length := by
        obtain ⟨t, ht, -⟩ := hsilent
        exact (List.getElem?_eq_some_iff.mp ht).1
      refine ⟨run, x.run.downloads.transfers.length :: ks, created, ?_, ?_, ?_, ?_, ?_⟩
      · simp only [startChildren, startChild, hticket, Except.map]
        rw [hloop]
        simp
      · rw [List.length_cons, hlength, List.length_cons]
      · refine List.nodup_cons.mpr ⟨fun hmem => ?_, hnodup⟩
        exact absurd (hks _ hmem).1 (Nat.not_le.mpr hlt)
      · intro k hk
        rcases List.mem_cons.mp hk with rfl | hk
        · exact ⟨le_rfl, hkeep _ hsilent⟩
        · exact ⟨hlt.le.trans (hks k hk).1, (hks k hk).2⟩
      · intro k hk
        refine hkeep k (Downloads.silent_lasting.handle hk (.download false throws) ?_)
        intro e' he'
        cases he'

/-- The children that were just made have told nothing, and no reaction has run. -/
structure Begun (entries : List ManifestEntry) (x : CollectionRun φ) : Prop where
  tracks : x.Tracks
  length : x.collection.children.length = entries.length
  told : ∀ k ∈ x.collection.children, x.told k = []
  reacted : x.reacted = []
  pushed : x.collection.hub.watchable.pushed = []

/-- With well shaped tickets the loop of `begin` makes a child for each entry. -/
theorem Fresh.begun (h : x.Fresh) (destDir : JsString) (throws : ℕ → Option IrohError)
    {entries : List ManifestEntry} (hshaped : Manifest.TicketsShaped entries) :
    ∃ z : CollectionRun φ, z.Begun entries ∧ z.collection.hub = x.collection.hub ∧
      ({ x with manifest := .seen (.ok entries) } : CollectionRun φ).onManifest destDir throws
        entries = { z with collection := z.collection.checkAllDone } := by
  obtain ⟨run, ks, created, hloop, hlength, hnodup, hks, -⟩ := startChildren_shaped destDir throws
    hshaped { x with manifest := .seen (.ok entries) }
  have hnotold : ∀ k ∈ ks, ({ x with run } : CollectionRun φ).told k = [] := by
    intro k hk
    obtain ⟨t, ht, hsilent⟩ := (hks k hk).2
    simp [told, ht, hsilent.told]
  simp only [h.childless.fileStates, h.childless.children, List.nil_append] at hloop
  refine ⟨{ x with
      run
      manifest := .seen (.ok entries)
      collection := { x.collection with
        fileStates := entries.map fun entry => { name := entry.name }
        children := ks
        childrenStarted := true }
      created }, ⟨⟨rfl, ⟨entries, rfl, hlength⟩, h.childless.hub, hnodup, ?_, ?_, ?_, ?_⟩,
    hlength, hnotold, h.childless.reacted, h.childless.pushed⟩, rfl, ?_⟩
  · exact fun k hk => (hks k hk).2.imp fun t ht => ⟨ht.1, ht.2.ends⟩
  · intro k hk
    rw [h.childless.reacted] at hk
    cases hk
  · have hzero : ks.map ({ x with run } : CollectionRun φ).latest = ks.map fun _ => 0 :=
      List.map_congr_left fun k hk => by rw [latest, hnotold k hk]; rfl
    simp only [List.map_map, Function.comp_def]
    refine Eq.trans ?_ hzero.symm
    simp [List.map_const', hlength]
  · have hnone : ∀ z : CollectionRun φ, z.reacted = [] →
        ks.map z.succeeded = ks.map fun _ => false := fun z hz =>
      List.map_congr_left fun k _ => not_succeeded_of_fresh (by simp [hz])
    refine Eq.trans ?_ (hnone _ (by exact h.childless.reacted)).symm
    simp [Function.comp_def, List.map_const', hlength]
  · have hs := h.isSettled
    simp only [onManifest, h.cancelRequested, hs, Bool.or_self, Bool.false_eq_true, if_false, hloop]

omit [DecidableEq φ] in
/-- The children are started, and an empty collection is complete at once. -/
theorem Begun.judged {entries : List ManifestEntry} (h : x.Begun entries)
    (hn : x.collection.hub.outcome = none) :
    ({ x with collection := x.collection.checkAllDone } : CollectionRun φ).Begun entries ∧
      ({ x with collection := x.collection.checkAllDone } : CollectionRun φ).Judged := by
  have hall := h.tracks.all_done
  have herrors : x.errors = [] := by simp [errors, h.reacted]
  have htotal : x.collection.total = 0 := by
    have hzero : x.collection.children.map x.latest = x.collection.children.map fun _ => 0 :=
      List.map_congr_left fun k hk => by rw [latest, h.told k hk]; rfl
    rw [h.tracks.total, hzero]
    simp
  rw [CollectionTransfer.checkAllDone_eq h.tracks.started, hall]
  have hpushed := (ProgressHub.settle_ite_pushed (x.collection.children.all x.succeeded)
    x.collection.hub).trans h.pushed
  have hends : (if x.collection.children.all x.succeeded then x.collection.hub.settle none
      else x.collection.hub).Ends := by
    split
    · exact h.tracks.hub.settle none
    · exact h.tracks.hub
  refine ⟨⟨h.tracks.tell hends, h.length, h.told, h.reacted, hpushed⟩, ?_, fun he => ?_,
    fun _ => Or.inr ⟨hpushed, htotal, h.reacted⟩, fun _ => ?_⟩
  · refine Eq.trans ?_ (verdict_of_none herrors).symm
    dsimp only
    split
    · rw [ProgressHub.settle_outcome, hn]
      rfl
    · exact hn
  · exact absurd herrors he
  · rw [ProgressHub.told, hpushed]
    refine ⟨List.Pairwise.nil, fun b hb => ?_⟩
    cases hb

/-- A new collection is fresh, whatever other downloads there are. -/
theorem fresh_of_init {cap : DownloadCap} {destDir : JsString}
    (hx : (collectionMachine φ cap destDir).init x) : x.Fresh ∧ x.manifest = .pending := by
  obtain ⟨run, ticket, -, hx⟩ := hx
  unfold downloadCollection at hx
  cases hticket : Manifest.validateTicketShape ticket with
  | error e => simp [hticket, Except.map] at hx
  | ok ticket =>
      obtain rfl : { run } = x := by simpa [hticket, Except.map] using hx
      refine ⟨⟨⟨rfl, rfl, rfl, rfl, rfl, rfl, rfl⟩, fun _ hseen => ?_, rfl, rfl⟩, rfl⟩
      cases hseen

theorem manifestReaction_manifest (destDir : JsString) (throws : ℕ → Option IrohError)
    (result : Except IrohError (List ManifestEntry)) (x : CollectionRun φ) :
    (manifestReaction destDir throws result x).manifest = x.manifest := by
  unfold manifestReaction
  split
  · exact (onManifest_created destDir throws _ x).1
  · rfl

/-- `begin` goes on with a manifest that is accepted. -/
theorem Fresh.start (h : x.Fresh) (destDir : JsString) (throws : ℕ → Option IrohError)
    {entries : List ManifestEntry} (hcheck : Manifest.checkEntries entries = .ok ())
    (hshaped : Manifest.TicketsShaped entries) :
    (manifestReaction destDir throws (.ok entries)
        { x with manifest := .seen (.ok entries) }).Begun entries ∧
      (manifestReaction destDir throws (.ok entries)
        { x with manifest := .seen (.ok entries) }).Judged := by
  obtain ⟨z, hbegun, hhub, heq⟩ := h.begun destDir throws hshaped
  simp only [manifestReaction, fetchManifest, hcheck, Except.map, heq]
  exact hbegun.judged (by rw [hhub, h.outcome])

end CollectionRun

end Iroh
