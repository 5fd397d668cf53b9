import ReactNativeIroh.Ts.CollectionStart

/-!
# The outcome of a collection

Where the tickets of the manifest are well shaped, a collection is `Fresh`, `Refused`, or
its children are started and it makes of them what they tell: `Phase`.
-/

namespace Iroh

open JsString Transition

namespace CollectionRun

variable {φ : Type*} {x y : CollectionRun φ}

/-- The binding answers with well shaped tickets. -/
def Shaped : CollectionRun φ → CollectionAction φ → Prop
  | _, .manifest (.ok entries) => Manifest.TicketsShaped entries
  | _, _ => True

instance decidableShaped (x : CollectionRun φ) : ∀ a, Decidable (Shaped x a)
  | .manifest (.ok entries) => inferInstanceAs (Decidable (Manifest.TicketsShaped entries))
  | .manifest (.error _) => .isTrue trivial
  | .manifestReaction _ => .isTrue trivial
  | .cancel => .isTrue trivial
  | .childDone _ => .isTrue trivial
  | .event _ => .isTrue trivial
  | .close => .isTrue trivial

/-- How far the collection has come. -/
inductive Phase (x : CollectionRun φ) : Prop where
  | fresh (h : x.Fresh)
      (shaped : ∀ entries, x.manifest = .settled (.ok entries) → Manifest.TicketsShaped entries)
  | refused (e : IrohError) (h : x.Refused e) (early : x.Unseen → e = cancelledCollection)
  | started (tracks : x.Tracks) (judged : x.Judged)

/-- The manifest and all children have settled, and no reaction is pending. -/
structure Quiescent (x : CollectionRun φ) : Prop where
  manifest : ∃ result, x.manifest = .seen result
  children : ∀ k ∈ x.collection.children, ∃ r, x.outcome? k = some r
  reacted : ∀ k ∈ x.collection.children, k ∈ x.reacted

/-- What the collection was settled with stays. -/
theorem Advances.settled (ha : x.Advances y) (r : Option IrohError)
    (hr : x.collection.hub.outcome = some r) : y.collection.hub.outcome = some r := by
  have hsettle : ∀ error, (x.collection.hub.settle error).outcome = some r := by
    intro error
    rw [ProgressHub.settle_outcome, hr]
    rfl
  cases ha.move with
  | quiet hub reacted told => rw [hub, hr]
  | progress k bytesReceived child unsettled hub reacted self other => rw [hub]; exact hr
  | succeeded k child fresh hub reacted outcome told =>
      rw [hub]
      dsimp only
      split
      · exact (ProgressHub.settle_outcome none _).trans (by simp [ProgressHub.dispatch, hr])
      · exact hr
  | failed k e child fresh hub reacted outcome told stopped => rw [hub]; exact hsettle _

namespace Phase

/-- A collection has started its children and goes on as they do, or it has none and has not
succeeded. -/
theorem started_or_childless (h : x.Phase) :
    (x.Tracks ∧ x.Judged) ∨ x.Childless ∧ x.collection.hub.outcome ≠ some none := by
  cases h with
  | fresh h shaped => exact Or.inr ⟨h.childless, by simp [h.outcome]⟩
  | refused e h early => exact Or.inr ⟨h.childless, by simp [h.outcome]⟩
  | started tracks judged => exact Or.inl ⟨tracks, judged⟩

variable [DecidableEq φ] {destDir : JsString} {a : CollectionAction φ}

/-- What one step does, whatever the phase. -/
theorem step (h : x.Phase) (hG : Shaped x a) (hy : CollectionRun.step destDir x a = some y) :
    y.Phase ∧ x.Tells y ∧
      ∀ r, x.collection.hub.outcome = some r → y.collection.hub.outcome = some r := by
  cases h with
  | fresh h shaped =>
      have hnone : ∀ r, x.collection.hub.outcome = some r → y.collection.hub.outcome = some r :=
        fun r hr => by rw [h.outcome] at hr; cases hr
      have hsilent : y.collection.hub.watchable.pushed = [] → x.Tells y := fun hpushed =>
        Or.inl (hpushed.trans h.childless.pushed.symm)
      rcases h.step hy with ⟨hfresh, hm⟩ | hrefused | ⟨throws, result, hm, rfl⟩
      · refine ⟨.fresh hfresh fun entries hentries => ?_, hsilent hfresh.childless.pushed, hnone⟩
        rcases hm with hm | ⟨result, rfl, hm⟩
        · exact shaped entries (hm ▸ hentries)
        · obtain rfl := ManifestPromise.settled.inj (hm.symm.trans hentries)
          exact hG
      · exact ⟨.refused _ hrefused fun _ => rfl, hsilent hrefused.childless.pushed, hnone⟩
      · cases hfetch : fetchManifest result with
        | error e =>
            have hrefused := h.reject destDir throws hfetch
            refine ⟨.refused e hrefused fun hunseen => ?_, hsilent hrefused.childless.pushed, hnone⟩
            exact absurd (manifestReaction_manifest destDir throws result _) (hunseen result)
        | ok entries =>
            obtain ⟨rfl, hcheck⟩ := fetchManifest_ok hfetch
            obtain ⟨hbegun, hjudged⟩ := h.start destDir throws hcheck (shaped entries hm)
            exact ⟨.started hbegun.tracks hjudged, hsilent hbegun.pushed, hnone⟩
  | refused e h early =>
      have hi := h.step hy
      refine ⟨.refused e (h.idles hi) fun hunseen => early (hunseen.of_step hy), Or.inl ?_, ?_⟩
      · rw [hi.collection]
      · rw [hi.collection]
        exact fun _ hr => hr
  | started tracks judged =>
      obtain ⟨hy', ha⟩ := tracks.step hy
      exact ⟨.started hy' (judged.advances tracks hy' ha), tracks.tells ha, ha.settled⟩

theorem invariant (cap : DownloadCap) (destDir : JsString) :
    (collectionMachine φ cap destDir).Invariant Shaped Phase where
  init x hx := by
    obtain ⟨hfresh, hpending⟩ := fresh_of_init hx
    refine .fresh hfresh fun entries hsettled => ?_
    cases hpending.symm.trans hsettled
  step _ _ _ hx hG hy := (hx.step hG hy).1

end Phase

/-! ## What the verdict comes to -/

/-- All reactions brought success, or the errors are not empty. -/
theorem Tracks.errors_eq_nil_iff (h : x.Tracks) :
    x.errors = [] ↔ ∀ k ∈ x.reacted, x.outcome? k = some none := by
  rw [errors, List.filterMap_eq_nil_iff]
  refine forall₂_congr fun k hk => ?_
  obtain ⟨-, r, hr⟩ := h.reacted k hk
  cases r with
  | none => simp [hr]
  | some e => simp [hr]

theorem all_succeeded_iff : x.collection.children.all x.succeeded = true ↔
    ∀ k ∈ x.collection.children, k ∈ x.reacted ∧ x.outcome? k = some none := by
  simp [succeeded, List.all_eq_true]

theorem Tracks.verdict_none_iff (h : x.Tracks) : x.verdict = some none ↔
    ∀ k ∈ x.collection.children, k ∈ x.reacted ∧ x.outcome? k = some none := by
  rw [← all_succeeded_iff]
  cases he : x.errors with
  | nil =>
      rw [verdict_of_none he]
      split
      · next hall => simp [hall]
      · next hall => simp [hall]
  | cons e es =>
      rw [verdict_of_errors he]
      refine iff_of_false (by simp) fun hall => ?_
      have hnil := h.errors_eq_nil_iff.mpr fun k hk =>
        (all_succeeded_iff.mp hall k (h.reacted k hk).1).2
      rw [he] at hnil
      cases hnil

theorem verdict_some_iff {e : IrohError} : x.verdict = some (some e) ↔ x.errors.head? = some e := by
  cases he : x.errors with
  | nil =>
      rw [verdict_of_none he]
      split
      · simp
      · simp
  | cons e' es => simp [verdict_of_errors he]

/-- Once every reaction has run, there is a verdict. -/
theorem Tracks.verdict_quiescent (h : x.Tracks) (hq : x.Quiescent) : x.verdict ≠ none := by
  cases he : x.errors with
  | nil =>
      have hnone := h.verdict_none_iff.mpr fun k hk =>
        ⟨hq.reacted k hk, h.errors_eq_nil_iff.mp he k (hq.reacted k hk)⟩
      simp [hnone]
  | cons e es => simp [verdict_of_errors he]

/-- The files of a collection agree with its children, started or not. -/
theorem Phase.files (h : x.Phase) :
    x.collection.fileStates.map FileProgress.bytesReceived =
      x.collection.children.map x.latest := by
  rcases h.started_or_childless with ⟨tracks, -⟩ | ⟨hchildless, -⟩
  · exact tracks.bytes
  · rw [hchildless.fileStates, hchildless.children]
    rfl

theorem Phase.isSettled (h : x.Phase) (hq : x.Quiescent) : x.collection.isSettled = true := by
  cases h with
  | fresh h shaped =>
      obtain ⟨result, hseen⟩ := hq.manifest
      exact absurd hseen (h.unseen result)
  | refused e h early => exact h.isSettled
  | started tracks judged =>
      rw [CollectionTransfer.isSettled, ProgressHub.isSettled_eq, judged.outcome,
        Option.isSome_iff_ne_none]
      exact tracks.verdict_quiescent hq

/-- The last event of a collection that succeeded is its total. -/
theorem Judged.last (hj : x.Judged) (hx : x.Tracks) (hn : x.collection.hub.outcome = some none)
    (hne : x.collection.children ≠ []) :
    x.collection.hub.watchable.pushed.getLast? = some { bytesReceived := x.collection.total } := by
  have hall := hx.verdict_none_iff.mp (hj.outcome.symm.trans hn)
  have herrors : x.errors = [] := hx.errors_eq_nil_iff.mpr fun k hk =>
    (hall k (hx.reacted k hk).1).2
  refine (hj.upToDate herrors).resolve_right fun hnothing => hne ?_
  refine List.eq_nil_iff_forall_not_mem.mpr fun k hk => ?_
  have hk' := (hall k hk).1
  rw [hnothing.2.2] at hk'
  cases hk'

variable [DecidableEq φ] {cap : DownloadCap} {destDir : JsString}

/-! ## The law -/

/-- What holds of a collection in every state of a run. -/
structure Law (cap : DownloadCap) (destDir : JsString) (x : CollectionRun φ) : Prop where
  /-- `done` settles once. -/
  once : ∀ y, (collectionMachine φ cap destDir).Leads Shaped x y → ∀ r,
    x.collection.hub.outcome = some r → y.collection.hub.outcome = some r
  /-- It has settled when the manifest and all children have, and no reaction is pending. -/
  settled : x.Quiescent → x.collection.isSettled = true
  /-- A collection that is cancelled before its manifest arrives has no child, and rejects. -/
  dropped : x.Unseen → ∀ x', x.step destDir .cancel = some x' →
    ∀ y, (collectionMachine φ cap destDir).Leads Shaped x' y →
      y.created = [] ∧ y.collection.children = [] ∧
        ∃ e, y.collection.hub.outcome = some (some e) ∧ e.code.value = 3003
  /-- Otherwise a child is started for each entry of a manifest whose names are accepted. -/
  starts : x.collection.isSettled = false → ∀ entries, x.manifest = .settled (.ok entries) →
    Manifest.checkEntries entries = .ok () →
      ∀ throws y, x.step destDir (.manifestReaction throws) = some y →
        y.collection.childrenStarted = true ∧ y.collection.children.length = entries.length
  /-- Then it resolves exactly when every child has resolved, and not otherwise. -/
  resolves : x.collection.hub.outcome = some none ↔ x.collection.childrenStarted = true ∧
    ∀ k ∈ x.collection.children, k ∈ x.reacted ∧ x.outcome? k = some none
  /-- It rejects with the first error of a child. -/
  rejects : x.collection.childrenStarted = true → ∀ e,
    x.collection.hub.outcome = some (some e) ↔ x.errors.head? = some e
  /-- Every child of a collection that rejected was cancelled. -/
  stopped : ∀ e, x.collection.hub.outcome = some (some e) → ∀ k ∈ x.collection.children,
    x.run.downloads.Has TransferController.Stopped k
  /-- The files show what the children have told last. -/
  files : x.collection.fileStates.map FileProgress.bytesReceived =
    x.collection.children.map x.latest
  /-- An event is the sum of what the children have told last, and none is dispatched once the
  collection is settled. -/
  aggregate : ∀ a y, Shaped x a → x.step destDir a = some y →
    y.collection.hub.watchable.pushed = x.collection.hub.watchable.pushed ∨
      x.collection.isSettled = false ∧ y.collection.hub.watchable.pushed =
        x.collection.hub.watchable.pushed ++
          [{ bytesReceived := (y.collection.children.map y.latest).sum }]
  /-- The events never go back, where those of the children never do. -/
  monotone : (∀ k ∈ x.collection.children, (x.told k).Pairwise (· ≤ ·)) →
    x.collection.hub.told.Pairwise (· ≤ ·)
  /-- The last event of a collection that succeeded is the sum of the children's last. -/
  last : x.collection.hub.outcome = some none → x.collection.children ≠ [] →
    x.collection.hub.watchable.pushed.getLast? =
      some { bytesReceived := (x.collection.children.map x.latest).sum }

theorem Phase.once (h : x.Phase) (hy : (collectionMachine φ cap destDir).Leads Shaped x y)
    {r : Option IrohError} (hr : x.collection.hub.outcome = some r) :
    y.collection.hub.outcome = some r := by
  have hboth : y.Phase ∧ y.collection.hub.outcome = some r := by
    refine hy.keeps (I := fun y => y.Phase ∧ y.collection.hub.outcome = some r) ?_ ⟨h, hr⟩
    intro x a y hx hG hstep
    obtain ⟨hphase, -, hlater⟩ := hx.1.step hG hstep
    exact ⟨hphase, hlater r hx.2⟩
  exact hboth.2

/-- A collection that is cancelled before its manifest arrives is refused. -/
theorem Phase.cancel (h : x.Phase) (hunseen : x.Unseen) : x.cancel.Refused cancelledCollection := by
  cases h with
  | fresh h shaped => exact h.cancel
  | refused e h early =>
      obtain rfl := early hunseen
      rw [CollectionRun.cancel, if_pos h.isSettled]
      exact h
  | started tracks judged =>
      obtain ⟨entries, hseen, -⟩ := tracks.manifest
      exact absurd hseen (hunseen _)

theorem Refused.leads {G : CollectionRun φ → CollectionAction φ → Prop} {e : IrohError}
    (h : x.Refused e) (hy : (collectionMachine φ cap destDir).Leads G x y) : y.Refused e :=
  hy.keeps (I := Refused e) (fun _ _ _ hx _ hstep => hx.idles (hx.step hstep)) h

theorem Phase.lawful (h : x.Phase) : x.Law cap destDir where
  once _ hy _ hr := h.once hy hr
  settled := h.isSettled
  dropped hunseen x' hx' y hy := by
    obtain rfl := Option.some.inj hx'
    have hrefused := (h.cancel hunseen).leads hy
    exact ⟨hrefused.childless.created, hrefused.childless.children, cancelledCollection,
      hrefused.outcome, rfl⟩
  starts hs entries hm hcheck throws y hy := by
    cases h with
    | fresh h shaped =>
        simp only [CollectionRun.step, hm, Option.some.injEq] at hy
        obtain rfl := hy
        obtain ⟨hbegun, -⟩ := h.start destDir throws hcheck (shaped entries hm)
        exact ⟨hbegun.tracks.started, hbegun.length⟩
    | refused e h early => exact absurd h.isSettled (by simp [hs])
    | started tracks judged =>
        obtain ⟨entries', hseen, -⟩ := tracks.manifest
        cases hseen.symm.trans hm
  resolves := by
    rcases h.started_or_childless with ⟨tracks, judged⟩ | ⟨hchildless, hne⟩
    · rw [judged.outcome, tracks.verdict_none_iff, and_iff_right tracks.started]
    · simp [hne, hchildless.childrenStarted]
  rejects hs e := by
    rcases h.started_or_childless with ⟨-, judged⟩ | ⟨hchildless, -⟩
    · rw [judged.outcome, verdict_some_iff]
    · cases hs.symm.trans hchildless.childrenStarted
  stopped e he k hk := by
    rcases h.started_or_childless with ⟨-, judged⟩ | ⟨hchildless, -⟩
    · have hfirst := verdict_some_iff.mp (judged.outcome.symm.trans he)
      exact judged.stopped (fun hnil => by simp [hnil] at hfirst) k hk
    · simp [hchildless.children] at hk
  files := h.files
  aggregate a y hG hy := by
    obtain ⟨hphase, htells, -⟩ := h.step hG hy
    rwa [Tells, CollectionTransfer.total, hphase.files] at htells
  monotone hsorted := by
    rcases h.started_or_childless with ⟨-, judged⟩ | ⟨hchildless, -⟩
    · exact (judged.monotone hsorted).1
    · simp [ProgressHub.told, hchildless.pushed]
  last hn hne := by
    rcases h.started_or_childless with ⟨tracks, judged⟩ | ⟨hchildless, -⟩
    · exact tracks.total ▸ judged.last tracks hn hne
    · exact absurd hchildless.children hne

/-- Where the tickets of the manifest are well shaped the law holds in every state of every
run. -/
theorem collection_law (hx : (collectionMachine φ cap destDir).Reachable Shaped x) :
    x.Law cap destDir :=
  ((Phase.invariant cap destDir).reachable hx).lawful

/-- The first of two children succeeds after it has told five bytes, and its reaction runs. -/
def firstSucceeds : List (CollectionAction ℕ) :=
  fetched ["a", "b"] ++
    [.event (.transfer 0 (.onProgress 5)), .event (.transfer 0 (.downloaded none)), .childDone 0,
      .event (.reaction 0 fun _ => none)]

/-- The second succeeds, too. -/
def bothSucceed : CollectionRun ℕ :=
  ((collectionMachine ℕ DownloadsRun.oneSlot (ofText "/dest")).run fresh (firstSucceeds ++
    [.event (.transfer 1 (.onProgress 7)), .event (.transfer 1 (.downloaded none)),
      .childDone 1])).getD fresh

/-- The first of two children fails while the second waits in the queue. -/
def firstFails : CollectionRun ℕ :=
  ((collectionMachine ℕ DownloadsRun.oneSlot (ofText "/dest")).run fresh (fetched ["a", "b"] ++
    [.event (.transfer 0 (.downloaded (some ⟨.internal, "lost"⟩))), .childDone 0])).getD fresh

theorem collection_law_two :
    bothSucceed.collection.hub.outcome = some none ∧
      bothSucceed.collection.hub.told = [5, 5, 12, 12] ∧
      bothSucceed.Law DownloadsRun.oneSlot (ofText "/dest") ∧
      firstFails.collection.hub.outcome = some (some ⟨.internal, "lost"⟩) ∧
      firstFails.outcome? 1 = some (some cancelledBeforeStart) ∧
      firstFails.Law DownloadsRun.oneSlot (ofText "/dest") :=
  ⟨by decide +kernel, by decide +kernel,
    collection_law (Machine.reachable_getD_of_guarded (fresh_init _) (by decide +kernel)
      (by decide +kernel) _),
    by decide +kernel, by decide +kernel,
    collection_law (Machine.reachable_getD_of_guarded (fresh_init _) (by decide +kernel)
      (by decide +kernel) _)⟩

end CollectionRun

end Iroh
