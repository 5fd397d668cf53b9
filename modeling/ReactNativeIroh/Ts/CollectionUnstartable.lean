import ReactNativeIroh.Ts.CollectionLaw

/-!
# A child that cannot be started

`createDownload` throws when a ticket has not the shape of one.  The loop of `begin` calls it
from the handler of the manifest promise, which catches nothing: the loop ends, and the
collection neither settles nor cancels the children it has made.  `failsTogether_iff` says
when a child that cannot be started fails the whole collection.
-/

namespace Iroh

open JsString Transition

/-- The error `createDownload` throws for the first entry whose ticket it refuses. -/
def Manifest.unstartable : List ManifestEntry → Option IrohError
  | [] => none
  | entry :: rest =>
      match Manifest.validateTicketShape entry.ticket with
      | .error e => some e
      | .ok _ => unstartable rest
termination_by structural entries => entries

theorem Manifest.validateTicketShape_eq {ticket validated : JsString}
    (h : Manifest.validateTicketShape ticket = .ok validated) : validated = ticket := by
  unfold Manifest.validateTicketShape at h
  split at h
  · exact (Except.ok.inj h).symm
  · cases h

theorem Manifest.unstartable_eq_none_iff {entries : List ManifestEntry} :
    Manifest.unstartable entries = none ↔ Manifest.TicketsShaped entries := by
  induction entries with
  | nil => exact iff_of_true rfl nofun
  | cons entry rest ih =>
      rw [Manifest.TicketsShaped, List.forall_mem_cons, Manifest.unstartable]
      cases hticket : Manifest.validateTicketShape entry.ticket with
      | error e => simp
      | ok ticket =>
          obtain rfl := Manifest.validateTicketShape_eq hticket
          simpa [Manifest.TicketsShaped] using ih

namespace CollectionRun

variable {φ : Type*} [DecidableEq φ] {x y : CollectionRun φ} {cap : DownloadCap}
  {destDir : JsString}

/-- A child that cannot be started fails the collection, where `x` is the state in which
`begin` sees the entries and `y` the one after. -/
structure FailsTogether (cap : DownloadCap) (destDir : JsString) (entries : List ManifestEntry)
    (x y : CollectionRun φ) : Prop where
  /-- When the loop ends early, the collection rejects with the error that ended it, and
  every child it has made is cancelled. -/
  rejects : x.collection.isSettled = false → Manifest.checkEntries entries = .ok () →
    ∀ e, Manifest.unstartable entries = some e →
      y.collection.hub.outcome = some (some e) ∧ ∀ k ∈ y.collection.children,
        y.run.downloads.Has TransferController.Stopped k
  /-- The collection is never left unsettled. -/
  settles : ∀ z, (collectionMachine φ cap destDir).Leads Any y z → z.Quiescent →
    z.collection.isSettled = true

/-! ## Before the manifest arrives -/

/-- Until its manifest arrives a collection is fresh, or was cancelled. -/
theorem unseen_invariant (cap : DownloadCap) (destDir : JsString) :
    (collectionMachine φ cap destDir).Invariant Any
      fun x => x.Unseen → x.Fresh ∨ x.Refused cancelledCollection where
  init _ hx _ := Or.inl (fresh_of_init hx).1
  step x a y hx _ hy hunseen := by
    rcases hx (hunseen.of_step hy) with hfresh | hrefused
    · rcases hfresh.step hy with ⟨hfresh', -⟩ | hrefused | ⟨throws, result, -, rfl⟩
      · exact Or.inl hfresh'
      · exact Or.inr hrefused
      · exact absurd (manifestReaction_manifest destDir throws result _) (hunseen result)
    · exact Or.inr (hrefused.idles (hrefused.step hy))

/-! ## The loop -/

/-- The loop ends early at a ticket that is refused, and settles nothing. -/
theorem startChildren_hub (destDir : JsString) (throws : ℕ → Option IrohError)
    (entries : List ManifestEntry) (x : CollectionRun φ) :
    (startChildren destDir throws entries x).2 = (Manifest.unstartable entries).isNone ∧
      (startChildren destDir throws entries x).1.collection.hub = x.collection.hub := by
  induction entries generalizing x with
  | nil => exact ⟨rfl, rfl⟩
  | cons entry rest ih =>
      simp only [startChildren, startChild, Manifest.unstartable]
      cases Manifest.validateTicketShape entry.ticket with
      | error e => exact ⟨rfl, rfl⟩
      | ok ticket => exact ih _

/-- With a ticket that is refused the collection is not settled. -/
theorem Fresh.unstartable (h : x.Fresh) (destDir : JsString) (throws : ℕ → Option IrohError)
    {entries : List ManifestEntry} {e : IrohError} (he : Manifest.unstartable entries = some e) :
    (({ x with manifest := .seen (.ok entries) } : CollectionRun φ).onManifest destDir throws
      entries).collection.hub.outcome = none := by
  obtain ⟨hended, hhub⟩ := startChildren_hub destDir throws entries
    { x with manifest := .seen (.ok entries) }
  rw [he] at hended
  have hs := h.isSettled
  simp only [onManifest, h.cancelRequested, hs, Bool.or_self, Bool.false_eq_true, if_false]
  split
  · next z hz =>
      rw [hz] at hhub
      exact hhub ▸ h.outcome
  · next z hz =>
      rw [hz] at hended
      cases hended

/-! ## Afterwards -/

/-- A collection whose children were all started is settled once they are. -/
theorem Tracks.settles (hx : x.Tracks) (hj : x.Judged)
    (hy : (collectionMachine φ cap destDir).Leads Any x y) (hq : y.Quiescent) :
    y.collection.isSettled = true := by
  have hboth : y.Tracks ∧ y.Judged := by
    refine hy.keeps (I := fun y => y.Tracks ∧ y.Judged) ?_ ⟨hx, hj⟩
    intro x a y hx _ hstep
    obtain ⟨hy, ha⟩ := hx.1.step hstep
    exact ⟨hy, hx.2.advances hx.1 hy ha⟩
  exact (Phase.started hboth.1 hboth.2).isSettled hq

/-- A child that cannot be started fails the collection exactly when there is none: the
collection was settled before, no child was to be started, or all of them are. -/
theorem failsTogether_iff {throws : ℕ → Option IrohError} {entries : List ManifestEntry}
    (hx : (collectionMachine φ cap destDir).Reachable Any x)
    (hm : x.manifest = .settled (.ok entries))
    (hy : x.step destDir (.manifestReaction throws) = some y) :
    FailsTogether cap destDir entries x y ↔
      x.collection.isSettled = true ∨ Manifest.checkEntries entries ≠ .ok () ∨
        Manifest.unstartable entries = none := by
  have hunseen : x.Unseen := by
    intro result hseen
    rw [hm] at hseen
    cases hseen
  simp only [CollectionRun.step, hm, Option.some.injEq] at hy
  subst hy
  constructor
  · intro h
    by_contra hnot
    push Not at hnot
    obtain ⟨hs, hcheck, hthrows⟩ := hnot
    obtain ⟨e, he⟩ := Option.ne_none_iff_exists'.mp hthrows
    have hfresh := ((unseen_invariant cap destDir).reachable hx hunseen).resolve_right
      fun hrefused => hs hrefused.isSettled
    have hnone := hfresh.unstartable destDir throws he
    have hrejected := (h.rejects hfresh.isSettled hcheck e he).1
    simp only [manifestReaction, fetchManifest, hcheck, Except.map] at hrejected
    cases hnone.symm.trans hrejected
  · intro hcond
    refine ⟨fun hs hcheck e he => ?_, fun z hz hq => ?_⟩
    · rcases hcond with hsettled | hnames | hnone
      · cases hs.symm.trans hsettled
      · exact absurd hcheck hnames
      · cases hnone.symm.trans he
    · rcases (unseen_invariant cap destDir).reachable hx hunseen with hfresh | hrefused
      · cases hfetch : fetchManifest (.ok entries) with
        | error e => exact ((hfresh.reject destDir throws hfetch).leads hz).isSettled
        | ok entries' =>
            obtain ⟨hsame, hcheck⟩ := fetchManifest_ok hfetch
            obtain rfl := Except.ok.inj hsame
            have hnone := (hcond.resolve_left (by simp [hfresh.isSettled])).resolve_left
              fun hnames => hnames hcheck
            obtain ⟨hbegun, hjudged⟩ := hfresh.start destDir throws hcheck
              (Manifest.unstartable_eq_none_iff.mp hnone)
            exact hbegun.tracks.settles hjudged hz hq
      · have hstep : x.step destDir (.manifestReaction throws) = some (manifestReaction destDir
            throws (.ok entries) { x with manifest := .seen (.ok entries) }) := by
          simp only [CollectionRun.step, hm]
        exact ((hrefused.idles (hrefused.step hstep)).leads hz).isSettled

/-- A manifest with these entries has arrived. -/
def arrived (entries : List ManifestEntry) : CollectionRun ℕ :=
  { fresh with manifest := .settled (.ok entries) }

theorem arrived_reachable (entries : List ManifestEntry) :
    (collectionMachine ℕ DownloadsRun.oneSlot (ofText "/dest")).Reachable Any (arrived entries) :=
  Machine.reachable_of_run [.manifest (.ok entries)] (fresh_init _) rfl

/-- Two children that can be started. -/
def startable : List ManifestEntry := [⟨ofText "a", someTicket⟩, ⟨ofText "b", someTicket⟩]

theorem failsTogether_iff_two : Manifest.unstartable startable = none ∧
    ∃ y, (arrived startable).step (ofText "/dest") (.manifestReaction fun _ => none) = some y ∧
      (FailsTogether DownloadsRun.oneSlot (ofText "/dest") startable (arrived startable) y ↔
        (arrived startable).collection.isSettled = true ∨
          Manifest.checkEntries startable ≠ .ok () ∨ Manifest.unstartable startable = none) :=
  ⟨by decide +kernel, _, rfl, failsTogether_iff (arrived_reachable startable) rfl rfl⟩

/-- The ticket of the second child is refused. -/
def half : List ManifestEntry := [⟨ofText "a", someTicket⟩, ⟨ofText "b", ofText "blob"⟩]

/-- The first child is started. -/
def halfStarted : CollectionRun ℕ :=
  ((arrived half).step (ofText "/dest") (.manifestReaction fun _ => none)).getD fresh

/-- It succeeds. -/
def leftBehind : CollectionRun ℕ :=
  ((collectionMachine ℕ DownloadsRun.oneSlot (ofText "/dest")).run halfStarted
    [.event (.transfer 0 (.downloaded none)), .childDone 0]).getD fresh

theorem leftBehind_quiescent : leftBehind.Quiescent := by
  have hchildren : leftBehind.collection.children = [0] := by decide +kernel
  have hreacted : leftBehind.reacted = [0] := by decide +kernel
  have houtcome : leftBehind.outcome? 0 = some none := by decide +kernel
  refine ⟨⟨_, rfl⟩, fun k hk => ?_, fun k hk => ?_⟩
  · rw [hchildren, List.mem_singleton] at hk
    exact ⟨none, hk ▸ houtcome⟩
  · rwa [hchildren, ← hreacted] at hk

/-- Its only child has succeeded, and the collection is not settled. -/
theorem not_failsTogether_half :
    (collectionMachine ℕ DownloadsRun.oneSlot (ofText "/dest")).Reachable Any (arrived half) ∧
      (arrived half).manifest = .settled (.ok half) ∧
      (arrived half).step (ofText "/dest") (.manifestReaction fun _ => none) = some halfStarted ∧
      ¬ FailsTogether DownloadsRun.oneSlot (ofText "/dest") half (arrived half) halfStarted := by
  refine ⟨arrived_reachable half, rfl, rfl, fun h => ?_⟩
  have hleads : (collectionMachine ℕ DownloadsRun.oneSlot (ofText "/dest")).Leads Any halfStarted
      leftBehind :=
    Machine.leads_of_guarded
      (Machine.guarded_any _ [.event (.transfer 0 (.downloaded none)), .childDone 0]) rfl
  exact absurd (h.settles leftBehind hleads leftBehind_quiescent) (by decide +kernel)

end CollectionRun

end Iroh
