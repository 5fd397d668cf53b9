import ReactNativeIroh.Ts.CollectionChildren

/-!
# The steps of a collection

Once the children of a collection are started, a step of its run is one of four moves, by
what the collection hears.  `Advances` says what each of them does.
-/

namespace Iroh

open JsString Transition

namespace CollectionTransfer

variable {φ : Type*} {c : CollectionTransfer φ}

theorem recomputeAggregate_eq (hends : c.hub.Ends) :
    c.recomputeAggregate = { c with hub := c.hub.dispatch { bytesReceived := c.total } } := by
  unfold recomputeAggregate
  split
  · next hs => rw [hends.dispatch_settled hs]
  · rfl

/-- A hub that is settled stays as it is when it is settled again. -/
theorem checkAllDone_eq (hstarted : c.childrenStarted = true) :
    c.checkAllDone = { c with
      hub := if c.fileStates.all FileProgress.done then c.hub.settle none else c.hub } := by
  unfold checkAllDone
  cases hs : c.isSettled with
  | true =>
      have hsame : c.hub.settle none = c.hub := ProgressHub.settle_settled hs none
      simp [hsame]
  | false =>
      rw [if_neg (by simp [hstarted])]
      split
      · rfl
      · rfl

theorem recomputeAggregate_checkAllDone (hends : c.hub.Ends)
    (hstarted : c.childrenStarted = true) : c.recomputeAggregate.checkAllDone =
      let hub := c.hub.dispatch { bytesReceived := c.total }
      { c with hub := if c.fileStates.all FileProgress.done then hub.settle none else hub } := by
  rw [recomputeAggregate_eq hends]
  exact checkAllDone_eq hstarted

end CollectionTransfer

namespace DownloadsRun

variable {φ : Type*} [DecidableEq φ]

theorem quiet_foldl_cancel (ks js : List ℕ) (run : DownloadsRun φ) :
    Downloads.Quiet ks run.downloads
      (js.foldl (fun run k => run.after (.transfer k .cancel)) run).downloads := by
  refine List.foldlRecOn
    (motive := fun run' : DownloadsRun φ => Downloads.Quiet ks run.downloads run'.downloads)
    js _ (.refl ks run.downloads) fun run' hrun k _ => ?_
  refine hrun.trans (.handle (e := .transfer k .cancel) fun j _ bytesReceived he => ?_)
  cases he

theorem stopped_foldl_cancel {ks : List ℕ} {run : DownloadsRun φ}
    (h : ∀ k ∈ ks, ∃ t, run.downloads.transfers[k]? = some t) :
    ∀ k ∈ ks, (ks.foldl (fun run k => run.after (.transfer k .cancel)) run).downloads.Has
      TransferController.Stopped k := by
  induction ks generalizing run with
  | nil => exact nofun
  | cons j ks ih =>
      intro k hk
      by_cases hkj : k = j
      · subst hkj
        -- it is cancelled now, and stays so while the others are
        obtain ⟨t, ht⟩ := h k hk
        have hself : (run.after (.transfer k .cancel)).downloads.Has
            TransferController.Stopped k :=
          Downloads.Has.apply_self (P := fun _ => True) ⟨t, ht, trivial⟩ fun u w _ =>
            TransferController.cancel_stopped u w
        exact (quiet_foldl_cancel [k] ks _).has (List.mem_singleton_self k) hself
          fun _ _ hquiet => hquiet.stopped
      · refine ih (fun i hi => ?_) k ((List.mem_cons.mp hk).resolve_left hkj)
        obtain ⟨t, ht⟩ := h i (List.mem_cons_of_mem j hi)
        obtain ⟨t', ht', -⟩ := (quiet_foldl_cancel [i] [j] run) i (List.mem_singleton_self i) t ht
        exact ⟨t', ht'⟩

end DownloadsRun

namespace CollectionRun

variable {φ : Type*} {x y : CollectionRun φ} {k : ℕ}

/-- What the collection hears in one step: nothing, the progress of a child, or the
outcome of one.  The aggregate is dispatched, and an error cancels every child. -/
inductive Move (x y : CollectionRun φ) : Prop where
  | quiet (hub : y.collection.hub = x.collection.hub) (reacted : y.reacted = x.reacted)
      (told : ∀ k ∈ x.collection.children, y.told k = x.told k)
  | progress (k bytesReceived : ℕ) (child : k ∈ x.collection.children)
      (unsettled : x.outcome? k = none)
      (hub : y.collection.hub =
        x.collection.hub.dispatch { bytesReceived := y.collection.total })
      (reacted : y.reacted = x.reacted) (self : y.told k = x.told k ++ [bytesReceived])
      (other : ∀ j, j ≠ k → y.told j = x.told j)
  | succeeded (k : ℕ) (child : k ∈ x.collection.children) (fresh : k ∉ x.reacted)
      (hub : y.collection.hub =
        let hub := x.collection.hub.dispatch { bytesReceived := y.collection.total }
        if y.collection.children.all y.succeeded then hub.settle none else hub)
      (reacted : y.reacted = x.reacted ++ [k]) (outcome : y.outcome? k = some none)
      (told : ∀ k ∈ x.collection.children, y.told k = x.told k)
  | failed (k : ℕ) (e : IrohError) (child : k ∈ x.collection.children) (fresh : k ∉ x.reacted)
      (hub : y.collection.hub = x.collection.hub.settle (some e))
      (reacted : y.reacted = x.reacted ++ [k]) (outcome : y.outcome? k = some (some e))
      (told : ∀ k ∈ x.collection.children, y.told k = x.told k)
      (stopped : x.collection.isSettled = false → ∀ k ∈ y.collection.children,
        y.run.downloads.Has TransferController.Stopped k)

/-- The children stay, what they were settled with stays, and what was cancelled stays so. -/
structure Advances (x y : CollectionRun φ) : Prop where
  children : y.collection.children = x.collection.children
  outcome : ∀ k ∈ x.collection.children, ∀ r, x.outcome? k = some r → y.outcome? k = some r
  stopped : ∀ k ∈ x.collection.children, x.run.downloads.Has TransferController.Stopped k →
    y.run.downloads.Has TransferController.Stopped k
  move : x.Move y

namespace Tracks

theorem advances_of_quiet (h : x.Tracks) (hq : x.Quiet y) : x.Advances y where
  children := hq.children
  outcome k hk _ hr := h.outcome_quiet hq hk hr
  stopped k hk hs := hq.run.has hk hs fun _ _ hquiet => hquiet.stopped
  move := by
    obtain ⟨cancelRequested, hc⟩ := hq.collection
    exact .quiet (by rw [hc]) hq.reacted fun k hk => h.told_quiet hq hk

/-- The listener of the collection runs with the progress of a child. -/
theorem childProgress (h : x.Tracks) (hk : k ∈ x.collection.children)
    (hunsettled : x.outcome? k = none) {bytesReceived : ℕ} {run : DownloadsRun φ}
    (hd : Dispatches k bytesReceived x run) :
    ({ x with run, collection := x.collection.childProgress k bytesReceived } :
        CollectionRun φ).Tracks ∧
      x.Advances { x with run, collection := x.collection.childProgress k bytesReceived } := by
  obtain ⟨i, hi⟩ : ∃ i, x.collection.children.idxOf? k = some i :=
    Option.isSome_iff_exists.mp (by simpa using hk)
  have htracks := h.progress hi hd
  have hprogress : x.collection.childProgress k bytesReceived = { x.collection with
      fileStates := x.collection.fileStates.modify i fun file => { file with bytesReceived }
      hub := x.collection.hub.dispatch { bytesReceived := { x.collection with
        fileStates := x.collection.fileStates.modify i fun file =>
          { file with bytesReceived } }.total } } := by
    simp only [CollectionTransfer.childProgress, hi]
    exact CollectionTransfer.recomputeAggregate_eq h.hub
  rw [hprogress]
  refine ⟨htracks.tell (h.hub.dispatch _), rfl, fun j _ r hr => (hd.outcome j).trans hr,
    fun j _ hs => hd.has hs fun _ hstopped => hstopped, ?_⟩
  exact .progress k bytesReceived hk hunsettled rfl rfl hd.told_self fun j hj => hd.told_other hj

/-- The reaction to the success of a child runs. -/
theorem childSucceeded (h : x.Tracks) (hk : k ∈ x.collection.children) (hfresh : k ∉ x.reacted)
    (houtcome : x.outcome? k = some none) :
    ({ x with
        reacted := x.reacted ++ [k]
        collection := x.collection.childSucceeded k } : CollectionRun φ).Tracks ∧
      x.Advances { x with
        reacted := x.reacted ++ [k]
        collection := x.collection.childSucceeded k } := by
  obtain ⟨i, hi⟩ : ∃ i, x.collection.children.idxOf? k = some i :=
    Option.isSome_iff_exists.mp (by simpa using hk)
  have htracks := h.react_ok hi hk houtcome
  have hsucceeded : x.collection.childSucceeded k =
      let c : CollectionTransfer φ := { x.collection with
        fileStates := x.collection.fileStates.modify i fun file => { file with done := true } }
      let hub := c.hub.dispatch { bytesReceived := c.total }
      { c with hub := if c.fileStates.all FileProgress.done then hub.settle none else hub } := by
    simp only [CollectionTransfer.childSucceeded, hi]
    exact CollectionTransfer.recomputeAggregate_checkAllDone h.hub h.started
  have hall := htracks.all_done
  rw [hsucceeded]
  dsimp only at hall ⊢
  rw [hall]
  refine ⟨htracks.tell ?_, rfl, fun _ _ _ hr => hr, fun _ _ hs => hs, ?_⟩
  · split
    · exact (h.hub.dispatch _).settle none
    · exact h.hub.dispatch _
  · exact .succeeded k hk hfresh rfl rfl houtcome fun _ _ => rfl

variable [DecidableEq φ]

/-! ## The cancellation of the children -/

theorem quiet_cancelChildren (x : CollectionRun φ) : x.Quiet x.cancelChildren :=
  .of_run (DownloadsRun.quiet_foldl_cancel _ _ _)

theorem stopped_cancelChildren (h : x.Tracks) :
    ∀ k ∈ x.collection.children,
      x.cancelChildren.run.downloads.Has TransferController.Stopped k :=
  DownloadsRun.stopped_foldl_cancel fun _ hk => (h.has hk).imp fun _ ht => ht.1

theorem cancel (h : x.Tracks) : x.Quiet x.cancel := by
  unfold CollectionRun.cancel
  cases hs : x.collection.isSettled with
  | true => exact .refl x
  | false =>
      simp only [Bool.false_eq_true, if_false]
      split
      · exact ⟨DownloadsRun.quiet_foldl_cancel _ _ _, ⟨true, rfl⟩, rfl, rfl⟩
      · next hn => exact absurd h.started hn

/-- The reaction to the failure of a child runs. -/
theorem onChildError (h : x.Tracks) (hk : k ∈ x.collection.children) (hfresh : k ∉ x.reacted)
    {e : IrohError} (houtcome : x.outcome? k = some (some e)) :
    (({ x with reacted := x.reacted ++ [k] } : CollectionRun φ).onChildError e).Tracks ∧
      x.Advances (({ x with reacted := x.reacted ++ [k] } : CollectionRun φ).onChildError e) := by
  have htracks := h.react_error hk hfresh houtcome
  unfold CollectionRun.onChildError
  split
  · next hs =>
      have hsame : x.collection.hub.settle (some e) = x.collection.hub :=
        ProgressHub.settle_settled hs (some e)
      refine ⟨htracks, rfl, fun _ _ _ hr => hr, fun _ _ hs => hs, ?_⟩
      exact .failed k e hk hfresh hsame.symm rfl houtcome (fun _ _ => rfl) fun hn =>
        absurd hs (by rw [hn]; exact Bool.false_ne_true)
  · have hquiet := quiet_cancelChildren ({ x with reacted := x.reacted ++ [k] } : CollectionRun φ)
    have hadvances := htracks.advances_of_quiet hquiet
    refine ⟨(htracks.quiet hquiet).tell (h.hub.settle (some e)), rfl, hadvances.outcome,
      hadvances.stopped, ?_⟩
    exact .failed k e hk hfresh rfl rfl (hadvances.outcome k hk _ houtcome)
      (fun j hj => (htracks.told_quiet hquiet hj :)) fun _ => stopped_cancelChildren htracks

/-- Something happens to the downloads, which the collection hears when it is the progress
of a child that is not settled. -/
theorem event (h : x.Tracks) (e : DownloadEvent φ) :
    (observe x e { x with run := x.run.after e }).Tracks ∧
      x.Advances (observe x e { x with run := x.run.after e }) := by
  by_cases hprogress : ∃ k bytesReceived, e = .transfer k (.onProgress bytesReceived) ∧
      k ∈ x.collection.children ∧ x.outcome? k = none
  · obtain ⟨k, bytesReceived, rfl, hk, hunsettled⟩ := hprogress
    obtain ⟨t, ht, hends⟩ := h.has hk
    have hd : Dispatches k bytesReceived x
        (x.run.after (.transfer k (.onProgress bytesReceived))) := by
      refine ⟨t, ht, hends, ?_, ?_⟩
      · rw [ProgressHub.isSettled_eq]
        simpa [outcome?, ht] using hunsettled
      · simp [DownloadsRun.after, Downloads.handle, Downloads.apply, ht,
          TransferController.handle]
    simp only [observe, hunsettled, if_true]
    exact h.childProgress hk hunsettled hd
  · have hsame : observe x e { x with run := x.run.after e } = { x with run := x.run.after e } := by
      unfold observe
      split
      · next k bytesReceived =>
          split
          · next hunsettled =>
              have hk : x.collection.children.idxOf? k = none :=
                List.idxOf?_eq_none_iff.mpr fun hk =>
                  hprogress ⟨k, bytesReceived, rfl, hk, hunsettled⟩
              simp [CollectionTransfer.childProgress, hk]
          · rfl
      · rfl
    have hquiet : x.Quiet { x with run := x.run.after e } :=
      .of_run (.handle fun k hk bytesReceived he => by
        obtain ⟨t, ht, hends⟩ := h.has hk
        refine ⟨t, ht, ?_, hends⟩
        have hsettled : x.outcome? k ≠ none := fun hn =>
          hprogress ⟨k, bytesReceived, he, hk, hn⟩
        rw [TransferController.isSettled_iff]
        exact Option.ne_none_iff_exists'.mp (by simpa [outcome?, ht] using hsettled))
    rw [hsame]
    exact ⟨h.quiet hquiet, h.advances_of_quiet hquiet⟩

/-- Once the children are started, their files stay in agreement with them, and every step
is one of the moves. -/
theorem step {destDir : JsString} {a : CollectionAction φ} (h : x.Tracks)
    (hy : CollectionRun.step destDir x a = some y) : y.Tracks ∧ x.Advances y := by
  have hquiet : x.Quiet y → y.Tracks ∧ x.Advances y := fun hq =>
    ⟨h.quiet hq, h.advances_of_quiet hq⟩
  obtain ⟨entries, hseen, -⟩ := h.manifest
  cases a with
  | manifest result => simp [CollectionRun.step, hseen] at hy
  | manifestReaction throws => simp [CollectionRun.step, hseen] at hy
  | cancel =>
      obtain rfl := Option.some.inj hy
      exact hquiet h.cancel
  | childDone k =>
      simp only [CollectionRun.step, Option.ite_none_right_eq_some, Option.map_eq_some_iff] at hy
      obtain ⟨⟨hk, hfresh⟩, outcome, houtcome, rfl⟩ := hy
      cases outcome with
      | none => exact h.childSucceeded hk hfresh houtcome
      | some e => exact h.onChildError hk hfresh houtcome
  | event e =>
      obtain ⟨run, hrun, rfl⟩ := Option.map_eq_some_iff.mp hy
      obtain ⟨-, rfl⟩ : _ ∧ x.run.after e = run := by simpa [DownloadsRun.step] using hrun
      exact h.event e
  | close =>
      simp only [CollectionRun.step] at hy
      obtain ⟨run, hrun, rfl⟩ := Option.map_eq_some_iff.mp hy
      obtain rfl := Option.some.inj hrun
      exact hquiet (.of_run (.cancelQueued _ _))

end Tracks

end CollectionRun

end Iroh
