import ReactNativeIroh.Ts.Collection

/-!
# The children of a collection

A collection knows its children by what they tell it: the bytes of the last progress event
of each, and whether the reaction to `child.done` has run.  `Tracks` says that its files
agree with the children.

What happens to a child while it tells nothing is `TransferController.Quiet`.
-/

namespace Iroh

open JsString Transition

namespace ProgressHub

variable {φ : Type*} {hub : ProgressHub φ}

/-- The bytes of the events that were dispatched, in order. -/
def told (hub : ProgressHub φ) : List ℕ := hub.watchable.pushed.map ProgressEvent.bytesReceived

/-- The progress ends when the hub is settled. -/
def Ends (hub : ProgressHub φ) : Prop := hub.watchable.closed = hub.isSettled

theorem settle_pushed (error : Option IrohError) (hub : ProgressHub φ) :
    (hub.settle error).watchable.pushed = hub.watchable.pushed := by
  unfold settle
  split
  · rfl
  · exact Watchable.close_pushed error hub.watchable

/-- Whether the hub is settled or not, what was dispatched stays. -/
theorem settle_ite_pushed (p : Bool) (hub : ProgressHub φ) :
    (if p then hub.settle none else hub).watchable.pushed = hub.watchable.pushed := by
  split
  · exact settle_pushed none hub
  · rfl

theorem Ends.settle (h : hub.Ends) (error : Option IrohError) : (hub.settle error).Ends := by
  unfold ProgressHub.settle
  split
  · exact h
  · exact Watchable.close_closed error hub.watchable

theorem Ends.dispatch (h : hub.Ends) (event : ProgressEvent) : (hub.dispatch event).Ends :=
  (Watchable.push_sameClosed hub.watchable event).trans h

theorem Ends.dispatch_settled (h : hub.Ends) (hs : hub.isSettled = true) (event : ProgressEvent) :
    hub.dispatch event = hub := by
  rw [ProgressHub.dispatch, Watchable.push_closed (h.trans hs)]

theorem Ends.dispatch_pushed (h : hub.Ends) (hs : hub.isSettled = false) (event : ProgressEvent) :
    (hub.dispatch event).watchable.pushed = hub.watchable.pushed ++ [event] := by
  obtain ⟨made, he⟩ := Watchable.push_open (h.trans hs) event
  rw [ProgressHub.dispatch, he]

end ProgressHub

namespace TransferController

variable {φ : Type*} {t t' t'' : TransferController φ}

/-- After `cancel()`: the transfer is settled, or was asked to cancel. -/
def Stopped (t : TransferController φ) : Prop := t.isSettled = true ∨ t.cancelRequested = true

/-- A later state of a transfer that has dispatched nothing since. -/
structure Quiet (t t' : TransferController φ) : Prop where
  later : t.Later t'
  pushed : t'.hub.watchable.pushed = t.hub.watchable.pushed
  ends : t.hub.Ends → t'.hub.Ends
  stopped : t.Stopped → t'.Stopped

namespace Quiet

theorem refl (t : TransferController φ) : t.Quiet t := ⟨.refl t, rfl, id, id⟩

theorem trans (h : t.Quiet t') (h' : t'.Quiet t'') : t.Quiet t'' where
  later r hr := h'.later r (h.later r hr)
  pushed := h'.pushed.trans h.pushed
  ends := h'.ends ∘ h.ends
  stopped := h'.stopped ∘ h.stopped

/-- The hub is settled, and nothing else of the hub changes. -/
theorem of_settle (error : Option IrohError) (h : t'.hub = t.hub.settle error) : t.Quiet t' where
  later := later_settle t t' error h
  pushed := by rw [h, ProgressHub.settle_pushed]
  ends he := h ▸ he.settle error
  stopped _ := by
    left
    rw [isSettled, h]
    exact ProgressHub.settle_isSettled error t.hub

/-- The hub stays as it is. -/
theorem of_hub (h : t'.hub = t.hub) (hc : t.cancelRequested = true → t'.cancelRequested = true) :
    t.Quiet t' where
  later _ hr := h ▸ hr
  pushed := by rw [h]
  ends := h ▸ id
  stopped := Or.imp (by rw [isSettled, isSettled, h]; exact id) hc

theorem begin (throws : Option IrohError) (t : TransferController φ) :
    t.Quiet (t.begin throws).1 := by
  simp only [TransferController.begin]
  split
  · exact of_hub rfl id
  · cases throws with
    | none => exact of_hub rfl id
    | some error => exact of_settle (some error) rfl

theorem cancel (t : TransferController φ) (w : List ℕ) :
    t.Quiet (TransferController.cancel Downloads.requestNativeCancel (t, w)).1 := by
  simp only [TransferController.cancel]
  split
  · exact .refl t
  · split
    · split
      · exact of_hub rfl fun _ => rfl
      · exact of_hub rfl fun _ => rfl
    · exact of_settle (some cancelledBeforeStart) rfl

/-- Only a progress event of a transfer that is not settled is dispatched. -/
theorem handle [DecidableEq φ] {e : TransferEvent φ}
    (he : ∀ bytesReceived, e = .onProgress bytesReceived → t.isSettled = true ∧ t.hub.Ends)
    (w : List ℕ) :
    t.Quiet (TransferController.handle Downloads.requestNativeCancel e (t, w)).1 := by
  cases e with
  | cancel => exact Quiet.cancel t w
  | onStart transferId =>
      simp only [TransferController.handle, onStart]
      split
      · exact of_hub rfl id
      · exact of_hub rfl id
  | onProgress bytesReceived =>
      obtain ⟨hs, hends⟩ := he bytesReceived rfl
      exact of_hub (hends.dispatch_settled hs _) id
  | downloaded error => exact of_settle error rfl
  | consumer e =>
      obtain ⟨hclosed, hpushed⟩ := Watchable.consume_still e t.hub.watchable ()
      exact ⟨fun _ hr => hr, hpushed, hclosed.trans, id⟩

theorem isSettled (h : t.Quiet t') (hs : t.isSettled = true) : t'.isSettled = true := by
  obtain ⟨r, hr⟩ := isSettled_iff.mp hs
  exact isSettled_iff.mpr ⟨r, h.later r hr⟩

theorem told (h : t.Quiet t') : t'.hub.told = t.hub.told :=
  congrArg (List.map ProgressEvent.bytesReceived) h.pushed

/-- What is quiet stays so while the queue starts it or it is cancelled. -/
theorem lasting (t : TransferController φ) : Downloads.Lasting t.Quiet where
  begin throws u _ h := h.trans (.begin throws u)
  cancel u w h := h.trans (.cancel u w)

end Quiet

theorem cancel_stopped (t : TransferController φ) (w : List ℕ) :
    (TransferController.cancel Downloads.requestNativeCancel (t, w)).1.Stopped := by
  simp only [TransferController.cancel]
  split
  · left
    assumption
  · split
    · split
      · exact Or.inr rfl
      · exact Or.inr rfl
    · exact Or.inl (ProgressHub.settle_isSettled _ _)

end TransferController

namespace Downloads

variable {φ : Type*} {ks : List ℕ} {d d' d'' : Downloads φ}

/-- These transfers are quiet. -/
def Quiet (ks : List ℕ) (d d' : Downloads φ) : Prop :=
  ∀ k ∈ ks, ∀ t, d.transfers[k]? = some t → d'.Has t.Quiet k

namespace Quiet

theorem refl (ks : List ℕ) (d : Downloads φ) : Quiet ks d d := fun _ _ t ht => ⟨t, ht, .refl t⟩

theorem trans (h : Quiet ks d d') (h' : Quiet ks d' d'') : Quiet ks d d'' := by
  intro k hk t ht
  obtain ⟨t', ht', hquiet⟩ := h k hk t ht
  obtain ⟨t'', ht'', hquiet'⟩ := h' k hk t' ht'
  exact ⟨t'', ht'', hquiet.trans hquiet'⟩

theorem handle [DecidableEq φ] {e : DownloadEvent φ}
    (he : ∀ k ∈ ks, ∀ bytesReceived, e = .transfer k (.onProgress bytesReceived) →
      d.Has (fun t => t.isSettled = true ∧ t.hub.Ends) k) :
    Quiet ks d (Downloads.handle e d) := by
  intro k hk t ht
  refine (TransferController.Quiet.lasting t).handle ⟨t, ht, .refl t⟩ e fun e' he' u w hu => ?_
  refine hu.trans (.handle (fun bytesReceived hb => ?_) w)
  obtain ⟨t', ht', hs, hends⟩ := he k hk bytesReceived (hb ▸ he')
  obtain rfl := Option.some.inj (ht'.symm.trans ht)
  exact ⟨hu.isSettled hs, hu.ends hends⟩

theorem cancelQueued (ks : List ℕ) (d : Downloads φ) : Quiet ks d d.cancelQueued :=
  fun _ _ t ht => (TransferController.Quiet.lasting t).cancelQueued ⟨t, ht, .refl t⟩

/-- What is kept by quiet transfers holds of them. -/
theorem has {P Q : TransferController φ → Prop} {k : ℕ} (h : Quiet ks d d') (hk : k ∈ ks)
    (hP : d.Has P k) (hPQ : ∀ t t', t.Quiet t' → P t → Q t') : d'.Has Q k := by
  obtain ⟨t, ht, hPt⟩ := hP
  obtain ⟨t', ht', hquiet⟩ := h k hk t ht
  exact ⟨t', ht', hPQ t t' hquiet hPt⟩

end Quiet

end Downloads

namespace CollectionTransfer

variable {φ α : Type*} {c : CollectionTransfer φ} {files : List FileProgress} {ks : List ℕ}
  {k i : ℕ} {f : FileProgress → FileProgress} {field : FileProgress → α} {g g' : ℕ → α}

/-- One field of the files is known for each child, and the file of one child is changed. -/
theorem map_modify (hmap : files.map field = ks.map g) (hnodup : ks.Nodup)
    (hi : ks.idxOf? k = some i) (hself : ∀ file, field file = g k → field (f file) = g' k)
    (hother : ∀ j ∈ ks, j ≠ k → g' j = g j) : (files.modify i f).map field = ks.map g' := by
  induction ks generalizing files i with
  | nil => cases hi
  | cons a ks ih =>
      obtain ⟨hna, hnodup⟩ := List.nodup_cons.mp hnodup
      cases files with
      | nil => cases hmap
      | cons file files =>
          obtain ⟨hfile, hmap⟩ := List.cons.inj hmap
          by_cases ha : a = k
          · subst ha
            have hzero : i = 0 := by simpa [List.idxOf?_cons] using hi.symm
            have hrest : ks.map g = ks.map g' := List.map_congr_left fun j hj =>
              (hother j (List.mem_cons_of_mem _ hj) (ne_of_mem_of_not_mem hj hna)).symm
            simp [hzero, hself file hfile, hmap, hrest]
          · obtain ⟨i', hi', rfl⟩ : ∃ i', ks.idxOf? k = some i' ∧ i' + 1 = i := by
              simpa [List.idxOf?_cons, ha] using hi
            have hrest := ih hmap hnodup hi' fun j hj => hother j (List.mem_cons_of_mem _ hj)
            simp [hrest, hfile, hother a (List.mem_cons_self ..) ha]

theorem map_modify_same (files : List FileProgress) (i : ℕ)
    (hsame : ∀ file, field (f file) = field file) :
    (files.modify i f).map field = files.map field := by
  refine List.ext_getElem? fun j => ?_
  by_cases hij : i = j
  · subst hij
    cases h : files[i]? with
    | none => simp [h]
    | some file => simp [h, hsame]
  · simp [hij]

end CollectionTransfer

namespace CollectionRun

variable {φ : Type*} {x y : CollectionRun φ} {k : ℕ}

/-- The bytes of the progress events of a child, in order. -/
def told (x : CollectionRun φ) (k : ℕ) : List ℕ :=
  x.run.downloads.transfers[k]?.elim [] fun t => t.hub.told

/-- Those of the last event, or zero. -/
def latest (x : CollectionRun φ) (k : ℕ) : ℕ := (x.told k).getLastD 0

/-- The child has resolved, and the collection has seen it. -/
def succeeded (x : CollectionRun φ) (k : ℕ) : Bool :=
  decide (k ∈ x.reacted) && decide (x.outcome? k = some none)

theorem succeeded_congr (hreacted : k ∈ y.reacted ↔ k ∈ x.reacted)
    (houtcome : y.outcome? k = x.outcome? k) : y.succeeded k = x.succeeded k := by
  simp [succeeded, hreacted, houtcome]

/-- The children of the collection are those of its manifest, and its files agree with
what they have told it. -/
structure Tracks (x : CollectionRun φ) : Prop where
  started : x.collection.childrenStarted = true
  manifest : ∃ entries, x.manifest = .seen (.ok entries) ∧
    x.collection.children.length = entries.length
  hub : x.collection.hub.Ends
  nodup : x.collection.children.Nodup
  ends : ∀ k ∈ x.collection.children, x.run.downloads.Has (fun t => t.hub.Ends) k
  reacted : ∀ k ∈ x.reacted, k ∈ x.collection.children ∧ ∃ r, x.outcome? k = some r
  bytes : x.collection.fileStates.map FileProgress.bytesReceived =
    x.collection.children.map x.latest
  done : x.collection.fileStates.map FileProgress.done = x.collection.children.map x.succeeded

/-- A transfer that is not settled dispatches a progress event. -/
def Dispatches (k bytesReceived : ℕ) (x : CollectionRun φ) (run : DownloadsRun φ) : Prop :=
  ∃ t, x.run.downloads.transfers[k]? = some t ∧ t.hub.Ends ∧ t.hub.isSettled = false ∧
    run.downloads.transfers =
      x.run.downloads.transfers.set k { t with hub := t.hub.dispatch { bytesReceived } }

namespace Dispatches

variable {bytesReceived : ℕ} {run : DownloadsRun φ}

theorem self (h : Dispatches k bytesReceived x run) :
    ∃ t, x.run.downloads.transfers[k]? = some t ∧ t.hub.Ends ∧ t.hub.isSettled = false ∧
      run.downloads.transfers[k]? = some { t with hub := t.hub.dispatch { bytesReceived } } := by
  obtain ⟨t, ht, hends, hs, hset⟩ := h
  refine ⟨t, ht, hends, hs, ?_⟩
  rw [hset]
  exact List.getElem?_set_self (List.getElem?_eq_some_iff.mp ht).1

theorem other (h : Dispatches k bytesReceived x run) {j : ℕ} (hj : j ≠ k) :
    run.downloads.transfers[j]? = x.run.downloads.transfers[j]? := by
  obtain ⟨t, -, -, -, hset⟩ := h
  rw [hset]
  exact List.getElem?_set_ne (Ne.symm hj)

theorem outcome (h : Dispatches k bytesReceived x run) (j : ℕ) :
    ({ x with run } : CollectionRun φ).outcome? j = x.outcome? j := by
  by_cases hj : j = k
  · subst hj
    obtain ⟨t, ht, -, -, ht'⟩ := h.self
    simp [outcome?, ht, ht', ProgressHub.dispatch]
  · simp [outcome?, h.other hj]

theorem told_self (h : Dispatches k bytesReceived x run) :
    ({ x with run } : CollectionRun φ).told k = x.told k ++ [bytesReceived] := by
  obtain ⟨t, ht, hends, hs, ht'⟩ := h.self
  have hpushed := hends.dispatch_pushed hs { bytesReceived }
  simp [told, ht, ht', ProgressHub.told, hpushed]

theorem told_other (h : Dispatches k bytesReceived x run) {j : ℕ} (hj : j ≠ k) :
    ({ x with run } : CollectionRun φ).told j = x.told j := by
  simp [told, h.other hj]

/-- What does not depend on the events stays. -/
theorem has (h : Dispatches k bytesReceived x run) {P : TransferController φ → Prop} {j : ℕ}
    (hP : x.run.downloads.Has P j)
    (hkeep : ∀ t, P t → P { t with hub := t.hub.dispatch { bytesReceived } }) :
    run.downloads.Has P j := by
  obtain ⟨t, ht, -, -, hset⟩ := h
  exact hP.of_set ht hset fun _ => hkeep t

end Dispatches

/-- The downloads go on while the children are quiet, and of the rest no more than the
request to cancel changes. -/
structure Quiet (x y : CollectionRun φ) : Prop where
  run : Downloads.Quiet x.collection.children x.run.downloads y.run.downloads
  collection : ∃ cancelRequested, y.collection = { x.collection with cancelRequested }
  manifest : y.manifest = x.manifest
  reacted : y.reacted = x.reacted

namespace Quiet

theorem refl (x : CollectionRun φ) : x.Quiet x :=
  ⟨.refl _ _, ⟨x.collection.cancelRequested, rfl⟩, rfl, rfl⟩

theorem of_run {run : DownloadsRun φ}
    (h : Downloads.Quiet x.collection.children x.run.downloads run.downloads) :
    x.Quiet { x with run } :=
  ⟨h, ⟨x.collection.cancelRequested, rfl⟩, rfl, rfl⟩

theorem children (h : x.Quiet y) : y.collection.children = x.collection.children := by
  obtain ⟨cancelRequested, hc⟩ := h.collection
  rw [hc]

end Quiet

namespace Tracks

theorem has (h : x.Tracks) (hk : k ∈ x.collection.children) :
    ∃ t, x.run.downloads.transfers[k]? = some t ∧ t.hub.Ends := h.ends k hk

/-- The total of the files is that of the children. -/
theorem total (h : x.Tracks) :
    x.collection.total = (x.collection.children.map x.latest).sum := by
  rw [CollectionTransfer.total, h.bytes]

theorem all_done (h : x.Tracks) :
    x.collection.fileStates.all FileProgress.done = x.collection.children.all x.succeeded := by
  have hdone := congrArg (fun l : List Bool => l.all id) h.done
  simpa [List.all_map] using hdone

theorem told_quiet (h : x.Tracks) (hq : x.Quiet y) (hk : k ∈ x.collection.children) :
    y.told k = x.told k := by
  obtain ⟨t, ht, -⟩ := h.has hk
  obtain ⟨t', ht', hquiet⟩ := hq.run k hk t ht
  simp [told, ht, ht', hquiet.told]

theorem outcome_quiet (h : x.Tracks) (hq : x.Quiet y) (hk : k ∈ x.collection.children)
    {r : Option IrohError} (hr : x.outcome? k = some r) : y.outcome? k = some r := by
  obtain ⟨t, ht, -⟩ := h.has hk
  obtain ⟨t', ht', hquiet⟩ := hq.run k hk t ht
  have houtcome : t.hub.outcome = some r := by simpa [outcome?, ht] using hr
  simp [outcome?, ht', hquiet.later r houtcome]

theorem succeeded_quiet (h : x.Tracks) (hq : x.Quiet y) (k : ℕ) :
    y.succeeded k = x.succeeded k := by
  by_cases hk : k ∈ x.reacted
  · obtain ⟨hchild, r, hr⟩ := h.reacted k hk
    refine succeeded_congr (by rw [hq.reacted]) ?_
    rw [hr, h.outcome_quiet hq hchild hr]
  · simp [succeeded, hq.reacted, hk]

theorem quiet (h : x.Tracks) (hq : x.Quiet y) : y.Tracks := by
  obtain ⟨cancelRequested, hc⟩ := hq.collection
  refine ⟨?_, ?_, ?_, ?_, fun k hk => ?_, fun k hk => ?_, ?_, ?_⟩
  · rw [hc]
    exact h.started
  · rw [hq.manifest, hq.children]
    exact h.manifest
  · rw [hc]
    exact h.hub
  · rw [hq.children]
    exact h.nodup
  · rw [hq.children] at hk
    exact hq.run.has hk (h.ends k hk) fun t t' hquiet => hquiet.ends
  · rw [hq.reacted] at hk
    obtain ⟨hchild, r, hr⟩ := h.reacted k hk
    rw [hq.children]
    exact ⟨hchild, r, h.outcome_quiet hq hchild hr⟩
  · rw [hc]
    refine h.bytes.trans (List.map_congr_left fun k hk => ?_)
    rw [latest, latest, h.told_quiet hq hk]
  · rw [hc]
    exact h.done.trans (List.map_congr_left fun k _ => (h.succeeded_quiet hq k).symm)

/-- The consumers of the collection are told something. -/
theorem tell (h : x.Tracks) {hub : ProgressHub φ} (hends : hub.Ends) :
    ({ x with collection := { x.collection with hub } } : CollectionRun φ).Tracks :=
  ⟨h.started, h.manifest, hends, h.nodup, h.ends, h.reacted, h.bytes, h.done⟩

/-- A child has received this many bytes. -/
theorem progress (h : x.Tracks) {i bytesReceived : ℕ} {run : DownloadsRun φ}
    (hi : x.collection.children.idxOf? k = some i) (hd : Dispatches k bytesReceived x run) :
    ({ x with
      run
      collection := { x.collection with
        fileStates := x.collection.fileStates.modify i fun file =>
          { file with bytesReceived } } } : CollectionRun φ).Tracks where
  started := h.started
  manifest := h.manifest
  hub := h.hub
  nodup := h.nodup
  ends j hj := hd.has (h.ends j hj) fun t hends => hends.dispatch { bytesReceived }
  reacted j hj := by
    obtain ⟨hchild, r, hr⟩ := h.reacted j hj
    exact ⟨hchild, r, (hd.outcome j).trans hr⟩
  bytes := by
    refine CollectionTransfer.map_modify h.bytes h.nodup hi (fun _ _ => ?_) fun j _ hj => ?_
    · have hlast : (x.told k ++ [bytesReceived]).getLastD 0 = bytesReceived :=
        List.getLastD_concat
      rw [← hd.told_self] at hlast
      exact hlast.symm
    · exact congrArg (fun told => List.getLastD told 0) (hd.told_other hj)
  done := by
    have hsame : (x.collection.fileStates.modify i fun file => { file with bytesReceived }).map
        FileProgress.done = x.collection.fileStates.map FileProgress.done :=
      CollectionTransfer.map_modify_same _ i fun _ => rfl
    refine hsame.trans (h.done.trans (List.map_congr_left fun j _ => ?_))
    symm
    exact succeeded_congr Iff.rfl (hd.outcome j)

/-- The reaction to the success of a child has run. -/
theorem react_ok (h : x.Tracks) {i : ℕ} (hi : x.collection.children.idxOf? k = some i)
    (hk : k ∈ x.collection.children) (houtcome : x.outcome? k = some none) :
    ({ x with
      reacted := x.reacted ++ [k]
      collection := { x.collection with
        fileStates := x.collection.fileStates.modify i fun file =>
          { file with done := true } } } : CollectionRun φ).Tracks where
  started := h.started
  manifest := h.manifest
  hub := h.hub
  nodup := h.nodup
  ends := h.ends
  reacted j hj := by
    rcases List.mem_append.mp hj with hj | hj
    · exact h.reacted j hj
    · obtain rfl := List.mem_singleton.mp hj
      exact ⟨hk, none, houtcome⟩
  bytes := by
    have hsame : (x.collection.fileStates.modify i fun file => { file with done := true }).map
        FileProgress.bytesReceived = x.collection.fileStates.map FileProgress.bytesReceived :=
      CollectionTransfer.map_modify_same _ i fun _ => rfl
    exact hsame.trans h.bytes
  done := by
    refine CollectionTransfer.map_modify h.done h.nodup hi (fun _ _ => ?_) fun j _ hj => ?_
    · have houtcome' : x.run.downloads.transfers[k]?.bind (fun t => t.hub.outcome) = some none :=
        houtcome
      simp [succeeded, outcome?, houtcome']
    · exact succeeded_congr (by simp [hj]) rfl

/-- The reaction to the failure of a child has run. -/
theorem react_error (h : x.Tracks) (hk : k ∈ x.collection.children) (hfresh : k ∉ x.reacted)
    {e : IrohError} (houtcome : x.outcome? k = some (some e)) :
    ({ x with reacted := x.reacted ++ [k] } : CollectionRun φ).Tracks where
  started := h.started
  manifest := h.manifest
  hub := h.hub
  nodup := h.nodup
  ends := h.ends
  reacted j hj := by
    rcases List.mem_append.mp hj with hj | hj
    · exact h.reacted j hj
    · obtain rfl := List.mem_singleton.mp hj
      exact ⟨hk, some e, houtcome⟩
  bytes := h.bytes
  done := by
    refine h.done.trans (List.map_congr_left fun j _ => ?_)
    by_cases hj : j = k
    · subst hj
      have houtcome' : x.run.downloads.transfers[j]?.bind (fun t => t.hub.outcome) =
          some (some e) := houtcome
      simp [succeeded, outcome?, hfresh, houtcome']
    · symm
      exact succeeded_congr (by simp [hj]) rfl

end Tracks

end CollectionRun

end Iroh
