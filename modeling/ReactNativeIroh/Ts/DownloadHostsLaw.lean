import ReactNativeIroh.Ts.DownloadParts

/-!
# What a host learns of its downloads

A transfer of the host resolves only if the core wrote its destination, and then every count the
bridge emitted was passed on first.  It is rejected with the error of the core, or it never
reached the core.  A transfer that the core cancels was cancelled by the host.
-/

namespace Iroh

open Transition

namespace Core.Transfer

variable {β : Type*} {t : Transfer β}

theorem callbacks_filterMap {α : Type*} {f : TransferEvent → Option α}
    (hf : ∀ e, e.isCallback = false → f e = none) (log : List TransferEvent) :
    (log.filter TransferEvent.isCallback).filterMap f = log.filterMap f := by
  rw [List.filterMap_filter]
  refine List.filterMap_congr fun e _ => ?_
  cases he : e.isCallback with
  | true => rfl
  | false => exact (hf e he).symm

theorem callbacks_emits (t : Transfer β) :
    t.callbacks.filterMap TransferEvent.emitted? = t.emits :=
  callbacks_filterMap (fun e he => by cases e <;> first | rfl | cases he) t.log

theorem callbacks_settled (t : Transfer β) :
    t.callbacks.filterMap TransferEvent.settled? = t.log.filterMap TransferEvent.settled? :=
  callbacks_filterMap (fun e he => by cases e <;> first | rfl | cases he) t.log

theorem callbacks_calls (t : Transfer β) :
    t.callbacks.filter TransferEvent.isHostCall = t.calls := by
  rw [callbacks, List.filter_filter]
  refine List.filter_congr fun e _ => ?_
  cases e <;> rfl

/-- A host that has handled the settlement has handled all the progress before. -/
theorem emits_of_settled (hl : t.LogLaw) (hlogged : t.Logged) {m : ℕ} {r : Outcome}
    (hmem : .settled r ∈ t.callbacks.take m) (hne : r ≠ .error .cancelled) :
    (t.callbacks.take m).filterMap TransferEvent.emitted? = t.emits := by
  have hlog : .settled r ∈ t.log := List.mem_of_mem_filter (List.mem_of_mem_take hmem)
  have hsplit := List.take_append_drop m t.callbacks
  have hrest : (t.callbacks.drop m).filter TransferEvent.isHostCall = [] := by
    by_contra hrest
    -- what comes last is the settlement, for the second time
    obtain ⟨front, hfront⟩ := hl.last r hlog hne
    have hcalls := callbacks_calls t
    rw [← hsplit, List.filter_append, hfront] at hcalls
    have hlast := congrArg List.getLast? hcalls
    rw [List.getLast?_append_of_ne_nil _ hrest, List.getLast?_concat] at hlast
    have hagain : .settled r ∈ t.callbacks.drop m :=
      List.mem_of_mem_filter (List.mem_of_getLast? hlast)
    have hone := callbacks_settled t
    rw [hlogged.answers, hlogged.settled hlog, ← hsplit, List.filterMap_append] at hone
    have hbefore : 0 < ((t.callbacks.take m).filterMap TransferEvent.settled?).length :=
      List.length_pos_of_mem (List.mem_filterMap.mpr ⟨_, hmem, rfl⟩)
    have hafter : 0 < ((t.callbacks.drop m).filterMap TransferEvent.settled?).length :=
      List.length_pos_of_mem (List.mem_filterMap.mpr ⟨_, hagain, rfl⟩)
    have hlength := congrArg List.length hone
    rw [List.length_append] at hlength
    have : (OuterPhase.done r).done?.toList.length = 1 := rfl
    omega
  have hnone : (t.callbacks.drop m).filterMap TransferEvent.emitted? = [] := by
    refine List.filterMap_eq_nil_iff.mpr fun e he => ?_
    have hnot : e.isHostCall ≠ true := List.filter_eq_nil_iff.mp hrest e he
    cases e with
    | emitted => exact absurd rfl hnot
    | _ => rfl
  have hemits := congrArg (List.filterMap TransferEvent.emitted?) hsplit
  rwa [List.filterMap_append, hnone, List.append_nil, callbacks_emits] at hemits

end Core.Transfer

namespace DownloadHosts

variable {β φ : Type*} [DecidableEq φ] {x : DownloadHosts β φ} {k i : ℕ} {t : Core.Transfer β}

/-- What a transfer of the host is rejected with. -/
inductive Rejected (x : DownloadHosts β φ) (k : ℕ) (e : IrohError) : Prop where
  /-- The host had cancelled it before it was started. -/
  | dropped (hn : (x.hosts k).native = none) (he : e = cancelledBeforeStart)
  | threw (hn : (x.hosts k).run.native = .threw e)
  | refused {err : Core.IrohError} (hn : (x.hosts k).native = some (.error err))
      (he : e = ⟨.ofCore err, JsString.fromNative (Core.encodeError err)⟩)
  | failed {i : ℕ} {t : Core.Transfer β} {err : Core.IrohError}
      (hn : (x.hosts k).native = some (.ok i)) (ht : x.core.transfers i = some t)
      (hr : .settled (.error err) ∈ t.log)
      (he : e = ⟨.ofCore err, JsString.fromNative (Core.encodeError err)⟩)

/-- What the host has of a transfer of the core. -/
structure Has (x : DownloadHosts β φ) (k : ℕ) (t : Core.Transfer β) : Prop where
  ids : ∀ id ∈ (x.hosts k).run.reported, id = t.handle
  /-- Unless it is cancelled, the progress comes in order. -/
  progress : t.Uncancelled → (x.hosts k).run.pushed.Sublist t.reports
  /-- It ends as cancelled only if the host asked for it. -/
  cancelled : .settled (.error .cancelled) ∈ t.log → (x.hosts k).run.requested = true
  /-- What it settled with is what the core settled with. -/
  agrees : ∀ r o, .settled r ∈ t.log → (x.hosts k).run.transfer.hub.outcome = some o →
    o = settlement r

/-- What holds of a transfer of the host. -/
structure Law (x : DownloadHosts β φ) (k : ℕ) : Prop where
  own : ∀ k' i, (x.hosts k).native = some (.ok i) → (x.hosts k').native = some (.ok i) → k' = k
  has : ∀ i, (x.hosts k).native = some (.ok i) → ∃ t, x.core.transfers i = some t ∧ x.Has k t
  /-- It resolves only if the destination was written and all its progress was passed on. -/
  resolved : (x.hosts k).run.transfer.hub.outcome = some none →
    ∃ i t, (x.hosts k).native = some (.ok i) ∧ x.core.transfers i = some t ∧
      .settled (.ok ()) ∈ t.log ∧ .written ∈ t.log ∧ (x.hosts k).run.pushed = t.emits ∧
      t.emits.getLast? = t.reports.getLast?
  rejected : ∀ e, (x.hosts k).run.transfer.hub.outcome = some (some e) → x.Rejected k e
  /-- A request whose id is known has reached the core. -/
  passedOn : (x.hosts k).run.requested = true → ∀ id, (x.hosts k).run.reported.getLast? = some id →
    ∃ c call, x.core.calls c = some call ∧ call.handle = id

omit [DecidableEq φ] in
theorem callbacks_of_ok (hn : (x.hosts k).native = some (.ok i))
    (ht : x.core.transfers i = some t) : x.callbacks k = t.callbacks := by
  simp only [callbacks, hn, Core.TransferRun.callbacks, ht, Option.elim_some]

namespace Parts

theorem logged (h : x.Parts) (ht : x.core.transfers i = some t) : t.Logged :=
  Core.logged_invariant.reachable h.core i t ht

theorem logLaw (h : x.Parts) (ht : x.core.transfers i = some t) : t.LogLaw :=
  Core.Transfer.logLaw (h.logged ht) (Core.relayed_invariant.reachable h.core i t ht)
    ((Core.TransferRun.valid_invariant.reachable h.core).sound i t ht)

/-- An id that was reported is the handle of the transfer's own transfer. -/
theorem reported (h : x.Parts) {id : ℕ} (hid : id ∈ (x.hosts k).run.reported) :
    ∃ i t, (x.hosts k).native = some (.ok i) ∧ x.core.transfers i = some t ∧ id = t.handle := by
  have hstarted := (h.follows k).reported id hid
  cases hn : (x.hosts k).native with
  | none => simp [callbacks, hn, Core.TransferRun.callbacks] at hstarted
  | some answer =>
      cases answer with
      | error err => simp [callbacks, hn, Core.TransferRun.callbacks] at hstarted
      | ok i =>
          obtain ⟨t, ht⟩ := h.known k i hn
          rw [callbacks_of_ok hn ht] at hstarted
          exact ⟨i, t, rfl, ht, (h.logged ht).started id (List.mem_of_mem_filter hstarted)⟩

/-- The promise was settled as the core says, after all the progress that was passed on. -/
theorem reacted (h : x.Parts) {error : Option IrohError}
    (hr : (x.hosts k).run.native = .reacted error) :
    ∃ r m, .settled r ∈ (x.callbacks k).take m ∧ error = settlement r ∧
      (x.hosts k).run.pushed =
        ((x.callbacks k).take m).filterMap Core.TransferEvent.emitted? := by
  obtain ⟨r, hanswer, herror⟩ := (h.follows k).answered error (.inr hr)
  obtain ⟨m, -, hpushed, rfl | ⟨error', hr', r', hlast, herror'⟩⟩ := (h.follows k).pushed
  · exact ⟨r, _, hanswer, herror, hpushed⟩
  · obtain rfl := NativePromise.reacted.inj (hr.symm.trans hr')
    exact ⟨r', m, hlast, herror', hpushed⟩

/-- Where a settlement comes from. -/
theorem settled (h : x.Parts) {r : Core.Outcome} (hr : .settled r ∈ x.callbacks k) :
    (∃ err, (x.hosts k).native = some (.error err) ∧ r = .error err) ∨
      ∃ i t, (x.hosts k).native = some (.ok i) ∧ x.core.transfers i = some t ∧
        .settled r ∈ t.log := by
  cases hn : (x.hosts k).native with
  | none => simp [callbacks, hn, Core.TransferRun.callbacks] at hr
  | some answer =>
      cases answer with
      | error err =>
          simp only [callbacks, hn, Core.TransferRun.callbacks, List.mem_singleton] at hr
          exact .inl ⟨err, rfl, Core.TransferEvent.settled.inj hr⟩
      | ok i =>
          obtain ⟨t, ht⟩ := h.known k i hn
          rw [callbacks_of_ok hn ht] at hr
          exact .inr ⟨i, t, rfl, ht, List.mem_of_mem_filter hr⟩

theorem has (h : x.Parts) (hp : x.Passed) (hn : (x.hosts k).native = some (.ok i))
    (ht : x.core.transfers i = some t) : x.Has k t := by
  have hv := Core.TransferRun.valid_invariant.reachable h.core
  have hcalls := callbacks_of_ok hn ht
  refine ⟨fun id hid => ?_, fun hu => ?_, fun hc => ?_, fun r o hr ho => ?_⟩
  · obtain ⟨i', t', hn', ht', rfl⟩ := h.reported hid
    obtain rfl : i = i' := by simpa using hn.symm.trans hn'
    rw [Option.some.inj (ht.symm.trans ht')]
  · obtain ⟨m, -, hpushed, -⟩ := (h.follows k).pushed
    rw [hpushed, hcalls]
    refine .trans ?_ ((h.logLaw ht).inOrder hu)
    rw [← Core.Transfer.callbacks_emits t]
    exact (List.take_sublist m _).filterMap _
  · -- somebody called `blob_download_cancel` with its handle
    have hchannel := hv.channelled i t ht
    have hresult : t.outer.result = some (.error .cancelled) := by
      rw [(h.logged ht).settled hc]
      rfl
    obtain ⟨c, call, hcall, hhandle, -⟩ := hchannel.sent (hchannel.cancelled hresult)
    obtain ⟨k', hk'⟩ := hp.calls c call hcall
    have hasks := TransferRun.asks_invariant.reachable (h.host k')
    obtain ⟨hreported, hrequested⟩ := hasks.cancelled _ hk'
    obtain ⟨i', t', hn', ht', hsame⟩ := h.reported hreported
    have hi := (hv.registered.handle i t ht).2
    have hi' := (hv.registered.handle i' t' ht').2
    obtain rfl : i = i' := by omega
    rwa [h.apart k' k i hn' hn] at hrequested
  · have hlives := TransferRun.lives_invariant.reachable (h.host k)
    have hcalled : (x.hosts k).run.native.isCalled = true := by
      rw [h.called k, hn]
      rfl
    have hsettled := TransferController.isSettled_iff.mpr ⟨o, ho⟩
    obtain ⟨o', ho'⟩ := DownloadHost.Follows.reacted_of_settled hlives hcalled hsettled
    have houtcome := hlives.outcome
    rw [ho'] at houtcome
    obtain rfl : o = o' := Option.some.inj (ho.symm.trans houtcome)
    obtain ⟨r', m, hmem, rfl, -⟩ := h.reacted ho'
    rw [hcalls] at hmem
    have hr' := (h.logged ht).settled (List.mem_of_mem_filter (List.mem_of_mem_take hmem))
    rw [Core.OuterPhase.done.inj (((h.logged ht).settled hr).symm.trans hr')]

theorem resolved (h : x.Parts) (hr : (x.hosts k).run.native = .reacted none) :
    ∃ i t, (x.hosts k).native = some (.ok i) ∧ x.core.transfers i = some t ∧
      .settled (.ok ()) ∈ t.log ∧ .written ∈ t.log ∧ (x.hosts k).run.pushed = t.emits ∧
      t.emits.getLast? = t.reports.getLast? := by
  obtain ⟨r, m, hmem, hnone, hpushed⟩ := h.reacted hr
  obtain rfl := settlement_eq_none hnone.symm
  rcases h.settled (List.mem_of_mem_take hmem) with ⟨err, -, herr⟩ | ⟨i, t, hn, ht, hlog⟩
  · cases herr
  · have hlaw := h.logLaw ht
    rw [callbacks_of_ok hn ht] at hmem hpushed
    have hemits := Core.Transfer.emits_of_settled hlaw (h.logged ht) hmem (by simp)
    refine ⟨i, t, hn, ht, hlog, hlaw.written hlog, hpushed.trans hemits, ?_⟩
    exact hlaw.newest _ hlog (by simp) fun ⟨text, hfailed⟩ => by cases hfailed

theorem rejected (h : x.Parts) {e : IrohError}
    (ho : (x.hosts k).run.transfer.hub.outcome = some (some e)) : x.Rejected k e := by
  have houtcome := (TransferRun.lives_invariant.reachable (h.host k)).outcome
  rw [ho] at houtcome
  have hdropped (hcalled : (x.hosts k).run.native.isCalled = false)
      (he : some (some e) = some (some cancelledBeforeStart)) : x.Rejected k e :=
    .dropped (h.idle hcalled) (Option.some.inj (Option.some.inj he))
  cases hn : (x.hosts k).run.native with
  | unstarted =>
      rw [hn] at houtcome
      exact hdropped (by rw [hn]; rfl) (houtcome.resolve_left (by simp))
  | skipped =>
      rw [hn] at houtcome
      exact hdropped (by rw [hn]; rfl) houtcome
  | threw error =>
      rw [hn] at houtcome
      obtain rfl := Option.some.inj (Option.some.inj houtcome)
      exact .threw hn
  | pending | settled =>
      rw [hn] at houtcome
      cases houtcome
  | reacted error =>
      rw [hn] at houtcome
      obtain ⟨r, m, hmem, hsome, -⟩ := h.reacted hn
      rw [← Option.some.inj houtcome] at hsome
      obtain ⟨err, rfl, he⟩ := settlement_eq_some hsome.symm
      rcases h.settled (List.mem_of_mem_take hmem) with ⟨err', hn', herr⟩ | ⟨i, t, hn', ht, hlog⟩
      · rw [← Except.error.inj herr] at hn'
        exact .refused hn' he
      · exact .failed hn' ht hlog he

end Parts

end DownloadHosts

end Iroh
