import ReactNativeIroh.Ts.DownloadHosts

/-!
# The parts of a host with its downloads

A state of `downloadHostsMachine` is a state of the core, and one of each transfer of the host,
which has handled the first of its callbacks.  Two transfers of the host never share one of the
core.

The calls of `blob_download_cancel` are those that the transfers of the host asked for.
-/

namespace Iroh

open Transition

namespace DownloadHosts

variable {β φ : Type*} {core core' : Core.TransferRun β} {x y : DownloadHosts β φ} {k : ℕ}

/-! ## The calls of the core -/

/-- What the core has after it was told to cancel the transfers with these handles. -/
structure Told (core : Core.TransferRun β) (handles : List ℕ) (core' : Core.TransferRun β) :
    Prop where
  reachable : (Core.transferMachine β).Reachable Any core'
  transfers : core'.transfers = core.transfers
  kept : ∀ c call, core.calls c = some call → core'.calls c = some call
  calls : ∀ c call, core'.calls c = some call →
    core.calls c = some call ∨ call.handle ∈ handles
  asked : ∀ id ∈ handles, ∃ c call, core'.calls c = some call ∧ call.handle = id

theorem told (hc : (Core.transferMachine β).Reachable Any core) (handles : List ℕ) :
    Told core handles (handles.foldl cancel core) := by
  induction handles generalizing core with
  | nil => exact ⟨hc, rfl, fun _ _ h => h, fun _ _ h => .inl h, nofun⟩
  | cons handle handles ih =>
      have hv := Core.TransferRun.valid_invariant.reachable hc
      have hnext := ih (hc.tail (.cancel handle) trivial rfl)
      have hfresh {c : ℕ} {call : Core.CancelCall} (h : core.calls c = some call) :
          (cancel core handle).calls c = some call :=
        (Core.TransferRun.putCall_calls_of_ne (Nat.ne_of_lt (hv.link c call h).counted)).trans h
      refine ⟨hnext.reachable, hnext.transfers, fun c call h => hnext.kept c call (hfresh h),
        fun c call h => ?_, fun id hid => ?_⟩
      · rcases hnext.calls c call h with hold | hnew
        · rcases Core.TransferRun.putCall_calls_eq_some hold with ⟨-, rfl⟩ | ⟨-, hold⟩
          · exact .inr (List.mem_cons_self ..)
          · exact .inl hold
        · exact .inr (List.mem_cons_of_mem _ hnew)
      · rcases List.mem_cons.mp hid with rfl | hid
        · exact ⟨core.callCount, _, hnext.kept _ _ Core.TransferRun.putCall_calls_self, rfl⟩
        · exact hnext.asked id hid

/-- The transfers of the core go on. -/
def Onward (core core' : Core.TransferRun β) : Prop :=
  ∀ i t, core.transfers i = some t → ∃ t', core'.transfers i = some t' ∧ t.log <+: t'.log

theorem onward_step (hc : (Core.transferMachine β).Reachable Any core) {a : Core.TransferAction β}
    (hs : core.step a = some core') : Onward core core' := fun _ _ ht =>
  Core.TransferRun.log_step (Core.TransferRun.valid_invariant.reachable hc).registered hs ht

theorem Onward.of_eq (h : core'.transfers = core.transfers) : Onward core core' := fun i t ht =>
  ⟨t, by rw [h]; exact ht, List.prefix_rfl⟩

theorem Onward.callbacks (h : Onward core core') {native : Option (Except Core.IrohError ℕ)}
    (hknown : ∀ i, native = some (.ok i) → ∃ t, core.transfers i = some t) :
    core.callbacks native <+: core'.callbacks native := by
  cases native with
  | none => exact List.prefix_rfl
  | some answer =>
      cases answer with
      | error err => exact List.prefix_rfl
      | ok i =>
          obtain ⟨t, ht⟩ := hknown i rfl
          obtain ⟨t', ht', hg⟩ := h i t ht
          simp only [Core.TransferRun.callbacks, ht, ht', Option.elim_some]
          exact hg.filter _

/-! ## The parts -/

variable [DecidableEq φ]

/-- What a state is of the core and the transfers of the host. -/
structure Parts (x : DownloadHosts β φ) : Prop where
  core : (Core.transferMachine β).Reachable Any x.core
  host : ∀ k, (transferMachine φ).Reachable Any (x.hosts k).run
  called : ∀ k, (x.hosts k).run.native.isCalled = (x.hosts k).native.isSome
  known : ∀ k i, (x.hosts k).native = some (.ok i) → ∃ t, x.core.transfers i = some t
  apart : ∀ k k' i, (x.hosts k).native = some (.ok i) → (x.hosts k').native = some (.ok i) →
    k = k'
  follows : ∀ k, (x.hosts k).Follows (x.callbacks k)

namespace Parts

theorem idle (h : x.Parts) (hn : (x.hosts k).run.native.isCalled = false) :
    (x.hosts k).native = none := by
  have hcalled := h.called k
  rw [hn] at hcalled
  exact Option.not_isSome_iff_eq_none.mp (Bool.eq_false_iff.mp hcalled.symm)

/-- The core goes on, and the host does nothing. -/
theorem core_onward (h : x.Parts) (hc : (Core.transferMachine β).Reachable Any core)
    (ho : Onward x.core core) : Parts { x with core } where
  core := hc
  host := h.host
  called := h.called
  known k i hk := by
    obtain ⟨t, ht⟩ := h.known k i hk
    obtain ⟨t', ht', -⟩ := ho i t ht
    exact ⟨t', ht'⟩
  apart := h.apart
  follows k := by
    refine (h.follows k).grow (ho.callbacks (h.known k)) fun hn => ?_
    show core.callbacks (x.hosts k).native = []
    rw [h.idle hn]
    rfl

/-- One transfer of the host becomes `host`. -/
theorem put (h : x.Parts) {host : DownloadHost φ}
    (hhost : (transferMachine φ).Reachable Any host.run)
    (hcalled : host.run.native.isCalled = host.native.isSome)
    (hknown : ∀ i, host.native = some (.ok i) → (∃ t, x.core.transfers i = some t) ∧
      ∀ k', (x.hosts k').native = some (.ok i) → k' = k)
    (hfollows : host.Follows (x.core.callbacks host.native)) :
    Parts { x with hosts := Function.update x.hosts k host } := by
  refine ⟨h.core, fun k' => ?_, fun k' => ?_, fun k' i hk' => ?_, fun k₁ k₂ i h₁ h₂ => ?_,
    fun k' => ?_⟩
  · rcases eq_or_ne k' k with rfl | hne
    · simpa using hhost
    · simpa [hne] using h.host k'
  · rcases eq_or_ne k' k with rfl | hne
    · simpa using hcalled
    · simpa [hne] using h.called k'
  · rcases eq_or_ne k' k with rfl | hne
    · exact (hknown i (by simpa using hk')).1
    · exact h.known k' i (by simpa [hne] using hk')
  · rcases eq_or_ne k₁ k with rfl | hne₁
    · rcases eq_or_ne k₂ k₁ with rfl | hne₂
      · rfl
      · exact ((hknown i (by simpa using h₁)).2 k₂ (by simpa [hne₂] using h₂)).symm
    · rcases eq_or_ne k₂ k with rfl | hne₂
      · exact (hknown i (by simpa using h₂)).2 k₁ (by simpa [hne₁] using h₁)
      · exact h.apart k₁ k₂ i (by simpa [hne₁] using h₁) (by simpa [hne₂] using h₂)
  · rcases eq_or_ne k' k with rfl | hne
    · simpa [callbacks] using hfollows
    · simpa [callbacks, hne] using h.follows k'

/-- A transfer of the host goes on, and tells the core what to cancel. -/
theorem move (h : x.Parts) (host : DownloadHost φ) (hnative : host.native = (x.hosts k).native)
    (hhost : (transferMachine φ).Reachable Any host.run)
    (hcalled : host.run.native.isCalled = (x.hosts k).run.native.isCalled)
    (hfollows : host.Follows (x.callbacks k)) : (x.move k host).Parts := by
  have htold : Told x.core _ (x.move k host).core := told h.core _
  have hput : Parts { x with hosts := Function.update x.hosts k host } := by
    refine h.put hhost (by rw [hcalled, h.called k, hnative]) (fun i hi => ?_)
      (by rw [hnative]; exact hfollows)
    rw [hnative] at hi
    exact ⟨h.known k i hi, fun k' hk' => h.apart k' k i hk' hi⟩
  exact hput.core_onward htold.reachable (.of_eq htold.transfers)

theorem begun (h : x.Parts) {throws : Option IrohError} {run : TransferRun φ}
    (hr : (x.hosts k).run.step (.begin [] throws) = some run)
    (request : Except Core.IrohError (DownloadRequest β)) : (x.begun k request run).Parts := by
  obtain ⟨hunstarted, hn, hsameReports, hsamePushed, -⟩ := TransferRun.begin_still hr
  have hreach : (transferMachine φ).Reachable Any run :=
    (h.host k).tail (.begin [] throws) trivial hr
  have hf := h.follows k
  have hcalls : x.callbacks k = [] := hf.idle (by rw [hunstarted]; rfl)
  rw [hcalls] at hf
  have hreported : run.reported = [] := by
    rw [hsameReports]
    exact List.eq_nil_iff_forall_not_mem.mpr fun id hid => by cases hf.reported id hid
  have hpushed : run.pushed = [] := by
    obtain ⟨m, -, hsame, -⟩ := hf.pushed
    rw [hsamePushed, hsame, List.take_nil, List.filterMap_nil]
  unfold DownloadHosts.begun
  rcases hn with hn | hn
  · cases request with
    | error err =>
        simp only [hn]
        exact h.put hreach (by rw [hn]; rfl) nofun (.fresh hreported hpushed (.inl hn))
    | ok r =>
        simp only [hn]
        have hstep : x.core.step (.download r.endpoint r.dest r.content) =
            some ((x.core.step (.download r.endpoint r.dest r.content)).getD x.core) := rfl
        have hv := Core.TransferRun.valid_invariant.reachable h.core
        have hcore : (Core.transferMachine β).Reachable Any _ :=
          h.core.tail (.download r.endpoint r.dest r.content) trivial hstep
        refine (h.core_onward hcore (onward_step h.core hstep)).put hreach (by rw [hn]; rfl)
          (fun i hi => ?_) (.fresh hreported hpushed (.inl hn))
        obtain rfl : x.core.count = i := by simpa using hi
        refine ⟨⟨_, Core.TransferRun.put_transfers_self⟩, fun k' hk' => ?_⟩
        obtain ⟨t, ht⟩ := h.known k' _ hk'
        exact absurd (hv.registered.handle _ t ht).1 (lt_irrefl _)
  · have hidle : run.native.isCalled = false := by
      rcases hn with hn | ⟨_, hn⟩
      · rw [hn]; rfl
      · rw [hn]; rfl
    have hput : Parts { x with hosts := Function.update x.hosts k { run } } :=
      h.put hreach hidle nofun (.fresh hreported hpushed (.inr ⟨rfl, hidle⟩))
    rcases hn with hn | ⟨_, hn⟩
    · simpa only [hn] using hput
    · simpa only [hn] using hput

end Parts

theorem parts_step (h : x.Parts) (hs : x.Steps y) : y.Parts := by
  cases hs with
  | core ha hc => exact h.core_onward (h.core.tail _ trivial hc) (onward_step h.core hc)
  | begin request hr => exact h.begun hr request
  | @event k e run he hr =>
      have hreach : (transferMachine φ).Reachable Any run := (h.host k).tail (.event e) trivial hr
      refine h.move { x.hosts k with run } rfl hreach ?_ ((h.follows k).event he hr)
      obtain rfl := TransferRun.event_eq hr
      rfl
  | @callback k e run hc hr =>
      have hlives := TransferRun.lives_invariant.reachable (h.host k)
      have hasks := TransferRun.asks_invariant.reachable (h.host k)
      obtain ⟨a, ha, hcalled⟩ := DownloadHost.handle_step hr
      have hreach : (transferMachine φ).Reachable Any run := (h.host k).tail a trivial ha
      exact h.move { x.hosts k with run, taken := (x.hosts k).taken + 1 } rfl hreach hcalled
        ((h.follows k).handle hlives hasks hc hr)
  | @reaction k run hr =>
      have hreach : (transferMachine φ).Reachable Any run := (h.host k).tail .reaction trivial hr
      refine h.move { x.hosts k with run } rfl hreach ?_ ((h.follows k).reaction hr)
      obtain ⟨error, hn, rfl⟩ := TransferRun.reaction_eq hr
      rw [hn]
      rfl

theorem parts_invariant : (downloadHostsMachine β φ).Invariant Any Parts where
  init x hx := by
    obtain ⟨fs, rfl⟩ := hx
    refine ⟨⟨_, ⟨fs, rfl⟩, .refl⟩, fun k => ⟨_, rfl, .refl⟩, fun k => rfl, nofun, nofun,
      fun k => ?_⟩
    exact .fresh rfl rfl (.inr ⟨rfl, rfl⟩)
  step _ _ _ h _ hy := parts_step h (steps hy)

/-! ## What the core is asked to cancel -/

/-- The core was told to cancel what the transfers of the host asked for. -/
structure Passed (x : DownloadHosts β φ) : Prop where
  calls : ∀ c call, x.core.calls c = some call → ∃ k, call.handle ∈ (x.hosts k).run.cancelled
  asked : ∀ k, ∀ id ∈ (x.hosts k).run.cancelled,
    ∃ c call, x.core.calls c = some call ∧ call.handle = id

omit [DecidableEq φ] in
/-- Nothing of a transfer is asked for, and nothing is told. -/
theorem Passed.put (h : x.Passed) {host : DownloadHost φ} {core : Core.TransferRun β}
    (hcalls : core.calls = x.core.calls)
    (hsame : host.run.cancelled = (x.hosts k).run.cancelled) :
    Passed { core, hosts := Function.update x.hosts k host } := by
  have hcancelled (k' : ℕ) : (Function.update x.hosts k host k').run.cancelled =
      (x.hosts k').run.cancelled := by
    rcases eq_or_ne k' k with rfl | hne
    · simpa using hsame
    · simp [hne]
  refine ⟨fun c call hc => ?_, fun k' id hid => ?_⟩
  · obtain ⟨k', hk'⟩ := h.calls c call (hcalls ▸ hc)
    exact ⟨k', by rw [hcancelled]; exact hk'⟩
  · rw [hcancelled] at hid
    rw [hcalls]
    exact h.asked k' id hid

/-- What a transfer newly asks for is told at once. -/
theorem Passed.move (h : x.Passed) (hx : x.Parts) {host : DownloadHost φ}
    (hgrown : (x.hosts k).run.cancelled <+: host.run.cancelled) : (x.move k host).Passed := by
  have htold : Told x.core _ (x.move k host).core := told hx.core _
  obtain ⟨later, hlater⟩ := hgrown
  rw [← hlater, List.drop_left] at htold
  have hself : ((x.move k host).hosts k).run.cancelled = (x.hosts k).run.cancelled ++ later := by
    rw [hlater]
    exact congrArg (fun host : DownloadHost φ => host.run.cancelled) (Function.update_self ..)
  have hother {k' : ℕ} (hne : k' ≠ k) : (x.move k host).hosts k' = x.hosts k' :=
    Function.update_of_ne hne ..
  refine ⟨fun c call hc => ?_, fun k' id hid => ?_⟩
  · rcases htold.calls c call hc with hold | hnew
    · obtain ⟨k', hk'⟩ := h.calls c call hold
      refine ⟨k', ?_⟩
      rcases eq_or_ne k' k with rfl | hne
      · rw [hself]
        exact List.mem_append_left _ hk'
      · rw [hother hne]
        exact hk'
    · exact ⟨k, by rw [hself]; exact List.mem_append_right _ hnew⟩
  · have hkept {id : ℕ} (hid : id ∈ (x.hosts k').run.cancelled) :
        ∃ c call, (x.move k host).core.calls c = some call ∧ call.handle = id := by
      obtain ⟨c, call, hc, hcall⟩ := h.asked k' id hid
      exact ⟨c, call, htold.kept c call hc, hcall⟩
    rcases eq_or_ne k' k with rfl | hne
    · rw [hself] at hid
      rcases List.mem_append.mp hid with hold | hnew
      · exact hkept hold
      · exact htold.asked id hnew
    · rw [hother hne] at hid
      exact hkept hid

end DownloadHosts

end Iroh
