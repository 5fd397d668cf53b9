import ReactNativeIroh.Core.SendOrder

/-!
# Whole frames on the wire

As long as no write fails for a reason of the transport, what is on the wire of a
framed stream is whole frames of distinct sends, followed by a front of the frame of
the send that holds the lock.  Whichever way the tasks interleave, a confirmed send
has its frame there, and the finish comes after the frames of the sends that were
confirmed when `stream_close` was called.
-/

namespace Iroh.Core

open Transition

/-- The send was answered with an error after it had taken the lock. -/
def Phase.isFailed : Phase → Bool
  | .released (.error _) | .done (.error _) => true
  | _ => false

/-- The send has written its bytes. -/
def Task.hasSent (t : Task) : Bool := t.job.isSend && t.phase.isServed && !t.phase.isHolding
  && !t.phase.isFailed

namespace SendRun

/-- Only a stream that was finished refuses what is written to it. -/
def NoTransportError (x : SendRun) : SendAction → Prop
  | .fail _ _ => x.finishedAt.isSome = true
  | _ => True

instance (x : SendRun) : (a : SendAction) → Decidable (x.NoTransportError a)
  | .fail _ _ => inferInstanceAs (Decidable (_ = _))
  | .send _ | .close | .poll _ | .acquire _ | .write _ _ | .next _ | .release _ | .finish _
  | .complete _ => .isTrue trivial

/-- The bytes of a call. -/
def bytesOf (x : SendRun) (i : ℕ) : List UInt8 :=
  ((x.tasks i).map fun t => t.job.bytes x.framing).getD []

/-- The calls of the list, each with its whole frame, are what is on the wire. -/
structure WholeFrames (x : SendRun) (order : List ℕ) : Prop where
  distinct : order.Nodup
  sends : ∀ i ∈ order, ∃ data written phase,
    x.tasks i = some ⟨.send data, written, phase⟩ ∧ data.length ≤ MAX_FRAME_SIZE
  /-- Only the send that holds the lock has written a part of its frame. -/
  wire : ∃ part, x.wire = order.flatMap x.bytesOf ++ part ∧ (x.holder = none → part = []) ∧
    ∀ i, x.holder = some i → i ∉ order ∧ part <+: x.bytesOf i
  completed : ∀ i data written, x.tasks i = some ⟨.send data, written, .done (.ok ())⟩ → i ∈ order
  refused : ∀ i t err, x.tasks i = some t → t.phase = .refused err →
    i ∉ order ∧ x.holder ≠ some i
  finish : ∀ w, x.finishedAt = some w →
    x.wire = w ∧ w = order.flatMap x.bytesOf ∧ ∀ i ∈ x.confirmed, i ∈ order

variable {x : SendRun} {i : ℕ} {t : Task}

/-! ## The invariant -/

/-- What holds beside `Valid` while the transport takes every write. -/
structure Clean (x : SendRun) : Prop where
  failed : ∀ i t, x.tasks i = some t → t.phase.isFailed = true → t.written = []
  accepted : ∀ i data written phase, x.tasks i = some ⟨.send data, written, phase⟩ →
    accepts x.framing data = true ∨ ∃ err, phase = .refused err
  confirmed : ∀ i ∈ x.confirmed, ∃ t, x.tasks i = some t ∧ t.isConfirmed = true
  finished : ∀ w, x.finishedAt = some w → x.wire = w ∧
    ∀ i t, x.tasks i = some t → t.phase.isHolding = true → t.written = []

theorem clean_new (handle : UInt64) (framing : Framing) : Clean { handle, framing } where
  failed _ _ h := nomatch h
  accepted _ _ _ _ h := nomatch h
  confirmed _ h := nomatch h
  finished _ h := nomatch h

theorem isOver_of_isConfirmed (h : t.isConfirmed = true) : t.phase.isOver = true := by
  obtain ⟨job, written, phase⟩ := t
  cases phase with
  | done _ => rfl
  | refused _ => rfl
  | spawned => simp [Task.isConfirmed] at h
  | waiting => simp [Task.isConfirmed] at h
  | holding _ => simp [Task.isConfirmed] at h
  | released _ => simp [Task.isConfirmed] at h

/-- One task moves on. -/
theorem Clean.move {y : SendRun} {t₀ t₁ : Task} (h : x.Clean) (h₀ : x.tasks i = some t₀)
    (htasks : y.tasks = (x.put i t₁).tasks) (hframing : y.framing = x.framing)
    (hconfirmed : y.confirmed = x.confirmed) (hjob : t₁.job = t₀.job)
    (hlive : t₀.phase.isOver = false) (hfailed : t₁.phase.isFailed = true → t₁.written = [])
    (hfinished : ∀ w, y.finishedAt = some w → y.wire = w ∧
      (t₁.phase.isHolding = true → t₁.written = []) ∧
      ∀ j t, j ≠ i → x.tasks j = some t → t.phase.isHolding = true → t.written = []) :
    y.Clean where
  failed j t hj hf := by
    rw [htasks] at hj
    by_cases hji : j = i
    · subst hji
      obtain rfl := Option.some.inj (put_tasks_self.symm.trans hj)
      exact hfailed hf
    · exact h.failed j t ((put_tasks_of_ne hji).symm.trans hj) hf
  accepted j data written phase hj := by
    rw [htasks] at hj
    rw [hframing]
    by_cases hji : j = i
    · subst hji
      obtain rfl := Option.some.inj (put_tasks_self.symm.trans hj)
      obtain ⟨job₀, written₀, phase₀⟩ := t₀
      obtain rfl : .send data = job₀ := hjob
      refine (h.accepted j data written₀ phase₀ h₀).imp_right fun ⟨err, herr⟩ => ?_
      subst herr
      cases hlive
    · exact h.accepted j data written phase ((put_tasks_of_ne hji).symm.trans hj)
  confirmed j hj := by
    rw [hconfirmed] at hj
    obtain ⟨t, ht, hc⟩ := h.confirmed j hj
    obtain ⟨t', ht', -, hsame⟩ := put_keeps h₀ hjob hlive ht
    obtain rfl := hsame (isOver_of_isConfirmed hc)
    exact ⟨t', by rw [htasks]; exact ht', hc⟩
  finished w hw := by
    obtain ⟨hwire, hhere, hothers⟩ := hfinished w hw
    refine ⟨hwire, fun j t hj hh => ?_⟩
    rw [htasks] at hj
    by_cases hji : j = i
    · subst hji
      obtain rfl := Option.some.inj (put_tasks_self.symm.trans hj)
      exact hhere hh
    · exact hothers j t hji ((put_tasks_of_ne hji).symm.trans hj) hh

/-- A call is recorded. -/
theorem Clean.call (hv : x.Valid) (h : x.Clean) {job : Job} {phase : Phase}
    (hphase : phase = .spawned ∨ ∃ err, phase = .refused err)
    (haccepted : ∀ data, job = .send data →
      accepts x.framing data = true ∨ ∃ err, phase = .refused err) : (x.call job phase).Clean where
  failed j t hj hf := by
    rcases call_origin hj with ⟨t', ht'⟩ | ⟨-, rfl⟩
    · obtain rfl := Option.some.inj ((call_keeps hv job phase ht').symm.trans hj)
      exact h.failed j t' ht' hf
    · rfl
  accepted j data written phase' hj := by
    rcases call_origin hj with ⟨t', ht'⟩ | ⟨-, ht⟩
    · obtain rfl := Option.some.inj ((call_keeps hv job phase ht').symm.trans hj)
      exact h.accepted j data written phase' ht'
    · obtain ⟨rfl, -, rfl⟩ : .send data = job ∧ written = [] ∧ phase' = phase := by
        simpa using ht
      exact haccepted data rfl
  confirmed j hj := by
    obtain ⟨t, ht, hc⟩ := h.confirmed j hj
    exact ⟨t, call_keeps hv job phase ht, hc⟩
  finished w hw := by
    obtain ⟨hwire, hholding⟩ := h.finished w hw
    refine ⟨hwire, fun j t hj hh => ?_⟩
    rcases call_origin hj with ⟨t', ht'⟩ | ⟨-, rfl⟩
    · obtain rfl := Option.some.inj ((call_keeps hv job phase ht').symm.trans hj)
      exact hholding j t' ht' hh
    · rfl

theorem accepts_of_admission (x : SendRun) (data : List UInt8) :
    accepts x.framing data = true ∨ ∃ err, x.admission data = .refused err := by
  cases ha : accepts x.framing data with
  | true => exact Or.inl rfl
  | false =>
      refine Or.inr ?_
      unfold admission
      split
      · exact ⟨_, rfl⟩
      · exact ⟨_, by rw [ha]; rfl⟩

theorem mem_confirmedSends (h : i ∈ x.confirmedSends) :
    ∃ t, x.tasks i = some t ∧ t.isConfirmed = true := by
  obtain ⟨-, hany⟩ := List.mem_filter.mp h
  cases ht : x.tasks i with
  | none => simp [ht] at hany
  | some t => exact ⟨t, rfl, by simpa [ht] using hany⟩

/-- A step that does not finish the stream keeps what is known of the finish. -/
theorem Clean.unchanged (h : x.Clean) {t₀ t₁ : Task} (h₀ : x.tasks i = some t₀)
    (hsame : t₁.phase.isHolding = true → t₀.phase.isHolding = true ∧ t₁.written = t₀.written)
    (w : List UInt8) (hw : x.finishedAt = some w) :
    x.wire = w ∧ (t₁.phase.isHolding = true → t₁.written = []) ∧
      ∀ j t, j ≠ i → x.tasks j = some t → t.phase.isHolding = true → t.written = [] := by
  obtain ⟨hwire, hholding⟩ := h.finished w hw
  refine ⟨hwire, fun hh => ?_, fun j t _ ht hh => hholding j t ht hh⟩
  obtain ⟨hh₀, hwritten⟩ := hsame hh
  exact hwritten.trans (hholding i t₀ h₀ hh₀)

theorem Clean.moves {y : SendRun} {a : SendAction} (hv : x.Valid) (h : x.Clean)
    (ha : x.NoTransportError a) (hm : x.Moves a y) : y.Clean := by
  cases hm with
  | send data =>
      refine h.call hv (x.admission_cases data) fun data' hdata => ?_
      obtain rfl := Job.send.inj hdata
      exact x.accepts_of_admission data
  | close _ =>
      have hcall : (x.call .close .spawned).Clean := h.call hv (Or.inl rfl) nofun
      refine ⟨hcall.failed, hcall.accepted, fun i hi => ?_, hcall.finished⟩
      obtain ⟨t, ht, hc⟩ := mem_confirmedSends hi
      exact ⟨t, call_keeps hv _ _ ht, hc⟩
  | closed _ => exact h
  | poll h₀ => exact h.move h₀ rfl rfl rfl rfl rfl nofun (h.unchanged h₀ nofun)
  | acquire h₀ _ =>
      have hwritten := (hv.fits _ _ h₀).wrote.unserved rfl
      refine h.move h₀ rfl rfl rfl rfl rfl nofun fun w hw => ?_
      obtain ⟨hwire, hholding⟩ := h.finished w hw
      exact ⟨hwire, fun _ => hwritten, fun j t _ ht hh => hholding j t ht hh⟩
  | write h₀ _ hopen =>
      refine h.move h₀ rfl rfl rfl rfl rfl nofun fun w hw => ?_
      rw [show x.finishedAt = some w from hw] at hopen
      cases hopen
  | next h₀ => exact h.move h₀ rfl rfl rfl rfl rfl nofun (h.unchanged h₀ fun _ => ⟨rfl, rfl⟩)
  | @fail i err job written rest h₀ =>
      obtain ⟨w, hw⟩ := Option.isSome_iff_exists.mp ha
      have hnothing : written = [] := (h.finished w hw).2 i _ h₀ rfl
      exact h.move h₀ rfl rfl rfl rfl rfl (fun _ => hnothing) (h.unchanged h₀ nofun)
  | release h₀ => exact h.move h₀ rfl rfl rfl rfl rfl nofun (h.unchanged h₀ nofun)
  | @finish i written h₀ =>
      refine h.move h₀ rfl rfl rfl rfl rfl nofun fun w hw => ⟨?_, nofun, fun j t hji ht hh => ?_⟩
      · have hwire : x.finishedAt.getD x.wire = w := Option.some.inj hw
        cases hf : x.finishedAt with
        | none => rwa [hf] at hwire
        | some w' =>
            rw [hf] at hwire
            exact ((h.finished w' hf).1).trans hwire
      · have hi := (hv.holding h₀ rfl).1
        rw [(hv.holding ht hh).1] at hi
        exact absurd (Option.some.inj hi) hji
  | @complete i job written result h₀ =>
      refine h.move h₀ rfl rfl rfl rfl rfl (fun hf => ?_) (h.unchanged h₀ nofun)
      cases result with
      | ok _ => cases hf
      | error err =>
          have hnothing : written = [] := h.failed i _ h₀ rfl
          exact hnothing

theorem clean_invariant (handle : UInt64) (framing : Framing) :
    (sendMachine handle framing).Invariant NoTransportError (fun x => x.Valid ∧ x.Clean) :=
  (send_valid_invariant handle framing).guard.under
    (fun x hx => by
      have hnew : x = { handle, framing } := hx
      subst hnew
      exact clean_new handle framing)
    (fun _ _ _ hv h ha hy => h.moves hv ha (step_moves hy))

/-! ## The law -/

/-- The sends that have written their bytes, in the order of admission. -/
def sent (x : SendRun) : List ℕ := x.served.filter fun i => (x.tasks i).any Task.hasSent

theorem mem_sent (ht : x.tasks i = some t) (hi : i ∈ x.served) :
    i ∈ x.sent ↔ t.hasSent = true := by
  simp [sent, hi, ht]

/-- A task that was admitted and has not sent holds the lock, or it wrote nothing. -/
theorem Clean.written_of_served (hv : x.Valid) (h : x.Clean) (hi : i ∈ x.served)
    (hfree : x.holder ≠ some i) (hsent : (x.tasks i).any Task.hasSent = false) :
    x.writtenBy i = [] := by
  cases ht : x.tasks i with
  | none => simp [writtenBy, ht]
  | some t =>
      obtain ⟨job, written, phase⟩ := t
      have hfits := hv.fits i _ ht
      have hserved : phase.isServed = true := hfits.served.1 hi
      have hholding : phase.isHolding = false := by
        simpa [hfits.holds] using hfree
      cases job with
      | close => exact hv.close_written (isSendAt_of_tasks ht)
      | send data =>
          rw [writtenBy_of_tasks ht]
          refine h.failed i _ ht ?_
          simpa [ht, Task.hasSent, Job.isSend, hserved, hholding] using hsent

theorem Valid.bytesOf_sent (hv : x.Valid) (hi : i ∈ x.sent) : x.writtenBy i = x.bytesOf i := by
  obtain ⟨hserved, hany⟩ := List.mem_filter.mp hi
  cases ht : x.tasks i with
  | none => simp [ht] at hany
  | some t =>
      obtain ⟨job, written, phase⟩ := t
      have hwrote := (hv.fits i _ ht).wrote
      have hsent : Task.hasSent ⟨job, written, phase⟩ = true := by simpa [ht] using hany
      have hbytes : x.bytesOf i = job.bytes x.framing := by simp [bytesOf, ht]
      rw [writtenBy_of_tasks ht, hbytes]
      cases phase with
      | refused _ => simp [Task.hasSent, Phase.isServed] at hsent
      | spawned => simp [Task.hasSent, Phase.isServed] at hsent
      | waiting => simp [Task.hasSent, Phase.isServed] at hsent
      | holding _ => simp [Task.hasSent, Phase.isHolding] at hsent
      | released result =>
          cases result with
          | ok _ => exact hwrote
          | error _ => simp [Task.hasSent, Phase.isFailed] at hsent
      | done result =>
          cases result with
          | ok _ => exact hwrote
          | error _ => simp [Task.hasSent, Phase.isFailed] at hsent

/-- What the tasks of a list that do not hold the lock have written. -/
theorem Clean.flatMap_written (hv : x.Valid) (h : x.Clean) {l : List ℕ}
    (hl : ∀ i ∈ l, i ∈ x.served ∧ x.holder ≠ some i) :
    l.flatMap x.writtenBy =
      (l.filter fun i => (x.tasks i).any Task.hasSent).flatMap x.bytesOf := by
  have hfilter : (l.filter fun i => (x.tasks i).any Task.hasSent).flatMap x.writtenBy =
      l.flatMap x.writtenBy :=
    flatMap_filter_of_nil fun i hi hsent => h.written_of_served hv (hl i hi).1 (hl i hi).2 hsent
  rw [← hfilter]
  refine List.flatMap_congr fun i hi => hv.bytesOf_sent ?_
  obtain ⟨hi, hany⟩ := List.mem_filter.mp hi
  exact List.mem_filter.mpr ⟨(hl i hi).1, hany⟩

theorem Clean.wire (hv : x.Valid) (h : x.Clean) :
    ∃ part, x.wire = x.sent.flatMap x.bytesOf ++ part ∧ (x.holder = none → part = []) ∧
      ∀ i, x.holder = some i → i ∉ x.sent ∧ part <+: x.bytesOf i ∧ part = x.writtenBy i := by
  cases hh : x.holder with
  | none =>
      refine ⟨[], ?_, fun _ => rfl, nofun⟩
      rw [List.append_nil, hv.wire, sent]
      exact h.flatMap_written hv fun i hi => ⟨hi, by simp [hh]⟩
  | some i =>
      obtain ⟨t, ht⟩ : ∃ t, x.tasks i = some t := by
        cases ht : x.tasks i with
        | none => exact absurd hh (hv.fresh i ht).2.2
        | some t => exact ⟨t, rfl⟩
      have hfits := hv.fits i t ht
      have hholding := hfits.holds.1 hh
      obtain ⟨-, before, hserved, hnew⟩ := hv.holding ht hholding
      have hnot : t.hasSent = false := by simp [Task.hasSent, hholding]
      have hsent : x.sent = before.filter fun i => (x.tasks i).any Task.hasSent := by
        rw [sent, hserved, List.filter_append]
        simp [ht, hnot]
      refine ⟨x.writtenBy i, ?_, nofun, fun j hj => ?_⟩
      · have hbefore := h.flatMap_written hv (l := before) fun j hj => by
          refine ⟨hserved ▸ List.mem_append_left _ hj, fun hji => hnew ?_⟩
          obtain rfl := Option.some.inj (hh.symm.trans hji)
          exact hj
        rw [hv.wire, hserved, List.flatMap_append, List.flatMap_singleton, hbefore, hsent]
      · obtain rfl := Option.some.inj hj
        refine ⟨fun hmem => ?_, ?_, rfl⟩
        · rw [hsent] at hmem
          exact hnew (List.mem_of_mem_filter hmem)
        · rw [writtenBy_of_tasks ht]
          simpa [bytesOf, ht] using hfits.wrote.front

theorem Moves.framing {y : SendRun} {a : SendAction} (hm : x.Moves a y) :
    y.framing = x.framing := by
  cases hm <;> rfl

theorem framed_invariant (handle : UInt64) (framing : Framing) :
    (sendMachine handle framing).Invariant NoTransportError
      (fun x => (x.Valid ∧ x.Clean) ∧ x.framing = framing) :=
  (clean_invariant handle framing).under
    (fun x hx => by
      have hnew : x = { handle, framing } := hx
      subst hnew
      rfl)
    (fun _ _ _ _ hframing _ hy => (step_moves hy).framing.trans hframing)

theorem accepts_framed {data : List UInt8} (h : accepts .framed data = true) :
    data.length ≤ MAX_FRAME_SIZE := by
  simpa [accepts] using h

theorem send_of_mem_sent (hi : i ∈ x.sent) :
    ∃ data written phase, x.tasks i = some ⟨.send data, written, phase⟩ ∧
      phase.isServed = true := by
  obtain ⟨-, hany⟩ := List.mem_filter.mp hi
  cases ht : x.tasks i with
  | none => simp [ht] at hany
  | some t =>
      obtain ⟨job, written, phase⟩ := t
      have hsent : Task.hasSent ⟨job, written, phase⟩ = true := by simpa [ht] using hany
      simp only [Task.hasSent, Bool.and_eq_true] at hsent
      obtain ⟨⟨⟨hjob, hserved⟩, -⟩, -⟩ := hsent
      cases job with
      | close => cases hjob
      | send data => exact ⟨data, written, phase, rfl, hserved⟩

theorem Valid.mem_sent_of_isConfirmed (hv : x.Valid) (ht : x.tasks i = some t)
    (hc : t.isConfirmed = true) : i ∈ x.sent := by
  obtain ⟨job, written, phase⟩ := t
  simp only [Task.isConfirmed, Bool.and_eq_true] at hc
  obtain ⟨hjob, hphase⟩ := hc
  cases phase with
  | refused _ => cases hphase
  | spawned => cases hphase
  | waiting => cases hphase
  | holding _ => cases hphase
  | released _ => cases hphase
  | done result =>
      cases result with
      | error _ => cases hphase
      | ok _ =>
          refine (mem_sent ht ((hv.fits i _ ht).served.2 rfl)).2 ?_
          simpa [Task.hasSent, Phase.isServed, Phase.isHolding, Phase.isFailed] using hjob

/-- The call was answered on the caller's thread. -/
theorem Valid.refused (hv : x.Valid) {err : IrohError} (ht : x.tasks i = some t)
    (hp : t.phase = .refused err) : i ∉ x.sent ∧ x.holder ≠ some i := by
  have hfits := hv.fits i t ht
  constructor
  · intro hi
    have hserved := hfits.served.1 (List.mem_of_mem_filter hi)
    rw [hp] at hserved
    cases hserved
  · intro hi
    have hholding := hfits.holds.1 hi
    rw [hp] at hholding
    cases hholding

/-- Nothing was written since the finish, and no frame was left in the middle. -/
theorem Clean.wire_finished (hv : x.Valid) (h : x.Clean) {w : List UInt8}
    (hw : x.finishedAt = some w) : x.wire = w ∧ w = x.sent.flatMap x.bytesOf := by
  obtain ⟨hwire, hholding⟩ := h.finished w hw
  obtain ⟨part, hsplit, hfree, hheld⟩ := h.wire hv
  refine ⟨hwire, ?_⟩
  rw [← hwire, hsplit]
  cases hh : x.holder with
  | none => rw [hfree hh, List.append_nil]
  | some i =>
      cases ht : x.tasks i with
      | none => exact absurd hh (hv.fresh i ht).2.2
      | some t =>
          have hnothing := hholding i t ht ((hv.fits i t ht).holds.1 hh)
          rw [(hheld i hh).2.2, writtenBy_of_tasks ht, hnothing, List.append_nil]

/-- In every run of a framed stream on which no write fails for a reason of the
transport, at every point, the wire carries whole frames of distinct sends. -/
theorem whole_frames (handle : UInt64) {x : SendRun}
    (hx : (sendMachine handle .framed).Reachable NoTransportError x) :
    ∃ order, x.WholeFrames order := by
  obtain ⟨⟨hv, hc⟩, hframing⟩ := (framed_invariant handle .framed).reachable hx
  obtain ⟨part, hwire, hfree, hheld⟩ := hc.wire hv
  refine ⟨x.sent, ?distinct, ?sends, ?wire, ?completed, ?refused, ?finish⟩
  case distinct => exact hv.nodup.1.filter _
  case sends =>
    intro i hi
    obtain ⟨data, written, phase, ht, hserved⟩ := send_of_mem_sent hi
    refine ⟨data, written, phase, ht, ?_⟩
    rcases hc.accepted i data written phase ht with haccepts | ⟨err, rfl⟩
    · exact accepts_framed (hframing ▸ haccepts)
    · cases hserved
  case wire => exact ⟨part, hwire, hfree, fun i hi => ⟨(hheld i hi).1, (hheld i hi).2.1⟩⟩
  case completed => exact fun i data written ht => hv.mem_sent_of_isConfirmed ht rfl
  case refused => exact fun i t err ht hp => hv.refused ht hp
  case finish =>
    intro w hw
    obtain ⟨hat, hall⟩ := hc.wire_finished hv hw
    refine ⟨hat, hall, fun i hi => ?_⟩
    obtain ⟨t, ht, hconfirmed⟩ := hc.confirmed i hi
    exact hv.mem_sent_of_isConfirmed ht hconfirmed

/-- A send that is confirmed, then the close, and a send that was issued before the close
and comes after the finish. -/
def finishedEarly : List SendAction :=
  [.send [7], .poll 0, .acquire 0, .write 0 3, .write 0 1, .next 0, .write 0 1, .next 0, .release 0,
    .complete 0, .send [9], .close, .poll 2, .poll 1, .acquire 2, .finish 2, .acquire 1,
    .fail 1 (.closedStream "closed stream"), .complete 1]

def closedBetween : SendRun :=
  ((sendMachine 1 .framed).run { handle := 1, framing := .framed } finishedEarly).getD
    { handle := 1, framing := .framed }

theorem whole_frames_closed :
    closedBetween.wire = [0, 0, 0, 1, 7] ∧ ∃ order, closedBetween.WholeFrames order :=
  ⟨by decide, whole_frames 1 (Machine.reachable_of_guarded finishedEarly rfl (by decide) rfl)⟩

end SendRun

end Iroh.Core
