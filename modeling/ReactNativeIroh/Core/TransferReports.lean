import ReactNativeIroh.Core.TransferLog
import ReactNativeIroh.Lib.Conflation

/-!
# The progress of a transfer

`download_inner` reports each count it reads, and the coalescer passes some of them on.  The
flush before the settlement passes on the one that is kept.  So unless the transfer was
cancelled, what the bridge emits comes from the reports, in order, and it ends with the
newest one (`transfer_log_law`).

A transfer that was cancelled promises nothing of the kind: the inner task may still be
polled, and the value it offers then overtakes the one that is flushed.
-/

namespace Iroh.Core

open Transition
open Conflation (Conflates)

variable {β : Type*}

namespace TransferEvent

def reported? : TransferEvent → Option ℕ
  | .progress bytes => some bytes
  | _ => none

def emitted? : TransferEvent → Option ℕ
  | .emitted bytes => some bytes
  | _ => none

/-- The bridge calls the host back, but for the handle. -/
def isHostCall : TransferEvent → Bool
  | .emitted _ | .settled _ => true
  | _ => false

end TransferEvent

/-! ## The coalescer -/

namespace Coalescer

variable {c c' : Coalescer} {value now : ℕ}

theorem offerAt_due {bytes : ℕ} (h : c.offerAt value now = (c', some bytes)) :
    bytes = value ∧ c'.pending = none := by
  unfold offerAt at h
  split at h
  · obtain ⟨rfl, hbytes⟩ := Prod.mk.inj h
    exact ⟨(Option.some.inj hbytes).symm, rfl⟩
  · cases (Prod.mk.inj h).2

theorem offerAt_kept (h : c.offerAt value now = (c', none)) : c'.pending = some value := by
  unfold offerAt at h
  split at h
  · cases (Prod.mk.inj h).2
  · obtain ⟨rfl, -⟩ := Prod.mk.inj h
    rfl

theorem flush_some {bytes : ℕ} (h : c.flush now = (c', some bytes)) :
    c.pending = some bytes ∧ c'.pending = none := by
  unfold flush at h
  split at h
  · next value hp =>
      obtain ⟨rfl, hbytes⟩ := Prod.mk.inj h
      exact ⟨hp.trans hbytes, rfl⟩
  · cases (Prod.mk.inj h).2

theorem flush_none (h : c.flush now = (c', none)) : c.pending = none ∧ c' = c := by
  unfold flush at h
  split at h
  · cases (Prod.mk.inj h).2
  · next hp => exact ⟨hp, (Prod.mk.inj h).1.symm⟩

end Coalescer

/-! ## The inner task -/

/-- The value that has still to be passed to the sink. -/
def InnerPhase.kept (phase : InnerPhase) (coalescer : Coalescer) : Option ℕ :=
  match phase with
  | .emitting _ bytes => some bytes
  | _ => coalescer.pending

/-- Nothing that was offered is missing but superseded values.  A task that did not return may
have lost the newest. -/
def Told (phase : InnerPhase) (kept : Option ℕ) (reports emits : List ℕ) : Prop :=
  match phase with
  | .reporting _ bytes => ∃ old, reports = old ++ [bytes] ∧ Conflates old emits kept
  | .panicked _ | .dropped => (emits ++ kept.toList).Sublist reports
  | _ => Conflates reports emits kept

theorem Told.sublist {phase : InnerPhase} {kept : Option ℕ} {reports emits : List ℕ}
    (h : Told phase kept reports emits) : (emits ++ kept.toList).Sublist reports := by
  cases phase with
  | panicked | dropped => exact h
  | reporting finished bytes =>
      obtain ⟨old, rfl, hold⟩ := h
      exact hold.kept_sublist.trans (List.sublist_append_left old [bytes])
  | _ => exact Conflates.kept_sublist h

/-- The value that is kept is passed to the sink. -/
theorem Told.take {phase : InnerPhase} {bytes : ℕ} {reports emits : List ℕ}
    (h : Told phase (some bytes) reports emits) : Told phase none reports (emits ++ [bytes]) := by
  cases phase with
  | panicked | dropped =>
      show (emits ++ [bytes] ++ []).Sublist reports
      rw [List.append_nil]
      exact h
  | reporting finished offered =>
      obtain ⟨old, rfl, hold⟩ := h
      exact ⟨old, rfl, hold.take⟩
  | _ => exact Conflates.take h

/-- What the inner task has told, and what it keeps.  Nothing else is kept while a value is
passed to the sink. -/
structure Relays (phase : InnerPhase) (coalescer : Coalescer) (reports emits : List ℕ) : Prop where
  told : Told phase (phase.kept coalescer) reports emits
  free : ∀ finished bytes, phase = .emitting finished bytes → coalescer.pending = none

/-- The counts a step of the inner task reports or passes on. -/
def counts (events : List TransferEvent) : List ℕ × List ℕ :=
  (events.filterMap TransferEvent.reported?, events.filterMap TransferEvent.emitted?)

section Download

variable {endpoint : ℕ} {dest : Path} {content : β} {d d' : Download β} {a : InnerAction}
  {events : List TransferEvent}

theorem InnerPhase.isLive_of_joined {phase : InnerPhase} {r : Outcome}
    (h : phase.joined = some r) : phase.isLive = false := by
  cases phase with
  | returned | panicked | dropped => rfl
  | _ => cases h

theorem counts_fileEvents (phase phase' : ExportPhase) :
    counts (fileEvents phase phase') = ([], []) := by
  unfold fileEvents
  split <;> rfl

theorem hostCalls_fileEvents (phase phase' : ExportPhase) :
    (fileEvents phase phase').filter TransferEvent.isHostCall = [] := by
  unfold fileEvents
  split <;> rfl

/-- A task that is not alive neither reports nor offers. -/
theorem Download.dead_step (h : DownloadSteps endpoint dest content d a d' events)
    (hlive : d.inner.phase.isLive = false) :
    d'.inner.phase = d.inner.phase ∧ d'.coalescer = d.coalescer ∧ counts events = ([], []) ∧
      events.filter TransferEvent.isHostCall = [] := by
  have hdead {p : InnerPhase} (hp : d.inner.phase = p) (hl : p.isLive = true) : False := by
    rw [hp, hl] at hlive
    cases hlive
  cases h with
  | poll hl => exact (hdead rfl hl).elim
  | yield hw =>
      refine (hdead rfl ?_).elim
      cases hp : d.inner.phase with
      | dialing | streaming | exporting => rfl
      | _ =>
          rw [hp] at hw
          cases hw
  | drop hl => exact (hdead rfl hl).elim
  | opened hk | closed hk | connected hk | unconnected hk | next hk | due hk | kept hk | emit hk
    | resume hk => exact (hdead hk rfl).elim
  | panic hl => exact (hdead rfl hl).elim
  | effect => exact ⟨rfl, rfl, counts_fileEvents _ _, hostCalls_fileEvents _ _⟩

variable {reports emits : List ℕ}

/-- A value that is being passed to the sink is the newest one that was offered. -/
theorem Relays.emitting {finished : Bool} {bytes : ℕ} {coalescer : Coalescer}
    (h : Relays (.emitting finished bytes) coalescer reports emits) :
    Conflates reports emits (some bytes) ∧ coalescer.pending = none :=
  ⟨h.told, h.free finished bytes rfl⟩

/-- The task ends before its time. -/
theorem Relays.lose {phase phase' : InnerPhase} {coalescer : Coalescer}
    (h : Relays phase coalescer reports emits)
    (hp : (∃ text, phase' = .panicked text) ∨ phase' = .dropped) :
    Relays phase' coalescer reports emits := by
  have hpending : (emits ++ coalescer.pending.toList).Sublist reports := by
    cases phase with
    | emitting finished bytes =>
        rw [h.emitting.2, Option.toList_none, List.append_nil]
        exact h.emitting.1.sublist
    | _ => exact h.told.sublist
  rcases hp with ⟨text, rfl⟩ | rfl
  · exact ⟨hpending, nofun⟩
  · exact ⟨hpending, nofun⟩

theorem Relays.step (h : DownloadSteps endpoint dest content d a d' events)
    (hd : Relays d.inner.phase d.coalescer reports emits) :
    Relays d'.inner.phase d'.coalescer (reports ++ (counts events).1)
      (emits ++ (counts events).2) := by
  have hkept {p : InnerPhase} (hp : d.inner.phase = p) : Relays p d.coalescer reports emits :=
    hp ▸ hd
  have hsame : counts [] = ([], []) := rfl
  cases h with
  | poll | yield =>
      rw [hsame, List.append_nil, List.append_nil]
      exact ⟨hd.told, hd.free⟩
  | drop =>
      rw [hsame, List.append_nil, List.append_nil]
      exact hd.lose (.inr rfl)
  | panic =>
      rw [hsame, List.append_nil, List.append_nil]
      exact hd.lose (.inl ⟨_, rfl⟩)
  | opened hk | closed hk | connected hk | unconnected hk =>
      rw [hsame, List.append_nil, List.append_nil]
      exact ⟨(hkept hk).told, nofun⟩
  | @next finished item hk =>
      have hold : Conflates (reports ++ []) (emits ++ []) d.coalescer.pending := by
        rw [List.append_nil, List.append_nil]
        exact (hkept hk).told
      rcases item with _ | ⟨bytes | _ | text⟩
      · cases finished with
        | false => exact ⟨hold, nofun⟩
        | true => exact ⟨hold, nofun⟩
      · refine ⟨⟨reports, rfl, ?_⟩, nofun⟩
        rw [List.append_nil] at hold
        exact hold
      · exact ⟨hold, nofun⟩
      · exact ⟨hold, nofun⟩
  | @due finished offered bytes now coalescer hk hp ho =>
      obtain ⟨old, rfl, hold⟩ := (hkept hk).told
      obtain ⟨rfl, hfree⟩ := Coalescer.offerAt_due ho
      rw [hsame, List.append_nil, List.append_nil]
      exact ⟨hold.keep bytes, fun _ _ _ => hfree⟩
  | @kept finished offered now coalescer hk hp ho =>
      obtain ⟨old, rfl, hold⟩ := (hkept hk).told
      rw [hsame, List.append_nil, List.append_nil]
      refine ⟨?_, nofun⟩
      show Conflates _ _ coalescer.pending
      rw [Coalescer.offerAt_kept ho]
      exact hold.keep offered
  | @emit finished bytes hk =>
      obtain ⟨hold, hfree⟩ := (hkept hk).emitting
      refine ⟨?_, nofun⟩
      show Conflates (reports ++ []) (emits ++ [bytes]) d.coalescer.pending
      rw [hfree, List.append_nil]
      exact hold.take
  | @resume phase hk =>
      have hold : Conflates reports emits d.coalescer.pending := (hkept hk).told
      rw [hsame, List.append_nil, List.append_nil]
      cases phase with
      | done | failed => exact ⟨hold, nofun⟩
      | inspecting | removing | exporting =>
          refine ⟨?_, ?_⟩
          · show Told d.inner.phase (d.inner.phase.kept d.coalescer) reports emits
            exact hd.told
          · exact hd.free
  | effect =>
      rw [counts_fileEvents, List.append_nil, List.append_nil]
      exact ⟨hd.told, hd.free⟩

end Download

/-! ## The transfer -/

/-- The coalescer has been flushed. -/
def OuterPhase.isFlushed : OuterPhase → Bool
  | .forwarding _ _ | .settling _ | .done _ => true
  | _ => false

/-- The value that has still to be passed to the sink, where the inner task keeps `kept`. -/
def OuterPhase.held (kept : Option ℕ) : OuterPhase → Option ℕ
  | .forwarding _ bytes => some bytes
  | _ => kept

namespace OuterPhase

variable {p : OuterPhase} {kept : Option ℕ}

theorem result_of_flushed (h : p.isFlushed = true) : ∃ r, p.result = some r := by
  cases p with
  | forwarding r | settling r | done r => exact ⟨r, rfl⟩
  | _ => cases h

theorem held_of_result (h : p.result = none) : p.held kept = kept := by
  cases p with
  | forwarding => cases h
  | _ => rfl

end OuterPhase

namespace Transfer

variable {t t' : Transfer β}

/-- The counts that `download_inner` read. -/
def reports (t : Transfer β) : List ℕ := t.log.filterMap TransferEvent.reported?

/-- The counts that the bridge called `onProgress` with. -/
def emits (t : Transfer β) : List ℕ := t.log.filterMap TransferEvent.emitted?

/-- The calls of the host, in order. -/
def calls (t : Transfer β) : List TransferEvent := t.log.filter TransferEvent.isHostCall

/-- The transfer was not cancelled. -/
def Uncancelled (t : Transfer β) : Prop := t.outer.result ≠ some (.error .cancelled)

/-- The progress of a transfer that was not cancelled. -/
structure Relayed (t : Transfer β) : Prop where
  unspawned : t.outer = .unpolled → t.inner.phase = .unspawned
  ended : ∀ r, t.outer.result = some r → t.inner.phase.joined = some r
  told : Told t.inner.phase (t.outer.held (t.inner.phase.kept t.coalescer)) t.reports t.emits
  free : ∀ finished bytes, t.inner.phase = .emitting finished bytes → t.coalescer.pending = none
  flushed : t.outer.isFlushed = true → t.coalescer.pending = none
  last : ∀ r, t.outer = .done r → ∃ front, t.calls = front ++ [.settled r]

/-- What there is to tell of a task that has ended. -/
theorem Relayed.dead (h : t.Relayed) {r : Outcome} (hr : t.outer.result = some r) :
    t.inner.phase.isLive = false :=
  InnerPhase.isLive_of_joined (h.ended r hr)

theorem told_append {phase : InnerPhase} {kept : Option ℕ} {e : TransferEvent}
    (h : Told phase kept t.reports t.emits) (hr : e.reported? = none) (he : e.emitted? = none) :
    Told phase kept ((t.log ++ [e]).filterMap TransferEvent.reported?)
      ((t.log ++ [e]).filterMap TransferEvent.emitted?) := by
  have hnone : [e].filterMap TransferEvent.reported? = [] ∧
      [e].filterMap TransferEvent.emitted? = [] := by simp [hr, he]
  rw [List.filterMap_append, List.filterMap_append, hnone.1, hnone.2, List.append_nil,
    List.append_nil]
  exact h

theorem Relayed.innerStep {fs fs' : FileSystem β} {a : InnerAction} (ht : t.Relayed)
    (h : t.innerStep fs a = some (t', fs')) : t'.Relayed := by
  obtain ⟨d, events, hd, rfl, -⟩ := innerStep_eq_some h
  have hreports : (t.log ++ events).filterMap TransferEvent.reported? =
      t.reports ++ (counts events).1 := List.filterMap_append ..
  have hemits : (t.log ++ events).filterMap TransferEvent.emitted? =
      t.emits ++ (counts events).2 := List.filterMap_append ..
  cases hlive : t.inner.phase.isLive with
  | true =>
      have hnone : t.outer.result = none := by
        cases hr : t.outer.result with
        | none => rfl
        | some r => exact absurd (ht.dead hr) (by simp [hlive])
      have hstep := Relays.step hd ⟨OuterPhase.held_of_result hnone ▸ ht.told, ht.free⟩
      refine ⟨fun ho => ?_, fun r hr => ?_, ?_, hstep.free, fun hf => ?_, fun r ho => ?_⟩
      · rw [ht.unspawned ho] at hlive
        cases hlive
      · exact nomatch hnone.symm.trans hr
      · show Told _ (t.outer.held _) ((t.log ++ events).filterMap _) ((t.log ++ events).filterMap _)
        rw [OuterPhase.held_of_result hnone, hreports, hemits]
        exact hstep.told
      · obtain ⟨r, hr⟩ := OuterPhase.result_of_flushed hf
        exact nomatch hnone.symm.trans hr
      · rw [show t.outer = .done r from ho] at hnone
        cases hnone
  | false =>
      obtain ⟨hphase, hcoalescer, hcounts, hcalls⟩ := Download.dead_step hd hlive
      refine ⟨fun ho => hphase.trans (ht.unspawned ho), fun r hr => ?_, ?_, ?_, ?_, fun r ho => ?_⟩
      · rw [hphase]
        exact ht.ended r hr
      · show Told d.inner.phase (t.outer.held (d.inner.phase.kept d.coalescer))
          ((t.log ++ events).filterMap _) ((t.log ++ events).filterMap _)
        rw [hphase, hcoalescer, hreports, hemits, hcounts, List.append_nil, List.append_nil]
        exact ht.told
      · rw [hphase, hcoalescer]
        exact ht.free
      · rw [hcoalescer]
        exact ht.flushed
      · have hsame : (t.log ++ events).filter TransferEvent.isHostCall = t.calls := by
          rw [List.filter_append, hcalls, List.append_nil]
          rfl
        obtain ⟨front, hfront⟩ := ht.last r ho
        exact ⟨front, hsame.trans hfront⟩

theorem Relayed.start (ht : t.Relayed) (h : t.start = some t') : t'.Relayed := by
  unfold Transfer.start at h
  split at h
  · cases h
  · obtain rfl := Option.some.inj h
    refine ⟨ht.unspawned, ht.ended, told_append ht.told rfl rfl, ht.free, ht.flushed,
      fun r ho => ?_⟩
    obtain ⟨front, hfront⟩ := ht.last r ho
    exact ⟨front, (List.filter_append ..).trans ((List.append_nil _).trans hfront)⟩

/-- The task that waits goes on to `outer`, with what it has. -/
theorem Relayed.goto (ht : t.Relayed) {r : Outcome} {outer : OuterPhase}
    (hr : t.outer.result = some r) (hr' : outer.result = some r)
    (hheld : ∀ kept, outer.held kept = t.outer.held kept)
    (hf : outer.isFlushed = true → t.coalescer.pending = none)
    (hlast : ∀ r, outer = .done r → ∃ front, t.calls = front ++ [.settled r]) :
    Relayed { t with outer } := by
  refine ⟨fun ho => ?_, fun r' h => ht.ended r' (hr.trans (hr'.symm.trans h)), ?_, ht.free, hf,
    hlast⟩
  · have hnone : outer.result = none := by rw [show outer = .unpolled from ho]; rfl
    exact nomatch hnone.symm.trans hr'
  · show Told t.inner.phase (outer.held _) t.reports t.emits
    rw [hheld]
    exact ht.told

/-- It records something that is no progress. -/
theorem Relayed.append (ht : t.Relayed) {e : TransferEvent} (hr : e.reported? = none)
    (he : e.emitted? = none) (hd : ∀ r, t.outer ≠ .done r) :
    Relayed { t with log := t.log ++ [e] } :=
  ⟨ht.unspawned, ht.ended, told_append ht.told hr he, ht.free, ht.flushed,
    fun r ho => absurd ho (hd r)⟩

/-- A task that has ended passes nothing to the sink. -/
theorem Relayed.kept_eq (ht : t.Relayed) {r : Outcome} (hr : t.outer.result = some r) :
    t.inner.phase.kept t.coalescer = t.coalescer.pending := by
  have hj := ht.ended r hr
  cases hp : t.inner.phase with
  | emitting =>
      rw [hp] at hj
      cases hj
  | _ => rfl

theorem Relayed.outerStep {a : OuterAction} (ht : t.Relayed) (h : OuterSteps t a t')
    (hu : t'.Uncancelled) : t'.Relayed := by
  cases h with
  | poll ho =>
      have htold := ht.told
      rw [ho, ht.unspawned ho] at htold
      exact ⟨nofun, nofun, htold, nofun, nofun, nofun⟩
  | cancelled ho hs => exact absurd rfl hu
  | joined ho hj =>
      refine ⟨nofun, fun r hr => ?_, ?_, ht.free, nofun, nofun⟩
      · obtain rfl := Option.some.inj hr
        exact hj
      · have htold := ht.told
        rw [ho] at htold
        exact htold
  | @complete result ho =>
      have hr : t.outer.result = some result := by rw [ho]; rfl
      have hgoto : Relayed { t with outer := .flushing result } :=
        ht.goto hr rfl (fun _ => by rw [ho]; rfl) nofun nofun
      exact hgoto.append rfl rfl nofun
  | @flushed result now bytes coalescer ho hf =>
      have hr : t.outer.result = some result := by rw [ho]; rfl
      obtain ⟨hpending, hfree⟩ := Coalescer.flush_some hf
      have htold := ht.told
      rw [ho, ht.kept_eq hr, hpending] at htold
      exact ⟨nofun, fun r h => ht.ended r (hr.trans h), htold, fun _ _ _ => hfree,
        fun _ => hfree, nofun⟩
  | @nothing result now coalescer ho hf =>
      have hr : t.outer.result = some result := by rw [ho]; rfl
      obtain ⟨hpending, rfl⟩ := Coalescer.flush_none hf
      exact ht.goto hr rfl (fun _ => by rw [ho]; rfl) (fun _ => hpending) nofun
  | @forward result bytes ho =>
      have hr : t.outer.result = some result := by rw [ho]; rfl
      have hpending := ht.flushed (by rw [ho]; rfl)
      refine ⟨nofun, fun r h => ht.ended r (hr.trans h), ?_, ht.free, fun _ => hpending, nofun⟩
      have htold := ht.told
      rw [ho] at htold
      let log := t.log ++ [TransferEvent.emitted bytes]
      have hreports : log.filterMap TransferEvent.reported? = t.reports :=
        List.filterMap_append.trans (List.append_nil _)
      have hemits : log.filterMap TransferEvent.emitted? = t.emits ++ [bytes] :=
        List.filterMap_append
      show Told t.inner.phase (t.inner.phase.kept t.coalescer) (log.filterMap _) (log.filterMap _)
      rw [ht.kept_eq hr, hpending, hreports, hemits]
      exact htold.take
  | @settle result ho =>
      have hr : t.outer.result = some result := by rw [ho]; rfl
      have hsettled : Relayed { t with log := t.log ++ [.settled result] } :=
        ht.append rfl rfl (by simp [ho])
      refine hsettled.goto hr rfl (fun _ => by rw [ho]; rfl) (fun _ => ht.flushed (by rw [ho]; rfl))
        fun r hd => ?_
      rw [← OuterPhase.done.inj hd]
      exact ⟨t.calls, List.filter_append ..⟩

end Transfer

theorem relayed_invariant : (transferMachine β).Invariant Any fun x =>
    ∀ i t, x.transfers i = some t → t.Uncancelled → t.Relayed := by
  refine TransferRun.transfers_invariant ?_ ?_ ?_ ?_
  · intro handle endpoint dest content _
    exact ⟨fun _ => rfl, nofun, Conflates.nil, nofun, nofun, nofun⟩
  · intro x i t a t' fs hi ht _ hm hu
    have hold : t.Relayed := by
      refine ht fun hr => hu ?_
      exact (TransferRun.Later.move hm).result _ hr
    cases hm with
    | start h => exact hold.start h
    | inner h => exact hold.innerStep h
    | outer h => exact hold.outerStep h hu
  · intro t result ht ho hu
    have hr : t.outer.result = some result := by rw [ho]; rfl
    have hold : t.Relayed := ht fun hc => hu (hr.symm.trans hc)
    exact hold.goto hr rfl (fun _ => by rw [ho]; rfl) nofun nofun
  · intro t b s ht hu
    have hold := ht hu
    exact ⟨hold.unspawned, hold.ended, hold.told, hold.free, hold.flushed, hold.last⟩

/-! ## The law -/

/-- The task that ran the download did not return. -/
def TaskFailed (result : Outcome) : Prop :=
  ∃ text, result = .error (.internal ("download task failed: " ++ text))

namespace Transfer

variable {t : Transfer β}

/-- What the bridge tells of a transfer. -/
structure LogLaw (t : Transfer β) : Prop where
  started : ∀ h, .started h ∈ t.log → h = t.handle
  /-- The promise is settled with one result, the one of `on_complete`. -/
  settled : ∀ r, .settled r ∈ t.log → t.completions = [r]
  written : .settled (.ok ()) ∈ t.log → .written ∈ t.log
  /-- Unless the transfer is cancelled, the progress comes in order. -/
  inOrder : t.Uncancelled → t.emits.Sublist t.reports
  /-- The newest count was passed on before the promise is settled. -/
  newest : ∀ r, .settled r ∈ t.log → r ≠ .error .cancelled → ¬ TaskFailed r →
    t.emits.getLast? = t.reports.getLast?
  /-- Unless the transfer was cancelled, no call of the host follows the settlement. -/
  last : ∀ r, .settled r ∈ t.log → r ≠ .error .cancelled →
    ∃ front, t.calls = front ++ [.settled r]

/-- A task that returned, and whose progress was flushed, has told the newest count. -/
theorem Relayed.newest (h : t.Relayed) {r : Outcome} (ho : t.outer = .done r)
    (hr : ¬ TaskFailed r) : t.emits.getLast? = t.reports.getLast? := by
  have hresult : t.outer.result = some r := by rw [ho]; rfl
  have hended := h.ended r hresult
  have htold := h.told
  rw [h.kept_eq hresult, h.flushed (by rw [ho]; rfl), ho] at htold
  cases hp : t.inner.phase with
  | returned result =>
      rw [hp] at htold
      exact Conflates.caughtUp htold
  | panicked text =>
      rw [hp] at hended
      exact absurd ⟨text, (Option.some.inj hended).symm⟩ hr
  | dropped =>
      rw [hp] at hended
      exact absurd ⟨"task was cancelled", (Option.some.inj hended).symm⟩ hr
  | _ =>
      rw [hp] at hended
      cases hended

theorem logLaw (hlogged : t.Logged) (hrelayed : t.Uncancelled → t.Relayed) (hsound : t.Sound) :
    t.LogLaw := by
  have huncancelled {r : Outcome} (hr : .settled r ∈ t.log) (hne : r ≠ .error .cancelled) :
      t.Uncancelled := by
    intro hc
    rw [hlogged.settled hr] at hc
    exact hne (Option.some.inj hc)
  refine ⟨hlogged.started, fun r hr => ?_, fun hr => hlogged.result ?_,
    fun hu => (List.sublist_append_left _ _).trans (hrelayed hu).told.sublist,
    fun r hr hne hfailed => (hrelayed (huncancelled hr hne)).newest (hlogged.settled hr) hfailed,
    fun r hr hne => (hrelayed (huncancelled hr hne)).last r (hlogged.settled hr)⟩
  · rw [hsound.completions, hlogged.settled hr]
    rfl
  · rw [hlogged.settled hr]
    rfl

end Transfer

namespace TransferRun

variable {x : TransferRun β} {i : ℕ} {t : Transfer β}

theorem transfer_log_law (hx : (transferMachine β).Reachable Any x)
    (ht : x.transfers i = some t) : t.LogLaw :=
  Transfer.logLaw (logged_invariant.reachable hx i t ht) (relayed_invariant.reachable hx i t ht)
    ((valid_invariant.reachable hx).sound i t ht)

/-- Three counts are read, and the second and the third come too soon to be passed on at
once. -/
def conflatedActions : List (TransferAction ℕ) :=
  [.download 1 [47, 97] 7, .outer 0 .poll, .start 0, .inner 0 .poll, .inner 0 (.lookup true),
    .inner 0 (.connect (.ok ())), .inner 0 (.next (some (.progress 10))), .inner 0 (.offer 100),
    .inner 0 .emit, .inner 0 (.next (some (.progress 20))), .inner 0 (.offer 110),
    .inner 0 (.next (some (.progress 30))), .inner 0 (.offer 120), .inner 0 (.next (some .done)),
    .inner 0 (.next none), .inner 0 (.effect none), .inner 0 .resume, .inner 0 (.effect none),
    .inner 0 .resume, .outer 0 .joined, .remove 0, .outer 0 .complete, .outer 0 (.flush 130),
    .outer 0 .forward, .outer 0 .settle]

def conflatedRun : TransferRun ℕ :=
  ((transferMachine ℕ).run { fs := fun _ => none } conflatedActions).getD { fs := fun _ => none }

theorem conflatedRun_reachable : (transferMachine ℕ).Reachable Any conflatedRun :=
  Machine.reachable_getD (M := transferMachine ℕ) ⟨fun _ => none, rfl⟩ (by decide +kernel) _

theorem transfer_log_law_conflated :
    ∃ t, conflatedRun.transfers 0 = some t ∧ t.reports = [10, 20, 30] ∧ t.emits = [10, 30] ∧
      t.LogLaw :=
  ⟨_, rfl, rfl, rfl, transfer_log_law (i := 0) conflatedRun_reachable rfl⟩

end TransferRun

end Iroh.Core
