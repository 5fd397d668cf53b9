import ReactNativeIroh.Core.CancelProtocol

/-!
# What the log of a transfer says

The bridge calls `onStart` with the handle of the transfer, and settles the promise with its
result, which is a success only if the destination was written.  No entry is taken back.
-/

namespace Iroh.Core

open Transition

variable {β : Type*}

/-- The bridge gives the handle out, or settles the promise. -/
def TransferEvent.isAnswer : TransferEvent → Bool
  | .started _ | .settled _ => true
  | _ => false

def TransferEvent.settled? : TransferEvent → Option Outcome
  | .settled r => some r
  | _ => none

def OuterPhase.done? : OuterPhase → Option Outcome
  | .done r => some r
  | _ => none

theorem OuterPhase.done?_eq_some {p : OuterPhase} {r : Outcome} (h : p.done? = some r) :
    p = .done r := by
  cases p with
  | done => exact congrArg _ (Option.some.inj h)
  | _ => cases h

namespace Download

variable {endpoint : ℕ} {dest : Path} {content : β} {d d' : Download β} {a : InnerAction}
  {events : List TransferEvent}

/-- Neither is for the inner task to do. -/
theorem answer_step (h : DownloadSteps endpoint dest content d a d' events) :
    ∀ e ∈ events, e.isAnswer = false := fun e he => by
  cases e with
  | started | settled => cases h.events _ he
  | _ => rfl

/-- The destination was written if the inner task is, or will be, through with it. -/
structure Writes (k : InnerTask) (log : List TransferEvent) : Prop where
  exported : k.op = .finished .done → .written ∈ log
  returned : k.phase = .returned (.ok ()) → .written ∈ log

theorem Writes.to {k k' : InnerTask} {log : List TransferEvent} (h : Writes k log)
    (hop : k'.op = k.op) (hphase : k'.phase ≠ .returned (.ok ())) : Writes k' log :=
  ⟨fun ho => h.exported (hop ▸ ho), fun hr => absurd hr hphase⟩

theorem Writes.next {k : InnerTask} {log : List TransferEvent} (h : Writes k log)
    (finished : Bool) (item : Option GetProgressItem) : Writes (k.next finished item).1 log := by
  rcases item with _ | ⟨bytes | _ | text⟩
  · cases finished with
    | false => exact h.to rfl (by simp [InnerTask.next, InnerTask.finish])
    | true => exact ⟨by simp [InnerTask.next], by simp [InnerTask.next]⟩
  · exact h.to rfl (by simp [InnerTask.next, InnerTask.goto])
  · exact h.to rfl (by simp [InnerTask.next, InnerTask.goto])
  · exact h.to rfl (by simp [InnerTask.next, InnerTask.finish])

theorem Writes.step {log : List TransferEvent}
    (h : DownloadSteps endpoint dest content d a d' events) (hw : Writes d.inner log) :
    Writes d'.inner (log ++ events) := by
  have hgrown : Writes d.inner (log ++ events) :=
    ⟨fun ho => List.mem_append_left _ (hw.exported ho),
      fun hr => List.mem_append_left _ (hw.returned hr)⟩
  cases h with
  | poll | yield => exact ⟨hgrown.exported, hgrown.returned⟩
  | drop | opened | connected | due | kept | emit =>
      exact hgrown.to rfl (by simp [InnerTask.goto])
  | closed | unconnected | panic => exact hgrown.to rfl (by simp [InnerTask.finish])
  | next hk hp => exact hgrown.next _ _
  | resume hk hp ho =>
      unfold InnerTask.resume
      split
      · exact ⟨by simp, fun _ => hgrown.exported ho⟩
      · exact ⟨by simp, by simp [InnerTask.finish]⟩
      · refine ⟨fun hf => ?_, hgrown.returned⟩
        cases hf
  | @effect fault phase phase' fs ho he =>
      refine ⟨fun hf => ?_, hgrown.returned⟩
      obtain rfl : phase' = .done := FileOp.finished.inj hf
      rcases exportStep_cases he with ⟨_, hp, -⟩ | ⟨-, hp, -⟩ | ⟨-, hp, -⟩ | ⟨rfl, -, -⟩
      · cases hp
      · rcases hp with hp | hp <;> cases hp
      · cases hp
      · exact List.mem_append_right _ (List.mem_singleton.mpr rfl)

end Download

namespace Transfer

variable {t t' : Transfer β}

/-- What holds of the log of a transfer. -/
structure Logged (t : Transfer β) : Prop where
  started : ∀ h, .started h ∈ t.log → h = t.handle
  answers : t.log.filterMap TransferEvent.settled? = t.outer.done?.toList
  writes : Download.Writes t.inner t.log
  result : t.outer.result = some (.ok ()) → .written ∈ t.log

theorem not_mem_of_answer {events : List TransferEvent} (h : ∀ e ∈ events, e.isAnswer = false)
    {log : List TransferEvent} {e : TransferEvent} (he : e.isAnswer = true)
    (hmem : e ∈ log ++ events) : e ∈ log := by
  rcases List.mem_append.mp hmem with hold | hnew
  · exact hold
  · rw [h e hnew] at he
    cases he

theorem settled?_of_answer {events : List TransferEvent}
    (h : ∀ e ∈ events, e.isAnswer = false) : events.filterMap TransferEvent.settled? = [] :=
  List.filterMap_eq_nil_iff.mpr fun e he => by
    cases e with
    | settled => cases h _ he
    | _ => rfl

/-- What the promise was settled with is the result. -/
theorem Logged.settled (ht : t.Logged) {r : Outcome} (h : .settled r ∈ t.log) :
    t.outer = .done r := by
  have hmem : r ∈ t.log.filterMap TransferEvent.settled? := List.mem_filterMap.mpr ⟨_, h, rfl⟩
  rw [ht.answers] at hmem
  exact OuterPhase.done?_eq_some (Option.mem_toList.mp hmem)

theorem Logged.innerStep {fs fs' : FileSystem β} {a : InnerAction} (ht : t.Logged)
    (h : t.innerStep fs a = some (t', fs')) : t'.Logged := by
  obtain ⟨d, events, hd, rfl, -⟩ := innerStep_eq_some h
  have hanswer := Download.answer_step hd
  exact ⟨fun h hmem => ht.started h (not_mem_of_answer hanswer rfl hmem),
    by rw [List.filterMap_append, settled?_of_answer hanswer, List.append_nil, ht.answers],
    Download.Writes.step hd ht.writes, fun hr => List.mem_append_left _ (ht.result hr)⟩

/-- An entry that is no answer. -/
theorem Logged.append (ht : t.Logged) {e : TransferEvent} (he : e.isAnswer = false)
    {outer : OuterPhase} {coalescer : Coalescer}
    (hdone : outer.done? = t.outer.done?) (hresult : outer.result = t.outer.result) :
    Logged { t with outer, coalescer, log := t.log ++ [e] } := by
  have hanswer : ∀ e' ∈ [e], e'.isAnswer = false := fun e' he' => List.mem_singleton.mp he' ▸ he
  refine ⟨fun h hmem => ht.started h (not_mem_of_answer hanswer rfl hmem), ?_,
    ⟨fun ho => List.mem_append_left _ (ht.writes.exported ho),
      fun hr => List.mem_append_left _ (ht.writes.returned hr)⟩,
    fun hr => List.mem_append_left _ (ht.result (hresult ▸ hr))⟩
  rw [List.filterMap_append, settled?_of_answer hanswer, List.append_nil, ht.answers, hdone]

/-- The task of the transfer goes on and records nothing. -/
theorem Logged.goto (ht : t.Logged) {outer : OuterPhase} {coalescer : Coalescer}
    (hdone : outer.done? = t.outer.done?)
    (hresult : outer.result = some (.ok ()) → .written ∈ t.log) :
    Logged { t with outer, coalescer } :=
  ⟨ht.started, ht.answers.trans (congrArg _ hdone.symm), ht.writes, hresult⟩

theorem Logged.outerStep {a : OuterAction} (ht : t.Logged) (h : OuterSteps t a t') :
    t'.Logged := by
  have hanswers {p : OuterPhase} (ho : t.outer = p) :
      t.log.filterMap TransferEvent.settled? = p.done?.toList := ho ▸ ht.answers
  cases h with
  | poll ho => exact ⟨ht.started, (hanswers ho :), ⟨ht.writes.exported, nofun⟩, nofun⟩
  | cancelled ho =>
      exact ⟨ht.started, (hanswers ho :), ⟨ht.writes.exported, ht.writes.returned⟩, nofun⟩
  | joined ho hj =>
      refine ht.goto (by rw [ho]; rfl) fun hr => ?_
      obtain rfl := Option.some.inj hr
      refine ht.writes.returned ?_
      cases hp : t.inner.phase with
      | returned r =>
          rw [hp] at hj
          obtain rfl := Option.some.inj hj
          rfl
      | panicked | dropped | unspawned | lookup | dialing | streaming | reporting | emitting
        | exporting =>
          rw [hp] at hj
          cases hj
  | complete ho => exact ht.append rfl (by rw [ho]; rfl) (by rw [ho]; rfl)
  | flushed ho => exact ht.goto (by rw [ho]; rfl) fun hr => ht.result (by rw [ho]; exact hr)
  | nothing ho => exact ht.goto (by rw [ho]; rfl) fun hr => ht.result (by rw [ho]; exact hr)
  | forward ho => exact ht.append rfl (by rw [ho]; rfl) (by rw [ho]; rfl)
  | @settle result ho =>
      refine ⟨fun h hmem => ?_, ?_, ⟨fun hx => ?_, fun hx => ?_⟩, fun hr => ?_⟩
      · rcases List.mem_append.mp hmem with hold | hnew
        · exact ht.started h hold
        · cases List.mem_singleton.mp hnew
      · rw [List.filterMap_append, hanswers ho]
        rfl
      · exact List.mem_append_left _ (ht.writes.exported hx)
      · exact List.mem_append_left _ (ht.writes.returned hx)
      · exact List.mem_append_left _ (ht.result (by rw [ho]; exact hr))

theorem Logged.start (ht : t.Logged) (h : t.start = some t') : t'.Logged := by
  unfold Transfer.start at h
  split at h
  · cases h
  · obtain rfl := Option.some.inj h
    refine ⟨fun h hmem => ?_, ?_, ⟨fun hx => ?_, fun hx => ?_⟩, fun hr => ?_⟩
    · rcases List.mem_append.mp hmem with hold | hnew
      · exact ht.started h hold
      · exact TransferEvent.started.inj (List.mem_singleton.mp hnew)
    · rw [List.filterMap_append, ht.answers]
      exact List.append_nil _
    · exact List.mem_append_left _ (ht.writes.exported hx)
    · exact List.mem_append_left _ (ht.writes.returned hx)
    · exact List.mem_append_left _ (ht.result hr)

end Transfer

theorem logged_invariant : (transferMachine β).Invariant Any fun x =>
    ∀ i t, x.transfers i = some t → t.Logged := by
  refine TransferRun.transfers_invariant ?_ ?_ ?_ ?_
  · intro handle endpoint dest content
    exact ⟨nofun, rfl, ⟨nofun, nofun⟩, nofun⟩
  · intro x i t a t' fs hi ht _ hm
    cases hm with
    | start h => exact ht.start h
    | inner h => exact ht.innerStep h
    | outer h => exact ht.outerStep h
  · intro t result ht ho
    exact ht.goto (by rw [ho]; rfl) fun hr => ht.result (by rw [ho]; exact hr)
  · intro t b s ht
    exact ⟨ht.started, ht.answers, ht.writes, ht.result⟩

/-- The host calls `blob_download` or `blob_download_cancel`. -/
def TransferAction.ofHost : TransferAction β → Bool
  | .download .. | .cancel _ => true
  | _ => false

namespace TransferRun

variable {x y : TransferRun β} {a : TransferAction β} {i j : ℕ} {t t' : Transfer β}

theorem log_move {fs fs' : FileSystem β} (h : Move fs i t a t' fs') : t.log <+: t'.log := by
  cases h with
  | start h =>
      unfold Transfer.start at h
      split at h
      · cases h
      · obtain rfl := Option.some.inj h
        exact List.prefix_append _ _
  | inner h =>
      obtain ⟨d, events, -, rfl, -⟩ := Transfer.innerStep_eq_some h
      exact List.prefix_append _ _
  | outer h =>
      cases h with
      | poll | cancelled | joined | flushed | nothing => exact List.prefix_rfl
      | complete | forward | settle => exact List.prefix_append _ _

theorem log_put (hi : x.transfers i = some t) (hg : t.log <+: t'.log) {u : Transfer β}
    (hj : x.transfers j = some u) :
    ∃ u', (x.put i t').transfers j = some u' ∧ u.log <+: u'.log := by
  rcases eq_or_ne j i with rfl | hne
  · obtain rfl := Option.some.inj (hi.symm.trans hj)
    exact ⟨t', put_transfers_self, hg⟩
  · exact ⟨u, (put_transfers_of_ne hne).trans hj, List.prefix_rfl⟩

/-- No step takes an entry back. -/
theorem log_step (hx : x.Registered) (h : x.step a = some y) (hj : x.transfers j = some t) :
    ∃ t', y.transfers j = some t' ∧ t.log <+: t'.log := by
  cases steps h with
  | download =>
      have hne := Nat.ne_of_lt (hx.handle j t hj).1
      exact ⟨t, (put_transfers_of_ne hne).trans hj, List.prefix_rfl⟩
  | move ht hm => exact log_put ht (log_move hm) hj
  | remove ht =>
      refine log_put ht ?_ hj
      exact List.prefix_rfl
  | take _ _ ht =>
      refine log_put ht ?_ hj
      exact List.prefix_rfl
  | signal _ _ ht =>
      refine log_put ht ?_ hj
      exact List.prefix_rfl
  | dropState ht =>
      refine log_put ht ?_ hj
      exact List.prefix_rfl
  | cancel | found | missing | taken | unheard => exact ⟨t, hj, List.prefix_rfl⟩

end TransferRun

end Iroh.Core
