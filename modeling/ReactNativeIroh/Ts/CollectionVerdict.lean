import Mathlib.Algebra.Order.BigOperators.Group.List
import ReactNativeIroh.Ts.CollectionMoves

/-!
# What a collection makes of its children

The outcome of a collection is the `verdict` on its children: the first error a reaction
brought, or success once every child has succeeded.  Its progress is their aggregate.
Each move keeps both.
-/

namespace Iroh

open JsString Transition

namespace CollectionRun

variable {φ : Type*} {x y : CollectionRun φ} {k : ℕ}

/-- The errors the reactions brought, in the order they ran. -/
def errors (x : CollectionRun φ) : List IrohError :=
  x.reacted.filterMap fun k => (x.outcome? k).join

/-- What the collection is settled with, going by its children. -/
def verdict (x : CollectionRun φ) : Option (Option IrohError) :=
  match x.errors with
  | e :: _ => some (some e)
  | [] => if x.collection.children.all x.succeeded then some none else none

/-- The aggregate is told as the children are. -/
def Monotone (x : CollectionRun φ) : Prop :=
  (∀ k ∈ x.collection.children, (x.told k).Pairwise (· ≤ ·)) →
    x.collection.hub.told.Pairwise (· ≤ ·) ∧ ∀ b ∈ x.collection.hub.told, b ≤ x.collection.total

/-- The last event is the total, or there was none and nothing to tell. -/
def UpToDate (x : CollectionRun φ) : Prop :=
  x.collection.hub.watchable.pushed.getLast? = some { bytesReceived := x.collection.total } ∨
    x.collection.hub.watchable.pushed = [] ∧ x.collection.total = 0 ∧ x.reacted = []

/-- The outcome of the collection is the verdict on its children, and its progress is
their aggregate. -/
structure Judged (x : CollectionRun φ) : Prop where
  outcome : x.collection.hub.outcome = x.verdict
  stopped : x.errors ≠ [] → ∀ k ∈ x.collection.children,
    x.run.downloads.Has TransferController.Stopped k
  upToDate : x.errors = [] → x.UpToDate
  monotone : x.Monotone

/-! ## What a move tells -/

/-- The consumers of the collection hear nothing, or the total while it is not settled. -/
def Tells (x y : CollectionRun φ) : Prop :=
  y.collection.hub.watchable.pushed = x.collection.hub.watchable.pushed ∨
    x.collection.isSettled = false ∧
      y.collection.hub.watchable.pushed =
        x.collection.hub.watchable.pushed ++ [{ bytesReceived := y.collection.total }]

theorem Tracks.tells (hx : x.Tracks) (ha : x.Advances y) : x.Tells y := by
  have hdispatch : (x.collection.hub.dispatch
      { bytesReceived := y.collection.total }).watchable.pushed =
        y.collection.hub.watchable.pushed → x.Tells y := by
    intro hpushed
    cases hs : x.collection.hub.isSettled with
    | true =>
        rw [hx.hub.dispatch_settled hs] at hpushed
        exact Or.inl hpushed.symm
    | false =>
        rw [hx.hub.dispatch_pushed hs] at hpushed
        exact Or.inr ⟨hs, hpushed.symm⟩
  cases ha.move with
  | quiet hub reacted told => exact Or.inl (by rw [hub])
  | progress k bytesReceived child unsettled hub reacted self other => exact hdispatch (by rw [hub])
  | succeeded k child fresh hub reacted outcome told =>
      refine hdispatch ?_
      rw [hub]
      exact (ProgressHub.settle_ite_pushed _ _).symm
  | failed k e child fresh hub reacted outcome told stopped =>
      left
      rw [hub, ProgressHub.settle_pushed]

/-- A child is told no less when it is told more. -/
theorem latest_le_of_told {b : ℕ} (htold : y.told k = x.told k ++ [b])
    (h : (y.told k).Pairwise (· ≤ ·)) : x.latest k ≤ y.latest k := by
  rw [latest, latest, htold, List.getLastD_concat]
  rw [htold] at h
  cases hlast : (x.told k).getLast? with
  | none => simp [List.getLastD_eq_getLast?, hlast]
  | some a =>
      have hmem := List.mem_of_getLast? hlast
      have hle := (List.pairwise_append.mp h).2.2 a hmem b (List.mem_singleton_self b)
      simpa [List.getLastD_eq_getLast?, hlast] using hle

/-- The children's events, without the last ones. -/
theorem Advances.told (ha : x.Advances y) (hk : k ∈ x.collection.children) :
    y.told k = x.told k ∨ ∃ b, y.told k = x.told k ++ [b] := by
  cases ha.move with
  | quiet hub reacted told => exact Or.inl (told k hk)
  | progress k' bytesReceived child unsettled hub reacted self other =>
      by_cases h : k = k'
      · exact Or.inr ⟨bytesReceived, h ▸ self⟩
      · exact Or.inl (other k h)
  | succeeded k' child fresh hub reacted outcome told => exact Or.inl (told k hk)
  | failed k' e child fresh hub reacted outcome told stopped => exact Or.inl (told k hk)

theorem Monotone.advances (hx : x.Tracks) (hy : y.Tracks) (ha : x.Advances y) (h : x.Monotone) :
    y.Monotone := by
  intro hsorted
  have hbefore : ∀ k ∈ x.collection.children,
      (x.told k).Pairwise (· ≤ ·) ∧ x.latest k ≤ y.latest k := by
    intro k hk
    have hk' := hsorted k (ha.children ▸ hk)
    rcases ha.told hk with hsame | ⟨b, htold⟩
    · exact ⟨hsame ▸ hk', le_of_eq (by rw [latest, latest, hsame])⟩
    · refine ⟨?_, latest_le_of_told htold hk'⟩
      rw [htold] at hk'
      exact (List.pairwise_append.mp hk').1
  have htotal : x.collection.total ≤ y.collection.total := by
    rw [hx.total, hy.total, ha.children]
    exact List.sum_le_sum fun k hk => (hbefore k hk).2
  obtain ⟨hpairwise, hle⟩ := h fun k hk => (hbefore k hk).1
  rcases hx.tells ha with hpushed | ⟨-, hpushed⟩
  · rw [ProgressHub.told, hpushed]
    exact ⟨hpairwise, fun b hb => (hle b hb).trans htotal⟩
  · rw [ProgressHub.told, hpushed, List.map_append]
    refine ⟨?_, fun b hb => ?_⟩
    · refine List.pairwise_append.mpr ⟨hpairwise, List.pairwise_singleton _ _, fun a ha b hb => ?_⟩
      obtain rfl := List.mem_singleton.mp hb
      exact (hle a ha).trans htotal
    · rcases List.mem_append.mp hb with hb | hb
      · exact (hle b hb).trans htotal
      · exact le_of_eq (List.mem_singleton.mp hb)

/-! ## What a move does to the verdict -/

section Move

variable (hx : x.Tracks) (ha : x.Advances y)
include hx ha

theorem outcome_reacted (hk : k ∈ x.reacted) : y.outcome? k = x.outcome? k := by
  obtain ⟨hchild, r, hr⟩ := hx.reacted k hk
  rw [hr, ha.outcome k hchild r hr]

/-- The errors of these reactions stay what they were. -/
theorem errors_of_reacted {ks : List ℕ} (hreacted : y.reacted = x.reacted ++ ks) :
    y.errors = x.errors ++ ks.filterMap fun k => (y.outcome? k).join := by
  have hold : x.reacted.filterMap (fun k => (y.outcome? k).join) = x.errors :=
    List.filterMap_congr fun k hk => by rw [outcome_reacted hx ha hk]
  rw [errors, hreacted, List.filterMap_append, hold]

theorem errors_same (hreacted : y.reacted = x.reacted) : y.errors = x.errors := by
  have hnone : y.reacted = x.reacted ++ [] := by rw [hreacted, List.append_nil]
  simpa using errors_of_reacted hx ha hnone

theorem errors_grow : ∃ es, y.errors = x.errors ++ es := by
  cases ha.move with
  | quiet hub reacted told => exact ⟨[], by simpa using errors_same hx ha reacted⟩
  | progress k bytesReceived child unsettled hub reacted self other =>
      exact ⟨[], by simpa using errors_same hx ha reacted⟩
  | succeeded k child fresh hub reacted outcome told => exact ⟨_, errors_of_reacted hx ha reacted⟩
  | failed k e child fresh hub reacted outcome told stopped =>
      exact ⟨_, errors_of_reacted hx ha reacted⟩

theorem succeeded_of_reacted (hreacted : y.reacted = x.reacted) (k : ℕ) :
    y.succeeded k = x.succeeded k := by
  by_cases hk : k ∈ x.reacted
  · exact succeeded_congr (by rw [hreacted]) (outcome_reacted hx ha hk)
  · simp [succeeded, hreacted, hk]

theorem verdict_of_reacted (hreacted : y.reacted = x.reacted) : y.verdict = x.verdict := by
  have hsucceeded : y.succeeded = x.succeeded := funext (succeeded_of_reacted hx ha hreacted)
  rw [verdict, verdict, errors_same hx ha hreacted, ha.children, hsucceeded]

end Move

theorem verdict_of_errors {e : IrohError} {es : List IrohError} (h : x.errors = e :: es) :
    x.verdict = some (some e) := by
  rw [verdict, h]

theorem verdict_of_none (h : x.errors = []) :
    x.verdict = if x.collection.children.all x.succeeded then some none else none := by
  rw [verdict, h]

/-- A child whose reaction has not run has not succeeded. -/
theorem not_all_succeeded (hk : k ∈ x.collection.children) (h : x.succeeded k = false) :
    x.collection.children.all x.succeeded = false :=
  List.all_eq_false.mpr ⟨k, hk, by simp [h]⟩

theorem not_succeeded_of_fresh (h : k ∉ x.reacted) : x.succeeded k = false := by
  simp [succeeded, h]

namespace Judged

variable (hj : x.Judged)
include hj

/-- While a child has not succeeded, the collection is settled with the first error, or
not at all. -/
theorem outcome_of_not (hk : k ∈ x.collection.children) (h : x.succeeded k = false) :
    x.collection.hub.outcome = x.errors.head?.map some := by
  rw [hj.outcome, verdict, not_all_succeeded hk h]
  cases x.errors with
  | nil => rfl
  | cons e es => rfl

theorem outcome_advances (hx : x.Tracks) (ha : x.Advances y) :
    y.collection.hub.outcome = y.verdict := by
  cases ha.move with
  | quiet hub reacted told => rw [hub, hj.outcome, verdict_of_reacted hx ha reacted]
  | progress k bytesReceived child unsettled hub reacted self other =>
      rw [hub, verdict_of_reacted hx ha reacted]
      exact hj.outcome
  | succeeded k child fresh hub reacted outcome told =>
      have hbefore := hj.outcome_of_not child (not_succeeded_of_fresh fresh)
      have herrors : y.errors = x.errors := by
        simpa [outcome] using errors_of_reacted hx ha reacted
      rw [hub, verdict, herrors]
      cases he : x.errors with
      | nil =>
          rw [he] at hbefore
          dsimp only
          split
          · rw [ProgressHub.settle_outcome]
            simp [ProgressHub.dispatch, hbefore]
          · exact hbefore
      | cons e es =>
          rw [he] at hbefore
          dsimp only
          split
          · rw [ProgressHub.settle_outcome]
            simp [ProgressHub.dispatch, hbefore]
          · exact hbefore
  | failed k e child fresh hub reacted outcome told stopped =>
      have hbefore := hj.outcome_of_not child (not_succeeded_of_fresh fresh)
      have herrors : y.errors = x.errors ++ [e] := by
        simpa [outcome] using errors_of_reacted hx ha reacted
      rw [hub, ProgressHub.settle_outcome, hbefore, verdict, herrors]
      cases x.errors with
      | nil => rfl
      | cons e' es => rfl

theorem unsettled_of_not (hk : k ∈ x.collection.children) (h : x.succeeded k = false)
    (he : x.errors = []) : x.collection.isSettled = false := by
  rw [CollectionTransfer.isSettled, ProgressHub.isSettled_eq, hj.outcome_of_not hk h, he]
  rfl

theorem stopped_advances (hx : x.Tracks) (ha : x.Advances y) (he : y.errors ≠ []) :
    ∀ k ∈ y.collection.children, y.run.downloads.Has TransferController.Stopped k := by
  intro k hk
  by_cases hbefore : x.errors = []
  · cases ha.move with
    | quiet hub reacted told =>
        exact absurd ((errors_same hx ha reacted).trans hbefore) he
    | progress k bytesReceived child unsettled hub reacted self other =>
        exact absurd ((errors_same hx ha reacted).trans hbefore) he
    | succeeded k child fresh hub reacted outcome told =>
        refine absurd ?_ he
        simpa [outcome, hbefore] using errors_of_reacted hx ha reacted
    | failed k' e child fresh hub reacted outcome told stopped =>
        exact stopped (hj.unsettled_of_not child (not_succeeded_of_fresh fresh) hbefore) k hk
  · rw [ha.children] at hk
    exact ha.stopped k hk (hj.stopped hbefore k hk)

theorem upToDate_advances (hx : x.Tracks) (hy : y.Tracks) (ha : x.Advances y)
    (he : y.errors = []) : y.UpToDate := by
  have hbefore : x.errors = [] := by
    obtain ⟨es, hes⟩ := errors_grow hx ha
    exact (List.append_eq_nil_iff.mp (hes.symm.trans he)).1
  -- the total was just dispatched, since the collection was not settled before
  have hdispatch : x.collection.isSettled = false → y.collection.hub.watchable.pushed =
      (x.collection.hub.dispatch { bytesReceived := y.collection.total }).watchable.pushed →
      y.UpToDate := by
    intro hs hpushed
    left
    rw [hpushed, hx.hub.dispatch_pushed hs, List.getLast?_concat]
  cases ha.move with
  | quiet hub reacted told =>
      have htotal : y.collection.total = x.collection.total := by
        rw [hx.total, hy.total, ha.children]
        refine congrArg List.sum (List.map_congr_left fun k hk => ?_)
        rw [latest, latest, told k hk]
      rw [UpToDate, hub, htotal, reacted]
      exact hj.upToDate hbefore
  | progress k bytesReceived child unsettled hub reacted self other =>
      have hnot : x.succeeded k = false := by simp [succeeded, unsettled]
      exact hdispatch (hj.unsettled_of_not child hnot hbefore) (by rw [hub])
  | succeeded k child fresh hub reacted outcome told =>
      refine hdispatch (hj.unsettled_of_not child (not_succeeded_of_fresh fresh) hbefore) ?_
      rw [hub]
      exact ProgressHub.settle_ite_pushed _ _
  | failed k e child fresh hub reacted outcome told stopped =>
      have herrors : y.errors = x.errors ++ [e] := by
        simpa [outcome] using errors_of_reacted hx ha reacted
      rw [herrors] at he
      exact absurd he (by simp)

/-- Every move keeps what the collection makes of its children. -/
theorem advances (hx : x.Tracks) (hy : y.Tracks) (ha : x.Advances y) : y.Judged :=
  ⟨hj.outcome_advances hx ha, hj.stopped_advances hx ha, hj.upToDate_advances hx hy ha,
    hj.monotone.advances hx hy ha⟩

end Judged

end CollectionRun

end Iroh
