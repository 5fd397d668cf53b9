import Mathlib.Data.List.Basic
import Mathlib.Data.List.Range
import ReactNativeIroh.Lib.Machine

/-!
# Handing over a bounded queue

Items arrive at a bounded queue, which has at most one owner at a time.  The owner takes
the first item, stamps it with the next ticket and hands it over; then it takes the next one
or gives the queue up.  An item that arrives at a full queue is refused, and so may be
any other.  The items that wait may be lost all at once.  Tickets are also given elsewhere.

`Lawful` holds in every run: each item that arrived is in exactly one place, the items are
handed over in the order in which they arrived, and no ticket is given twice.
-/

namespace Transition

universe u

/-- An item that was handed over, by whom and with which ticket. -/
structure Delivery (ω : Type u) where
  owner : ω
  item : ℕ
  ticket : ℕ

/-- The items are numbered in the order in which they arrive. -/
structure Handover (ω : Type u) where
  arrived : ℕ := 0
  waiting : List ℕ := []
  owner : Option ω := none
  /-- The item the owner has taken, and its ticket once it is stamped. -/
  carried : Option (ℕ × Option ℕ) := none
  next : ℕ := 1
  others : List ℕ := []
  handed : List (Delivery ω) := []
  lost : List ℕ := []
  refused : List ℕ := []

inductive HandoverAction (ω : Type u) where
  | arrive
  | refuse
  | acquire (o : ω)
  | take
  | stamp
  | deliver
  | release
  | lose
  /-- A ticket is given elsewhere. -/
  | other

namespace Handover

variable {ω : Type u}

def step (capacity : ℕ) (h : Handover ω) : HandoverAction ω → Option (Handover ω)
  | .arrive =>
      if h.waiting.length < capacity then
        some { h with arrived := h.arrived + 1, waiting := h.waiting ++ [h.arrived] }
      else none
  | .refuse => some { h with arrived := h.arrived + 1, refused := h.refused ++ [h.arrived] }
  | .acquire o =>
      match h.owner with
      | none => some { h with owner := some o }
      | some _ => none
  | .take =>
      match h.owner, h.carried, h.waiting with
      | some _, none, i :: waiting => some { h with carried := some (i, none), waiting }
      | _, _, _ => none
  | .stamp =>
      match h.carried with
      | some (i, none) => some { h with carried := some (i, some h.next), next := h.next + 1 }
      | _ => none
  | .deliver =>
      match h.owner, h.carried with
      | some o, some (i, some k) =>
          some { h with carried := none, handed := h.handed ++ [⟨o, i, k⟩] }
      | _, _ => none
  | .release =>
      match h.carried with
      | none => some { h with owner := none }
      | some _ => none
  | .lose => some { h with waiting := [], lost := h.lost ++ h.waiting }
  | .other => some { h with next := h.next + 1, others := h.others ++ [h.next] }

/-- The items that were handed over, are carried or wait, in the order of their places. -/
def line (h : Handover ω) : List ℕ :=
  h.handed.map Delivery.item ++ h.carried.toList.map Prod.fst ++ h.waiting

/-- The tickets given so far. -/
def tickets (h : Handover ω) : List ℕ :=
  h.handed.map Delivery.ticket ++ h.carried.toList.filterMap Prod.snd ++ h.others

structure Lawful (capacity : ℕ) (h : Handover ω) : Prop where
  bounded : h.waiting.length ≤ capacity
  order : h.line.Pairwise (· < ·)
  account : (h.line ++ h.lost ++ h.refused).Perm (List.range h.arrived)
  fresh : h.tickets.Nodup
  given : ∀ k ∈ h.tickets, k < h.next

end Handover

/-- The machine of a queue of this capacity. -/
def handoverMachine (ω : Type u) (capacity : ℕ) : Machine (Handover ω) (HandoverAction ω) where
  init h := h = {}
  step := Handover.step capacity

namespace Handover

variable {ω : Type u} {capacity : ℕ} {h h' : Handover ω}

/-! ## The runs of one action -/

variable {o : ω} {i k : ℕ} {waiting : List ℕ}

theorem leads_arrive (hw : h.waiting.length < capacity) :
    (handoverMachine ω capacity).Leads Any h
      { h with arrived := h.arrived + 1, waiting := h.waiting ++ [h.arrived] } :=
  .single .arrive trivial (if_pos hw)

theorem leads_refuse :
    (handoverMachine ω capacity).Leads Any h
      { h with arrived := h.arrived + 1, refused := h.refused ++ [h.arrived] } :=
  .single .refuse trivial rfl

theorem leads_acquire (ho : h.owner = none) :
    (handoverMachine ω capacity).Leads Any h { h with owner := some o } := by
  refine .single (.acquire o) trivial ?_
  simp only [handoverMachine, step, ho]

theorem leads_take (ho : h.owner = some o) (hc : h.carried = none)
    (hw : h.waiting = i :: waiting) :
    (handoverMachine ω capacity).Leads Any h { h with carried := some (i, none), waiting } := by
  refine .single .take trivial ?_
  simp only [handoverMachine, step, ho, hc, hw]

theorem leads_stamp (hc : h.carried = some (i, none)) :
    (handoverMachine ω capacity).Leads Any h
      { h with carried := some (i, some h.next), next := h.next + 1 } := by
  refine .single .stamp trivial ?_
  simp only [handoverMachine, step, hc]

theorem leads_deliver (ho : h.owner = some o) (hc : h.carried = some (i, some k)) :
    (handoverMachine ω capacity).Leads Any h
      { h with carried := none, handed := h.handed ++ [⟨o, i, k⟩] } := by
  refine .single .deliver trivial ?_
  simp only [handoverMachine, step, ho, hc]

theorem leads_release (hc : h.carried = none) :
    (handoverMachine ω capacity).Leads Any h { h with owner := none } := by
  refine .single .release trivial ?_
  simp only [handoverMachine, step, hc]

theorem leads_lose :
    (handoverMachine ω capacity).Leads Any h
      { h with waiting := [], lost := h.lost ++ h.waiting } :=
  .single .lose trivial rfl

theorem leads_other :
    (handoverMachine ω capacity).Leads Any h
      { h with next := h.next + 1, others := h.others ++ [h.next] } :=
  .single .other trivial rfl

/-! ## The law -/

theorem Lawful.lt_arrived (hl : h.Lawful capacity) {i : ℕ} (hi : i ∈ h.line) : i < h.arrived := by
  have := (hl.account.mem_iff (a := i)).mp (by simp [hi])
  exact List.mem_range.mp this

theorem Lawful.arrive (hl : h.Lawful capacity) (hc : h.waiting.length < capacity) :
    Lawful capacity { h with arrived := h.arrived + 1, waiting := h.waiting ++ [h.arrived] } where
  bounded := by
    simp only [List.length_append, List.length_singleton]
    exact hc
  order := by
    have heq : line { h with arrived := h.arrived + 1, waiting := h.waiting ++ [h.arrived] } =
        h.line ++ [h.arrived] := (List.append_assoc ..).symm
    rw [heq, List.pairwise_append]
    refine ⟨hl.order, List.pairwise_singleton _ _, ?_⟩
    intro i hi j hj
    rw [List.mem_singleton.mp hj]
    exact hl.lt_arrived hi
  account := by
    have heq : line { h with arrived := h.arrived + 1, waiting := h.waiting ++ [h.arrived] } =
        h.line ++ [h.arrived] := (List.append_assoc ..).symm
    rw [heq, List.range_succ]
    refine List.Perm.trans ?_ (hl.account.append_right [h.arrived])
    simp only [List.append_assoc]
    exact (List.perm_append_comm.trans (by simp [List.append_assoc])).append_left h.line
  fresh := hl.fresh
  given := hl.given

theorem Lawful.refuse (hl : h.Lawful capacity) :
    Lawful capacity { h with arrived := h.arrived + 1, refused := h.refused ++ [h.arrived] } where
  bounded := hl.bounded
  order := hl.order
  account := by
    rw [List.range_succ, ← List.append_assoc]
    exact hl.account.append_right [h.arrived]
  fresh := hl.fresh
  given := hl.given

theorem Lawful.take (hl : h.Lawful capacity) {i : ℕ} {waiting : List ℕ} (hc : h.carried = none)
    (hw : h.waiting = i :: waiting) :
    Lawful capacity { h with carried := some (i, none), waiting } := by
  have hline : line { h with carried := some (i, none), waiting } = h.line := by
    simp [line, hc, hw]
  have htickets : tickets { h with carried := some (i, none), waiting } = h.tickets := by
    simp [tickets, hc]
  have hb := hl.bounded
  rw [hw, List.length_cons] at hb
  exact ⟨Nat.le_of_succ_le hb, by rw [hline]; exact hl.order, by rw [hline]; exact hl.account,
    by rw [htickets]; exact hl.fresh, by rw [htickets]; exact hl.given⟩

/-- A ticket that is given next was not given before. -/
theorem Lawful.next_notMem (hl : h.Lawful capacity) : h.next ∉ h.tickets := by
  intro hmem
  exact absurd (hl.given _ hmem) (Nat.lt_irrefl _)

theorem Lawful.stamp (hl : h.Lawful capacity) {i : ℕ} (hc : h.carried = some (i, none)) :
    Lawful capacity { h with carried := some (i, some h.next), next := h.next + 1 } := by
  have hline : line { h with carried := some (i, some h.next), next := h.next + 1 } = h.line := by
    simp [line, hc]
  have htickets : (tickets
      { h with carried := some (i, some h.next), next := h.next + 1 }).Perm
      (h.next :: h.tickets) := by
    simp only [tickets, hc, Option.toList_some, List.filterMap_cons, List.filterMap_nil,
      List.append_nil, List.append_assoc, List.cons_append, List.nil_append]
    exact List.perm_middle
  refine ⟨hl.bounded, by rw [hline]; exact hl.order, by rw [hline]; exact hl.account, ?_, ?_⟩
  · rw [htickets.nodup_iff, List.nodup_cons]
    exact ⟨hl.next_notMem, hl.fresh⟩
  · intro k hk
    obtain rfl | hk := List.mem_cons.mp (htickets.mem_iff.mp hk)
    · exact Nat.lt_succ_self _
    · exact Nat.lt_succ_of_lt (hl.given k hk)

theorem Lawful.deliver (hl : h.Lawful capacity) {o : ω} {i k : ℕ}
    (hc : h.carried = some (i, some k)) :
    Lawful capacity { h with carried := none, handed := h.handed ++ [⟨o, i, k⟩] } := by
  have hline : line { h with carried := none, handed := h.handed ++ [⟨o, i, k⟩] } = h.line := by
    simp [line, hc]
  have htickets : tickets { h with carried := none, handed := h.handed ++ [⟨o, i, k⟩] } =
      h.tickets := by
    simp [tickets, hc]
  exact ⟨hl.bounded, by rw [hline]; exact hl.order, by rw [hline]; exact hl.account,
    by rw [htickets]; exact hl.fresh, by rw [htickets]; exact hl.given⟩

theorem Lawful.lose (hl : h.Lawful capacity) :
    Lawful capacity { h with waiting := [], lost := h.lost ++ h.waiting } where
  bounded := Nat.zero_le _
  order := by
    refine hl.order.sublist ?_
    simp only [line, List.append_nil]
    exact List.sublist_append_left _ _
  account := by
    refine List.Perm.trans ?_ hl.account
    simp only [line, List.append_nil, List.append_assoc]
    refine List.Perm.append_left _ (List.Perm.append_left _ ?_)
    rw [← List.append_assoc, ← List.append_assoc]
    exact List.perm_append_comm.append_right _
  fresh := hl.fresh
  given := hl.given

theorem Lawful.other (hl : h.Lawful capacity) :
    Lawful capacity { h with next := h.next + 1, others := h.others ++ [h.next] } := by
  have htickets : tickets { h with next := h.next + 1, others := h.others ++ [h.next] } =
      h.tickets ++ [h.next] := (List.append_assoc ..).symm
  refine ⟨hl.bounded, hl.order, hl.account, ?_, ?_⟩
  · rw [htickets]
    exact List.nodup_append.mpr ⟨hl.fresh, List.pairwise_singleton _ _, fun a ha b hb heq => by
      rw [heq, List.mem_singleton.mp hb] at ha
      exact hl.next_notMem ha⟩
  · rw [htickets]
    intro k hk
    obtain hk | hk := List.mem_append.mp hk
    · exact Nat.lt_succ_of_lt (hl.given k hk)
    · rw [List.mem_singleton.mp hk]
      exact Nat.lt_succ_self _

theorem lawful_invariant (ω : Type u) (capacity : ℕ) :
    (handoverMachine ω capacity).Invariant Any (Lawful capacity) where
  init := by
    rintro h rfl
    exact ⟨Nat.zero_le _, .nil, .refl _, .nil, nofun⟩
  step := by
    intro h a h' hl _ hs
    cases a with
    | arrive =>
        obtain ⟨hc, hs⟩ := Option.ite_none_right_eq_some.mp hs
        obtain rfl := Option.some.inj hs
        exact hl.arrive hc
    | refuse =>
        obtain rfl := Option.some.inj hs
        exact hl.refuse
    | acquire o =>
        simp only [handoverMachine, Handover.step] at hs
        split at hs
        · obtain rfl := Option.some.inj hs
          exact ⟨hl.bounded, hl.order, hl.account, hl.fresh, hl.given⟩
        · cases hs
    | take =>
        simp only [handoverMachine, Handover.step] at hs
        split at hs
        · rename_i hc hw
          obtain rfl := Option.some.inj hs
          exact hl.take hc hw
        · cases hs
    | stamp =>
        simp only [handoverMachine, Handover.step] at hs
        split at hs
        · rename_i hc
          obtain rfl := Option.some.inj hs
          exact hl.stamp hc
        · cases hs
    | deliver =>
        simp only [handoverMachine, Handover.step] at hs
        split at hs
        · rename_i hc
          obtain rfl := Option.some.inj hs
          exact hl.deliver hc
        · cases hs
    | release =>
        simp only [handoverMachine, Handover.step] at hs
        split at hs
        · obtain rfl := Option.some.inj hs
          exact ⟨hl.bounded, hl.order, hl.account, hl.fresh, hl.given⟩
        · cases hs
    | lose =>
        obtain rfl := Option.some.inj hs
        exact hl.lose
    | other =>
        obtain rfl := Option.some.inj hs
        exact hl.other

end Handover

end Transition
