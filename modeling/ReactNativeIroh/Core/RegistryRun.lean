import Mathlib.Algebra.Order.Ring.Int
import Mathlib.Data.List.Perm.Basic
import ReactNativeIroh.Core.Registry
import ReactNativeIroh.Lib.Machine

/-!
# Registries that threads share

`insert` takes a handle from an atomic counter and then stores the object under the lock of the
map, so calls of other threads may come between its two steps.  `get` and `remove` are one step
each.  The counter is a `u64` and wraps.

`RegistryRun` is a registry with the calls of `insert` that hold a handle and have not stored
their object, and a record of the calls that returned.  `Bounded` lets fewer than `2 ^ 64 - 1`
calls of `insert` begin.

Used by one thread the two steps are the one step of `Registry` (`Represents.insert`).
-/

namespace Iroh.Core

open Transition

/-- A call that returned. -/
inductive RegistryEvent (α : Type*) where
  | inserted (handle : UInt64) (value : α)
  | got (handle : UInt64) (result : Except IrohError α)
  | removed (handle : UInt64) (result : Except IrohError α)

namespace RegistryEvent

variable {α : Type*}

def inserted? : RegistryEvent α → Option UInt64
  | .inserted handle _ => some handle
  | _ => none

/-- A call of `remove` for this handle. -/
def isRemove (handle : UInt64) : RegistryEvent α → Bool
  | .removed other _ => other == handle
  | _ => false

/-- A call of `remove` for this handle that succeeded. -/
def isRemoval (handle : UInt64) : RegistryEvent α → Bool
  | .removed other (.ok _) => other == handle
  | _ => false

end RegistryEvent

structure RegistryRun (α : Type*) where
  items : UInt64 → Option α := fun _ => none
  next : UInt64 := 1
  inserting : List (UInt64 × α) := []
  log : List (RegistryEvent α) := []

/-- `insert` goes on with the `k`th of the calls that hold a handle. -/
inductive RegistryAction (α : Type*) where
  | fetchAdd (value : α)
  | insert (k : ℕ)
  | get (handle : UInt64)
  | remove (handle : UInt64)

namespace RegistryRun

variable {α : Type*}

def get (x : RegistryRun α) (handle : UInt64) : Except IrohError α :=
  match x.items handle with
  | some value => .ok value
  | none => .error (.invalidHandle handle)

def step (x : RegistryRun α) : RegistryAction α → Option (RegistryRun α)
  | .fetchAdd value =>
      some { x with next := x.next + 1, inserting := x.inserting ++ [(x.next, value)] }
  | .insert k =>
      x.inserting[k]?.map fun (handle, value) =>
        { x with
          items := Function.update x.items handle (some value)
          inserting := x.inserting.eraseIdx k
          log := x.log ++ [.inserted handle value] }
  | .get handle => some { x with log := x.log ++ [.got handle (x.get handle)] }
  | .remove handle =>
      some { x with
        items := Function.update x.items handle none
        log := x.log ++ [.removed handle (x.get handle)] }

/-- The handles taken so far. -/
def handles (x : RegistryRun α) : List UInt64 :=
  x.inserting.map Prod.fst ++ x.log.filterMap RegistryEvent.inserted?

/-- Fewer than `2 ^ 64 - 1` calls of `insert` begin. -/
def Bounded (x : RegistryRun α) : RegistryAction α → Prop
  | .fetchAdd _ => x.handles.length + 1 < 2 ^ 64 - 1
  | _ => True

instance (x : RegistryRun α) : (a : RegistryAction α) → Decidable (x.Bounded a)
  | .fetchAdd _ => inferInstanceAs (Decidable (_ < _))
  | .insert _ => .isTrue trivial
  | .get _ => .isTrue trivial
  | .remove _ => .isTrue trivial

/-- The object was stored under the handle. -/
def Inserted (x : RegistryRun α) (handle : UInt64) (value : α) : Prop :=
  .inserted handle value ∈ x.log

/-- A call of `remove` took the object of the handle. -/
def Removed (x : RegistryRun α) (handle : UInt64) : Prop :=
  ∃ value, .removed handle (.ok value) ∈ x.log

end RegistryRun

def registryMachine (α : Type*) : Machine (RegistryRun α) (RegistryAction α) where
  init x := x = {}
  step := RegistryRun.step

/-! ## One thread alone -/

namespace RegistryRun

variable {α : Type*} {x : RegistryRun α} {r : Registry α}

theorem get_eq_ok {handle : UInt64} {value : α} :
    x.get handle = .ok value ↔ x.items handle = some value := by
  unfold get
  cases x.items handle <;> simp

theorem get_eq_error {handle : UInt64} {e : IrohError} :
    x.get handle = .error e ↔ x.items handle = none ∧ e = .invalidHandle handle := by
  unfold get
  cases x.items handle <;> simp [eq_comm]

/-- The shared registry holds what the registry of one thread holds. -/
structure Represents (x : RegistryRun α) (r : Registry α) : Prop where
  items : ∀ handle : UInt64, x.items handle = r.items handle.toNat
  next : x.next.toNat = r.next
  inserting : x.inserting = []

theorem Represents.get (h : x.Represents r) (handle : UInt64) :
    x.get handle = r.get handle.toNat := by
  unfold RegistryRun.get Registry.get
  rewrite [h.items, UInt64.ofNat_toNat]
  cases r.items handle.toNat with
  | none => rfl
  | some value => rfl

/-- With no step of another thread between them, the two steps of `insert` are one. -/
theorem Represents.insert (h : x.Represents r) (hbound : r.next + 1 < 2 ^ 64) (value : α) :
    ∃ y z, x.step (.fetchAdd value) = some y ∧ y.step (.insert 0) = some z ∧
      z.Represents (r.insert value) := by
  refine ⟨_, { x with
    items := Function.update x.items x.next (some value)
    next := x.next + 1
    log := x.log ++ [.inserted x.next value] }, rfl, ?_, ?_⟩
  · simp only [step, h.inserting, List.nil_append, List.getElem?_cons_zero, Option.map_some,
      List.eraseIdx_zero, List.tail_cons]
  · refine ⟨fun handle => ?_, ?_, h.inserting⟩
    · show Function.update x.items x.next (some value) handle =
        Function.update r.items r.next (some value) handle.toNat
      rcases eq_or_ne handle x.next with rfl | hne
      · rw [Function.update_self, h.next, Function.update_self]
      · have hnat : handle.toNat ≠ r.next := by
          rw [← h.next]
          exact fun he => hne (UInt64.toNat_inj.mp he)
        rw [Function.update_of_ne hne, Function.update_of_ne hnat, h.items]
    · show (x.next + 1).toNat = r.next + 1
      have hnext := h.next
      rw [UInt64.toNat_add, UInt64.toNat_one, Nat.mod_eq_of_lt (by omega), hnext]

theorem Represents.remove (h : x.Represents r) (handle : UInt64) :
    ∃ y, x.step (.remove handle) = some y ∧ y.Represents (r.remove handle.toNat) := by
  refine ⟨_, rfl, fun other => ?_, h.next, h.inserting⟩
  show Function.update x.items handle none other =
    Function.update r.items handle.toNat none other.toNat
  rcases eq_or_ne other handle with rfl | hne
  · rw [Function.update_self, Function.update_self]
  · have hnat : other.toNat ≠ handle.toNat := fun he => hne (UInt64.toNat_inj.mp he)
    rw [Function.update_of_ne hne, Function.update_of_ne hnat, h.items]

/-! ## Handles are fresh -/

/-- The handles taken are those below the counter, each once. -/
structure Fresh (next : UInt64) (handles : List UInt64) : Prop where
  next : next.toNat = handles.length + 1
  range : ∀ handle ∈ handles, 1 ≤ handle.toNat ∧ handle.toNat ≤ handles.length
  nodup : handles.Nodup

theorem Fresh.perm {next : UInt64} {handles handles' : List UInt64} (h : Fresh next handles)
    (hp : handles'.Perm handles) : Fresh next handles' where
  next := by rw [h.next, hp.length_eq]
  range handle hmem := by
    rw [hp.length_eq]
    exact h.range handle (hp.mem_iff.mp hmem)
  nodup := hp.nodup_iff.mpr h.nodup

/-- While the counter does not wrap, the next handle is a new one. -/
theorem Fresh.take {next : UInt64} {handles : List UInt64} (h : Fresh next handles)
    (hbound : handles.length + 1 < 2 ^ 64 - 1) : Fresh (next + 1) (handles ++ [next]) where
  next := by
    have hnext := h.next
    rw [UInt64.toNat_add, UInt64.toNat_one, Nat.mod_eq_of_lt (by omega), hnext,
      List.length_append, List.length_singleton]
  range handle hmem := by
    have hnext := h.next
    rw [List.length_append, List.length_singleton]
    rcases List.mem_append.mp hmem with hmem | hmem
    · have := h.range handle hmem
      omega
    · obtain rfl := List.mem_singleton.mp hmem
      omega
  nodup := by
    refine List.nodup_append.mpr ⟨h.nodup, List.pairwise_singleton _ _, ?_⟩
    rintro handle hmem other hother rfl
    have hle := (h.range handle hmem).2
    rw [List.mem_singleton.mp hother, h.next] at hle
    omega

theorem Fresh.one_le {next : UInt64} {handles : List UInt64} (h : Fresh next handles)
    {handle : UInt64} (hmem : handle ∈ handles) : 1 ≤ handle := by
  rw [UInt64.le_iff_toNat_le, UInt64.toNat_one]
  exact (h.range handle hmem).1

theorem mem_inserted? {log : List (RegistryEvent α)} {handle : UInt64} :
    handle ∈ log.filterMap RegistryEvent.inserted? ↔
      ∃ value, RegistryEvent.inserted handle value ∈ log := by
  rw [List.mem_filterMap]
  constructor
  · rintro ⟨e, he, hh⟩
    cases e with
    | inserted other value =>
        obtain rfl := Option.some.inj hh
        exact ⟨value, he⟩
    | got _ _ => cases hh
    | removed _ _ => cases hh
  · rintro ⟨value, he⟩
    exact ⟨_, he, rfl⟩

/-! ## The invariant -/

/-- How often a call of `remove` took the object of the handle. -/
def removals (log : List (RegistryEvent α)) (handle : UInt64) : ℕ :=
  log.countP (RegistryEvent.isRemoval handle)

structure Sound (x : RegistryRun α) : Prop where
  fresh : Fresh x.next x.handles
  items : ∀ handle value,
    x.items handle = some value ↔ x.Inserted handle value ∧ ¬ x.Removed handle
  stored : ∀ handle, x.Removed handle → ∃ value, x.Inserted handle value
  once : ∀ handle, removals x.log handle ≤ 1

theorem removals_eq_zero {log : List (RegistryEvent α)} {handle : UInt64} :
    removals log handle = 0 ↔ ¬ ∃ value, RegistryEvent.removed handle (.ok value) ∈ log := by
  rw [removals, List.countP_eq_zero]
  constructor
  · rintro h ⟨value, hmem⟩
    exact h _ hmem (beq_self_eq_true handle)
  · rintro h e he hr
    match e, he, hr with
    | .removed other (.ok value), he, hr =>
        obtain rfl := eq_of_beq hr
        exact h ⟨value, he⟩

theorem sound_new : ({} : RegistryRun α).Sound where
  fresh := ⟨rfl, List.forall_mem_nil _, List.nodup_nil⟩
  items _ _ := ⟨nofun, fun h => absurd h.1 List.not_mem_nil⟩
  stored := by
    rintro handle ⟨value, hmem⟩
    exact absurd hmem List.not_mem_nil
  once _ := Nat.zero_le _

/-! ## What one step does to the invariant -/

section Concat

variable {y : RegistryRun α} {e : RegistryEvent α} (hy : y.log = x.log ++ [e])

include hy

theorem inserted_concat {handle : UInt64} {value : α} :
    y.Inserted handle value ↔ x.Inserted handle value ∨ .inserted handle value = e := by
  rw [Inserted, hy, List.mem_append, List.mem_singleton, Inserted]

theorem removed_concat {handle : UInt64} :
    y.Removed handle ↔ x.Removed handle ∨ ∃ value, .removed handle (.ok value) = e := by
  simp only [Removed, hy, List.mem_append, List.mem_singleton, exists_or]

theorem removals_concat (handle : UInt64) :
    removals y.log handle = removals x.log handle + if e.isRemoval handle then 1 else 0 := by
  rw [removals, hy, List.countP_append, List.countP_singleton, removals]

end Concat

theorem Sound.fetchAdd (h : x.Sound) (hbound : x.handles.length + 1 < 2 ^ 64 - 1) (value : α) :
    Sound { x with next := x.next + 1, inserting := x.inserting ++ [(x.next, value)] } := by
  refine ⟨?_, h.items, h.stored, h.once⟩
  refine (h.fresh.take hbound).perm ?_
  simp only [handles, List.map_append, List.map_cons, List.map_nil, List.append_assoc]
  exact List.perm_append_comm.append_left _

/-- A call that neither stored an object nor took one. -/
theorem Sound.record (h : x.Sound) {e : RegistryEvent α} (hi : e.inserted? = none)
    (hr : ∀ handle, e.isRemoval handle = false) : Sound { x with log := x.log ++ [e] } := by
  have hinserted (handle : UInt64) (value : α) : .inserted handle value ≠ e := by
    rintro rfl
    cases hi
  have hremoved (handle : UInt64) : ¬ ∃ value, .removed handle (.ok value) = e := by
    rintro ⟨value, rfl⟩
    exact absurd (hr handle) (by simp [RegistryEvent.isRemoval])
  refine ⟨?_, fun handle value => ?_, fun handle => ?_, fun handle => ?_⟩
  · have hhandles : handles { x with log := x.log ++ [e] } = x.handles := by
      simp only [handles, List.filterMap_append, List.filterMap_cons, hi, List.filterMap_nil,
        List.append_nil]
    rw [hhandles]
    exact h.fresh
  · rw [inserted_concat rfl, or_iff_left (hinserted handle value), removed_concat rfl,
      or_iff_left (hremoved handle)]
    exact h.items handle value
  · rw [removed_concat rfl, or_iff_left (hremoved handle)]
    exact fun hx => (h.stored handle hx).imp fun value hv => (inserted_concat rfl).mpr (.inl hv)
  · rw [removals_concat rfl, hr, if_neg Bool.false_ne_true]
    exact h.once handle

/-- The handle of a call that holds one was stored by no call. -/
theorem Sound.unstored (h : x.Sound) {k : ℕ} {handle : UInt64} {value : α}
    (hk : x.inserting[k]? = some (handle, value)) (other : α) : ¬ x.Inserted handle other := by
  intro hmem
  have hpending : handle ∈ x.inserting.map Prod.fst :=
    List.mem_map.mpr ⟨_, List.mem_of_getElem? hk, rfl⟩
  exact (List.nodup_append.mp h.fresh.nodup).2.2 handle hpending handle
    (mem_inserted?.mpr ⟨other, hmem⟩) rfl

theorem handles_insert {k : ℕ} {handle : UInt64} {value : α}
    (hk : x.inserting[k]? = some (handle, value)) (items : UInt64 → Option α) :
    (handles { x with
      items
      inserting := x.inserting.eraseIdx k
      log := x.log ++ [.inserted handle value] }).Perm x.handles := by
  obtain ⟨hlt, hget⟩ := List.getElem?_eq_some_iff.mp hk
  have hperm := (List.getElem_cons_eraseIdx_perm hlt).map Prod.fst
  rw [hget, List.map_cons] at hperm
  simp only [handles, List.filterMap_append]
  refine List.Perm.trans ?_ (hperm.append_right _)
  rw [← List.append_assoc]
  exact List.perm_append_comm

theorem Sound.insert (h : x.Sound) {k : ℕ} {handle : UInt64} {value : α}
    (hk : x.inserting[k]? = some (handle, value)) :
    Sound { x with
      items := Function.update x.items handle (some value)
      inserting := x.inserting.eraseIdx k
      log := x.log ++ [.inserted handle value] } := by
  have hunstored := h.unstored hk
  have hunremoved : ¬ x.Removed handle := fun hr =>
    (h.stored handle hr).elim fun other hi => hunstored other hi
  have hremoved (other : UInt64) :
      ¬ ∃ w : α, RegistryEvent.removed other (.ok w) = .inserted handle value := by
    rintro ⟨w, hw⟩
    cases hw
  refine ⟨h.fresh.perm (handles_insert hk _), fun other w => ?_, fun other => ?_, fun other => ?_⟩
  · rw [inserted_concat rfl, removed_concat rfl, or_iff_left (hremoved other)]
    show Function.update x.items handle (some value) other = some w ↔ _
    rcases eq_or_ne other handle with rfl | hne
    · rw [Function.update_self, or_iff_right (hunstored w), and_iff_left hunremoved,
        RegistryEvent.inserted.injEq, Option.some_inj, and_iff_right rfl, eq_comm]
    · have hother : RegistryEvent.inserted other w ≠ .inserted handle value := by
        intro he
        exact hne (RegistryEvent.inserted.inj he).1
      rw [Function.update_of_ne hne, h.items, or_iff_left hother]
  · rw [removed_concat rfl, or_iff_left (hremoved other)]
    exact fun hx => (h.stored other hx).imp fun w hw => (inserted_concat rfl).mpr (.inl hw)
  · have hno : RegistryEvent.isRemoval other (.inserted handle value) = false := rfl
    rw [removals_concat rfl, hno, if_neg Bool.false_ne_true]
    exact h.once other

/-- A call of `remove` that takes the object. -/
theorem Sound.remove (h : x.Sound) {handle : UInt64} {value : α}
    (hv : x.items handle = some value) :
    Sound { x with
      items := Function.update x.items handle none
      log := x.log ++ [.removed handle (.ok value)] } := by
  obtain ⟨hinserted, hunremoved⟩ := (h.items handle value).mp hv
  have hsame (other : UInt64) (w : α) :
      RegistryEvent.inserted other w ≠ .removed handle (.ok value) := nofun
  refine ⟨?_, fun other w => ?_, fun other => ?_, fun other => ?_⟩
  · have hhandles (items : UInt64 → Option α) :
        handles { x with items, log := x.log ++ [.removed handle (.ok value)] } = x.handles := by
      simp only [handles, List.filterMap_append, List.filterMap_cons, RegistryEvent.inserted?,
        List.filterMap_nil, List.append_nil]
    rw [hhandles]
    exact h.fresh
  · rw [inserted_concat rfl, or_iff_left (hsame other w), removed_concat rfl]
    show Function.update x.items handle none other = some w ↔ _
    rcases eq_or_ne other handle with rfl | hne
    · rw [Function.update_self]
      exact ⟨nofun, fun hc => absurd (.inr ⟨value, rfl⟩) hc.2⟩
    · have hother : ¬ ∃ w : α,
          RegistryEvent.removed other (.ok w) = .removed handle (.ok value) := by
        rintro ⟨w, hw⟩
        exact hne (RegistryEvent.removed.inj hw).1
      rw [Function.update_of_ne hne, h.items, or_iff_left hother]
  · rw [removed_concat rfl]
    rintro (hx | ⟨w, hw⟩)
    · exact (h.stored other hx).imp fun w hw => (inserted_concat rfl).mpr (.inl hw)
    · obtain rfl := (RegistryEvent.removed.inj hw).1
      exact ⟨value, (inserted_concat rfl).mpr (.inl hinserted)⟩
  · rw [removals_concat rfl]
    rcases eq_or_ne handle other with rfl | hne
    · rw [removals_eq_zero.mpr hunremoved]
      split
      · exact Nat.le_refl 1
      · exact Nat.zero_le 1
    · rw [RegistryEvent.isRemoval, if_neg (by simpa using hne)]
      exact h.once other

theorem Sound.step {y : RegistryRun α} {a : RegistryAction α} (h : x.Sound) (hG : x.Bounded a)
    (ht : x.step a = some y) : y.Sound := by
  cases a with
  | fetchAdd value =>
      obtain rfl := Option.some.inj ht
      exact h.fetchAdd hG value
  | insert k =>
      obtain ⟨⟨handle, value⟩, hk, rfl⟩ := Option.map_eq_some_iff.mp ht
      exact h.insert hk
  | get handle =>
      obtain rfl := Option.some.inj ht
      exact h.record rfl fun _ => rfl
  | remove handle =>
      obtain rfl := Option.some.inj ht
      cases hv : x.items handle with
      | some value =>
          have hget : x.get handle = .ok value := get_eq_ok.mpr hv
          rw [hget]
          exact h.remove hv
      | none =>
          have hget : x.get handle = .error (.invalidHandle handle) := get_eq_error.mpr ⟨hv, rfl⟩
          have hsame : Function.update x.items handle none = x.items := by
            rw [← hv, Function.update_eq_self]
          rw [hget, hsame]
          exact h.record rfl fun _ => rfl

theorem sound_invariant (α : Type*) : (registryMachine α).Invariant Bounded Sound where
  init := by
    rintro x rfl
    exact sound_new
  step _ _ _ h hG ht := h.step hG ht

/-! ## Along a run -/

/-- What a step adds to the record, and what it returns is the answer of `get` before it. -/
theorem step_log {y : RegistryRun α} {a : RegistryAction α} (ht : x.step a = some y) :
    y.log = x.log ∨ ∃ e, y.log = x.log ++ [e] ∧ ∀ handle result,
      e = .got handle result ∨ e = .removed handle result → result = x.get handle := by
  cases a with
  | fetchAdd value =>
      obtain rfl := Option.some.inj ht
      exact .inl rfl
  | insert k =>
      obtain ⟨⟨handle, value⟩, -, rfl⟩ := Option.map_eq_some_iff.mp ht
      exact .inr ⟨_, rfl, fun _ _ he => he.elim nofun nofun⟩
  | get handle =>
      obtain rfl := Option.some.inj ht
      refine .inr ⟨_, rfl, fun other result he => ?_⟩
      rcases he with he | he
      · cases he
        rfl
      · cases he
  | remove handle =>
      obtain rfl := Option.some.inj ht
      refine .inr ⟨_, rfl, fun other result he => ?_⟩
      rcases he with he | he
      · cases he
      · cases he
        rfl

/-- The record of a later state, with what the calls in between returned for a handle whose object
was taken. -/
structure After (x y : RegistryRun α) (news : List (RegistryEvent α)) : Prop where
  sound : y.Sound
  log : y.log = x.log ++ news
  dead : ∀ handle, x.Removed handle → ∀ result,
    .got handle result ∈ news ∨ .removed handle result ∈ news →
      result = .error (.invalidHandle handle)
  taken : ∀ handle value, x.Inserted handle value →
    (∃ e ∈ news, RegistryEvent.isRemove handle e = true) → y.Removed handle

theorem Sound.get_removed (h : x.Sound) {handle : UInt64} (hr : x.Removed handle) :
    x.get handle = .error (.invalidHandle handle) := by
  refine get_eq_error.mpr ⟨?_, rfl⟩
  cases hv : x.items handle with
  | none => rfl
  | some value => exact absurd hr ((h.items handle value).mp hv).2

/-- An object that was stored is there, or was taken. -/
theorem Sound.get_inserted (h : x.Sound) {handle : UInt64} {value : α}
    (hi : x.Inserted handle value) (hr : ¬ x.Removed handle) : x.get handle = .ok value :=
  get_eq_ok.mpr ((h.items handle value).mpr ⟨hi, hr⟩)

theorem After.step {y z : RegistryRun α} {news : List (RegistryEvent α)} {a : RegistryAction α}
    (h : After x y news) (hG : y.Bounded a) (ht : y.step a = some z) :
    ∃ news', After x z news' := by
  have hz := h.sound.step hG ht
  have hold {handle : UInt64} (hr : x.Removed handle) : y.Removed handle :=
    hr.imp fun value hmem => h.log ▸ List.mem_append_left _ hmem
  rcases step_log ht with hlog | ⟨e, hlog, hresult⟩
  · refine ⟨news, hz, hlog.trans h.log, h.dead, fun handle value hi hrem => ?_⟩
    have := h.taken handle value hi hrem
    rwa [Removed, hlog]
  · refine ⟨news ++ [e], hz, ?_, fun handle hr result hmem => ?_, fun handle value hi hrem => ?_⟩
    · rw [hlog, h.log, List.append_assoc]
    · simp only [List.mem_append, List.mem_singleton] at hmem
      by_cases he : .got handle result = e ∨ .removed handle result = e
      · rw [hresult handle result (he.imp Eq.symm Eq.symm)]
        exact h.sound.get_removed (hold hr)
      · rw [not_or] at he
        exact h.dead handle hr result (by simpa [he.1, he.2] using hmem)
    · obtain ⟨e', he', hrem⟩ := hrem
      rw [removed_concat hlog]
      by_cases hr : y.Removed handle
      · exact .inl hr
      rcases List.mem_append.mp he' with he' | he'
      · exact .inl (h.taken handle value hi ⟨e', he', hrem⟩)
      obtain rfl := List.mem_singleton.mp he'
      have hiy : y.Inserted handle value := by
        rw [Inserted, h.log]
        exact List.mem_append_left _ hi
      match e', hrem, hresult with
      | .removed other result, hrem, hresult =>
          obtain rfl := eq_of_beq hrem
          have hget := hresult other result (.inr rfl)
          rw [h.sound.get_inserted hiy hr] at hget
          exact .inr ⟨value, by rw [hget]⟩

theorem after_of_leads {y : RegistryRun α} (h : x.Sound)
    (hl : (registryMachine α).Leads Bounded x y) : ∃ news, After x y news := by
  have hself : After x x [] :=
    ⟨h, (List.append_nil _).symm, fun _ _ _ hmem => hmem.elim nofun nofun, fun _ _ _ hrem => by
      obtain ⟨e, he, -⟩ := hrem
      cases he⟩
  exact Machine.Leads.keeps (I := fun y => ∃ news, After x y news)
    (fun _ _ _ ⟨_, hy⟩ hG ht => hy.step hG ht) hl ⟨[], hself⟩

/-! ## The law of the registry -/

/-- The handles taken are from 1 on, each once.  A handle has its object from the step that stored
it to the call that took it. -/
structure Law (x : RegistryRun α) : Prop where
  fresh : x.handles.Nodup
  positive : ∀ handle ∈ x.handles, 1 ≤ handle
  live : ∀ handle value,
    x.get handle = .ok value ↔ x.Inserted handle value ∧ ¬ x.Removed handle
  invalid : ∀ handle, x.get handle = .error (.invalidHandle handle) ↔
    ¬ ∃ value, x.Inserted handle value ∧ ¬ x.Removed handle

theorem Sound.obeys (h : x.Sound) : x.Law where
  fresh := h.fresh.nodup
  positive _ hmem := h.fresh.one_le hmem
  live handle value := by rw [get_eq_ok, h.items]
  invalid handle := by
    rw [get_eq_error, and_iff_left rfl, Option.eq_none_iff_forall_ne_some, not_exists]
    exact forall_congr' fun value => not_congr (h.items handle value)

/-- From a state on: the object of a handle that was taken is gone for every call, and of the calls
of `remove` for a handle that has its object one takes it. -/
structure Lasting (x y : RegistryRun α) : Prop where
  gone : ∀ handle, x.Removed handle → y.get handle = .error (.invalidHandle handle)
  dead : ∀ handle, x.Removed handle → ∀ news result, y.log = x.log ++ news →
    .got handle result ∈ news ∨ .removed handle result ∈ news →
      result = .error (.invalidHandle handle)
  once : ∀ handle value news, x.get handle = .ok value → y.log = x.log ++ news →
    (∃ e ∈ news, RegistryEvent.isRemove handle e = true) → removals news handle = 1

theorem After.lasting {y : RegistryRun α} {news : List (RegistryEvent α)} (h : x.Sound)
    (ha : After x y news) : Lasting x y where
  gone handle hr :=
    ha.sound.get_removed (hr.imp fun value hmem => ha.log ▸ List.mem_append_left _ hmem)
  dead handle hr news' result hlog := by
    obtain rfl := List.append_cancel_left (hlog.symm.trans ha.log)
    exact ha.dead handle hr result
  once handle value news' hget hlog hrem := by
    obtain rfl := List.append_cancel_left (hlog.symm.trans ha.log)
    obtain ⟨hi, hr⟩ := (h.items handle value).mp (get_eq_ok.mp hget)
    have hsome : removals y.log handle ≠ 0 := fun hzero =>
      removals_eq_zero.mp hzero (ha.taken handle value hi hrem)
    have hmost := ha.sound.once handle
    have hnone : removals x.log handle = 0 := removals_eq_zero.mpr hr
    have hsum : removals y.log handle = removals x.log handle + removals news' handle := by
      rw [hlog, removals, List.countP_append, removals, removals]
    omega

/-- What a step returns and records.  The counter gives a call of `insert` its handle, the second
step of the call stores its object under that handle, and any other call is answered with what
`get` finds before it. -/
def Answers (x : RegistryRun α) : RegistryAction α → RegistryRun α → Prop
  | .fetchAdd value, y =>
      x.next ∉ x.handles ∧ y.inserting = x.inserting ++ [(x.next, value)] ∧ y.log = x.log
  | .insert k, y => ∃ handle value, x.inserting[k]? = some (handle, value) ∧
      y.log = x.log ++ [.inserted handle value] ∧ y.get handle = .ok value
  | .get handle, y => y.log = x.log ++ [.got handle (x.get handle)]
  | .remove handle, y => y.log = x.log ++ [.removed handle (x.get handle)]

theorem Sound.answers (h : x.Sound) {y : RegistryRun α} {a : RegistryAction α}
    (ht : x.step a = some y) : x.Answers a y := by
  cases a with
  | fetchAdd value =>
      obtain rfl := Option.some.inj ht
      refine ⟨fun hmem => ?_, rfl, rfl⟩
      have hle := (h.fresh.range _ hmem).2
      rw [h.fresh.next] at hle
      omega
  | insert k =>
      obtain ⟨⟨handle, value⟩, hk, rfl⟩ := Option.map_eq_some_iff.mp ht
      exact ⟨handle, value, hk, rfl, get_eq_ok.mpr (Function.update_self ..)⟩
  | get handle =>
      obtain rfl := Option.some.inj ht
      rfl
  | remove handle =>
      obtain rfl := Option.some.inj ht
      rfl

theorem registry_law {x : RegistryRun α} (hx : (registryMachine α).Reachable Bounded x) :
    x.Law ∧ (∀ a y, x.step a = some y → x.Answers a y) ∧
      ∀ y, (registryMachine α).Leads Bounded x y → Lasting x y := by
  have hsound := (sound_invariant α).reachable hx
  refine ⟨hsound.obeys, fun a y ht => hsound.answers ht, fun y hl => ?_⟩
  obtain ⟨news, ha⟩ := after_of_leads hsound hl
  exact ha.lasting hsound

/-- Two calls of `insert` whose steps cross. -/
def crossed : List (RegistryAction String) :=
  [.fetchAdd "a", .fetchAdd "b", .insert 1, .get 1, .insert 0]

/-- Two calls of `remove` for one handle. -/
def removed : List (RegistryAction String) := [.remove 1, .remove 1, .get 2]

def runOf (x : RegistryRun String) (actions : List (RegistryAction String)) :
    RegistryRun String :=
  ((registryMachine String).run x actions).getD {}

theorem registry_law_crossed :
    (runOf {} crossed).Law ∧ (runOf {} crossed).handles = [2, 1] ∧
      Answers (runOf {} crossed) (.remove 1) (runOf (runOf {} crossed) [.remove 1]) ∧
      Lasting (runOf {} crossed) (runOf (runOf {} crossed) removed) ∧
      (runOf (runOf {} crossed) removed).log =
        [.inserted 2 "b", .got 1 (.error (.invalidHandle 1)), .inserted 1 "a",
          .removed 1 (.ok "a"), .removed 1 (.error (.invalidHandle 1)), .got 2 (.ok "b")] := by
  have hreachable : (registryMachine String).Reachable Bounded (runOf {} crossed) :=
    Machine.reachable_getD_of_guarded rfl (by decide +kernel) (by decide +kernel) _
  have hremoved : (registryMachine String).Guarded Bounded (runOf {} crossed) removed := by
    decide +kernel
  obtain ⟨hlaw, hanswers, hlasting⟩ := registry_law hreachable
  exact ⟨hlaw, by decide +kernel, hanswers _ _ rfl,
    hlasting _ (Machine.leads_of_guarded hremoved rfl), rfl⟩

end RegistryRun

end Iroh.Core
