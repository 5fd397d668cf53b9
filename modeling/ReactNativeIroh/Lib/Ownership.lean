import Mathlib.Data.List.Basic
import Mathlib.Data.List.Count
import Mathlib.Data.List.Nodup
import Mathlib.Logic.Function.Basic

/-!
# Owned objects that are torn down once

An owner wraps handles into objects and keeps the set of the objects that are
still open.  Tearing an object down releases its handle and takes it out of that
set.  An operation on an object is *one-shot* when it does both exactly when it
closes the object, and neither otherwise.

A `Roster` is the objects of one owner with its `Ledger`: the open set, and the
record of the handles released so far.  `Roster.Sound` is the ownership invariant.
The open set is the set of open objects, and the handle of an object has been
released once if the object is closed and never if it is open.  Adopting an
object, a one-shot operation on one of them and the teardown of all of them keep
it, and after the teardown nothing is open (`Sound.closeAll_closed`).

Operations may also act on a state of type `ω` that lies outside the roster.
-/

namespace Ownership

variable {ι σ ω : Type*}

/-- Whom an object answers to when it is torn down, over the owner's state. -/
structure Owner (ω : Type*) where
  release : ω → ω
  onDispose : ω → ω

/-- The operation leaves the owner alone, or it closes the object, releases its
handle and tells the owner.  It does not reopen a closed object. -/
def Once (closed : σ → Bool) (o : Owner ω) (f : σ × ω → σ × ω) : Prop :=
  ∀ s w,
    (closed (f (s, w)).1 = closed s ∧ (f (s, w)).2 = w) ∨
    (closed s = false ∧ closed (f (s, w)).1 = true ∧ (f (s, w)).2 = o.onDispose (o.release w))

/-- A closed object does not hear of the owner again. -/
theorem Once.foldl_closed {β : Type*} {closed : σ → Bool} {o : Owner ω} {f : β → σ × ω → σ × ω}
    (hf : ∀ b, Once closed o (f b)) (bs : List β) {s : σ} (hs : closed s = true) (w : ω) :
    closed (bs.foldl (fun p b => f b p) (s, w)).1 = true ∧
      (bs.foldl (fun p b => f b p) (s, w)).2 = w := by
  induction bs generalizing s with
  | nil => exact ⟨hs, rfl⟩
  | cons b bs ih =>
      rcases hf b s w with ⟨hc, hw⟩ | ⟨ho, -, -⟩
      · obtain ⟨hc', hw'⟩ := ih (hc.trans hs)
        have hpair : f b (s, w) = ((f b (s, w)).1, w) := Prod.ext rfl hw
        rw [List.foldl_cons, hpair]
        exact ⟨hc', hw'⟩
      · rw [hs] at ho
        cases ho

/-- However many operations act on an open object, its owner hears of it once, when it is
closed. -/
theorem Once.foldl {β : Type*} {closed : σ → Bool} {o : Owner ω} {f : β → σ × ω → σ × ω}
    (hf : ∀ b, Once closed o (f b)) (bs : List β) {s : σ} (hs : closed s = false) (w : ω) :
    (bs.foldl (fun p b => f b p) (s, w)).2 =
      if closed (bs.foldl (fun p b => f b p) (s, w)).1 then o.onDispose (o.release w) else w := by
  induction bs generalizing s with
  | nil => simp [hs]
  | cons b bs ih =>
      rw [List.foldl_cons]
      rcases hf b s w with ⟨hc, hw⟩ | ⟨-, hc, hw⟩
      · have hpair : f b (s, w) = ((f b (s, w)).1, w) := Prod.ext rfl hw
        rw [hpair]
        exact ih (hc.trans hs)
      · obtain ⟨hc', hw'⟩ := Once.foldl_closed hf bs hc (f b (s, w)).2
        rw [if_pos hc', hw', hw]

/-- The open set of an owner, in the order of adoption, and the handles it has
released, in the order of release. -/
structure Ledger (ι : Type*) where
  live : List ι := []
  released : List ι := []
deriving DecidableEq

namespace Ledger

def adopt (l : Ledger ι) (i : ι) : Ledger ι := { l with live := l.live ++ [i] }

def release (l : Ledger ι) (i : ι) : Ledger ι := { l with released := l.released ++ [i] }

variable [DecidableEq ι]

def dispose (l : Ledger ι) (i : ι) : Ledger ι := { l with live := l.live.erase i }

/-- The owner of object `i`, as a ledger. -/
def owner (i : ι) : Owner (Ledger ι × ω) where
  release p := (p.1.release i, p.2)
  onDispose p := (p.1.dispose i, p.2)

end Ledger

/-- The objects of one owner and its ledger. -/
structure Roster (ι σ : Type*) where
  objects : ι → Option σ := fun _ => none
  ledger : Ledger ι := {}

/-- An operation on one object, its owner's ledger and the rest of the state. -/
abbrev Op (ι σ ω : Type*) := σ × Ledger ι × ω → σ × Ledger ι × ω

variable [DecidableEq ι]

/-- The operation releases and disposes of the object exactly when it closes it,
and it does not reopen a closed one.  It may do anything to the rest of the state. -/
def OneShot (closed : σ → Bool) (i : ι) (f : Op ι σ ω) : Prop :=
  ∀ s l w,
    (closed (f (s, l, w)).1 = closed s ∧ (f (s, l, w)).2.1 = l) ∨
    (closed s = false ∧ closed (f (s, l, w)).1 = true ∧
      (f (s, l, w)).2.1 = (l.release i).dispose i)

theorem Once.oneShot {closed : σ → Bool} {i : ι} {f : Op ι σ ω}
    (h : Once closed (Ledger.owner i) f) : OneShot closed i f := by
  intro s l w
  rcases h s (l, w) with ⟨hc, hw⟩ | ⟨ho, hc, hw⟩
  · exact Or.inl ⟨hc, congrArg Prod.fst hw⟩
  · exact Or.inr ⟨ho, hc, congrArg Prod.fst hw⟩

/-- An operation that may only close what it acts on leaves closed objects closed. -/
theorem OneShot.stays_closed {closed : σ → Bool} {i : ι} {f : Op ι σ ω} (hf : OneShot closed i f)
    {s : σ} (hs : closed s = true) (l : Ledger ι) (w : ω) :
    closed (f (s, l, w)).1 = true ∧ (f (s, l, w)).2.1 = l := by
  rcases hf s l w with ⟨hc, hl⟩ | ⟨hc, -, -⟩
  · exact ⟨hc.trans hs, hl⟩
  · rw [hs] at hc; cases hc

namespace Roster

/-- Wrap the handle `i`, which was not wrapped before. -/
def adopt (i : ι) (s : σ) (r : Roster ι σ) : Roster ι σ :=
  { objects := Function.update r.objects i (some s), ledger := r.ledger.adopt i }

/-- Release a handle that no object wraps. -/
def release (i : ι) (r : Roster ι σ) : Roster ι σ := { r with ledger := r.ledger.release i }

/-- Run an operation on one object. -/
def apply (i : ι) (f : Op ι σ ω) : Roster ι σ × ω → Roster ι σ × ω
  | (r, w) =>
      match r.objects i with
      | none => (r, w)
      | some s =>
          ({ objects := Function.update r.objects i (some (f (s, r.ledger, w)).1)
             ledger := (f (s, r.ledger, w)).2.1 }, (f (s, r.ledger, w)).2.2)

/-- Run an operation on each object of a list. -/
def applyAll (f : ι → Op ι σ ω) (is : List ι) (p : Roster ι σ × ω) : Roster ι σ × ω :=
  is.foldl (fun p i => apply i (f i) p) p

/-- Whether the handle is wrapped by an object that is closed. -/
def Closed (closed : σ → Bool) (r : Roster ι σ) (i : ι) : Prop :=
  ∃ s, r.objects i = some s ∧ closed s = true

/-- Whether the handle is wrapped by an object that is open. -/
def Open (closed : σ → Bool) (r : Roster ι σ) (i : ι) : Prop :=
  ∃ s, r.objects i = some s ∧ closed s = false

/-- A handle the owner has neither wrapped nor released. -/
structure Fresh (r : Roster ι σ) (i : ι) : Prop where
  unwrapped : r.objects i = none
  unreleased : i ∉ r.ledger.released

/-- No object is open. -/
def AllClosed (closed : σ → Bool) (r : Roster ι σ) : Prop :=
  ∀ i s, r.objects i = some s → closed s = true

/-- The ownership invariant. -/
structure Sound (closed : σ → Bool) (r : Roster ι σ) : Prop where
  live_iff : ∀ i, i ∈ r.ledger.live ↔ r.Open closed i
  nodup : r.ledger.live.Nodup
  released : ∀ i s, r.objects i = some s →
    r.ledger.released.count i = if closed s then 1 else 0

variable {closed : σ → Bool} {r : Roster ι σ} {i j : ι} {f : Op ι σ ω}

omit [DecidableEq ι] in
theorem Fresh.empty (i : ι) : ({} : Roster ι σ).Fresh i :=
  ⟨rfl, by simp⟩

theorem Fresh.adopt (hi : r.Fresh i) (hij : i ≠ j) (s : σ) : (r.adopt j s).Fresh i where
  unwrapped := by simpa [Roster.adopt, Function.update_of_ne hij] using hi.unwrapped
  unreleased := hi.unreleased

omit [DecidableEq ι] in
theorem Fresh.release (hi : r.Fresh i) (hij : i ≠ j) : (r.release j).Fresh i where
  unwrapped := hi.unwrapped
  unreleased := by simpa [Roster.release, Ledger.release, hij] using hi.unreleased

theorem adopt_of_ne (hij : i ≠ j) (s : σ) : (r.adopt j s).objects i = r.objects i :=
  Function.update_of_ne hij _ _

/-! ## One operation -/

theorem apply_none (h : r.objects i = none) (w : ω) : apply i f (r, w) = (r, w) := by
  simp [apply, h]

theorem apply_some {s : σ} (h : r.objects i = some s) (w : ω) :
    apply i f (r, w) =
      ({ objects := Function.update r.objects i (some (f (s, r.ledger, w)).1)
         ledger := (f (s, r.ledger, w)).2.1 }, (f (s, r.ledger, w)).2.2) := by
  simp [apply, h]

/-- The object an operation acts on becomes what the operation makes of it. -/
theorem apply_self {s : σ} (h : r.objects i = some s) (w : ω) :
    (apply i f (r, w)).1.objects i = some (f (s, r.ledger, w)).1 := by
  simp [apply_some h]

/-- The other objects are left alone. -/
theorem apply_of_ne (hj : j ≠ i) (w : ω) : (apply i f (r, w)).1.objects j = r.objects j := by
  cases h : r.objects i with
  | none => rw [apply_none h]
  | some s => simp [apply_some h, Function.update_of_ne hj]

/-- An operation wraps no handle and forgets none. -/
theorem apply_objects_isSome (w : ω) :
    ((apply i f (r, w)).1.objects j).isSome = (r.objects j).isSome := by
  by_cases hj : j = i
  · subst hj
    cases h : r.objects j with
    | none => rw [apply_none h, h]
    | some s => rw [apply_self h]; rfl
  · rw [apply_of_ne hj]

/-- A one-shot operation on `i` releases no other handle. -/
theorem apply_released_of_ne (hf : OneShot closed i f) (hj : j ≠ i) (w : ω) :
    (apply i f (r, w)).1.ledger.released.count j = r.ledger.released.count j := by
  cases h : r.objects i with
  | none => rw [apply_none h]
  | some s =>
      rw [apply_some h]
      rcases hf s r.ledger w with ⟨-, hl⟩ | ⟨-, -, hl⟩
      · simp only [hl]
      · simp [hl, Ledger.release, Ledger.dispose, List.count_append, Ne.symm hj]

theorem Closed.apply (hf : OneShot closed i f) (h : r.Closed closed j) (w : ω) :
    (apply i f (r, w)).1.Closed closed j := by
  obtain ⟨s, hs, hc⟩ := h
  by_cases hj : j = i
  · subst hj
    exact ⟨_, apply_self hs w, (hf.stays_closed hc _ _).1⟩
  · exact ⟨s, (apply_of_ne hj w).trans hs, hc⟩

/-- What an operation keeps of the objects, and what it needs to know of them. -/
theorem apply_keeps {P : σ → Prop} (hf : ∀ s l w, P s → P (f (s, l, w)).1)
    (h : ∀ i s, r.objects i = some s → P s) (w : ω) {s : σ}
    (hs : (apply i f (r, w)).1.objects j = some s) : P s := by
  by_cases hj : j = i
  · subst hj
    cases hr : r.objects j with
    | none => rw [apply_none hr, hr] at hs; cases hs
    | some s' =>
        rw [apply_self hr] at hs
        obtain rfl := Option.some.inj hs
        exact hf _ _ _ (h j s' hr)
  · rw [apply_of_ne hj] at hs
    exact h j s hs

/-- The operation leaves alone what lies outside the roster. -/
def Local (f : Op ι σ ω) : Prop := ∀ s l w, (f (s, l, w)).2.2 = w

theorem local_of_once (h : Once closed (Ledger.owner i) f) : Local f := by
  intro s l w
  rcases h s (l, w) with ⟨-, hw⟩ | ⟨-, -, hw⟩
  · exact congrArg Prod.snd hw
  · exact congrArg Prod.snd hw

theorem apply_local (hf : Local f) (p : Roster ι σ × ω) : (apply i f p).2 = p.2 := by
  obtain ⟨r, w⟩ := p
  cases h : r.objects i with
  | none => rw [apply_none h]
  | some s => rw [apply_some h]; exact hf _ _ _

namespace Sound

theorem empty : (({} : Roster ι σ)).Sound closed where
  live_iff i := by simp [Open]
  nodup := List.nodup_nil
  released i s h := by simp at h

theorem adopt (hr : r.Sound closed) {s : σ} (hi : r.Fresh i) (hs : closed s = false) :
    (r.adopt i s).Sound closed where
  live_iff j := by
    by_cases hj : j = i
    · subst hj
      simp [Roster.adopt, Ledger.adopt, Open, hs]
    · simp only [Roster.adopt, Ledger.adopt, Open, Function.update_of_ne hj, List.mem_append,
        List.mem_singleton, hj, or_false]
      exact hr.live_iff j
  nodup := by
    have hni : i ∉ r.ledger.live := by
      intro hmem
      obtain ⟨s', hs', -⟩ := (hr.live_iff i).1 hmem
      rw [hi.unwrapped] at hs'
      cases hs'
    simpa [Roster.adopt, Ledger.adopt, List.nodup_append] using
      ⟨hr.nodup, fun a ha h => hni (h ▸ ha)⟩
  released j s' hs' := by
    by_cases hj : j = i
    · subst hj
      simp only [Roster.adopt, Function.update_self, Option.some.injEq] at hs'
      subst hs'
      rw [if_neg (by rw [hs]; exact Bool.false_ne_true)]
      exact List.count_eq_zero.mpr hi.unreleased
    · simp only [Roster.adopt, Function.update_of_ne hj] at hs'
      exact hr.released j s' hs'

/-- Releasing a handle that no object wraps. -/
theorem release (hr : r.Sound closed) (hi : r.objects i = none) : (r.release i).Sound closed where
  live_iff := hr.live_iff
  nodup := hr.nodup
  released j s hs := by
    have hj : j ≠ i := by
      intro hji
      rw [Roster.release, hji, hi] at hs
      cases hs
    simpa [Roster.release, Ledger.release, List.count_append, Ne.symm hj]
      using hr.released j s hs

theorem apply (hr : r.Sound closed) (hf : OneShot closed i f) (w : ω) :
    (Roster.apply i f (r, w)).1.Sound closed := by
  cases h : r.objects i with
  | none => rw [apply_none h]; exact hr
  | some s =>
      rcases hf s r.ledger w with ⟨hc, hl⟩ | ⟨ho, hc, hl⟩
      · refine ⟨fun j => ?_, ?_, fun j s' hs' => ?_⟩
        · rw [apply_some h]
          simp only [hl, Open]
          by_cases hj : j = i
          · subst hj
            rw [hr.live_iff j]
            simp [Open, h, hc]
          · rw [Function.update_of_ne hj]
            exact hr.live_iff j
        · rw [apply_some h]
          simpa only [hl] using hr.nodup
        · rw [apply_some h] at hs' ⊢
          simp only [hl]
          by_cases hj : j = i
          · subst hj
            simp only [Function.update_self, Option.some.injEq] at hs'
            subst hs'
            rw [hc]
            exact hr.released j s h
          · simp only [Function.update_of_ne hj] at hs'
            exact hr.released j s' hs'
      · refine ⟨fun j => ?_, ?_, fun j s' hs' => ?_⟩
        · rw [apply_some h]
          simp only [hl, Open, Ledger.release, Ledger.dispose]
          by_cases hj : j = i
          · subst hj
            simp [hc, hr.nodup.mem_erase_iff]
          · rw [Function.update_of_ne hj, hr.nodup.mem_erase_iff, hr.live_iff j]
            simp [Open, hj]
        · rw [apply_some h]
          simpa only [hl, Ledger.release, Ledger.dispose] using hr.nodup.erase i
        · rw [apply_some h] at hs' ⊢
          simp only [hl, Ledger.release, Ledger.dispose]
          by_cases hj : j = i
          · subst hj
            simp only [Function.update_self, Option.some.injEq] at hs'
            subst hs'
            simp [hc, List.count_append, hr.released j s h, ho]
          · simp only [Function.update_of_ne hj] at hs'
            simpa [List.count_append, Ne.symm hj] using
              hr.released j s' hs'

/-- A closed object's handle has been released once. -/
theorem released_once (hr : r.Sound closed) (h : r.Closed closed i) :
    r.ledger.released.count i = 1 := by
  obtain ⟨s, hs, hc⟩ := h
  rw [hr.released i s hs, hc, if_pos rfl]

end Sound

/-! ## Evolution by one-shot operations -/

/-- What any number of one-shot operations does to a roster: it wraps nothing new,
reopens nothing, releases no handle that is not wrapped, and stays sound. -/
structure Evolves (closed : σ → Bool) (r r' : Roster ι σ) : Prop where
  wrapped : ∀ j, (r'.objects j).isSome = (r.objects j).isSome
  staysClosed : ∀ j, r.Closed closed j → r'.Closed closed j
  unwrapped : ∀ j, r.objects j = none →
    r'.ledger.released.count j = r.ledger.released.count j
  sound : r.Sound closed → r'.Sound closed

namespace Evolves

theorem refl (closed : σ → Bool) (r : Roster ι σ) : r.Evolves closed r :=
  ⟨fun _ => rfl, fun _ h => h, fun _ _ => rfl, fun h => h⟩

theorem trans {r₁ r₂ r₃ : Roster ι σ} (h : r₁.Evolves closed r₂) (h' : r₂.Evolves closed r₃) :
    r₁.Evolves closed r₃ where
  wrapped j := (h'.wrapped j).trans (h.wrapped j)
  staysClosed j hj := h'.staysClosed j (h.staysClosed j hj)
  unwrapped j hj := by
    have hj' : r₂.objects j = none := by
      have := h.wrapped j
      rw [hj] at this
      exact Option.isNone_iff_eq_none.mp (by simpa using this)
    exact (h'.unwrapped j hj').trans (h.unwrapped j hj)
  sound hr := h'.sound (h.sound hr)

theorem apply (hf : OneShot closed i f) (p : Roster ι σ × ω) :
    p.1.Evolves closed (Roster.apply i f p).1 where
  wrapped j := apply_objects_isSome p.2
  staysClosed j hj := hj.apply hf p.2
  unwrapped j hj := by
    by_cases hji : j = i
    · subst hji
      rw [show Roster.apply j f p = p from apply_none hj p.2]
    · exact apply_released_of_ne hf hji p.2
  sound hr := hr.apply hf p.2

theorem applyAll {F : ι → Op ι σ ω} (hF : ∀ i, OneShot closed i (F i)) (is : List ι)
    (p : Roster ι σ × ω) : p.1.Evolves closed (Roster.applyAll F is p).1 := by
  induction is generalizing p with
  | nil => exact refl closed p.1
  | cons i is ih => exact (apply (hF i) p).trans (ih _)

theorem unwrapped_iff {r r' : Roster ι σ} (h : r.Evolves closed r') (j : ι) :
    r'.objects j = none ↔ r.objects j = none := by
  rw [← Option.isNone_iff_eq_none, ← Option.isNone_iff_eq_none, ← Option.not_isSome,
    ← Option.not_isSome, h.wrapped j]

theorem fresh {r r' : Roster ι σ} (h : r.Evolves closed r') (hi : r.Fresh i) : r'.Fresh i where
  unwrapped := (h.unwrapped_iff i).2 hi.unwrapped
  unreleased := by
    rw [← List.count_eq_zero, h.unwrapped i hi.unwrapped, List.count_eq_zero]
    exact hi.unreleased

theorem allClosed {r r' : Roster ι σ} (h : r.Evolves closed r') (hr : r.AllClosed closed) :
    r'.AllClosed closed := by
  intro i s hs
  have hsome := h.wrapped i
  rw [hs] at hsome
  obtain ⟨s', hs'⟩ := Option.isSome_iff_exists.mp hsome.symm
  obtain ⟨s'', hs'', hc⟩ := h.staysClosed i ⟨s', hs', hr i s' hs'⟩
  obtain rfl := Option.some.inj (hs''.symm.trans hs)
  exact hc

end Evolves

/-! ## Growth -/

/-- What adopting handles and one-shot operations do to a roster: what is wrapped
stays wrapped, and what is closed stays closed. -/
structure Grows (closed : σ → Bool) (r r' : Roster ι σ) : Prop where
  wrapped : ∀ j, (r.objects j).isSome = true → (r'.objects j).isSome = true
  staysClosed : ∀ j, r.Closed closed j → r'.Closed closed j

namespace Grows

omit [DecidableEq ι] in
theorem refl (closed : σ → Bool) (r : Roster ι σ) : r.Grows closed r :=
  ⟨fun _ h => h, fun _ h => h⟩

omit [DecidableEq ι] in
theorem trans {r₁ r₂ r₃ : Roster ι σ} (h : r₁.Grows closed r₂) (h' : r₂.Grows closed r₃) :
    r₁.Grows closed r₃ :=
  ⟨fun j hj => h'.wrapped j (h.wrapped j hj), fun j hj => h'.staysClosed j (h.staysClosed j hj)⟩

omit [DecidableEq ι] in
theorem release (i : ι) (r : Roster ι σ) : r.Grows closed (r.release i) :=
  ⟨fun _ h => h, fun _ h => h⟩

theorem adopt (hi : r.objects i = none) (s : σ) : r.Grows closed (r.adopt i s) := by
  have hsame : ∀ {j : ι}, (r.objects j).isSome = true → (r.adopt i s).objects j = r.objects j := by
    intro j hj
    refine adopt_of_ne (fun hji => ?_) s
    rw [hji, hi] at hj
    cases hj
  refine ⟨fun j hj => by rwa [hsame hj], fun j hj => ?_⟩
  obtain ⟨s', hs', hc⟩ := hj
  exact ⟨s', (hsame (by rw [hs']; rfl)).trans hs', hc⟩

end Grows

theorem Evolves.grows {r' : Roster ι σ} (h : r.Evolves closed r') : r.Grows closed r' :=
  ⟨fun j hj => (h.wrapped j).trans hj, h.staysClosed⟩

/-! ## Tearing everything down -/

section Teardown

variable {F : ι → Op ι σ ω}

theorem applyAll_cons (is : List ι) (p : Roster ι σ × ω) :
    applyAll F (i :: is) p = applyAll F is (apply i (F i) p) := rfl

/-- What each operation keeps of the roster and the rest of the state. -/
theorem applyAll_invariant {I : Roster ι σ × ω → Prop} (hF : ∀ i p, I p → I (apply i (F i) p))
    (is : List ι) {p : Roster ι σ × ω} (h : I p) : I (applyAll F is p) := by
  induction is generalizing p with
  | nil => exact h
  | cons i is ih => exact ih (hF i p h)

theorem applyAll_local (hF : ∀ i, Local (F i)) (is : List ι) (p : Roster ι σ × ω) :
    (applyAll F is p).2 = p.2 := by
  induction is generalizing p with
  | nil => rfl
  | cons i is ih => rw [applyAll_cons, ih, apply_local (hF i)]

theorem applyAll_keeps {P : σ → Prop} (hF : ∀ i s l w, P s → P (F i (s, l, w)).1) (is : List ι)
    {p : Roster ι σ × ω} (h : ∀ i s, p.1.objects i = some s → P s) :
    ∀ i s, (applyAll F is p).1.objects i = some s → P s := by
  induction is generalizing p with
  | nil => exact h
  | cons i is ih => exact ih fun _ _ hs => apply_keeps (r := p.1) (hF i) h p.2 hs

/-- An operation that does the same to every object, and nothing the second time,
has been done to each object of the list. -/
theorem applyAll_objects {g : σ → σ} (hF : ∀ i s l w, (F i (s, l, w)).1 = g s)
    (hg : ∀ s, g (g s) = g s) (is : List ι) {p : Roster ι σ × ω} {s : σ}
    (h : p.1.objects j = some s) :
    (applyAll F is p).1.objects j = some (if j ∈ is then g s else s) := by
  induction is generalizing p s with
  | nil => simpa [applyAll] using h
  | cons i is ih =>
      rw [applyAll_cons]
      by_cases hj : j = i
      · subst hj
        rw [ih ((apply_self h p.2).trans (congrArg some (hF _ _ _ _))), hg]
        simp
      · rw [ih ((apply_of_ne hj p.2).trans h)]
        simp [hj]

/-- An operation that always closes, run on each object of a list, closes them. -/
theorem applyAll_closes (hF : ∀ i, OneShot closed i (F i))
    (hclose : ∀ i p, closed (F i p).1 = true) (is : List ι) (hj : j ∈ is) {p : Roster ι σ × ω}
    (h : (p.1.objects j).isSome = true) : (applyAll F is p).1.Closed closed j := by
  induction is generalizing p with
  | nil => simp at hj
  | cons i is ih =>
      rw [applyAll_cons]
      by_cases hji : j = i
      · subst hji
        obtain ⟨s, hs⟩ := Option.isSome_iff_exists.mp h
        exact (Evolves.applyAll hF is _).staysClosed j ⟨_, apply_self hs p.2, hclose _ _⟩
      · exact ih ((List.mem_cons.mp hj).resolve_left hji) ((apply_objects_isSome p.2).trans h)

/-- Tearing down the open set leaves nothing open. -/
theorem Sound.closeAll_closed {p : Roster ι σ × ω} (hp : p.1.Sound closed)
    (hF : ∀ i, OneShot closed i (F i)) (hclose : ∀ i p, closed (F i p).1 = true)
    (h : (p.1.objects j).isSome = true) :
    (applyAll F p.1.ledger.live p).1.Closed closed j := by
  obtain ⟨s, hs⟩ := Option.isSome_iff_exists.mp h
  cases hc : closed s with
  | true => exact (Evolves.applyAll hF _ p).staysClosed j ⟨s, hs, hc⟩
  | false => exact applyAll_closes hF hclose _ ((hp.live_iff j).2 ⟨s, hs, hc⟩) h

end Teardown

end Roster

end Ownership
