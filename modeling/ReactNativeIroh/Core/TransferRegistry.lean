import ReactNativeIroh.Core.TransferSteps

/-!
# The registry of the transfers

The registry holds exactly the transfers that have not removed their handle, and the
handles of two transfers differ.  So what a cancel call holds is the transfer of its
handle.  `Later` says what a transfer keeps from one step to the next.
-/

namespace Iroh.Core

open Transition

variable {β : Type*}

/-- A move keeps the handle and its registration, and the cancel channel. -/
theorem Move.frame {fs fs' : FileSystem β} {i : ℕ} {t t' : Transfer β} {a : TransferAction β}
    (h : Move fs i t a t' fs') :
    t'.handle = t.handle ∧ t'.outer.isRegistered = t.outer.isRegistered ∧
      t'.hasSender = t.hasSender ∧ t'.signal = t.signal := by
  cases h with
  | start h =>
      unfold Transfer.start at h
      split at h
      · cases h
      · obtain rfl := Option.some.inj h
        exact ⟨rfl, rfl, rfl, rfl⟩
  | inner h =>
      obtain ⟨d, events, -, rfl, -⟩ := Transfer.innerStep_eq_some h
      exact ⟨rfl, rfl, rfl, rfl⟩
  | outer h =>
      cases h with
      | poll ho => exact ⟨rfl, by rw [ho]; rfl, rfl, rfl⟩
      | cancelled ho hs => exact ⟨rfl, by rw [ho]; rfl, rfl, rfl⟩
      | joined ho hj => exact ⟨rfl, by rw [ho]; rfl, rfl, rfl⟩
      | complete ho => exact ⟨rfl, by rw [ho]; rfl, rfl, rfl⟩
      | flushed ho hf => exact ⟨rfl, by rw [ho]; rfl, rfl, rfl⟩
      | nothing ho hf => exact ⟨rfl, by rw [ho]; rfl, rfl, rfl⟩
      | forward ho => exact ⟨rfl, by rw [ho]; rfl, rfl, rfl⟩
      | settle ho => exact ⟨rfl, by rw [ho]; rfl, rfl, rfl⟩

namespace TransferRun

variable {x y : TransferRun β} {i j c : ℕ} {t t' : Transfer β} {k : CancelCall}

/-- The registry holds the transfers that have not removed their handle. -/
structure Registered (x : TransferRun β) : Prop where
  next : x.registry.next = x.count + 1
  handle : ∀ i t, x.transfers i = some t → i < x.count ∧ t.handle = i + 1
  items : ∀ i t, x.transfers i = some t →
    x.registry.items t.handle = if t.outer.isRegistered then some i else none
  found : ∀ h i, x.registry.items h = some i → ∃ t, x.transfers i = some t ∧ t.handle = h

theorem Registered.putCall (h : x.Registered) : (x.putCall c k).Registered :=
  ⟨h.next, h.handle, h.items, h.found⟩

theorem Registered.put (h : x.Registered) (ht : x.transfers i = some t)
    (hh : t'.handle = t.handle) (hr : t'.outer.isRegistered = t.outer.isRegistered) :
    (x.put i t').Registered where
  next := h.next
  handle := by
    intro j u hj
    obtain ⟨rfl, rfl⟩ | ⟨-, hj⟩ := put_transfers_eq_some hj
    · rw [hh]
      exact h.handle j t ht
    · exact h.handle j u hj
  items := by
    intro j u hj
    obtain ⟨rfl, rfl⟩ | ⟨-, hj⟩ := put_transfers_eq_some hj
    · rw [hh, hr]
      exact h.items j t ht
    · exact h.items j u hj
  found := by
    intro handle j hj
    obtain ⟨u, hu, rfl⟩ := h.found handle j hj
    rcases eq_or_ne j i with rfl | hne
    · obtain rfl := Option.some.inj (ht.symm.trans hu)
      exact ⟨t', put_transfers_self, hh⟩
    · exact ⟨u, (put_transfers_of_ne hne).trans hu, rfl⟩

theorem Registered.fs (h : x.Registered) (fs : FileSystem β) : { x with fs }.Registered :=
  ⟨h.next, h.handle, h.items, h.found⟩

theorem Registered.download (h : x.Registered) (endpoint : ℕ) (dest : Path) (content : β) :
    Registered
      { x.put x.count { handle := x.registry.next, endpoint, dest, content } with
        registry := x.registry.insert x.count, count := x.count + 1 } where
  next := by
    have := h.next
    simp only [Registry.insert_next]
    omega
  handle := by
    intro j u hj
    obtain ⟨rfl, rfl⟩ | ⟨-, hj⟩ := put_transfers_eq_some hj
    · exact ⟨Nat.lt_succ_self _, h.next⟩
    · exact ⟨Nat.lt_succ_of_lt (h.handle j u hj).1, (h.handle j u hj).2⟩
  items := by
    intro j u hj
    obtain ⟨rfl, rfl⟩ | ⟨-, hj⟩ := put_transfers_eq_some hj
    · exact Registry.insert_items_self
    · obtain ⟨hlt, hh⟩ := h.handle j u hj
      have hne : u.handle ≠ x.registry.next := by
        rw [h.next, hh]
        omega
      exact (Registry.insert_items_of_ne hne).trans (h.items j u hj)
  found := by
    intro handle j hj
    rcases eq_or_ne handle x.registry.next with rfl | hne
    · obtain rfl := Option.some.inj (Registry.insert_items_self.symm.trans hj)
      exact ⟨_, put_transfers_self, rfl⟩
    · obtain ⟨u, hu, rfl⟩ := h.found handle j ((Registry.insert_items_of_ne hne).symm.trans hj)
      exact ⟨u, (put_transfers_of_ne (Nat.ne_of_lt (h.handle j u hu).1)).trans hu, rfl⟩

theorem Registered.remove {result : Outcome} (h : x.Registered) (ht : x.transfers i = some t) :
    Registered
      { x.put i { t with outer := .completing result } with
        registry := x.registry.remove t.handle } where
  next := h.next
  handle := by
    intro j u hj
    obtain ⟨rfl, rfl⟩ | ⟨-, hj⟩ := put_transfers_eq_some hj
    · exact h.handle j t ht
    · exact h.handle j u hj
  items := by
    intro j u hj
    obtain ⟨rfl, rfl⟩ | ⟨hne, hj⟩ := put_transfers_eq_some hj
    · exact Registry.remove_items_self
    · have hne' : u.handle ≠ t.handle := by
        rw [(h.handle j u hj).2, (h.handle i t ht).2]
        omega
      exact (Registry.remove_items_of_ne hne').trans (h.items j u hj)
  found := by
    intro handle j hj
    rcases eq_or_ne handle t.handle with rfl | hne
    · exact nomatch Registry.remove_items_self.symm.trans hj
    · obtain ⟨u, hu, rfl⟩ := h.found handle j ((Registry.remove_items_of_ne hne).symm.trans hj)
      refine ⟨u, (put_transfers_of_ne ?_).trans hu, rfl⟩
      rintro rfl
      obtain rfl := Option.some.inj (ht.symm.trans hu)
      exact hne rfl

theorem registered_invariant : (transferMachine β).Invariant Any Registered where
  init := by
    rintro x ⟨fs, rfl⟩
    refine ⟨rfl, ?_, ?_, ?_⟩
    · intro i t ht
      cases ht
    · intro i t ht
      cases ht
    · intro handle i hi
      cases hi
  step := by
    intro x a y hx _ h
    cases steps h with
    | download endpoint dest content => exact hx.download endpoint dest content
    | move ht hm => exact (hx.put ht hm.frame.1 hm.frame.2.1).fs _
    | remove ht ho => exact hx.remove ht
    | cancel handle =>
        have := hx.putCall (c := x.callCount) (k := { handle })
        exact ⟨this.next, this.handle, this.items, this.found⟩
    | found hc hk hi => exact hx.putCall
    | missing hc hk hi => exact hx.putCall
    | take hc hk ht hs => exact Registered.putCall (hx.put ht rfl rfl)
    | taken hc hk ht hs => exact hx.putCall
    | signal hc hk ht ho => exact Registered.putCall (hx.put ht rfl rfl)
    | unheard hc hk ht ho => exact hx.putCall
    | dropState ht hs hr hh => exact hx.put ht rfl rfl

/-! ## What a transfer keeps -/

/-- A transfer, and the same transfer some steps later. -/
structure Later (t t' : Transfer β) : Prop where
  handle : t'.handle = t.handle
  sender : t.hasSender = false → t'.hasSender = false
  result : ∀ r, t.outer.result = some r → t'.outer.result = some r
  registered : t.outer.isRegistered = false → t'.outer.isRegistered = false

theorem Later.refl (t : Transfer β) : Later t t := ⟨rfl, id, fun _ => id, id⟩

/-- The sender does not come back. -/
theorem Later.cancel (t : Transfer β) (b : Bool) (s : CancelSignal)
    (h : t.hasSender = false → b = false) : Later t { t with hasSender := b, signal := s } :=
  ⟨rfl, h, fun _ => id, id⟩

theorem Later.remove {r : Outcome} (h : t.outer = .removing r) :
    Later t { t with outer := .completing r } where
  handle := rfl
  sender := id
  registered _ := rfl
  result := by
    intro r' hr
    rw [h] at hr
    exact hr

theorem Later.move {fs fs' : FileSystem β} {a : TransferAction β} (h : Move fs i t a t' fs') :
    Later t t' where
  handle := h.frame.1
  sender hs := h.frame.2.2.1.trans hs
  registered hr := h.frame.2.1.trans hr
  result := by
    intro r hr
    cases h with
    | start h =>
        unfold Transfer.start at h
        split at h
        · cases h
        · obtain rfl := Option.some.inj h
          exact hr
    | inner h =>
        obtain ⟨d, events, -, rfl, -⟩ := Transfer.innerStep_eq_some h
        exact hr
    | outer h =>
        cases h with
        | poll ho => rw [ho] at hr; cases hr
        | cancelled ho hs => rw [ho] at hr; cases hr
        | joined ho hj => rw [ho] at hr; cases hr
        | complete ho => rw [ho] at hr; exact hr
        | flushed ho hf => rw [ho] at hr; exact hr
        | nothing ho hf => rw [ho] at hr; exact hr
        | forward ho => rw [ho] at hr; exact hr
        | settle ho => rw [ho] at hr; exact hr

theorem exists_later_put (hi : x.transfers i = some t) (hl : Later t t') {u : Transfer β}
    (hj : x.transfers j = some u) : ∃ u', (x.put i t').transfers j = some u' ∧ Later u u' := by
  rcases eq_or_ne j i with rfl | hne
  · obtain rfl := Option.some.inj (hi.symm.trans hj)
    exact ⟨t', put_transfers_self, hl⟩
  · exact ⟨u, (put_transfers_of_ne hne).trans hj, .refl u⟩

theorem exists_later {a : TransferAction β} (hx : x.Registered) (h : x.step a = some y)
    (hj : x.transfers j = some t) : ∃ t', y.transfers j = some t' ∧ Later t t' := by
  cases steps h with
  | download endpoint dest content =>
      have hne := Nat.ne_of_lt (hx.handle j t hj).1
      exact ⟨t, (put_transfers_of_ne hne).trans hj, .refl t⟩
  | move ht hm => exact exists_later_put ht (.move hm) hj
  | remove ht ho => exact exists_later_put ht (.remove ho) hj
  | cancel handle => exact ⟨t, hj, .refl t⟩
  | found hc hk hi => exact ⟨t, hj, .refl t⟩
  | missing hc hk hi => exact ⟨t, hj, .refl t⟩
  | take hc hk ht hs => exact exists_later_put ht (.cancel _ false _ fun _ => rfl) hj
  | taken hc hk ht hs => exact ⟨t, hj, .refl t⟩
  | signal hc hk ht ho => exact exists_later_put ht (.cancel _ _ .sent id) hj
  | unheard hc hk ht ho => exact ⟨t, hj, .refl t⟩
  | dropState ht hs hr hh => exact exists_later_put ht (.cancel _ false .closed fun _ => rfl) hj

/-- A call that has returned stays as it is. -/
theorem returned_step {a : TransferAction β} {r : Outcome} (h : x.step a = some y)
    (hc : x.calls c = some k) (hk : k.phase = .returned r) (hlt : c < x.callCount) :
    y.calls c = some k := by
  have hother {d : ℕ} {k₀ k' : CancelCall} (hd : x.calls d = some k₀)
      (hne : k₀.phase ≠ k.phase) : (x.putCall d k').calls c = some k := by
    refine (putCall_calls_of_ne ?_).trans hc
    rintro rfl
    obtain rfl := Option.some.inj (hd.symm.trans hc)
    exact hne rfl
  cases steps h with
  | download endpoint dest content => exact hc
  | move ht hm => exact hc
  | remove ht ho => exact hc
  | cancel handle => exact (putCall_calls_of_ne (Nat.ne_of_lt hlt)).trans hc
  | found hd hk' hi => exact hother hd (by rw [hk', hk]; nofun)
  | missing hd hk' hi => exact hother hd (by rw [hk', hk]; nofun)
  | take hd hk' ht hs => exact hother hd (by rw [hk', hk]; nofun)
  | taken hd hk' ht hs => exact hother hd (by rw [hk', hk]; nofun)
  | signal hd hk' ht ho => exact hother hd (by rw [hk', hk]; nofun)
  | unheard hd hk' ht ho => exact hother hd (by rw [hk', hk]; nofun)
  | dropState ht hs hr hh => exact hc

/-! ## The calls -/

/-- What a call holds is the transfer of its handle. -/
structure Link (x : TransferRun β) (c : ℕ) (k : CancelCall) : Prop where
  counted : c < x.callCount
  holding : ∀ i, k.phase = .holding i → ∃ t, x.transfers i = some t ∧ t.handle = k.handle
  sending : ∀ i, k.phase = .sending i →
    ∃ t, x.transfers i = some t ∧ t.handle = k.handle ∧ t.hasSender = false

theorem callCount_le {a : TransferAction β} (h : x.step a = some y) :
    x.callCount ≤ y.callCount := by
  cases steps h with
  | cancel handle => exact Nat.le_succ _
  | _ => exact Nat.le_refl _

theorem Link.step {a : TransferAction β} (hl : x.Link c k) (hx : x.Registered)
    (h : x.step a = some y) : y.Link c k where
  counted := Nat.lt_of_lt_of_le hl.counted (callCount_le h)
  holding := by
    intro i hk
    obtain ⟨t, ht, hh⟩ := hl.holding i hk
    obtain ⟨t', ht', hl'⟩ := exists_later hx h ht
    exact ⟨t', ht', hl'.handle.trans hh⟩
  sending := by
    intro i hk
    obtain ⟨t, ht, hh, hs⟩ := hl.sending i hk
    obtain ⟨t', ht', hl'⟩ := exists_later hx h ht
    exact ⟨t', ht', hl'.handle.trans hh, hl'.sender hs⟩

theorem Link.returned {r : Outcome} (hlt : c < x.callCount) (hk : k.phase = .returned r) :
    x.Link c k where
  counted := hlt
  holding i hi := by
    rw [hk] at hi
    cases hi
  sending i hi := by
    rw [hk] at hi
    cases hi

/-- A call of the next state is an old one, or the one the step has moved. -/
theorem link_step {a : TransferAction β} (hx : x.Registered)
    (hl : ∀ c k, x.calls c = some k → x.Link c k) (h : x.step a = some y) :
    ∀ c k, y.calls c = some k → y.Link c k := by
  intro c k hc
  have hstep := h
  cases steps h with
  | download endpoint dest content => exact (hl c k hc).step hx hstep
  | move ht hm => exact (hl c k hc).step hx hstep
  | remove ht ho => exact (hl c k hc).step hx hstep
  | cancel handle =>
      obtain ⟨rfl, rfl⟩ | ⟨-, hc⟩ := putCall_calls_eq_some hc
      · exact ⟨Nat.lt_succ_self _, nofun, nofun⟩
      · exact (hl c k hc).step hx hstep
  | found hd hk hi =>
      obtain ⟨rfl, rfl⟩ | ⟨-, hc⟩ := putCall_calls_eq_some hc
      · refine ⟨(hl _ _ hd).counted, ?_, nofun⟩
        intro i heq
        obtain rfl := CancelPhase.holding.inj heq
        exact hx.found _ _ hi
      · exact (hl c k hc).step hx hstep
  | missing hd hk hi =>
      obtain ⟨rfl, rfl⟩ | ⟨-, hc⟩ := putCall_calls_eq_some hc
      · exact .returned (hl _ _ hd).counted rfl
      · exact (hl c k hc).step hx hstep
  | take hd hk ht hs =>
      obtain ⟨rfl, rfl⟩ | ⟨-, hc⟩ := putCall_calls_eq_some hc
      · refine ⟨(hl _ _ hd).counted, nofun, ?_⟩
        intro i heq
        obtain rfl := CancelPhase.sending.inj heq
        obtain ⟨t, ht', hh⟩ := (hl _ _ hd).holding _ hk
        obtain rfl := Option.some.inj (ht.symm.trans ht')
        exact ⟨_, put_transfers_self, hh, rfl⟩
      · exact (hl c k hc).step hx hstep
  | taken hd hk ht hs =>
      obtain ⟨rfl, rfl⟩ | ⟨-, hc⟩ := putCall_calls_eq_some hc
      · exact .returned (hl _ _ hd).counted rfl
      · exact (hl c k hc).step hx hstep
  | signal hd hk ht ho =>
      obtain ⟨rfl, rfl⟩ | ⟨-, hc⟩ := putCall_calls_eq_some hc
      · exact .returned (hl _ _ hd).counted rfl
      · exact (hl c k hc).step hx hstep
  | unheard hd hk ht ho =>
      obtain ⟨rfl, rfl⟩ | ⟨-, hc⟩ := putCall_calls_eq_some hc
      · exact .returned (hl _ _ hd).counted rfl
      · exact (hl c k hc).step hx hstep
  | dropState ht hs hr hh => exact (hl c k hc).step hx hstep

/-- How a step moves a call on a handle. -/
inductive CallMove (x : TransferRun β) (handle : ℕ) : CancelPhase → CancelPhase → Prop where
  | stay (p : CancelPhase) : CallMove x handle p p
  | found {i : ℕ} (hi : x.registry.items handle = some i) : CallMove x handle .begun (.holding i)
  | missing (hi : x.registry.items handle = none) :
      CallMove x handle .begun (.returned (.error (.invalidHandle (.ofNat handle))))
  | take (i : ℕ) : CallMove x handle (.holding i) (.sending i)
  | taken (i : ℕ) : CallMove x handle (.holding i) (.returned (.ok ()))
  | send (i : ℕ) : CallMove x handle (.sending i) (.returned (.ok ()))

/-- A call of the next state has just begun, or is a call of this one that has moved. -/
theorem call_step {a : TransferAction β} (h : x.step a = some y) (hc : y.calls c = some k) :
    (c = x.callCount ∧ k.phase = .begun) ∨
      ∃ k₀, x.calls c = some k₀ ∧ k.handle = k₀.handle ∧
        CallMove x k₀.handle k₀.phase k.phase := by
  have hold (hc : x.calls c = some k) : ∃ k₀, x.calls c = some k₀ ∧ k.handle = k₀.handle ∧
      CallMove x k₀.handle k₀.phase k.phase := ⟨k, hc, rfl, .stay _⟩
  cases steps h with
  | download endpoint dest content => exact .inr (hold hc)
  | move ht hm => exact .inr (hold hc)
  | remove ht ho => exact .inr (hold hc)
  | cancel handle =>
      obtain ⟨rfl, rfl⟩ | ⟨-, hc⟩ := putCall_calls_eq_some hc
      · exact .inl ⟨rfl, rfl⟩
      · exact .inr (hold hc)
  | found hd hk hi =>
      obtain ⟨rfl, rfl⟩ | ⟨-, hc⟩ := putCall_calls_eq_some hc
      · exact .inr ⟨_, hd, rfl, by rw [hk]; exact .found hi⟩
      · exact .inr (hold hc)
  | missing hd hk hi =>
      obtain ⟨rfl, rfl⟩ | ⟨-, hc⟩ := putCall_calls_eq_some hc
      · exact .inr ⟨_, hd, rfl, by rw [hk]; exact .missing hi⟩
      · exact .inr (hold hc)
  | take hd hk ht hs =>
      obtain ⟨rfl, rfl⟩ | ⟨-, hc⟩ := putCall_calls_eq_some hc
      · exact .inr ⟨_, hd, rfl, by rw [hk]; exact .take _⟩
      · exact .inr (hold hc)
  | taken hd hk ht hs =>
      obtain ⟨rfl, rfl⟩ | ⟨-, hc⟩ := putCall_calls_eq_some hc
      · exact .inr ⟨_, hd, rfl, by rw [hk]; exact .taken _⟩
      · exact .inr (hold hc)
  | signal hd hk ht ho =>
      obtain ⟨rfl, rfl⟩ | ⟨-, hc⟩ := putCall_calls_eq_some hc
      · exact .inr ⟨_, hd, rfl, by rw [hk]; exact .send _⟩
      · exact .inr (hold hc)
  | unheard hd hk ht ho =>
      obtain ⟨rfl, rfl⟩ | ⟨-, hc⟩ := putCall_calls_eq_some hc
      · exact .inr ⟨_, hd, rfl, by rw [hk]; exact .send _⟩
      · exact .inr (hold hc)
  | dropState ht hs hr hh => exact .inr (hold hc)

end TransferRun

end Iroh.Core
