import ReactNativeIroh.Ts.AddressWatch

/-!
# Attached consumers

A consumer of a watchable is attached while its registration was not unsubscribed, or its
iterator not detached.  The watchable counts them, past its own end, and its hooks are fired as
the count crosses zero.

`Feeds` is what a hook may do to the watchable it is given: push values into it and close it.
`Closes` is what the hooks of this library do: they close it at most.
-/

namespace Iroh

namespace Watchable

variable {φ α ε ω : Type*} {s : Watchable φ α ε}

/-- The consumers attached: registrations that are active, and iterators not detached. -/
def attached (s : Watchable φ α ε) : ℕ :=
  s.registrations.countP (fun r => r.2) + (s.made.map ConflatingIterator.detached).countP (!·)

/-- What becomes of a flag that is cleared. -/
theorem countP_set_add_one {β : Type*} {p : β → Bool} {l : List β} {k : ℕ} {a b : β}
    (hk : l[k]? = some a) (ha : p a = true) (hb : p b = false) :
    (l.set k b).countP p + 1 = l.countP p := by
  obtain ⟨hlt, hget⟩ := List.getElem?_eq_some_iff.mp hk
  have hpos : 0 < l.countP p :=
    List.countP_pos_iff.mpr ⟨a, List.mem_of_getElem? hk, ha⟩
  rw [List.countP_set hlt, hget, ha, hb]
  simp only [if_true, Bool.false_eq_true, if_false]
  omega

theorem map_detached_modify {f : ConflatingIterator α ε → ConflatingIterator α ε}
    (hf : ∀ it, (f it).detached = it.detached) (k : ℕ) (made : List (ConflatingIterator α ε)) :
    (made.modify k f).map ConflatingIterator.detached = made.map ConflatingIterator.detached := by
  refine List.ext_getElem? fun i => ?_
  rw [List.getElem?_map, List.getElem?_map, List.getElem?_modify]
  split
  · cases made[i]? with
    | none => rfl
    | some it => exact congrArg some (hf it)
  · cases made[i]? with
    | none => rfl
    | some it => rfl

theorem map_detached_foldl {f : ConflatingIterator α ε → ConflatingIterator α ε}
    (hf : ∀ it, (f it).detached = it.detached) (ks : List ℕ) (s : Watchable φ α ε) :
    ((ks.foldl (fun s k => s.modify k f) s).made.map ConflatingIterator.detached) =
      s.made.map ConflatingIterator.detached := by
  induction ks generalizing s with
  | nil => rfl
  | cons k ks ih => exact (ih (s.modify k f)).trans (map_detached_modify hf k s.made)

theorem detached_push (v : α) (it : ConflatingIterator α ε) :
    (it.push v).detached = it.detached := by
  unfold ConflatingIterator.push
  cases it.consumers.handOff v with
  | none => rfl
  | some consumers => rfl

theorem detached_next (it : ConflatingIterator α ε) : it.next.detached = it.detached := by
  unfold ConflatingIterator.next
  cases it.pending with
  | some v => rfl
  | none =>
      cases it.consumers.settledResult with
      | none => rfl
      | some r => rfl

theorem attached_register (listener : φ) :
    ({ s with registrations := s.registrations ++ [(listener, true)] } :
      Watchable φ α ε).attached = s.attached + 1 := by
  simp only [attached, List.countP_append, List.countP_singleton, if_true]
  omega

theorem attached_unregister {listener : φ} {k : ℕ}
    (hk : s.registrations[k]? = some (listener, true)) :
    ({ s with registrations := s.registrations.set k (listener, false) } :
      Watchable φ α ε).attached + 1 = s.attached := by
  have hcount := countP_set_add_one (p := fun r : φ × Bool => r.2) (b := (listener, false)) hk
    rfl rfl
  simp only [attached]
  omega

theorem attached_make (it : ConflatingIterator α ε) :
    ({ s with made := s.made ++ [it] } : Watchable φ α ε).attached =
      s.attached + if it.detached then 0 else 1 := by
  simp only [attached, List.map_append, List.map_singleton, List.countP_append,
    List.countP_singleton]
  cases it.detached with
  | true => rfl
  | false => exact (Nat.add_assoc _ _ _).symm

theorem attached_detach {it : ConflatingIterator α ε} {k : ℕ} (hk : s.made[k]? = some it)
    (hit : it.detached = false) :
    (s.modify k fun it => { it with detached := true }).attached + 1 = s.attached := by
  have hflag : (s.made.map ConflatingIterator.detached)[k]? = some false := by
    rw [List.getElem?_map, hk, Option.map_some, hit]
  have hset : (s.made.modify k fun it => { it with detached := true }).map
      ConflatingIterator.detached = (s.made.map ConflatingIterator.detached).set k true := by
    have hlt := (List.getElem?_eq_some_iff.mp hflag).1
    refine List.ext_getElem? fun i => ?_
    rw [List.getElem?_map, List.getElem?_modify, List.getElem?_set, List.getElem?_map]
    by_cases hi : k = i
    · subst hi
      simp only [if_true, if_pos hlt, hk]
      rfl
    · simp only [if_neg hi]
      cases s.made[i]? with
      | none => rfl
      | some other => rfl
  have hcount := countP_set_add_one (p := (!·)) (b := true) hflag rfl rfl
  simp only [attached, modify, hset]
  omega

/-- The consumers of two watchables are the same, up to what they were given. -/
structure SameConsumers (s s' : Watchable φ α ε) : Prop where
  subscribers : s'.subscribers = s.subscribers
  registrations : s'.registrations = s.registrations
  detached : s'.made.map ConflatingIterator.detached = s.made.map ConflatingIterator.detached

namespace SameConsumers

variable {s' : Watchable φ α ε}

theorem refl : s.SameConsumers s := ⟨rfl, rfl, rfl⟩

theorem trans {s'' : Watchable φ α ε} (h : s.SameConsumers s') (h' : s'.SameConsumers s'') :
    s.SameConsumers s'' :=
  ⟨h'.subscribers.trans h.subscribers, h'.registrations.trans h.registrations,
    h'.detached.trans h.detached⟩

theorem attached (h : s.SameConsumers s') : s'.attached = s.attached := by
  rw [Watchable.attached, Watchable.attached, h.registrations, h.detached]

theorem modify {f : ConflatingIterator α ε → ConflatingIterator α ε}
    (hf : ∀ it, (f it).detached = it.detached) (k : ℕ) : s.SameConsumers (s.modify k f) :=
  ⟨rfl, rfl, map_detached_modify hf k s.made⟩

theorem foldl_modify {f : ConflatingIterator α ε → ConflatingIterator α ε}
    (hf : ∀ it, (f it).detached = it.detached) (ks : List ℕ) :
    s.SameConsumers (ks.foldl (fun s k => s.modify k f) s) := by
  obtain ⟨made, he⟩ := Watchable.foldl_modify f ks s
  have hdetached := map_detached_foldl hf ks s
  rw [he] at hdetached ⊢
  exact ⟨rfl, rfl, hdetached⟩

theorem push (v : α) : s.SameConsumers (s.push v) := by
  unfold Watchable.push
  split
  · exact .refl
  · obtain ⟨h₁, h₂, h₃⟩ := foldl_modify (s := { s with
      calls := s.calls ++ s.listeners.map fun listener => (listener, v)
      pushed := s.pushed ++ [v] }) (detached_push (ε := ε) v) s.iterators
    exact ⟨h₁, h₂, h₃⟩

theorem close (error : Option ε) : s.SameConsumers (s.close error) := by
  unfold Watchable.close
  split
  · exact .refl
  · obtain ⟨h₁, h₂, h₃⟩ := foldl_modify (s := { s with
      closed := true, terminalError := error, listeners := [], iterators := [] })
      (f := ConflatingIterator.finish error) (fun _ => rfl) s.iterators
    exact ⟨h₁, h₂, h₃⟩

end SameConsumers

/-! ## Hooks that feed -/

/-- A value is pushed, or the watchable is closed. -/
def Feed (s t : Watchable φ α ε) : Prop := (∃ v, t = s.push v) ∨ ∃ error, t = s.close error

/-- Any number of values is pushed, and the watchable closed, in any order. -/
abbrev Fed : Watchable φ α ε → Watchable φ α ε → Prop := Relation.ReflTransGen Feed

/-- What every push and every close keeps, the hooks keep. -/
theorem Fed.keeps {I : Watchable φ α ε → Prop} (hpush : ∀ s v, I s → I (s.push v))
    (hclose : ∀ s error, I s → I (s.close error)) {s t : Watchable φ α ε} (h : Fed s t)
    (hs : I s) : I t := by
  induction h with
  | refl => exact hs
  | tail _ hn ih =>
      rcases hn with ⟨v, rfl⟩ | ⟨error, rfl⟩
      · exact hpush _ v ih
      · exact hclose _ error ih

theorem Fed.sameConsumers {s t : Watchable φ α ε} (h : Fed s t) : s.SameConsumers t :=
  h.keeps (I := s.SameConsumers) (fun _ v hs => hs.trans (.push v))
    (fun _ error hs => hs.trans (.close error)) .refl

/-- A closed watchable can be fed nothing. -/
theorem Fed.eq_of_closed {s t : Watchable φ α ε} (h : Fed s t) (hs : s.closed = true) :
    t = s := by
  refine h.keeps (I := (· = s)) (fun t v ht => ?_) (fun t error ht => ?_) rfl
  · rw [ht, push_closed hs]
  · rw [ht, close, if_pos hs]

/-- The hooks reach the watchable by feeding it. -/
structure Feeds (h : WatchableHooks φ α ε ω) : Prop where
  onActive : ∀ p, Fed p.1 (h.onActive p).1
  onIdle : ∀ p, Fed p.1 (h.onIdle p).1

theorem feeds_none : Feeds ({} : WatchableHooks φ α ε ω) := ⟨fun _ => .refl, fun _ => .refl⟩

/-- The watchable stays as it is, or is closed. -/
def MayClose (s t : Watchable φ α ε) : Prop := t = s ∨ ∃ error, t = s.close error

theorem MayClose.fed {s t : Watchable φ α ε} (h : MayClose s t) : Fed s t := by
  rcases h with rfl | ⟨error, rfl⟩
  · exact .refl
  · exact .single (.inr ⟨error, rfl⟩)

/-- Where it does not stay as it is, its listeners are gone. -/
theorem MayClose.cases {s t : Watchable φ α ε} (h : MayClose s t) :
    t = s ∨ (t.closed = true ∧ t.listeners = [] ∧ t.registrations = s.registrations ∧
      t.calls = s.calls) := by
  rcases h with rfl | ⟨error, rfl⟩
  · exact .inl rfl
  · cases hs : s.closed with
    | true => exact .inl (by rw [close, if_pos hs])
    | false =>
        obtain ⟨made, he⟩ := close_open hs error
        rw [he]
        exact .inr ⟨rfl, rfl, rfl, rfl⟩

/-- The hooks close the watchable at most. -/
structure Closes (h : WatchableHooks φ α ε ω) : Prop where
  onActive : ∀ p, MayClose p.1 (h.onActive p).1
  onIdle : ∀ p, MayClose p.1 (h.onIdle p).1

theorem Closes.feeds {h : WatchableHooks φ α ε ω} (hh : Closes h) : Feeds h :=
  ⟨fun p => (hh.onActive p).fed, fun p => (hh.onIdle p).fed⟩

theorem closes_none : Closes ({} : WatchableHooks φ α ε ω) :=
  ⟨fun _ => .inl rfl, fun _ => .inl rfl⟩

section Hooks

variable {h : WatchableHooks φ α ε ω} {w : ω}

theorem Feeds.retain (hh : Feeds h) :
    Fed { s with subscribers := s.subscribers + 1 } (retain h (s, w)).1 := by
  simp only [Watchable.retain]
  split
  · exact hh.onActive ({ s with subscribers := s.subscribers + 1 }, w)
  · exact .refl

theorem Feeds.release (hh : Feeds h) :
    Fed { s with subscribers := s.subscribers - 1 } (release h (s, w)).1 := by
  simp only [Watchable.release]
  split
  · exact hh.onIdle ({ s with subscribers := s.subscribers - 1 }, w)
  · exact .refl

theorem Closes.retain (hh : Closes h) :
    MayClose { s with subscribers := s.subscribers + 1 } (retain h (s, w)).1 := by
  simp only [Watchable.retain]
  split
  · exact hh.onActive ({ s with subscribers := s.subscribers + 1 }, w)
  · exact .inl rfl

theorem Closes.release (hh : Closes h) :
    MayClose { s with subscribers := s.subscribers - 1 } (release h (s, w)).1 := by
  simp only [Watchable.release]
  split
  · exact hh.onIdle ({ s with subscribers := s.subscribers - 1 }, w)
  · exact .inl rfl

/-- Only the first consumer fires `onActive`. -/
theorem retain_again (hs : s.subscribers ≠ 0) :
    retain h (s, w) = ({ s with subscribers := s.subscribers + 1 }, w) :=
  if_neg fun hone => hs (by simpa using hone)

/-- Only the last consumer fires `onIdle`. -/
theorem release_early (hs : s.subscribers ≠ 1) :
    release h (s, w) = ({ s with subscribers := s.subscribers - 1 }, w) :=
  if_neg fun hzero => hs (by have : s.subscribers - 1 = 0 := hzero; omega)

/-! ## The count -/

/-- The watchable counts the consumers that are attached. -/
def Counted (s : Watchable φ α ε) : Prop := s.subscribers = s.attached

theorem Counted.same {s' : Watchable φ α ε} (hs : s.Counted) (h : s.SameConsumers s') :
    s'.Counted := by
  rw [Counted, h.attached, h.subscribers]
  exact hs

theorem Feeds.retain_counted (hh : Feeds h) (hs : s.subscribers + 1 = s.attached) :
    (Watchable.retain h (s, w)).1.Counted := by
  have hsame := (hh.retain (s := s) (w := w)).sameConsumers
  rw [Counted, hsame.attached, hsame.subscribers]
  exact hs

theorem Feeds.release_counted (hh : Feeds h) (hs : s.subscribers = s.attached + 1) :
    (Watchable.release h (s, w)).1.Counted := by
  have hsame := (hh.release (s := s) (w := w)).sameConsumers
  rw [Counted, hsame.attached, hsame.subscribers]
  show s.subscribers - 1 = s.attached
  omega

theorem Counted.listen [DecidableEq φ] (hs : s.Counted) (hh : Feeds h) (listener : φ) :
    (Watchable.listen h listener (s, w)).1.Counted := by
  simp only [Watchable.listen]
  split
  · exact hs
  · have hcount : s.subscribers = (s.attached : ℤ) := hs
    have hsame := (hh.retain (w := w) (s := { s with
      listeners := if listener ∈ s.listeners then s.listeners else s.listeners ++ [listener] })
      ).sameConsumers
    have hattached := hsame.attached
    refine hsame.subscribers.trans ?_
    rw [attached_register, hattached]
    show s.subscribers + 1 = ((s.attached + 1 : ℕ) : ℤ)
    omega

theorem Counted.createIterator (hs : s.Counted) (hh : Feeds h) :
    (Watchable.createIterator h (s, w)).1.Counted := by
  have hcount : s.subscribers = (s.attached : ℤ) := hs
  simp only [Watchable.createIterator]
  split
  · refine hcount.trans ?_
    rw [attached_make]
    rfl
  · refine hh.retain_counted ?_
    have hmake : _ = s.attached + 1 := attached_make (s := s) {}
    show s.subscribers + 1 = (({ s with made := s.made ++ [{}] } : Watchable φ α ε).attached : ℤ)
    omega

theorem Counted.unsubscribe [DecidableEq φ] (hs : s.Counted) (hh : Feeds h) (k : ℕ) :
    (Watchable.unsubscribe h k (s, w)).1.Counted := by
  have hcount : s.subscribers = (s.attached : ℤ) := hs
  simp only [Watchable.unsubscribe]
  split
  · next listener hk =>
      refine hh.release_counted ?_
      have hattached := attached_unregister hk
      show s.subscribers = (({ s with
        registrations := s.registrations.set k (listener, false) } :
          Watchable φ α ε).attached : ℤ) + 1
      omega
  · exact hs

theorem Counted.detach (hs : s.Counted) (hh : Feeds h) (k : ℕ) :
    (Watchable.detach h k (s, w)).1.Counted := by
  have hcount : s.subscribers = (s.attached : ℤ) := hs
  simp only [Watchable.detach]
  split
  · exact hs
  · next it hk =>
      split
      · exact hs
      · next hit =>
          refine hh.release_counted ?_
          have hattached := attached_detach hk (by simpa using hit)
          show s.subscribers =
            ((s.modify k fun it => { it with detached := true }).attached : ℤ) + 1
          omega

/-- Whatever a consumer does, the count goes with it. -/
theorem Counted.consume [DecidableEq φ] (hs : s.Counted) (hh : Feeds h) (e : ConsumerEvent φ) :
    (Watchable.consume h e (s, w)).1.Counted := by
  cases e with
  | listen listener => exact hs.listen hh listener
  | unsubscribe k => exact hs.unsubscribe hh k
  | createIterator => exact hs.createIterator hh
  | next k => exact hs.same (.modify detached_next k)
  | «return» k =>
      exact (hs.detach hh k).same (.modify (f := ConflatingIterator.drop) (fun _ => rfl) k)

end Hooks

end Watchable

/-! ## The hooks of the address watch -/

namespace AddressWatch

variable {φ α : Type*}

/-- The hooks close the fan-out at most. -/
theorem closes_hooks (start : Except IrohError ℕ) :
    Watchable.Closes (hooks start : WatchableHooks φ α _ _) where
  onActive p := by
    simp only [hooks, startNativeAddrWatch]
    split
    · exact .inl rfl
    · cases start with
      | ok watchId => exact .inl rfl
      | error e => exact .inr ⟨some e, rfl⟩
  onIdle _ := .inl rfl

theorem feeds_hooks (start : Except IrohError ℕ) :
    Watchable.Feeds (hooks start : WatchableHooks φ α _ _) :=
  (closes_hooks start).feeds

end AddressWatch

end Iroh
