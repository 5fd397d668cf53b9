import ReactNativeIroh.Lib.Conflation
import ReactNativeIroh.Lib.Machine
import ReactNativeIroh.Ts.Attachment
import ReactNativeIroh.Ts.QueueContents

/-!
# The law of the conflating iterators

`FanOutRun` is one watchable under any sequence of pushes, closes and calls of its consumers.
Beside it are kept the number of values that had been pushed when each iterator was made, and
the iterators that were returned.

`Follows` is the invariant of one iterator that was not returned: it conflates the values pushed
since it was made.  Its hooks feed the watchable when no iterator is attached, or only the one
that was just made, so what is done to one iterator leaves the others alone.
-/

namespace Iroh

open Conflation Transition

/-! ## One iterator -/

namespace ConflatingIterator

variable {α ε : Type*} {since : List α} {terminal : Option (Option ε)}
  {it : ConflatingIterator α ε}

/-- An iterator has the values pushed since it was made, but for those that were superseded, and
ends as the watchable does. -/
structure Follows (since : List α) (terminal : Option (Option ε))
    (it : ConflatingIterator α ε) : Prop where
  valid : it.consumers.Valid
  conflates : Conflates since it.consumers.delivered it.pending
  terminal : it.consumers.terminal = terminal
  undelivered : ∀ v, it.pending = some v → it.consumers.waiters = [] ∧ it.consumers.ends = []

/-- A value goes to the oldest waiter, or is kept. -/
theorem push_cases (v : α) (it : ConflatingIterator α ε) :
    (∃ p ps, it.consumers.waiters = p :: ps ∧ it.push v =
      { it with consumers := { it.consumers with waiters := ps }.fulfil p (.value v) }) ∨
    (it.consumers.waiters = [] ∧ it.push v = { it with pending := some v }) := by
  unfold push WaiterQueue.handOff
  cases it.consumers.waiters with
  | nil => exact .inr ⟨rfl, rfl⟩
  | cons p ps => exact .inl ⟨p, ps, rfl, rfl⟩

/-- A call takes the value that is kept, reads the end, or parks. -/
theorem next_cases (it : ConflatingIterator α ε) :
    (∃ v, it.pending = some v ∧ it.next =
      { it with pending := none, consumers := it.consumers.answer (.value v) }) ∨
    (it.pending = none ∧ ∃ r consumers, it.consumers.settledResult = some (r, consumers) ∧
      it.next = { it with consumers := consumers.answer r }) ∨
    (it.pending = none ∧ it.consumers.terminal = none ∧
      it.next = { it with consumers := it.consumers.park }) := by
  unfold next
  cases it.pending with
  | some v => exact .inl ⟨v, rfl, rfl⟩
  | none =>
      cases hr : it.consumers.settledResult with
      | some r => exact .inr (.inl ⟨rfl, r.1, r.2, rfl, rfl⟩)
      | none =>
          refine .inr (.inr ⟨rfl, ?_, rfl⟩)
          unfold WaiterQueue.settledResult at hr
          split at hr
          · assumption
          · cases hr
          · split at hr
            · cases hr
            · cases hr

/-- What a settled queue answers is an end: the error of the stream, to the first to see it. -/
theorem settledResult_ends {q q' : WaiterQueue α ε} (hq : q.Valid) {r : Settled α ε}
    (hr : q.settledResult = some (r, q')) :
    ∃ error, q.terminal = some error ∧
      r = if q.ends = [] then error.elim .done .error else .done := by
  have hends := hq.ends
  unfold WaiterQueue.settledResult at hr
  split at hr
  · cases hr
  · next ht =>
      obtain ⟨rfl, -⟩ := Prod.mk.inj (Option.some.inj hr)
      exact ⟨none, ht, (ite_self _).symm⟩
  · next e ht =>
      refine ⟨some e, ht, ?_⟩
      simp only [ht, WaiterQueue.EndsAs] at hends
      split at hr
      · next hd =>
          obtain ⟨rfl, -⟩ := Prod.mk.inj (Option.some.inj hr)
          rcases hends with ⟨hd', -⟩ | ⟨-, n, hn⟩
          · exact absurd (hd'.symm.trans hd) Bool.noConfusion
          · rw [if_neg (by rw [hn]; exact List.cons_ne_nil _ _)]
      · next hd =>
          obtain ⟨rfl, -⟩ := Prod.mk.inj (Option.some.inj hr)
          rcases hends with ⟨-, hn⟩ | ⟨hd', -⟩
          · rw [if_pos hn]
            rfl
          · exact absurd hd' hd

/-- A call takes the value that is kept. -/
theorem next_takes {v : α} (hv : it.pending = some v) :
    it.next.consumers.outcomes = it.consumers.outcomes ++ [(it.consumers.issued, .value v)] := by
  rcases next_cases it with ⟨u, hu, he⟩ | ⟨hnone, -⟩ | ⟨hnone, -⟩
  · obtain rfl := Option.some.inj (hv.symm.trans hu)
    rw [he]
    rfl
  · cases hv.symm.trans hnone
  · cases hv.symm.trans hnone

theorem follows_new : Follows [] none ({} : ConflatingIterator α ε) where
  valid := WaiterQueue.valid_new
  conflates := .nil
  terminal := rfl
  undelivered := nofun

namespace Follows

theorem push (h : Follows since none it) (v : α) : Follows (since ++ [v]) none (it.push v) := by
  have hlive : it.consumers.isSettled = false := by
    rw [WaiterQueue.isSettled, h.terminal]
    rfl
  rcases push_cases v it with ⟨p, ps, hw, he⟩ | ⟨hw, he⟩
  · have hpending : it.pending = none := by
      cases hv : it.pending with
      | none => rfl
      | some u =>
          have hnone := (h.undelivered u hv).1
          rw [hw] at hnone
          cases hnone
    have hconflates := h.conflates
    rw [hpending] at hconflates
    rw [he]
    refine ⟨h.valid.handOff hlive (by rw [WaiterQueue.handOff, hw]), ?_, h.terminal,
      fun u hu => ?_⟩
    · rw [MessageQueue.fulfil_delivered]
      show Conflates _ _ it.pending
      rw [hpending]
      exact hconflates.pass v
    · cases hpending.symm.trans hu
  · rw [he]
    refine ⟨h.valid, h.conflates.keep v, h.terminal, fun u _ => ⟨hw, ?_⟩⟩
    exact (h.valid.live_undelivered hlive).2.2

theorem finish (h : Follows since none it) (error : Option ε) :
    Follows since (some error) (it.finish error) := by
  have hlive : it.consumers.isSettled = false := by
    rw [WaiterQueue.isSettled, h.terminal]
    rfl
  obtain ⟨ht, hd, hends⟩ := h.valid.live_undelivered hlive
  have hsettle := WaiterQueue.settle_live ht hd error
  refine ⟨h.valid.settle error, ?_, ?_, fun v hv => ?_⟩
  · have hdelivered : (it.consumers.settle error).delivered = it.consumers.delivered := by
      rw [hsettle, WaiterQueue.delivered, List.filterMap_append,
        WaiterQueue.endings_filterMap_value, List.append_nil]
      rfl
    show Conflates since (it.consumers.settle error).delivered it.pending
    rw [hdelivered]
    exact h.conflates
  · show (it.consumers.settle error).terminal = some error
    rw [hsettle]
  · have hw := (h.undelivered v hv).1
    show (it.consumers.settle error).waiters = [] ∧ (it.consumers.settle error).ends = []
    rw [hsettle, hw]
    refine ⟨rfl, ?_⟩
    rw [WaiterQueue.ends, WaiterQueue.endings_nil, List.append_nil]
    exact hends

theorem next (h : Follows since terminal it) : Follows since terminal it.next := by
  rcases next_cases it with ⟨v, hv, he⟩ | ⟨hv, r, consumers, hr, he⟩ | ⟨hv, ht, he⟩
  · have hconflates := h.conflates
    rw [hv] at hconflates
    rw [he]
    refine ⟨h.valid.answer_value (h.undelivered v hv).1 v, ?_, h.terminal, nofun⟩
    rw [WaiterQueue.delivered_answer]
    exact hconflates.take
  · obtain ⟨error, -, hend⟩ := settledResult_ends h.valid hr
    have hnone : r.value? = none := by
      rw [hend]
      split
      · cases error with
        | none => rfl
        | some e => rfl
      · rfl
    obtain ⟨d, rfl⟩ := WaiterQueue.settledResult_eq hr
    rw [he]
    refine ⟨h.valid.settledResult hr, ?_, h.terminal, fun v hv' => by cases hv.symm.trans hv'⟩
    rw [WaiterQueue.delivered_answer, hnone, Option.toList_none, List.append_nil]
    exact h.conflates
  · have hlive : it.consumers.isSettled = false := by
      rw [WaiterQueue.isSettled, ht]
      rfl
    rw [he]
    exact ⟨h.valid.park hlive, h.conflates, h.terminal, fun v hv' => by cases hv.symm.trans hv'⟩

/-- While the stream is open, a call that finds no value parks. -/
theorem next_parks (h : Follows since none it) (hv : it.pending = none) :
    it.next.consumers.waiters = it.consumers.waiters ++ [it.consumers.issued] ∧
      it.next.consumers.outcomes = it.consumers.outcomes := by
  rcases next_cases it with ⟨u, hu, -⟩ | ⟨-, r, q, hq, -⟩ | ⟨-, -, he⟩
  · cases hv.symm.trans hu
  · obtain ⟨error, hsome, -⟩ := settledResult_ends h.valid hq
    cases h.terminal.symm.trans hsome
  · rw [he]
    exact ⟨rfl, rfl⟩

/-- At the end of the stream, a call that finds no value ends. -/
theorem next_ends {error : Option ε} (h : Follows since (some error) it) (hv : it.pending = none) :
    it.next.consumers.outcomes = it.consumers.outcomes ++ [(it.consumers.issued,
      if it.consumers.ends = [] then error.elim .done .error else .done)] := by
  rcases next_cases it with ⟨u, hu, -⟩ | ⟨-, r, q, hq, he⟩ | ⟨-, hnone, -⟩
  · cases hv.symm.trans hu
  · obtain ⟨error', hsome, hend⟩ := settledResult_ends h.valid hq
    obtain ⟨d, rfl⟩ := WaiterQueue.settledResult_eq hq
    obtain rfl := Option.some.inj (h.terminal.symm.trans hsome)
    rw [he, ← hend]
    rfl
  · cases h.terminal.symm.trans hnone

/-- The error of the stream is the first end that is seen, and every other is plain. -/
theorem ends_once {error : Option ε} (h : Follows since (some error) it) :
    it.consumers.ends = [] ∨ ∃ n,
      it.consumers.ends = error.elim .done .error :: List.replicate n .done := by
  have hends := h.valid.ends
  rw [h.terminal] at hends
  cases error with
  | none =>
      obtain ⟨-, n, hn⟩ := hends
      cases n with
      | zero => exact .inl hn
      | succ n => exact .inr ⟨n, hn⟩
  | some e =>
      rcases hends with ⟨-, hn⟩ | ⟨-, n, hn⟩
      · exact .inl hn
      · exact .inr ⟨n, hn⟩

end Follows

end ConflatingIterator

/-! ## One watchable -/

namespace Watchable

variable {φ α ε : Type*} {s : Watchable φ α ε} {marks returned : List ℕ}

/-- `none` while it is open, else what it was closed with. -/
def terminal (s : Watchable φ α ε) : Option (Option ε) :=
  if s.closed then some s.terminalError else none

theorem terminal_open (h : s.closed = false) : s.terminal = none := by
  rw [terminal, h]
  rfl

theorem terminal_closed (h : s.closed = true) : s.terminal = some s.terminalError := by
  rw [terminal, h]
  rfl

/-- Acting on each of some iterators acts on every one of them once. -/
theorem foldl_modify_getElem? (f : ConflatingIterator α ε → ConflatingIterator α ε) {ks : List ℕ}
    (hks : ks.Nodup) (s : Watchable φ α ε) (i : ℕ) :
    (ks.foldl (fun s k => s.modify k f) s).made[i]? =
      if i ∈ ks then s.made[i]?.map f else s.made[i]? := by
  induction ks generalizing s with
  | nil => rfl
  | cons k ks ih =>
      obtain ⟨hk, hks⟩ := List.nodup_cons.mp hks
      rw [List.foldl_cons, ih hks]
      show (if i ∈ ks then ((s.made.modify k f)[i]?).map f else (s.made.modify k f)[i]?) = _
      rw [List.getElem?_modify]
      by_cases hi : k = i
      · subst hi
        simp only [if_neg hk, if_true, List.mem_cons, true_or]
        rfl
      · have hmem : i ∈ k :: ks ↔ i ∈ ks := by simp [Ne.symm hi]
        simp only [if_neg hi, hmem]
        cases s.made[i]? with
        | none => rfl
        | some it => rfl

theorem length_foldl_modify (f : ConflatingIterator α ε → ConflatingIterator α ε) (ks : List ℕ)
    (s : Watchable φ α ε) : (ks.foldl (fun s k => s.modify k f) s).made.length = s.made.length := by
  induction ks generalizing s with
  | nil => rfl
  | cons k ks ih => exact (ih (s.modify k f)).trans (List.length_modify ..)

/-- The iterators in the list are acted on, and nothing else changes. -/
structure ActsOn (f : ConflatingIterator α ε → ConflatingIterator α ε) (ks : List ℕ)
    (made made' : List (ConflatingIterator α ε)) : Prop where
  length : made'.length = made.length
  get : ∀ i, made'[i]? = if i ∈ ks then made[i]?.map f else made[i]?

theorem foldl_modify_actsOn (f : ConflatingIterator α ε → ConflatingIterator α ε) {ks : List ℕ}
    (hks : ks.Nodup) (s : Watchable φ α ε) :
    ∃ made, ks.foldl (fun s k => s.modify k f) s = { s with made } ∧ ActsOn f ks s.made made := by
  obtain ⟨made, he⟩ := foldl_modify f ks s
  refine ⟨made, he, ?_, fun i => ?_⟩
  · have hlength := length_foldl_modify f ks s
    rwa [he] at hlength
  · have hget := foldl_modify_getElem? f hks s i
    rwa [he] at hget

theorem push_actsOn (hs : s.closed = false) (hnodup : s.iterators.Nodup) (v : α) :
    ∃ made, s.push v = { s with
      calls := s.calls ++ s.listeners.map fun listener => (listener, v)
      pushed := s.pushed ++ [v]
      made } ∧ ActsOn (ConflatingIterator.push v) s.iterators s.made made := by
  rw [push, if_neg (Bool.eq_false_iff.mp hs)]
  exact foldl_modify_actsOn (ConflatingIterator.push v) hnodup { s with
    calls := s.calls ++ s.listeners.map fun listener => (listener, v)
    pushed := s.pushed ++ [v] }

theorem close_actsOn (hs : s.closed = false) (hnodup : s.iterators.Nodup) (error : Option ε) :
    ∃ made, s.close error = { s with
      closed := true
      terminalError := error
      listeners := []
      iterators := []
      made } ∧ ActsOn (ConflatingIterator.finish error) s.iterators s.made made := by
  rw [close, if_neg (Bool.eq_false_iff.mp hs)]
  exact foldl_modify_actsOn (ConflatingIterator.finish error) hnodup { s with
    closed := true, terminalError := error, listeners := [], iterators := [] }

/-- The invariant of a watchable, with the number of values pushed before each iterator was made,
and the iterators returned. -/
structure Fair (s : Watchable φ α ε) (marks returned : List ℕ) : Prop where
  marked : marks.length = s.made.length
  bound : ∀ m ∈ marks, m ≤ s.pushed.length
  nodup : s.iterators.Nodup
  attached : ∀ k, k ∈ s.iterators ↔ s.closed = false ∧ k < s.made.length ∧ k ∉ returned
  gone : ∀ k ∈ returned, k < s.made.length
  detached : ∀ k it, s.made[k]? = some it → it.detached = true → k ∈ returned ∨ s.closed = true
  follows : ∀ k it m, s.made[k]? = some it → marks[k]? = some m → k ∉ returned →
    it.Follows (s.pushed.drop m) s.terminal

theorem fair_new : Fair ({} : Watchable φ α ε) [] [] where
  marked := rfl
  bound := nofun
  nodup := List.nodup_nil
  attached k := ⟨nofun, fun h => absurd h.2.1 (Nat.not_lt_zero k)⟩
  gone := nofun
  detached _ _ := nofun
  follows _ _ _ := nofun

/-- What a push and a close do to the iterators that are attached. -/
theorem Fair.acts (h : s.Fair marks returned) (hc : s.closed = false)
    {f : ConflatingIterator α ε → ConflatingIterator α ε}
    {made : List (ConflatingIterator α ε)} (hacts : ActsOn f s.iterators s.made made) {k : ℕ}
    {it : ConflatingIterator α ε} (hk : made[k]? = some it) (hr : k ∉ returned) :
    ∃ it₀, s.made[k]? = some it₀ ∧ it = f it₀ := by
  have hlt : k < s.made.length := hacts.length ▸ (List.getElem?_eq_some_iff.mp hk).1
  rw [hacts.get, if_pos ((h.attached k).mpr ⟨hc, hlt, hr⟩)] at hk
  obtain ⟨it₀, hk₀, rfl⟩ := Option.map_eq_some_iff.mp hk
  exact ⟨it₀, hk₀, rfl⟩

theorem Fair.push (h : s.Fair marks returned) (v : α) : (s.push v).Fair marks returned := by
  cases hc : s.closed with
  | true => rw [push_closed hc]; exact h
  | false =>
      obtain ⟨made, he, hacts⟩ := push_actsOn hc h.nodup v
      have hlength := hacts.length
      rw [he]
      refine ⟨h.marked.trans hlength.symm, fun m hm => ?_, h.nodup, fun k => ?_, fun k hk => ?_,
        fun k it hk hd => ?_, fun k it m hk hm hr => ?_⟩
      · rw [List.length_append]
        exact Nat.le_add_right_of_le (h.bound m hm)
      · rw [h.attached k]
        show _ ↔ s.closed = false ∧ k < made.length ∧ k ∉ returned
        rw [hlength]
      · show k < made.length
        rw [hlength]
        exact h.gone k hk
      · by_cases hr : k ∈ returned
        · exact .inl hr
        · obtain ⟨it₀, hk₀, rfl⟩ := h.acts hc hacts hk hr
          exact h.detached k it₀ hk₀ ((detached_push v it₀).symm.trans hd)
      · obtain ⟨it₀, hk₀, rfl⟩ := h.acts hc hacts hk hr
        have hfollows := h.follows k it₀ m hk₀ hm hr
        have hm := h.bound m (List.mem_of_getElem? hm)
        show ConflatingIterator.Follows ((s.pushed ++ [v]).drop m) s.terminal _
        rw [terminal_open hc] at hfollows ⊢
        rw [List.drop_append_of_le_length hm]
        exact hfollows.push v

theorem Fair.close (h : s.Fair marks returned) (error : Option ε) :
    (s.close error).Fair marks returned := by
  cases hc : s.closed with
  | true => rw [Watchable.close, if_pos hc]; exact h
  | false =>
      obtain ⟨made, he, hacts⟩ := close_actsOn hc h.nodup error
      have hlength := hacts.length
      rw [he]
      refine ⟨h.marked.trans hlength.symm, h.bound, List.nodup_nil, fun k => ?_, fun k hk => ?_,
        fun k it hk hd => .inr rfl, fun k it m hk hm hr => ?_⟩
      · exact ⟨fun hmem => absurd hmem List.not_mem_nil,
          fun hopen => absurd hopen.1.symm Bool.noConfusion⟩
      · show k < made.length
        rw [hlength]
        exact h.gone k hk
      · obtain ⟨it₀, hk₀, rfl⟩ := h.acts hc hacts hk hr
        have hfollows := h.follows k it₀ m hk₀ hm hr
        rw [terminal_open hc] at hfollows
        rw [terminal_closed rfl]
        exact hfollows.finish error

/-- The hooks keep it. -/
theorem Fair.fed (h : s.Fair marks returned) {t : Watchable φ α ε} (hfed : Fed s t) :
    t.Fair marks returned :=
  hfed.keeps (I := fun t => t.Fair marks returned) (fun _ v ht => ht.push v)
    (fun _ error ht => ht.close error) h

theorem getElem?_made {it new : ConflatingIterator α ε} {k : ℕ}
    (hk : (s.made ++ [new])[k]? = some it) :
    s.made[k]? = some it ∨ k = s.made.length ∧ it = new := by
  rw [List.getElem?_append] at hk
  split at hk
  · exact .inl hk
  · next hge =>
      rw [List.getElem?_singleton] at hk
      split at hk
      · exact .inr ⟨by omega, (Option.some.inj hk).symm⟩
      · cases hk

/-- What is made is followed from now on. -/
theorem Fair.follows_made (h : s.Fair marks returned) {new : ConflatingIterator α ε}
    (hnew : new.Follows [] s.terminal) {k m : ℕ} {it : ConflatingIterator α ε}
    (hk : (s.made ++ [new])[k]? = some it) (hm : (marks ++ [s.pushed.length])[k]? = some m)
    (hr : k ∉ returned) : it.Follows (s.pushed.drop m) s.terminal := by
  rcases getElem?_made hk with hk | ⟨rfl, rfl⟩
  · have hlt : k < marks.length := by
      rw [h.marked]
      exact (List.getElem?_eq_some_iff.mp hk).1
    rw [List.getElem?_append_left hlt] at hm
    exact h.follows k it m hk hm hr
  · rw [← h.marked, List.getElem?_concat_length] at hm
    obtain rfl := Option.some.inj hm
    rw [List.drop_length]
    exact hnew

theorem Fair.bound_made (h : s.Fair marks returned) :
    ∀ m ∈ marks ++ [s.pushed.length], m ≤ s.pushed.length :=
  List.forall_mem_append.mpr ⟨h.bound, List.forall_mem_singleton.mpr le_rfl⟩

/-- A fresh iterator is attached. -/
theorem Fair.make (h : s.Fair marks returned) (hc : s.closed = false) :
    Fair { s with
      iterators := s.iterators ++ [s.made.length]
      made := s.made ++ [({} : ConflatingIterator α ε)] }
      (marks ++ [s.pushed.length]) returned := by
  have hlength (new : ConflatingIterator α ε) : (s.made ++ [new]).length = s.made.length + 1 :=
    List.length_append
  refine ⟨?_, h.bound_made, ?_, fun k => ?_, fun k hk => ?_, fun k it hk hd => ?_,
    fun k it m hk hm hr => ?_⟩
  · rw [List.length_append, hlength, h.marked, List.length_singleton]
  · refine List.nodup_append.mpr ⟨h.nodup, List.nodup_cons.mpr ⟨List.not_mem_nil, List.nodup_nil⟩,
      fun a ha b hb hab => ?_⟩
    obtain rfl := List.mem_singleton.mp hb
    exact absurd ((h.attached a).mp ha).2.1 (hab ▸ lt_irrefl _)
  · show k ∈ s.iterators ++ [s.made.length] ↔ s.closed = false ∧ k < _ ∧ k ∉ returned
    rw [List.mem_append, List.mem_singleton, h.attached k, hlength]
    constructor
    · rintro (⟨-, hk, hr⟩ | rfl)
      · exact ⟨hc, by omega, hr⟩
      · exact ⟨hc, by omega, fun hr => absurd (h.gone _ hr) (lt_irrefl _)⟩
    · rintro ⟨-, hk, hr⟩
      by_cases hlt : k < s.made.length
      · exact .inl ⟨hc, hlt, hr⟩
      · exact .inr (by omega)
  · rw [hlength]
    exact Nat.lt_succ_of_lt (h.gone k hk)
  · rcases getElem?_made hk with hk | ⟨-, rfl⟩
    · exact h.detached k it hk hd
    · cases hd
  · refine h.follows_made ?_ hk hm hr
    rw [terminal_open hc]
    exact ConflatingIterator.follows_new

/-- On a closed watchable an iterator is made finished. -/
theorem Fair.makeFinished (h : s.Fair marks returned) (hc : s.closed = true) :
    Fair { s with
      made := s.made ++
        [{ ({} : ConflatingIterator α ε).finish s.terminalError with detached := true }] }
      (marks ++ [s.pushed.length]) returned := by
  have hlength (new : ConflatingIterator α ε) : (s.made ++ [new]).length = s.made.length + 1 :=
    List.length_append
  refine ⟨?_, h.bound_made, h.nodup, fun k => ?_, fun k hk => ?_, fun k it hk hd => .inr hc,
    fun k it m hk hm hr => ?_⟩
  · rw [List.length_append, hlength, h.marked, List.length_singleton]
  · rw [h.attached k]
    have hshut : ¬ s.closed = false := fun hopen => Bool.noConfusion (hc.symm.trans hopen)
    exact ⟨fun hopen => absurd hopen.1 hshut, fun hopen => absurd hopen.1 hshut⟩
  · rw [hlength]
    exact Nat.lt_succ_of_lt (h.gone k hk)
  · have hfinished := (ConflatingIterator.follows_new (α := α)).finish s.terminalError
    refine h.follows_made ?_ hk hm hr
    rw [terminal_closed hc]
    exact ⟨hfinished.valid, hfinished.conflates, hfinished.terminal, hfinished.undelivered⟩

/-- One iterator is acted on. -/
theorem Fair.modify (h : s.Fair marks returned) (j : ℕ)
    {f : ConflatingIterator α ε → ConflatingIterator α ε}
    (hdetached : ∀ it, (f it).detached = it.detached)
    (hf : ∀ it m, s.made[j]? = some it → marks[j]? = some m → j ∉ returned →
      (f it).Follows (s.pushed.drop m) s.terminal) :
    (s.modify j f).Fair marks returned := by
  have hlength : (s.made.modify j f).length = s.made.length := List.length_modify ..
  have hget {k : ℕ} {it : ConflatingIterator α ε} (hk : (s.made.modify j f)[k]? = some it) :
      ∃ it₀, s.made[k]? = some it₀ ∧ it.detached = it₀.detached ∧
        (k = j ∧ it = f it₀ ∨ it = it₀) := by
    rw [List.getElem?_modify] at hk
    obtain ⟨it₀, hk₀, rfl⟩ := Option.map_eq_some_iff.mp hk
    refine ⟨it₀, hk₀, ?_⟩
    split
    · next hkj => exact ⟨hdetached it₀, .inl ⟨hkj.symm, rfl⟩⟩
    · exact ⟨rfl, .inr rfl⟩
  refine ⟨h.marked.trans hlength.symm, h.bound, h.nodup, fun k => ?_, fun k hk => ?_,
    fun k it hk hd => ?_, fun k it m hk hm hr => ?_⟩
  · refine (h.attached k).trans ?_
    show _ ↔ s.closed = false ∧ k < (s.made.modify j f).length ∧ k ∉ returned
    rw [hlength]
  · show k < (s.made.modify j f).length
    rw [hlength]
    exact h.gone k hk
  · obtain ⟨it₀, hk₀, hd₀, -⟩ := hget hk
    exact h.detached k it₀ hk₀ (hd₀.symm.trans hd)
  · obtain ⟨it₀, hk₀, -, ⟨rfl, rfl⟩ | rfl⟩ := hget hk
    · exact hf it₀ m hk₀ hm hr
    · exact h.follows k it m hk₀ hm hr

theorem Fair.next (h : s.Fair marks returned) (j : ℕ) :
    (s.modify j ConflatingIterator.next).Fair marks returned :=
  h.modify j detached_next fun it m hk hm hr => (h.follows j it m hk hm hr).next

/-- An iterator that was returned is of no account. -/
theorem Fair.gives (h : s.Fair marks returned) {j : ℕ} (hj : j < s.made.length)
    (hout : j ∉ s.iterators) : s.Fair marks (returned ++ [j]) := by
  have hmem {k : ℕ} : k ∉ returned ++ [j] ↔ k ∉ returned ∧ k ≠ j := by simp [not_or]
  refine ⟨h.marked, h.bound, h.nodup, fun k => ?_, ?_, fun k it hk hd => ?_,
    fun k it m hk hm hr => h.follows k it m hk hm (hmem.mp hr).1⟩
  · rw [h.attached k, hmem]
    refine and_congr_right fun hopen => and_congr_right fun hlt => ?_
    refine ⟨fun hr => ⟨hr, ?_⟩, fun hr => hr.1⟩
    rintro rfl
    exact hout ((h.attached k).mpr ⟨hopen, hlt, hr⟩)
  · exact List.forall_mem_append.mpr ⟨h.gone, List.forall_mem_singleton.mpr hj⟩
  · exact (h.detached k it hk hd).imp_left (List.mem_append_left [j])

/-- An iterator is taken out, and its flag set. -/
theorem Fair.takeOut (h : s.Fair marks returned) {j : ℕ} (hj : j < s.made.length) :
    Fair { s.modify j fun it => { it with detached := true } with
      iterators := s.iterators.erase j } marks (returned ++ [j]) := by
  have hlength : (s.made.modify j fun it => { it with detached := true }).length =
      s.made.length := List.length_modify ..
  have hmem {k : ℕ} : k ∉ returned ++ [j] ↔ k ∉ returned ∧ k ≠ j := by simp [not_or]
  have hget {k : ℕ} (hk : k ≠ j) :
      (s.made.modify j fun it => { it with detached := true })[k]? = s.made[k]? := by
    rw [List.getElem?_modify]
    simp only [if_neg (Ne.symm hk)]
    exact Option.map_id'
  refine ⟨h.marked.trans hlength.symm, h.bound, h.nodup.erase j, fun k => ?_, ?_,
    fun k it hk hd => ?_, fun k it m hk hm hr => ?_⟩
  · show k ∈ s.iterators.erase j ↔ s.closed = false ∧ k < _ ∧ _
    rw [h.nodup.mem_erase_iff, h.attached k, hmem]
    show _ ↔ s.closed = false ∧ k < (s.made.modify j _).length ∧ _
    rw [hlength]
    exact ⟨fun ⟨hne, hopen, hlt, hr⟩ => ⟨hopen, hlt, hr, hne⟩,
      fun ⟨hopen, hlt, hr, hne⟩ => ⟨hne, hopen, hlt, hr⟩⟩
  · show ∀ k ∈ returned ++ [j], k < (s.made.modify j _).length
    rw [hlength]
    exact List.forall_mem_append.mpr ⟨h.gone, List.forall_mem_singleton.mpr hj⟩
  · by_cases hkj : k = j
    · subst hkj
      exact .inl (List.mem_append_right _ (List.mem_singleton_self k))
    · refine (h.detached k it ((hget hkj).symm.trans hk) hd).imp_left ?_
      exact List.mem_append_left [j]
  · obtain ⟨hr, hkj⟩ := hmem.mp hr
    exact h.follows k it m ((hget hkj).symm.trans hk) hm hr

theorem Fair.recount (h : s.Fair marks returned) (n : ℤ) :
    Fair { s with subscribers := n } marks returned := { h with }

section Hooks

variable {ω : Type*} {h : WatchableHooks φ α ε ω} {w : ω}

theorem Fair.retain (hs : s.Fair marks returned) (hh : Feeds h) :
    (Watchable.retain h (s, w)).1.Fair marks returned :=
  (hs.recount _).fed hh.retain

theorem Fair.release (hs : s.Fair marks returned) (hh : Feeds h) :
    (Watchable.release h (s, w)).1.Fair marks returned :=
  (hs.recount _).fed hh.release

theorem Fair.createIterator (hs : s.Fair marks returned) (hh : Feeds h) :
    (Watchable.createIterator h (s, w)).1.Fair (marks ++ [s.pushed.length]) returned := by
  simp only [Watchable.createIterator]
  split
  · next hc => exact hs.makeFinished hc
  · next hc => exact (hs.make (by simpa using hc)).retain hh

theorem Fair.return (hs : s.Fair marks returned) (hh : Feeds h) {j : ℕ} (hj : j < s.made.length) :
    (Watchable.return h j (s, w)).1.Fair marks (returned ++ [j]) := by
  have hdetached : (Watchable.detach h j (s, w)).1.Fair marks (returned ++ [j]) := by
    simp only [Watchable.detach]
    split
    · next hnone => exact absurd (List.getElem?_eq_none_iff.mp hnone) (by omega)
    · next it hk =>
        split
        · next hd =>
            refine hs.gives hj fun hmem => ?_
            obtain ⟨hopen, -, hr⟩ := (hs.attached j).mp hmem
            rcases hs.detached j it hk hd with hr' | hc
            · exact hr hr'
            · exact Bool.noConfusion (hc.symm.trans hopen)
        · exact (hs.takeOut hj).release hh
  refine hdetached.modify j (fun _ => rfl) fun it m _ _ hr => ?_
  exact absurd (List.mem_append_right _ (List.mem_singleton_self j)) hr

theorem Fair.listen [DecidableEq φ] (hs : s.Fair marks returned) (hh : Feeds h) (listener : φ) :
    (Watchable.listen h listener (s, w)).1.Fair marks returned := by
  simp only [Watchable.listen]
  split
  · exact hs
  · have hadded : Fair { s with
        listeners := if listener ∈ s.listeners then s.listeners else s.listeners ++ [listener] }
        marks returned := { hs with }
    exact { hadded.retain (w := w) hh with }

theorem Fair.unsubscribe [DecidableEq φ] (hs : s.Fair marks returned) (hh : Feeds h) (k : ℕ) :
    (Watchable.unsubscribe h k (s, w)).1.Fair marks returned := by
  simp only [Watchable.unsubscribe]
  split
  · next listener hk =>
      have hremoved : Fair { s with
          registrations := s.registrations.set k (listener, false)
          listeners := s.listeners.erase listener } marks returned := { hs with }
      exact hremoved.release hh
  · exact hs

/-! ## Iterators do not see each other -/

theorem attached_pos {it : ConflatingIterator α ε} {k : ℕ} (hk : s.made[k]? = some it)
    (hit : it.detached = false) : 0 < s.attached := by
  have := attached_detach hk hit
  omega

/-- An iterator that is attached keeps the hooks from firing. -/
theorem Fair.flag (hs : s.Fair marks returned) {k : ℕ} {it : ConflatingIterator α ε}
    (hk : s.made[k]? = some it) (hr : k ∉ returned) (hc : s.closed = false) :
    it.detached = false := by
  refine Bool.eq_false_iff.mpr fun hd => ?_
  rcases hs.detached k it hk hd with hr' | hc'
  · exact hr hr'
  · exact Bool.noConfusion (hc'.symm.trans hc)

theorem getElem?_modify_ne {f : ConflatingIterator α ε → ConflatingIterator α ε} {j k : ℕ}
    (hjk : j ≠ k) (made : List (ConflatingIterator α ε)) : (made.modify j f)[k]? = made[k]? := by
  rw [List.getElem?_modify]
  simp only [if_neg hjk]
  exact Option.map_id'

theorem release_made (hh : Feeds h) (hs : s.closed = true ∨ s.subscribers ≠ 1) :
    (Watchable.release h (s, w)).1.made = s.made := by
  rcases hs with hc | hne
  · rw [hh.release.eq_of_closed hc]
  · rw [release_early hne]

theorem Fair.createIterator_alone (hs : s.Fair marks returned) (hcount : s.Counted) {k : ℕ}
    {it : ConflatingIterator α ε} (hk : s.made[k]? = some it) (hr : k ∉ returned) :
    (Watchable.createIterator h (s, w)).1.made[k]? = some it := by
  have hlt : k < s.made.length := (List.getElem?_eq_some_iff.mp hk).1
  simp only [Watchable.createIterator]
  split
  · rw [List.getElem?_append_left hlt]
    exact hk
  · next hc =>
      have hpos := attached_pos hk (hs.flag hk hr (by simpa using hc))
      have hcount : s.subscribers = (s.attached : ℤ) := hcount
      have hne : s.subscribers ≠ 0 := by omega
      rw [retain_again (s := { s with
        iterators := s.iterators ++ [s.made.length], made := s.made ++ [{}] }) hne]
      show (s.made ++ [_])[k]? = some it
      rw [List.getElem?_append_left hlt]
      exact hk

theorem Fair.return_alone (hs : s.Fair marks returned) (hcount : s.Counted) (hh : Feeds h)
    {j k : ℕ} (hjk : j ≠ k) {it : ConflatingIterator α ε} (hk : s.made[k]? = some it)
    (hr : k ∉ returned) : (Watchable.return h j (s, w)).1.made[k]? = some it := by
  have hdetached : (Watchable.detach h j (s, w)).1.made[k]? = some it := by
    simp only [Watchable.detach]
    split
    · exact hk
    · next other hj =>
        split
        · exact hk
        · next hd =>
            have hkeep : (s.made.modify j fun it => { it with detached := true })[k]? =
                some it := (getElem?_modify_ne hjk s.made).trans hk
            have hmany : s.closed = true ∨ s.subscribers ≠ 1 := by
              cases hc : s.closed with
              | true => exact .inl rfl
              | false =>
                  have hattached := attached_detach hj (by simpa using hd)
                  have hpos := attached_pos (s := s.modify j fun it => { it with detached := true })
                    hkeep (hs.flag hk hr hc)
                  have hcount : s.subscribers = (s.attached : ℤ) := hcount
                  exact .inr (by omega)
            refine Eq.trans (congrArg (·[k]?) (release_made hh ?_)) hkeep
            exact hmany
  exact (getElem?_modify_ne hjk _).trans hdetached

end Hooks

end Watchable

/-! ## Runs -/

structure FanOutRun (φ α ε ω : Type*) where
  watchable : Watchable φ α ε := {}
  owner : ω
  /-- For each iterator made, how many values had been pushed. -/
  marks : List ℕ := []
  returned : List ℕ := []

/-- What can happen.  A consumer's call comes with what its hooks will do. -/
inductive FanOutAction (φ α ε κ : Type*) where
  | push (v : α)
  | close (error : Option ε)
  | consumer (i : κ) (e : ConsumerEvent φ)

namespace ConsumerEvent

variable {φ : Type*}

/-- An iterator is used after it was made. -/
def enabled (made : ℕ) : ConsumerEvent φ → Bool
  | .next k | .return k => decide (k < made)
  | _ => true

def makes : ConsumerEvent φ → Bool
  | .createIterator => true
  | _ => false

def returns : ConsumerEvent φ → Option ℕ
  | .return k => some k
  | _ => none

end ConsumerEvent

section Runs

variable {φ α ε ω κ : Type*} [DecidableEq φ] (h : κ → WatchableHooks φ α ε ω)

namespace FanOutRun

def after (i : κ) (e : ConsumerEvent φ) (x : FanOutRun φ α ε ω) : FanOutRun φ α ε ω :=
  let (watchable, owner) := Watchable.consume (h i) e (x.watchable, x.owner)
  { watchable
    owner
    marks := x.marks ++ if e.makes then [x.watchable.pushed.length] else []
    returned := x.returned ++ e.returns.toList }

def step (x : FanOutRun φ α ε ω) : FanOutAction φ α ε κ → Option (FanOutRun φ α ε ω)
  | .push v => some { x with watchable := x.watchable.push v }
  | .close error => some { x with watchable := x.watchable.close error }
  | .consumer i e => if e.enabled x.watchable.made.length then some (x.after h i e) else none

end FanOutRun

/-- The machine of one watchable, whose hooks are those of the call that fires them. -/
def fanOutMachine : Machine (FanOutRun φ α ε ω) (FanOutAction φ α ε κ) where
  init x := ∃ w, x = { owner := w }
  step := FanOutRun.step h

namespace FanOutRun

variable {h} {x y : FanOutRun φ α ε ω}

/-- The watchable keeps its invariants. -/
structure Sound (x : FanOutRun φ α ε ω) : Prop where
  fair : x.watchable.Fair x.marks x.returned
  counted : x.watchable.Counted

theorem Sound.after (hx : x.Sound) (hh : ∀ i, Watchable.Feeds (h i)) (i : κ)
    {e : ConsumerEvent φ} (he : e.enabled x.watchable.made.length = true) :
    (x.after h i e).Sound := by
  refine ⟨?_, hx.counted.consume (hh i) e⟩
  have hfair := hx.fair
  cases e with
  | listen listener =>
      simpa [FanOutRun.after, Watchable.consume, ConsumerEvent.makes, ConsumerEvent.returns] using
        hfair.listen (w := x.owner) (hh i) listener
  | unsubscribe k =>
      simpa [FanOutRun.after, Watchable.consume, ConsumerEvent.makes, ConsumerEvent.returns] using
        hfair.unsubscribe (w := x.owner) (hh i) k
  | createIterator =>
      simpa [FanOutRun.after, Watchable.consume, ConsumerEvent.makes, ConsumerEvent.returns] using
        hfair.createIterator (w := x.owner) (hh i)
  | next k =>
      simpa [FanOutRun.after, Watchable.consume, ConsumerEvent.makes, ConsumerEvent.returns] using
        hfair.next k
  | «return» k =>
      simpa [FanOutRun.after, Watchable.consume, ConsumerEvent.makes, ConsumerEvent.returns] using
        hfair.return (w := x.owner) (hh i) (of_decide_eq_true he)

theorem step_consumer {i : κ} {e : ConsumerEvent φ} (hy : x.step h (.consumer i e) = some y) :
    e.enabled x.watchable.made.length = true ∧ y = x.after h i e := by
  simp only [step] at hy
  split at hy
  · next he => exact ⟨he, (Option.some.inj hy).symm⟩
  · cases hy

theorem Sound.step (hx : x.Sound) (hh : ∀ i, Watchable.Feeds (h i)) {a : FanOutAction φ α ε κ}
    (hy : x.step h a = some y) : y.Sound := by
  cases a with
  | push v =>
      obtain rfl := Option.some.inj hy
      exact ⟨hx.fair.push v, hx.counted.same (.push v)⟩
  | close error =>
      obtain rfl := Option.some.inj hy
      exact ⟨hx.fair.close error, hx.counted.same (.close error)⟩
  | consumer i e =>
      obtain ⟨he, rfl⟩ := step_consumer hy
      exact hx.after hh i he

theorem sound_invariant (hh : ∀ i, Watchable.Feeds (h i)) :
    (fanOutMachine h).Invariant Any Sound where
  init := by
    rintro _ ⟨w, rfl⟩
    exact ⟨Watchable.fair_new, rfl⟩
  step _ _ _ hx _ hy := hx.step hh hy

/-! ## The law -/

variable (h)

/-- What holds of an iterator that was not returned, when `m` values had been pushed before it was
made. -/
structure Law (x : FanOutRun φ α ε ω) (k m : ℕ) (it : ConflatingIterator α ε) : Prop where
  /-- It yields values pushed since then, in their order. -/
  order : it.consumers.delivered.Sublist (x.watchable.pushed.drop m)
  /-- The one value that is kept is the newest. -/
  newest : ∀ v, it.pending = some v → x.watchable.pushed.getLast? = some v
  /-- Where none is kept, the newest was yielded. -/
  caughtUp : it.pending = none →
    it.consumers.delivered.getLast? = (x.watchable.pushed.drop m).getLast?
  /-- A call changes the iterator as `next` does. -/
  called : ∀ i y, x.step h (.consumer i (.next k)) = some y →
    y.watchable.made[k]? = some it.next
  /-- It yields the value that is kept. -/
  takes : ∀ v, it.pending = some v →
    it.next.consumers.outcomes = it.consumers.outcomes ++ [(it.consumers.issued, .value v)]
  /-- Else it parks while the watchable is open. -/
  parks : it.pending = none → x.watchable.closed = false →
    it.next.consumers.waiters = it.consumers.waiters ++ [it.consumers.issued] ∧
      it.next.consumers.outcomes = it.consumers.outcomes
  /-- And it ends when it is closed: the first to see the end has the error. -/
  ends : it.pending = none → x.watchable.closed = true →
    it.next.consumers.outcomes = it.consumers.outcomes ++ [(it.consumers.issued,
      if it.consumers.ends = [] then x.watchable.terminalError.elim .done .error else .done)]
  /-- The calls are served in their order. -/
  served : it.consumers.outcomes.map Prod.fst ++ it.consumers.waiters =
    List.range it.consumers.issued
  /-- The oldest call that is parked gets the next value pushed. -/
  handed : ∀ p ps, it.consumers.waiters = p :: ps → ∀ v y,
    x.step h (.push v : FanOutAction φ α ε κ) = some y → y.watchable.made[k]? = some { it with
      consumers := { it.consumers with waiters := ps }.fulfil p (.value v) }
  /-- A close leaves the value that is kept. -/
  keeps : ∀ error y, x.step h (.close error : FanOutAction φ α ε κ) = some y →
    ∃ it', y.watchable.made[k]? = some it' ∧ it'.pending = it.pending
  /-- No end is seen before it. -/
  last : it.consumers.ends ≠ [] → it.pending = none
  /-- While the watchable is open no end is seen. -/
  live : x.watchable.closed = false → it.consumers.ends = []
  /-- The error it was closed with is seen once, by the first to see the end. -/
  once : x.watchable.closed = true → it.consumers.ends = [] ∨ ∃ n,
    it.consumers.ends = x.watchable.terminalError.elim .done .error :: List.replicate n .done
  /-- What is done to another iterator leaves this one alone. -/
  alone : ∀ i e y, x.step h (.consumer i e) = some y →
    (e = .createIterator ∨ ∃ j, j ≠ k ∧ (e = .next j ∨ e = .return j)) →
      y.watchable.made[k]? = some it

variable {h}

theorem Sound.alone (hx : x.Sound) (hh : ∀ i, Watchable.Feeds (h i)) {k : ℕ}
    {it : ConflatingIterator α ε} (hk : x.watchable.made[k]? = some it) (hr : k ∉ x.returned)
    {i : κ} {e : ConsumerEvent φ} (hy : x.step h (.consumer i e) = some y)
    (he : e = .createIterator ∨ ∃ j, j ≠ k ∧ (e = .next j ∨ e = .return j)) :
    y.watchable.made[k]? = some it := by
  obtain ⟨-, rfl⟩ := step_consumer hy
  rcases he with rfl | ⟨j, hjk, rfl | rfl⟩
  · exact hx.fair.createIterator_alone hx.counted hk hr
  · exact (Watchable.getElem?_modify_ne hjk _).trans hk
  · exact hx.fair.return_alone hx.counted (hh i) hjk hk hr

omit [DecidableEq φ] in
/-- A value that is pushed reaches an iterator that waits for it. -/
theorem Sound.handed (hx : x.Sound) {k m : ℕ} {it : ConflatingIterator α ε}
    (hk : x.watchable.made[k]? = some it) (hm : x.marks[k]? = some m) (hr : k ∉ x.returned)
    {p : ℕ} {ps : List ℕ} (hw : it.consumers.waiters = p :: ps) (v : α) :
    (x.watchable.push v).made[k]? = some { it with
      consumers := { it.consumers with waiters := ps }.fulfil p (.value v) } := by
  have hfollows := hx.fair.follows k it m hk hm hr
  have hc : x.watchable.closed = false := by
    refine Bool.eq_false_iff.mpr fun hc => ?_
    have hterminal := hfollows.terminal
    rw [Watchable.terminal_closed hc] at hterminal
    have hnone := hfollows.valid.parked (by rw [WaiterQueue.isSettled, hterminal]; rfl)
    rw [hw] at hnone
    cases hnone
  have hmem : k ∈ x.watchable.iterators :=
    (hx.fair.attached k).mpr ⟨hc, (List.getElem?_eq_some_iff.mp hk).1, hr⟩
  obtain ⟨made, he, hacts⟩ := Watchable.push_actsOn hc hx.fair.nodup v
  rw [he]
  show made[k]? = _
  rw [hacts.get, if_pos hmem, hk, Option.map_some]
  rcases ConflatingIterator.push_cases v it with ⟨p', ps', hw', hpush⟩ | ⟨hw', -⟩
  · obtain ⟨rfl, rfl⟩ := List.cons.inj (hw.symm.trans hw')
    rw [hpush]
  · cases hw.symm.trans hw'

omit [DecidableEq φ] in
theorem Sound.keeps (hx : x.Sound) {k : ℕ} {it : ConflatingIterator α ε}
    (hk : x.watchable.made[k]? = some it) (error : Option ε) :
    ∃ it', (x.watchable.close error).made[k]? = some it' ∧ it'.pending = it.pending := by
  cases hc : x.watchable.closed with
  | true =>
      rw [Watchable.close, if_pos hc]
      exact ⟨it, hk, rfl⟩
  | false =>
      obtain ⟨made, he, hacts⟩ := Watchable.close_actsOn hc hx.fair.nodup error
      rw [he]
      show ∃ it', made[k]? = some it' ∧ _
      rw [hacts.get, hk]
      split
      · exact ⟨it.finish error, rfl, rfl⟩
      · exact ⟨it, rfl, rfl⟩

theorem Sound.obeys (hx : x.Sound) (hh : ∀ i, Watchable.Feeds (h i)) {k m : ℕ}
    {it : ConflatingIterator α ε} (hk : x.watchable.made[k]? = some it)
    (hm : x.marks[k]? = some m) (hr : k ∉ x.returned) : x.Law h k m it := by
  have hfollows := hx.fair.follows k it m hk hm hr
  have hconflates := hfollows.conflates
  have hopen : x.watchable.closed = false → it.Follows (x.watchable.pushed.drop m) none :=
    fun hc => Watchable.terminal_open hc ▸ hfollows
  have hended : x.watchable.closed = true →
      it.Follows (x.watchable.pushed.drop m) (some x.watchable.terminalError) :=
    fun hc => Watchable.terminal_closed hc ▸ hfollows
  refine ⟨hconflates.sublist, fun v hv => ?_, fun hv => ?_, fun i y hy => ?_,
    fun v hv => ConflatingIterator.next_takes hv, fun hv hc => (hopen hc).next_parks hv,
    fun hv hc => (hended hc).next_ends hv, hfollows.valid.order, fun p ps hw v y hy => ?_,
    fun error y hy => ?_, fun hne => ?_, fun hc => ?_, fun hc => (hended hc).ends_once,
    fun i e y hy he => hx.alone hh hk hr hy he⟩
  · rw [hv] at hconflates
    have hlast := hconflates.newest
    rw [List.getLast?_drop] at hlast
    split at hlast
    · cases hlast
    · exact hlast
  · rw [hv] at hconflates
    exact hconflates.caughtUp
  · obtain ⟨-, rfl⟩ := step_consumer hy
    show (x.watchable.made.modify k ConflatingIterator.next)[k]? = some it.next
    rw [List.getElem?_modify, hk]
    simp only [if_true]
    rfl
  · obtain rfl := Option.some.inj hy
    exact hx.handed hk hm hr hw v
  · obtain rfl := Option.some.inj hy
    exact hx.keeps hk error
  · cases hv : it.pending with
    | none => rfl
    | some v => exact absurd (hfollows.undelivered v hv).2 hne
  · have hends := hfollows.valid.ends
    rw [(hopen hc).terminal] at hends
    exact hends.2

/-- Every iterator that was not returned has the law. -/
theorem conflating_law (hh : ∀ i, Watchable.Feeds (h i)) (hx : (fanOutMachine h).Reachable Any x)
    {k : ℕ} {it : ConflatingIterator α ε} (hk : x.watchable.made[k]? = some it)
    (hr : k ∉ x.returned) : ∃ m, x.marks[k]? = some m ∧ x.Law h k m it := by
  have hsound := (sound_invariant hh).reachable hx
  have hlt : k < x.marks.length := by
    rw [hsound.fair.marked]
    exact (List.getElem?_eq_some_iff.mp hk).1
  have hm := List.getElem?_eq_getElem hlt
  exact ⟨_, hm, hsound.obeys hh hk hm hr⟩

end FanOutRun

end Runs

namespace FanOutRun

/-- Two iterators of an address watch, one made after the first change.  The first reads late, is
served while it waits, and is closed with a value that is not read yet. -/
def twoReaders : List (FanOutAction Unit ℕ IrohError (Except IrohError ℕ)) :=
  [.consumer (.ok 5) .createIterator, .push 1, .push 2, .consumer (.ok 6) .createIterator,
    .consumer (.ok 6) (.next 0), .consumer (.ok 6) (.next 0), .push 3, .push 4,
    .close (some ⟨.internal, "gone"⟩), .consumer (.ok 6) (.next 0), .consumer (.ok 6) (.next 0),
    .consumer (.ok 6) (.next 0), .consumer (.ok 6) (.return 1)]

def twoReadersRun : FanOutRun Unit ℕ IrohError NativeWatch :=
  ((fanOutMachine AddressWatch.hooks).run { owner := {} } twoReaders).getD { owner := {} }

/-- What the first of them was given. -/
def firstRead : ConflatingIterator ℕ IrohError := twoReadersRun.watchable.made.headD {}

theorem conflating_law_twoReaders :
    firstRead.consumers.outcomes = [(0, .value 2), (1, .value 3), (2, .value 4),
      (3, .error ⟨.internal, "gone"⟩), (4, .done)] ∧
    ∃ m, twoReadersRun.marks[0]? = some m ∧ twoReadersRun.Law AddressWatch.hooks 0 m firstRead :=
  ⟨by decide +kernel, conflating_law AddressWatch.feeds_hooks
    (Machine.reachable_getD (M := fanOutMachine AddressWatch.hooks) ⟨{}, rfl⟩
      (by decide +kernel) _) (by decide +kernel) (by decide +kernel)⟩

end FanOutRun

end Iroh
