import Mathlib.Data.Finset.Card
import ReactNativeIroh.Lib.Machine
import ReactNativeIroh.Ts.Attachment

/-!
# The loop of a push

`push` walks over the set of listeners while the listeners it calls change that set.  A listener
that is removed is not visited any more, one that is added is visited at the end, and one that is
removed and added again stands at the end as if it were new.

A `Reaction` is what one invocation of a listener does, and `Watchable.reentrantPush` takes the
reactions of its invocations in order.  It has no result where they do not bring the loop to its
end.  When no listener calls back it is `Watchable.push`, whether listeners throw or not.
-/

namespace Iroh

open Transition

/-- What one invocation of a listener does: its calls, each with what its hooks will do, and
whether it throws after them. -/
structure Reaction (φ κ : Type*) where
  calls : List (κ × ConsumerEvent φ) := []
  throws : Bool := false

/-- The reaction of a listener that does not call back. -/
def Reaction.quiet {φ κ : Type*} (throws : Bool) : Reaction φ κ := { throws }

/-- The loop of a push.  `passed` are the members of the set that it has gone past, `called` the
listeners it has called, and `errors` the number of errors it has written to the console. -/
structure PushLoop (φ α ε ω : Type*) where
  watchable : Watchable φ α ε
  owner : ω
  passed : List φ := []
  called : List φ := []
  errors : ℕ := 0

section Model

variable {φ α ε ω κ : Type*} [DecidableEq φ] (h : κ → WatchableHooks φ α ε ω)

namespace PushLoop

/-- The listeners ahead of the loop. -/
def line (l : PushLoop φ α ε ω) : List φ := l.watchable.listeners.filter (· ∉ l.passed)

/-- A call made by a listener.  Of the members the loop has gone past, those it removes are gone. -/
def call (l : PushLoop φ α ε ω) (c : κ × ConsumerEvent φ) : PushLoop φ α ε ω :=
  let (watchable, owner) := Watchable.consume (h c.1) c.2 (l.watchable, l.owner)
  { l with watchable, owner, passed := l.passed.filter (· ∈ watchable.listeners) }

/-- The loop goes past a listener and calls it. -/
def visit (v : α) (listener : φ) (l : PushLoop φ α ε ω) : PushLoop φ α ε ω :=
  { l with
    watchable := { l.watchable with calls := l.watchable.calls ++ [(listener, v)] }
    passed := l.passed ++ [listener]
    called := l.called ++ [listener] }

/-- What a listener throws is written to the console, and goes no further. -/
def surface (throws : Bool) (l : PushLoop φ α ε ω) : PushLoop φ α ε ω :=
  { l with errors := l.errors + if throws then 1 else 0 }

/-- The next listener is called. -/
def invoke (v : α) (l : PushLoop φ α ε ω) (r : Reaction φ κ) : PushLoop φ α ε ω :=
  match l.line with
  | [] => l
  | listener :: _ =>
      (r.calls.foldl (call h) (l.visit v listener)).surface r.throws

/-- The loop over the iterators. -/
def deliver (v : α) (l : PushLoop φ α ε ω) : Watchable φ α ε × ω :=
  (l.watchable.iterators.foldl (fun s k => s.modify k (ConflatingIterator.push v))
    { l.watchable with pushed := l.watchable.pushed ++ [v] }, l.owner)

end PushLoop

/-- Deliver a value to every listener and iterator, with the reactions of the listeners. -/
def Watchable.reentrantPush (v : α) (rs : List (Reaction φ κ)) :
    Watchable φ α ε × ω → Option (Watchable φ α ε × ω)
  | (s, w) =>
      if s.closed then some (s, w)
      else
        let l := rs.foldl (PushLoop.invoke h v) { watchable := s, owner := w }
        if l.line = [] then some (l.deliver v) else none

inductive PushAction (φ α ε κ : Type*) where
  | push (v : α) (rs : List (Reaction φ κ))
  | close (error : Option ε)
  | consumer (i : κ) (e : ConsumerEvent φ)

/-- The machine of one watchable whose listeners may call back. -/
def pushMachine : Machine (Watchable φ α ε × ω) (PushAction φ α ε κ) where
  init p := p.1 = {}
  step
    | p, .push v rs => Watchable.reentrantPush h v rs p
    | p, .close error => some (p.1.close error, p.2)
    | p, .consumer i e => some (Watchable.consume (h i) e p)

end Model

/-- No hooks, as in the fan-out of a transfer. -/
def noHooks : Unit → WatchableHooks ℕ ℕ Unit Unit := fun _ => {}

/-! ## The set of listeners -/

namespace Watchable

variable {φ α ε ω : Type*} {h : WatchableHooks φ α ε ω}

/-- The listeners are a set, which a close has emptied. -/
structure Listed (s : Watchable φ α ε) : Prop where
  nodup : s.listeners.Nodup
  closed : s.closed = true → s.listeners = []

/-- The listener that an unsubscribe function takes out. -/
def stops (s : Watchable φ α ε) (k : ℕ) : Option φ :=
  match s.registrations[k]? with
  | some (listener, true) => some listener
  | _ => none

theorem stops_eq_some {s : Watchable φ α ε} {k : ℕ} {f : φ} :
    s.stops k = some f ↔ s.registrations[k]? = some (f, true) := by
  rw [stops]
  split
  · next g hk => simp [hk]
  · next hk => exact ⟨fun hf => (nomatch hf), fun hf => absurd hf (hk f)⟩

/-- The registrations after a call. -/
def registers (s : Watchable φ α ε) : ConsumerEvent φ → List (φ × Bool)
  | .listen f => if s.closed then s.registrations else s.registrations ++ [(f, true)]
  | .unsubscribe k => (s.stops k).elim s.registrations fun f => s.registrations.set k (f, false)
  | _ => s.registrations

/-- The listeners after a call, while the watchable is open. -/
def listens [DecidableEq φ] (s : Watchable φ α ε) : ConsumerEvent φ → List φ
  | .listen f => if s.closed ∨ f ∈ s.listeners then s.listeners else s.listeners ++ [f]
  | .unsubscribe k => (s.stops k).elim s.listeners s.listeners.erase
  | _ => s.listeners

/-- What a call does to the listeners and their registrations. -/
structure Consumed [DecidableEq φ] (e : ConsumerEvent φ) (s t : Watchable φ α ε) : Prop where
  calls : t.calls = s.calls
  registrations : t.registrations = s.registers e
  listeners : t.closed = s.closed ∧ t.listeners = s.listens e ∨ t.closed = true ∧ t.listeners = []

section Consumed

variable [DecidableEq φ] {e : ConsumerEvent φ} {s t u : Watchable φ α ε}

/-- Where the hooks come in last, the listeners stay or the watchable is closed. -/
theorem MayClose.consumed (ht : MayClose u t) (hu : Consumed e s u) : Consumed e s t := by
  rcases ht.cases with rfl | ⟨hclosed, hlisteners, hregistrations, hcalls⟩
  · exact hu
  · exact ⟨hcalls.trans hu.calls, hregistrations.trans hu.registrations, .inr ⟨hclosed, hlisteners⟩⟩

theorem listen_consumed (hh : Closes h) (f : φ) (s : Watchable φ α ε) (w : ω) :
    Consumed (.listen f) s (listen h f (s, w)).1 := by
  simp only [listen]
  split
  · next hc => exact ⟨rfl, by simp [registers, hc], .inl ⟨rfl, by simp [listens, hc]⟩⟩
  · next hc =>
      have hregisters : s.registers (.listen f) = s.registrations ++ [(f, true)] := if_neg hc
      have hlistens : (if f ∈ s.listeners then s.listeners else s.listeners ++ [f]) =
          s.listens (.listen f) := by simp [listens, hc]
      rcases (hh.retain (w := w) (s := { s with
        listeners := if f ∈ s.listeners then s.listeners else s.listeners ++ [f] })).cases
        with he | ⟨hclosed, hlisteners, hregistrations, hcalls⟩
      · rw [he]
        exact ⟨rfl, hregisters.symm, .inl ⟨rfl, hlistens⟩⟩
      · refine ⟨hcalls, ?_, .inr ⟨hclosed, hlisteners⟩⟩
        rw [hregisters]
        exact congrArg (· ++ [(f, true)]) hregistrations

theorem unsubscribe_consumed (hh : Closes h) (k : ℕ) (s : Watchable φ α ε) (w : ω) :
    Consumed (.unsubscribe k) s (unsubscribe h k (s, w)).1 := by
  simp only [unsubscribe]
  split
  · next f hk =>
      have hstops : s.stops k = some f := stops_eq_some.mpr hk
      refine (hh.release (w := w) (s := { s with
        registrations := s.registrations.set k (f, false)
        listeners := s.listeners.erase f })).consumed ⟨rfl, ?_, .inl ⟨rfl, ?_⟩⟩
      · simp [registers, hstops]
      · simp [listens, hstops]
  · next hk =>
      have hstops : s.stops k = none :=
        Option.eq_none_iff_forall_ne_some.mpr fun f hf => hk f (stops_eq_some.mp hf)
      exact ⟨rfl, by simp [registers, hstops], .inl ⟨rfl, by simp [listens, hstops]⟩⟩

theorem detach_consumed (hh : Closes h) (k : ℕ) (s : Watchable φ α ε) (w : ω) :
    Consumed (.return k) s (detach h k (s, w)).1 := by
  simp only [detach]
  split
  · exact ⟨rfl, rfl, .inl ⟨rfl, rfl⟩⟩
  · split
    · exact ⟨rfl, rfl, .inl ⟨rfl, rfl⟩⟩
    · exact (hh.release (w := w) (s := { s with
        iterators := s.iterators.erase k
        made := s.made.modify k fun it => { it with detached := true } })).consumed
        ⟨rfl, rfl, .inl ⟨rfl, rfl⟩⟩

theorem consume_consumed (hh : Closes h) (e : ConsumerEvent φ) (s : Watchable φ α ε) (w : ω) :
    Consumed e s (consume h e (s, w)).1 := by
  cases e with
  | listen f => exact listen_consumed hh f s w
  | unsubscribe k => exact unsubscribe_consumed hh k s w
  | createIterator =>
      simp only [consume, createIterator]
      split
      · exact ⟨rfl, rfl, .inl ⟨rfl, rfl⟩⟩
      · exact (hh.retain (w := w) (s := { s with
          iterators := s.iterators ++ [s.made.length], made := s.made ++ [{}] })).consumed
          ⟨rfl, rfl, .inl ⟨rfl, rfl⟩⟩
  | next k => exact ⟨rfl, rfl, .inl ⟨rfl, rfl⟩⟩
  | «return» k =>
      have hdetach := detach_consumed hh k s w
      exact ⟨hdetach.calls, hdetach.registrations, hdetach.listeners⟩

/-- A call adds one listener, takes one out or leaves them. -/
theorem listens_cases (e : ConsumerEvent φ) (s : Watchable φ α ε) :
    s.listens e = s.listeners ∨
    (∃ f, e = .listen f ∧ s.closed = false ∧ f ∉ s.listeners ∧
      s.listens e = s.listeners ++ [f]) ∨
    ∃ f, s.listens e = s.listeners.erase f := by
  cases e with
  | listen f =>
      simp only [listens]
      split
      · exact .inl rfl
      · next hf =>
          rw [not_or, Bool.not_eq_true] at hf
          exact .inr (.inl ⟨f, rfl, hf.1, hf.2, rfl⟩)
  | unsubscribe k =>
      simp only [listens]
      cases s.stops k with
      | none => exact .inl rfl
      | some f => exact .inr (.inr ⟨f, rfl⟩)
  | createIterator => exact .inl rfl
  | next k => exact .inl rfl
  | «return» k => exact .inl rfl

/-- A call keeps the set a set. -/
theorem Listed.consume (hs : s.Listed) (hh : Closes h) (e : ConsumerEvent φ) (w : ω) :
    (consume h e (s, w)).1.Listed := by
  rcases (consume_consumed hh e s w).listeners with ⟨hc, hl⟩ | ⟨-, hl⟩
  · constructor
    · rw [hl]
      rcases listens_cases e s with he | ⟨f, -, -, hf, he⟩ | ⟨f, he⟩
      · rw [he]
        exact hs.nodup
      · rw [he, ← List.concat_eq_append]
        exact hs.nodup.concat hf
      · rw [he]
        exact hs.nodup.erase f
    · rw [hl, hc]
      intro hclosed
      have hnil := hs.closed hclosed
      rcases listens_cases e s with he | ⟨f, -, hopen, -, -⟩ | ⟨f, he⟩
      · rw [he, hnil]
      · exact absurd (hopen.symm.trans hclosed) Bool.noConfusion
      · rw [he, hnil]
        rfl
  · exact ⟨hl ▸ List.nodup_nil, fun _ => hl⟩

end Consumed

theorem Listed.close {s : Watchable φ α ε} (hs : s.Listed) (error : Option ε) :
    (s.close error).Listed := by
  cases hc : s.closed with
  | true => rw [Watchable.close, if_pos hc]; exact hs
  | false =>
      obtain ⟨made, he⟩ := close_open hc error
      rw [he]
      exact ⟨List.nodup_nil, fun _ => rfl⟩

end Watchable

/-! ## One invocation -/

namespace PushLoop

section Steps

variable {φ α ε ω κ : Type*} [DecidableEq φ] {h : κ → WatchableHooks φ α ε ω} {f : φ} {fs : List φ}
  {l : PushLoop φ α ε ω} {v : α} {r : Reaction φ κ}

/-- The loop walks over a set, and has gone past some of its members. -/
structure Steady (l : PushLoop φ α ε ω) : Prop where
  listed : l.watchable.Listed
  passed : ∀ f ∈ l.passed, f ∈ l.watchable.listeners

theorem Steady.line_nodup (hl : l.Steady) : l.line.Nodup := hl.listed.nodup.filter _

/-- Going past a listener takes it off the line. -/
theorem Steady.visit (hl : l.Steady) (hline : l.line = f :: fs) (v : α) :
    (l.visit v f).Steady ∧ (l.visit v f).line = fs := by
  have hmem : f ∈ l.line := hline ▸ List.mem_cons_self
  have hnodup : (f :: fs).Nodup := hline ▸ hl.line_nodup
  refine ⟨⟨⟨hl.listed.nodup, hl.listed.closed⟩, fun g hg => ?_⟩, ?_⟩
  · rcases List.mem_append.mp hg with hg | hg
    · exact hl.passed g hg
    · rw [List.mem_singleton.mp hg]
      exact List.mem_of_mem_filter hmem
  · have hsplit : (l.visit v f).line = l.line.filter (· ≠ f) := by
      rw [line, line, List.filter_filter]
      refine List.filter_congr fun g _ => ?_
      simp [PushLoop.visit, and_comm]
    rw [hsplit, hline, List.filter_cons_of_neg (by simp), List.filter_eq_self]
    intro g hg
    have hne : g ≠ f := fun he => (List.nodup_cons.mp hnodup).1 (he ▸ hg)
    simpa using hne

/-- The set tolerates that a listener changes it.  Ahead of the loop a call takes one listener
away, adds one at the end, or ends it all. -/
theorem Steady.call (hl : l.Steady) (hh : ∀ i, Watchable.Closes (h i)) (c : κ × ConsumerEvent φ) :
    (l.call h c).Steady ∧
    ((l.call h c).line = l.line ∨ (l.call h c).line = [] ∨
      (∃ g, c.2 = .listen g ∧ g ∉ l.line ∧ (l.call h c).line = l.line ++ [g]) ∨
      ∃ g, (l.call h c).line = l.line.erase g) := by
  have hline : (l.call h c).line = (l.call h c).watchable.listeners.filter (· ∉ l.passed) := by
    refine List.filter_congr fun g hg => ?_
    have hmem : g ∈ (l.call h c).passed ↔ g ∈ l.passed := by
      show g ∈ l.passed.filter (· ∈ (l.call h c).watchable.listeners) ↔ _
      simp [hg]
    simp only [hmem]
  refine ⟨⟨hl.listed.consume (hh c.1) c.2 l.owner, fun g hg => ?_⟩, ?_⟩
  · exact of_decide_eq_true (List.mem_filter.mp hg).2
  · rcases (Watchable.consume_consumed (hh c.1) c.2 l.watchable l.owner).listeners with
      ⟨-, hlisteners⟩ | ⟨-, hlisteners⟩
    · rw [hline, show (l.call h c).watchable.listeners = _ from hlisteners]
      rcases Watchable.listens_cases c.2 l.watchable with hl' | ⟨g, he, -, hg, hl'⟩ | ⟨g, hl'⟩
      · rw [hl']
        exact .inl rfl
      · rw [hl']
        refine .inr (.inr (.inl ⟨g, he, fun hmem => hg (List.mem_of_mem_filter hmem), ?_⟩))
        have hnew : g ∉ l.passed := fun hpassed => hg (hl.passed g hpassed)
        rw [List.filter_append, List.filter_cons_of_pos (by simpa using hnew)]
        rfl
      · rw [hl']
        refine .inr (.inr (.inr ⟨g, ?_⟩))
        rw [hl.line_nodup.erase_eq_filter, hl.listed.nodup.erase_eq_filter, line,
          List.filter_filter, List.filter_filter]
        exact List.filter_congr fun _ _ => Bool.and_comm _ _
    · refine .inr (.inl ?_)
      rw [hline, show (l.call h c).watchable.listeners = [] from hlisteners]
      rfl

/-- What the calls of one listener leave ahead of the loop was there, or is what they added. -/
theorem Steady.calls (hl : l.Steady) (hh : ∀ i, Watchable.Closes (h i))
    (cs : List (κ × ConsumerEvent φ)) :
    (cs.foldl (PushLoop.call h) l).Steady ∧ (cs.foldl (PushLoop.call h) l).called = l.called ∧
      ∀ g ∈ (cs.foldl (PushLoop.call h) l).line, g ∈ l.line ∨ ∃ i, (i, .listen g) ∈ cs := by
  induction cs generalizing l with
  | nil => exact ⟨hl, rfl, fun g hg => .inl hg⟩
  | cons c cs ih =>
      obtain ⟨hsteady, hcases⟩ := hl.call hh c
      obtain ⟨hrest, hcalled, hmem⟩ := ih hsteady
      refine ⟨hrest, hcalled, fun g hg => ?_⟩
      rcases hmem g hg with hg | ⟨i, hi⟩
      · rcases hcases with he | he | ⟨f, hc, -, he⟩ | ⟨f, he⟩
        · exact .inl (he ▸ hg)
        · rw [he] at hg
          cases hg
        · rw [he] at hg
          rcases List.mem_append.mp hg with hg | hg
          · exact .inl hg
          · obtain rfl := List.mem_singleton.mp hg
            exact .inr ⟨c.1, hc ▸ List.mem_cons_self⟩
        · rw [he] at hg
          exact .inl (List.mem_of_mem_erase hg)
      · exact .inr ⟨i, List.mem_cons_of_mem c hi⟩

theorem invoke_nil (hline : l.line = []) : l.invoke h v r = l := by
  rw [invoke, hline]

theorem invoke_cons (hline : l.line = f :: fs) :
    l.invoke h v r = (r.calls.foldl (PushLoop.call h) (l.visit v f)).surface r.throws := by
  rw [invoke, hline]

/-- Only the listener that is visited is called. -/
theorem invoke_calls (hh : ∀ i, Watchable.Closes (h i)) (hline : l.line = f :: fs) :
    (l.invoke h v r).watchable.calls = l.watchable.calls ++ [(f, v)] := by
  rw [invoke_cons hline]
  refine List.foldlRecOn (motive := fun l' : PushLoop φ α ε ω =>
    l'.watchable.calls = l.watchable.calls ++ [(f, v)]) r.calls _ rfl fun l' hl' c _ => ?_
  exact (Watchable.consume_consumed (hh c.1) c.2 l'.watchable l'.owner).calls.trans hl'

theorem Steady.invoke_cons (hl : l.Steady) (hh : ∀ i, Watchable.Closes (h i))
    (hline : l.line = f :: fs) :
    (l.invoke h v r).Steady ∧ (l.invoke h v r).called = l.called ++ [f] ∧
      ∀ g ∈ (l.invoke h v r).line, g ∈ fs ∨ ∃ i, (i, .listen g) ∈ r.calls := by
  obtain ⟨hvisit, hfs⟩ := hl.visit hline v
  obtain ⟨hsteady, hcalled, hmem⟩ := hvisit.calls hh r.calls
  rw [PushLoop.invoke_cons hline]
  rw [hfs] at hmem
  exact ⟨⟨hsteady.listed, hsteady.passed⟩, hcalled, hmem⟩

theorem Steady.invoke (hl : l.Steady) (hh : ∀ i, Watchable.Closes (h i)) :
    (l.invoke h v r).Steady := by
  cases hline : l.line with
  | nil => rwa [invoke_nil hline]
  | cons f fs => exact (hl.invoke_cons hh hline).1

theorem Steady.foldl (hl : l.Steady) (hh : ∀ i, Watchable.Closes (h i)) (v : α)
    (rs : List (Reaction φ κ)) : (rs.foldl (PushLoop.invoke h v) l).Steady := by
  induction rs generalizing l with
  | nil => exact hl
  | cons r rs ih => exact ih (hl.invoke hh)

omit [DecidableEq φ] in
theorem steady_start {s : Watchable φ α ε} (hs : s.Listed) (w : ω) :
    ({ watchable := s, owner := w } : PushLoop φ α ε ω).Steady :=
  ⟨hs, nofun⟩

theorem line_start (s : Watchable φ α ε) (w : ω) :
    ({ watchable := s, owner := w } : PushLoop φ α ε ω).line = s.listeners :=
  List.filter_eq_self.mpr fun _ _ => rfl

omit [DecidableEq φ] in
/-- The loop over the iterators leaves the set alone. -/
theorem deliver_listed (hl : l.watchable.Listed) (v : α) : (l.deliver v).1.Listed := by
  obtain ⟨made, he⟩ := Watchable.foldl_modify (ConflatingIterator.push v) l.watchable.iterators
    { l.watchable with pushed := l.watchable.pushed ++ [v] }
  rw [deliver, he]
  exact ⟨hl.nodup, hl.closed⟩

/-! ## Listeners that do not call back -/

/-- At its end the loop stays. -/
theorem foldl_nil (hline : l.line = []) (v : α) (rs : List (Reaction φ κ)) :
    rs.foldl (PushLoop.invoke h v) l = l := by
  induction rs with
  | nil => rfl
  | cons r rs ih => rw [List.foldl_cons, invoke_nil hline, ih]

/-- What a loop whose listeners do not call back has done at its end. -/
structure Quiet (v : α) (throws : List Bool) (fs : List φ) (l l' : PushLoop φ α ε ω) : Prop where
  watchable : l'.watchable =
    { l.watchable with calls := l.watchable.calls ++ fs.map fun listener => (listener, v) }
  owner : l'.owner = l.owner
  line : l'.line = []
  called : l'.called = l.called ++ fs
  errors : l'.errors = l.errors + (throws.take fs.length).count true

theorem Steady.foldl_quiet (hl : l.Steady) (hline : l.line = fs) {throws : List Bool}
    (hlength : fs.length ≤ throws.length) :
    Quiet v throws fs l ((throws.map Reaction.quiet).foldl (PushLoop.invoke h v) l) := by
  induction fs generalizing l throws with
  | nil =>
      rw [foldl_nil hline]
      exact ⟨by simp, rfl, hline, by simp, by simp⟩
  | cons f fs ih =>
      cases throws with
      | nil => cases hlength
      | cons t ts =>
          obtain ⟨hvisit, hfs⟩ := hl.visit hline v
          have hinvoke : l.invoke h v (Reaction.quiet t) = (l.visit v f).surface t :=
            PushLoop.invoke_cons hline
          rw [List.map_cons, List.foldl_cons, hinvoke]
          obtain ⟨hwatchable, howner, hend, hcalled, herrors⟩ :=
            ih (l := (l.visit v f).surface t) ⟨hvisit.listed, hvisit.passed⟩ hfs
              (Nat.le_of_succ_le_succ hlength)
          refine ⟨?_, howner, hend, ?_, ?_⟩
          · rw [hwatchable]
            simp [PushLoop.visit, surface]
          · rw [hcalled]
            simp [PushLoop.visit, surface]
          · rw [herrors]
            cases t with
            | true =>
                simp only [PushLoop.visit, surface, List.length_cons, List.take_succ_cons,
                  List.count_cons_self, if_true]
                omega
            | false => simp [PushLoop.visit, surface]

end Steps

end PushLoop

namespace Watchable

variable {φ α ε ω κ : Type*} [DecidableEq φ] {h : κ → WatchableHooks φ α ε ω}
  {s : Watchable φ α ε}

/-- Listeners that do not call back are each called once, and what they throw changes nothing for
the others. -/
theorem reentrantPush_quiet (hs : s.Listed) (w : ω) (v : α) {throws : List Bool}
    (hlength : s.listeners.length ≤ throws.length) :
    reentrantPush h v (throws.map Reaction.quiet) (s, w) = some (s.push v, w) := by
  obtain ⟨hwatchable, howner, hend, -, -⟩ :=
    (PushLoop.steady_start hs w).foldl_quiet (h := h) (v := v) (PushLoop.line_start s w) hlength
  rw [reentrantPush, push]
  split
  · rfl
  · simp only [hend, if_true, PushLoop.deliver, hwatchable, howner]

theorem Listed.reentrantPush (hs : s.Listed) (hh : ∀ i, Closes (h i)) {w w' : ω} {v : α}
    {rs : List (Reaction φ κ)} {t : Watchable φ α ε}
    (ht : Watchable.reentrantPush h v rs (s, w) = some (t, w')) : t.Listed := by
  simp only [Watchable.reentrantPush] at ht
  split at ht
  · obtain ⟨rfl, -⟩ := Prod.mk.inj (Option.some.inj ht)
    exact hs
  · split at ht
    · have hsteady := (PushLoop.steady_start hs w).foldl hh v rs
      have hfst : (PushLoop.deliver v _).1 = t := congrArg Prod.fst (Option.some.inj ht)
      exact hfst ▸ PushLoop.deliver_listed hsteady.listed v
    · cases ht

/-- The listeners of a watchable are a set along every run. -/
theorem listed_invariant (hh : ∀ i, Closes (h i)) :
    (pushMachine h).Invariant Any fun p => p.1.Listed where
  init p hp := by
    rw [show p.1 = {} from hp]
    exact ⟨List.nodup_nil, nofun⟩
  step p a q hp _ hq := by
    cases a with
    | push v rs => exact hp.reentrantPush hh hq
    | close error =>
        obtain rfl := Option.some.inj hq
        exact hp.close error
    | consumer i e =>
        obtain rfl := Option.some.inj hq
        exact hp.consume (hh i) e p.2

end Watchable

end Iroh
