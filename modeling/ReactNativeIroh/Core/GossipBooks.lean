import ReactNativeIroh.Core.GossipTopic

/-!
# The broadcasts of a subscription

The books of a gossip subscription: what refers to it, what each broadcast was answered
and what the swarm has taken.
-/

namespace Iroh.Core

open Transition

/-- What the completion of a broadcast of a message of this size may get. -/
inductive BroadcastAnswer (handle : UInt64) (max size : ℕ) : Except IrohError Unit → Prop where
  | taken : size ≤ max → BroadcastAnswer handle max size (.ok ())
  | unknown : BroadcastAnswer handle max size (.error (.invalidHandle handle))
  | tooLarge : max < size → BroadcastAnswer handle max size (.error (messageTooLarge size max))
  | failed (e : String) : size ≤ max → BroadcastAnswer handle max size (.error (.gossipBroadcast e))

/-- What holds of a broadcast in its phase. -/
def Broadcast.Fits (handle : UInt64) (max : ℕ) (b : Broadcast) : Prop :=
  match b.phase with
  | .lookedUp => True
  | .refused err => BroadcastAnswer handle max b.size (.error err)
  | .spawned => b.size ≤ max
  | .sent result => BroadcastAnswer handle max b.size result
  | .returned result => BroadcastAnswer handle max b.size result

/-- An answer that was given is one that may be. -/
theorem Broadcast.Fits.answer {handle : UInt64} {max : ℕ} {b : Broadcast} (h : b.Fits handle max)
    {result : Except IrohError Unit} (hr : b.answer? = some result) :
    BroadcastAnswer handle max b.size result := by
  obtain ⟨payload, phase⟩ := b
  cases phase with
  | lookedUp | spawned | sent => cases hr
  | refused err =>
      obtain rfl := Option.some.inj hr
      exact h
  | returned result =>
      obtain rfl := Option.some.inj hr
      exact h

namespace GossipTopic

variable {handle : UInt64} {max : ℕ} {x y : GossipTopic} {f : ForwardTask} {i : ℕ}
  {a : TopicAction}

/-! ## The steps -/

/-- What a step of the forwarding task can do. -/
inductive ForwardSteps (x : GossipTopic) : ForwardTask → GossipTopic → Prop where
  | poll : x.aborted = false → ForwardSteps x .parked (x.put .polled)
  | next {event : GossipEvent} {events : List GossipEvent} {c : GossipCall} :
      x.events = event :: events → gossipSubscribe.forward event = some c →
      ForwardSteps x .polled { x.put (.calling c) with events, read := x.read ++ [event] }
  | error {event : GossipEvent} {events : List GossipEvent} :
      x.events = event :: events → gossipSubscribe.forward event = none →
      ForwardSteps x .polled { x.put .ended with events, read := x.read ++ [event] }
  | park : ForwardSteps x .polled (x.put .parked)
  | drop : x.aborted = true → ForwardSteps x .parked (x.put .dropped)
  | call (c : GossipCall) : ForwardSteps x (.calling c) ((x.put .polled).call (.forwarded c))
  | finish : ForwardSteps x .polled (x.put .ended)

theorem forwardSteps {b : ForwardAction} (h : x.forwardStep f b = some y) : ForwardSteps x f y := by
  cases b with
  | poll =>
      simp only [forwardStep] at h
      split at h
      · split at h
        · cases h
        · next ha =>
            obtain rfl := Option.some.inj h
            exact .poll (by simpa using ha)
      · cases h
  | next =>
      simp only [forwardStep] at h
      split at h
      · next he =>
          split at h
          · next hf =>
              obtain rfl := Option.some.inj h
              exact .next he hf
          · next hf =>
              obtain rfl := Option.some.inj h
              exact .error he hf
      · cases h
  | park =>
      simp only [forwardStep] at h
      split at h
      · obtain rfl := Option.some.inj h
        exact .park
      · cases h
  | drop =>
      simp only [forwardStep] at h
      split at h
      · obtain ⟨ha, hy⟩ := Option.ite_none_right_eq_some.mp h
        obtain rfl := Option.some.inj hy
        exact .drop ha
      · cases h
  | call =>
      simp only [forwardStep] at h
      split at h
      · obtain rfl := Option.some.inj h
        exact .call _
      · cases h
  | finish =>
      simp only [forwardStep] at h
      split at h
      · obtain rfl := Option.some.inj h
        exact .finish
      · cases h

/-- What a step of a broadcast does: it goes on from one phase to another. -/
inductive BroadcastSteps (max : ℕ) (x : GossipTopic) (i : ℕ) (b : Broadcast) :
    GossipTopic → Prop where
  | refuse : b.phase = .lookedUp → max < b.size →
      BroadcastSteps max x i b ((x.answer i (.error (messageTooLarge b.size max))).move i b
        (.refused (messageTooLarge b.size max)))
  | spawn : b.phase = .lookedUp → b.size ≤ max → BroadcastSteps max x i b (x.move i b .spawned)
  | send : b.phase = .spawned →
      BroadcastSteps max x i b
        { (x.move i b (.sent (.ok ()))).leaveSub with handed := x.handed ++ [b.payload] }
  | fail (e : String) : b.phase = .spawned →
      BroadcastSteps max x i b (x.move i b (.sent (.error (.gossipBroadcast e)))).leaveSub
  | complete (result : Except IrohError Unit) : b.phase = .sent result →
      BroadcastSteps max x i b ((x.answer i result).move i b (.returned result))
  | leave (err : IrohError) : b.phase = .refused err →
      BroadcastSteps max x i b (x.move i b (.returned (.error err))).leaveSub

/-- What a step can do. -/
inductive Steps (handle : UInt64) (max : ℕ) (x : GossipTopic) :
    TopicAction → GossipTopic → Prop where
  | joined : x.join = .joining →
      Steps handle max x (.join (.ok ())) { x.put .parked with join := .joined }
  | failed (e : String) : x.join = .joining → Steps handle max x (.join (.error e))
      { x.call (.joinFailed ("error " ++ e)) with join := .failed }
  | insert : x.join = .joined →
      Steps handle max x .insert { x with join := .registered, sub := some { stored := true } }
  | start : x.join = .registered →
      Steps handle max x .start { x.call .onStart with join := .started }
  | arrive (event : GossipEvent) :
      Steps handle max x (.arrive event) { x with events := x.events ++ [event] }
  | forward {b : ForwardAction} {f : ForwardTask} {y : GossipTopic} : x.forward = some f →
      ForwardSteps x f y → Steps handle max x (.forward b) y
  | lookUp {r : Retained} (payload : String) : x.sub = some r → r.registered = true →
      Steps handle max x (.broadcast payload)
        { x with sub := some { r with calls := r.calls + 1 }
                 broadcasts := x.broadcasts ++ [⟨payload, .lookedUp⟩] }
  | unknown (payload : String) : (∀ r, x.sub = some r → r.registered = false) →
      Steps handle max x (.broadcast payload) { x with
        broadcasts := x.broadcasts ++ [⟨payload, .returned (.error (.invalidHandle handle))⟩]
        answers := x.answers ++ [(x.broadcasts.length, .error (.invalidHandle handle))] }
  | broadcast {a : TopicAction} {i : ℕ} {b : Broadcast} {y : GossipTopic} : a.ofHost = false →
      x.broadcasts[i]? = some b → BroadcastSteps max x i b y → Steps handle max x a y
  | unsubscribe {r : Retained} : x.sub = some r → r.registered = true →
      Steps handle max x .unsubscribe { x with
        sub := some { r with registered := false, calls := r.calls + 1 }, closers := x.closers + 1 }
  | unsubscribed : (∀ r, x.sub = some r → r.registered = false) →
      Steps handle max x .unsubscribe x
  | closerLeaves : 0 < x.closers →
      Steps handle max x .closerLeaves { x.leaveSub with closers := x.closers - 1 }

theorem steps_broadcast (payload : String) :
    Steps handle max x (.broadcast payload) (x.broadcast handle payload) := by
  unfold GossipTopic.broadcast
  split
  · next hs =>
      obtain ⟨r, hr, hs⟩ := Option.bind_eq_some_iff.mp hs
      obtain ⟨hregistered, rfl⟩ := Retained.enter_eq_some hs
      exact .lookUp payload hr hregistered
  · next hs =>
      refine .unknown payload fun r hr => ?_
      rw [hr] at hs
      exact Retained.enter_eq_none hs

theorem broadcastSteps_check {payload : String} :
    BroadcastSteps max x i ⟨payload, .lookedUp⟩ (x.check max i ⟨payload, .lookedUp⟩) := by
  unfold GossipTopic.check
  split
  · next hlarge => exact .refuse rfl hlarge
  · next hsmall => exact .spawn rfl (Nat.not_lt.mp hsmall)

theorem steps (h : x.step handle max a = some y) : Steps handle max x a y := by
  cases a with
  | join result =>
      cases result with
      | ok =>
          obtain ⟨hj, hy⟩ := Option.ite_none_right_eq_some.mp h
          obtain rfl := Option.some.inj hy
          exact .joined hj
      | error e =>
          obtain ⟨hj, hy⟩ := Option.ite_none_right_eq_some.mp h
          obtain rfl := Option.some.inj hy
          exact .failed e hj
  | insert =>
      obtain ⟨hj, hy⟩ := Option.ite_none_right_eq_some.mp h
      obtain rfl := Option.some.inj hy
      exact .insert hj
  | start =>
      obtain ⟨hj, hy⟩ := Option.ite_none_right_eq_some.mp h
      obtain rfl := Option.some.inj hy
      exact .start hj
  | arrive event =>
      obtain ⟨-, hy⟩ := Option.ite_none_right_eq_some.mp h
      obtain rfl := Option.some.inj hy
      exact .arrive event
  | forward b =>
      obtain ⟨f, hf, hy⟩ := Option.bind_eq_some_iff.mp h
      exact .forward hf (forwardSteps hy)
  | broadcast payload =>
      obtain rfl := Option.some.inj h
      exact steps_broadcast payload
  | check i =>
      simp only [step] at h
      split at h
      · next hi =>
          obtain rfl := Option.some.inj h
          exact .broadcast rfl hi broadcastSteps_check
      · cases h
  | send i result =>
      simp only [step] at h
      split at h
      · next hi =>
          obtain rfl := Option.some.inj h
          cases result with
          | ok => exact .broadcast rfl hi (.send rfl)
          | error e => exact .broadcast rfl hi (.fail e rfl)
      · cases h
  | complete i =>
      simp only [step] at h
      split at h
      · next hi =>
          obtain rfl := Option.some.inj h
          exact .broadcast rfl hi (.complete _ rfl)
      · cases h
  | leave i =>
      simp only [step] at h
      split at h
      · next hi =>
          obtain rfl := Option.some.inj h
          exact .broadcast rfl hi (.leave _ rfl)
      · cases h
  | unsubscribe =>
      simp only [step] at h
      split at h
      · next hs =>
          obtain ⟨r, hr, hs⟩ := Option.bind_eq_some_iff.mp hs
          obtain ⟨hregistered, rfl⟩ := Retained.remove_eq_some hs
          obtain rfl := Option.some.inj h
          exact .unsubscribe hr hregistered
      · next hs =>
          obtain rfl := Option.some.inj h
          refine .unsubscribed fun r hr => ?_
          rw [hr] at hs
          exact Retained.remove_eq_none hs
  | closerLeaves =>
      obtain ⟨hpos, hy⟩ := Option.ite_none_right_eq_some.mp h
      obtain rfl := Option.some.inj hy
      exact .closerLeaves hpos

/-! ## The broadcasts -/

/-- The completions of one broadcast. -/
def answersOf (x : GossipTopic) (i : ℕ) : List (Except IrohError Unit) :=
  (x.answers.filter fun p => p.1 == i).map Prod.snd

/-- The broadcast handed this message to the swarm. -/
def tookMessage (m : String) (b : Broadcast) : Bool := b.payload == m && b.taken

/-- Every broadcast and every reference is accounted for. -/
structure Books (handle : UInt64) (max : ℕ) (x : GossipTopic) : Prop where
  sub : ∀ r, x.sub = some r →
    r.Sound ∧ r.stored = true ∧ r.calls = x.closers + x.broadcasts.countP Broadcast.refers
  unborn : x.sub = none → x.closers = 0 ∧ x.broadcasts.countP Broadcast.refers = 0
  answers : ∀ i, x.answersOf i = ((x.broadcasts[i]?).bind Broadcast.answer?).toList
  fits : ∀ b ∈ x.broadcasts, b.Fits handle max
  handed : ∀ m, x.handed.count m = x.broadcasts.countP (tookMessage m)

theorem answersOf_append (answers : List (ℕ × Except IrohError Unit)) (i j : ℕ)
    (result : Except IrohError Unit) :
    ((answers ++ [(i, result)]).filter fun p => p.1 == j).map Prod.snd =
      (answers.filter fun p => p.1 == j).map Prod.snd ++ if i = j then [result] else [] := by
  rw [List.filter_append, List.map_append]
  by_cases hij : i = j
  · simp [hij]
  · simp [hij]

/-- A broadcast that refers to the subscription keeps it. -/
theorem Books.refers (h : x.Books handle max) {b : Broadcast} (hi : x.broadcasts[i]? = some b)
    (hb : b.refers = true) : ∃ r, x.sub = some r ∧ 0 < r.calls := by
  have hpos : 0 < x.broadcasts.countP Broadcast.refers :=
    List.countP_pos_iff.mpr ⟨b, List.mem_of_getElem? hi, hb⟩
  cases hs : x.sub with
  | none =>
      have := (h.unborn hs).2
      omega
  | some r =>
      have := (h.sub r hs).2.2
      exact ⟨r, rfl, by omega⟩

/-- What a broadcast that goes on does to the rest. -/
structure Moves (x y : GossipTopic) (i : ℕ) (b b' : Broadcast) : Prop where
  broadcasts : y.broadcasts = x.broadcasts.set i b'
  closers : y.closers = x.closers
  sub : (y.sub = x.sub ∧ b'.refers = b.refers) ∨
    (y.sub = x.sub.map Retained.leave ∧ b.refers = true ∧ b'.refers = false)
  answers : (y.answers = x.answers ∧ b'.answer? = b.answer?) ∨
    ∃ result, y.answers = x.answers ++ [(i, result)] ∧ b.answer? = none ∧ b'.answer? = some result
  handed : b'.payload = b.payload ∧ ((y.handed = x.handed ∧ b'.taken = b.taken) ∨
    (y.handed = x.handed ++ [b.payload] ∧ b.taken = false ∧ b'.taken = true))

theorem Books.move (h : x.Books handle max) {b b' : Broadcast} (hi : x.broadcasts[i]? = some b)
    (hm : Moves x y i b b') (hfits : b'.Fits handle max) : y.Books handle max := by
  obtain ⟨hbroadcasts, hclosers, hsub, hanswers, hpayload, hhanded⟩ := hm
  have hrefers : y.broadcasts.countP Broadcast.refers + b.refers.toNat =
      x.broadcasts.countP Broadcast.refers + b'.refers.toNat := by
    rw [hbroadcasts]
    exact countP_set_add hi
  refine ⟨fun r hr => ?sub, fun hn => ?unborn, fun j => ?answers, fun c hc => ?fits,
    fun m => ?handed⟩
  case sub =>
    rcases hsub with ⟨hsame, hb⟩ | ⟨hleave, hb, hb'⟩
    · obtain ⟨hsound, hstored, hcalls⟩ := h.sub r (hsame ▸ hr)
      rw [hb] at hrefers
      exact ⟨hsound, hstored, by omega⟩
    · obtain ⟨r₀, hr₀, hpos⟩ := h.refers hi hb
      obtain ⟨hsound, hstored, hcalls⟩ := h.sub r₀ hr₀
      rw [hleave, hr₀] at hr
      obtain rfl := Option.some.inj hr
      rw [hb, hb', Bool.toNat_true, Bool.toNat_false] at hrefers
      refine ⟨hsound.moves (.leave hpos), hstored, ?_⟩
      rw [Retained.leave_calls]
      omega
  case unborn =>
    rcases hsub with ⟨hsame, hb⟩ | ⟨hleave, hb, -⟩
    · obtain ⟨hzero, hnone⟩ := h.unborn (hsame ▸ hn)
      rw [hb] at hrefers
      exact ⟨hclosers.trans hzero, by omega⟩
    · obtain ⟨r₀, hr₀, -⟩ := h.refers hi hb
      rw [hleave, hr₀] at hn
      cases hn
  case answers =>
    have hj := h.answers j
    rw [answersOf] at hj ⊢
    have hget : y.broadcasts[j]? = if i = j then some b' else x.broadcasts[j]? := by
      rw [hbroadcasts, List.getElem?_set]
      have hlt := (List.getElem?_eq_some_iff.mp hi).1
      simp [hlt]
    rw [hget]
    rcases hanswers with ⟨hsame, hb⟩ | ⟨result, hnew, hb, hb'⟩
    · rw [hsame, hj]
      split
      · next hij => rw [← hij, hi, Option.bind_some, Option.bind_some, hb]
      · rfl
    · rw [hnew, answersOf_append, hj]
      split
      · next hij =>
          rw [← hij, hi, Option.bind_some, Option.bind_some, hb, hb']
          rfl
      · exact List.append_nil _
  case fits =>
    rw [hbroadcasts] at hc
    rcases List.mem_or_eq_of_mem_set hc with hmem | rfl
    · exact h.fits c hmem
    · exact hfits
  case handed =>
    have hcount : y.broadcasts.countP (tookMessage m) + (tookMessage m b).toNat =
        x.broadcasts.countP (tookMessage m) + (tookMessage m b').toNat := by
      rw [hbroadcasts]
      exact countP_set_add hi
    have hold := h.handed m
    simp only [tookMessage, hpayload] at hcount
    rcases hhanded with ⟨hsame, hb⟩ | ⟨hnew, hb, hb'⟩
    · rw [hb] at hcount
      rw [hsame]
      exact hold.trans (by simpa [tookMessage] using hcount.symm)
    · rw [hnew, List.count_append, hold]
      rw [hb, hb', Bool.and_false, Bool.and_true, Bool.toNat_false] at hcount
      rw [show y.broadcasts.countP (tookMessage m) = _ from hcount]
      cases hbm : b.payload == m with
      | true => simp_all
      | false => simp_all

/-- A broadcast goes on with its message. -/
theorem BroadcastSteps.moves {b : Broadcast} (h : x.Books handle max)
    (hi : x.broadcasts[i]? = some b) (hs : BroadcastSteps max x i b y) :
    ∃ b', Moves x y i b b' ∧ b'.Fits handle max := by
  have hfits : b.Fits handle max := h.fits b (List.mem_of_getElem? hi)
  obtain ⟨payload, phase⟩ := b
  cases hs with
  | refuse hp hlarge =>
      obtain rfl : phase = .lookedUp := hp
      refine ⟨_, ⟨rfl, rfl, .inl ⟨rfl, rfl⟩, .inr ⟨_, rfl, rfl, rfl⟩, rfl, .inl ⟨rfl, rfl⟩⟩, ?_⟩
      exact .tooLarge hlarge
  | spawn hp hsmall =>
      obtain rfl : phase = .lookedUp := hp
      exact ⟨_, ⟨rfl, rfl, .inl ⟨rfl, rfl⟩, .inl ⟨rfl, rfl⟩, rfl, .inl ⟨rfl, rfl⟩⟩, hsmall⟩
  | send hp =>
      obtain rfl : phase = .spawned := hp
      refine ⟨_, ⟨rfl, rfl, .inr ⟨rfl, rfl, rfl⟩, .inl ⟨rfl, rfl⟩, rfl, .inr ⟨rfl, rfl, rfl⟩⟩, ?_⟩
      exact .taken hfits
  | fail e hp =>
      obtain rfl : phase = .spawned := hp
      refine ⟨_, ⟨rfl, rfl, .inr ⟨rfl, rfl, rfl⟩, .inl ⟨rfl, rfl⟩, rfl, .inl ⟨rfl, rfl⟩⟩, ?_⟩
      exact .failed e hfits
  | complete result hp =>
      obtain rfl : phase = .sent result := hp
      refine ⟨_, ⟨rfl, rfl, .inl ⟨rfl, rfl⟩, .inr ⟨_, rfl, rfl, rfl⟩, rfl, .inl ⟨rfl, ?_⟩⟩, hfits⟩
      rcases result with - | - <;> rfl
  | leave err hp =>
      obtain rfl : phase = .refused err := hp
      exact ⟨_, ⟨rfl, rfl, .inr ⟨rfl, rfl, rfl⟩, .inl ⟨rfl, rfl⟩, rfl, .inl ⟨rfl, rfl⟩⟩, hfits⟩

theorem ForwardSteps.books (h : ForwardSteps x f y) :
    y.sub = x.sub ∧ y.closers = x.closers ∧ y.broadcasts = x.broadcasts ∧ y.answers = x.answers ∧
      y.handed = x.handed ∧ y.join = x.join ∧ y.forward.isSome = true := by
  cases h <;> exact ⟨rfl, rfl, rfl, rfl, rfl, rfl, rfl⟩

/-- A step that touches neither the calls nor the subscription. -/
theorem Books.congr (h : x.Books handle max) (hsub : y.sub = x.sub)
    (hclosers : y.closers = x.closers) (hbroadcasts : y.broadcasts = x.broadcasts)
    (hanswers : y.answers = x.answers) (hhanded : y.handed = x.handed) : y.Books handle max := by
  refine ⟨?_, ?_, fun i => ?_, ?_, fun m => ?_⟩
  · rw [hsub, hclosers, hbroadcasts]
    exact h.sub
  · rw [hsub, hclosers, hbroadcasts]
    exact h.unborn
  · rw [answersOf, hanswers, hbroadcasts]
    exact h.answers i
  · rw [hbroadcasts]
    exact h.fits
  · rw [hhanded, hbroadcasts]
    exact h.handed m

/-- A broadcast is made. -/
theorem Books.append (h : x.Books handle max) {b : Broadcast}
    (hy : y.broadcasts = x.broadcasts ++ [b]) (hclosers : y.closers = x.closers)
    (hanswers : y.answers =
      x.answers ++ (b.answer?.map fun result => (x.broadcasts.length, result)).toList)
    (hhanded : y.handed = x.handed) (hb : b.taken = false) (hfits : b.Fits handle max)
    (hsub : ∀ r, y.sub = some r → r.Sound ∧ r.stored = true ∧
      r.calls = x.closers + (x.broadcasts.countP Broadcast.refers + b.refers.toNat))
    (hunborn : y.sub = none → x.closers = 0 ∧
      x.broadcasts.countP Broadcast.refers + b.refers.toNat = 0) :
    y.Books handle max := by
  have hcount : y.broadcasts.countP Broadcast.refers =
      x.broadcasts.countP Broadcast.refers + b.refers.toNat := by
    rw [hy, List.countP_append, List.countP_singleton]
    cases b.refers <;> rfl
  refine ⟨fun r hr => ?sub, fun hn => ?unborn, fun j => ?answers, fun c hc => ?fits,
    fun m => ?handed⟩
  case sub =>
    rw [hcount, hclosers]
    exact hsub r hr
  case unborn =>
    rw [hcount, hclosers]
    exact hunborn hn
  case answers =>
    have hj := h.answers j
    rw [answersOf] at hj ⊢
    rw [hanswers, hy, List.filter_append, List.map_append, hj]
    rcases Nat.lt_trichotomy j x.broadcasts.length with hlt | heq | hgt
    · rw [List.getElem?_append_left hlt]
      cases b.answer? with
      | none => exact List.append_nil _
      | some result => simp [Nat.ne_of_gt hlt]
    · rw [heq, List.getElem?_concat_length, List.getElem?_eq_none (Nat.le_refl _)]
      cases hb : b.answer? <;> simp [hb]
    · have hlong : (x.broadcasts ++ [b]).length ≤ j := by
        rw [List.length_append, List.length_singleton]
        exact hgt
      rw [List.getElem?_eq_none hlong, List.getElem?_eq_none (Nat.le_of_lt hgt)]
      cases b.answer? with
      | none => rfl
      | some result => simp [Nat.ne_of_lt hgt]
  case fits =>
    rw [hy] at hc
    rcases List.mem_append.mp hc with hmem | hnew
    · exact h.fits c hmem
    · exact List.mem_singleton.mp hnew ▸ hfits
  case handed =>
    rw [hhanded, hy, List.countP_append, List.countP_singleton, tookMessage, hb, Bool.and_false]
    exact h.handed m

theorem Books.step (h : x.Books handle max) (hj : x.join = .joined → x.sub = none)
    (hs : Steps handle max x a y) : y.Books handle max := by
  cases hs with
  | joined | failed | start | arrive => exact h.congr rfl rfl rfl rfl rfl
  | unsubscribed => exact h
  | insert hjoined =>
      obtain ⟨hclosers, hnone⟩ := h.unborn (hj hjoined)
      refine ⟨fun r hr => ?_, nofun, h.answers, h.fits, h.handed⟩
      obtain rfl := Option.some.inj hr
      refine ⟨by decide, rfl, ?_⟩
      show 0 = x.closers + x.broadcasts.countP Broadcast.refers
      rw [hclosers, hnone]
  | forward _ hf =>
      obtain ⟨hsub, hclosers, hbroadcasts, hanswers, hhanded, -, -⟩ := hf.books
      exact h.congr hsub hclosers hbroadcasts hanswers hhanded
  | lookUp payload hr hregistered =>
      obtain ⟨hsound, hstored, hcalls⟩ := h.sub _ hr
      refine h.append rfl rfl (List.append_nil _).symm rfl rfl trivial (fun r hr => ?_) nofun
      obtain rfl := Option.some.inj hr
      exact ⟨hsound.moves (.enter hregistered), hstored, by rw [hcalls]; rfl⟩
  | unknown payload hnone =>
      exact h.append rfl rfl rfl rfl rfl .unknown h.sub h.unborn
  | broadcast _ hi hb =>
      obtain ⟨b', hm, hfits⟩ := hb.moves h hi
      exact h.move hi hm hfits
  | unsubscribe hr hregistered =>
      obtain ⟨hsound, hstored, hcalls⟩ := h.sub _ hr
      refine ⟨fun r hr => ?_, nofun, h.answers, h.fits, h.handed⟩
      obtain rfl := Option.some.inj hr
      refine ⟨hsound.moves (.remove hregistered), hstored, ?_⟩
      show _ + 1 = x.closers + 1 + x.broadcasts.countP Broadcast.refers
      omega
  | closerLeaves hpos =>
      refine ⟨fun r hr => ?_, fun hn => ?_, h.answers, h.fits, h.handed⟩
      · obtain ⟨r₀, hr₀, rfl⟩ := Option.map_eq_some_iff.mp hr
        obtain ⟨hsound, hstored, hcalls⟩ := h.sub r₀ hr₀
        refine ⟨hsound.moves (.leave (by omega)), hstored, ?_⟩
        show r₀.calls - 1 = x.closers - 1 + x.broadcasts.countP Broadcast.refers
        omega
      · have hnone : x.sub = none := Option.map_eq_none_iff.mp hn
        have := (h.unborn hnone).1
        omega

end GossipTopic

end Iroh.Core
