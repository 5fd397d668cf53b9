import ReactNativeIroh.Core.StreamPair
import ReactNativeIroh.Ts.BridgeLines
import ReactNativeIroh.Ts.Outlived

/-!
# From host to host

The sender, the wire and the reader of a stream, and the host of the reader with the
consumer of the stream.  The callbacks of the reader run on the host's thread one by one, in
the order in which they were called and as late as it likes; the consumer calls `next()` at
any moment or breaks out of its loop, and the host may close the stream.  `send()` only asks
whether the stream has ended.

The consumer gets what was sent (`host_law`).  A consumer that had asked for a chunk before
the orderly end was reported has it, and the chunks it had not asked for are lost.
-/

namespace Iroh

open Transition
open Iroh.Core (SendRun RawStream SendAction RawStreamAction streamPairMachine)
open Iroh.Core.StreamPair (Delivered)

/-- A callback, as the controller handles it. -/
def StreamEvent.ofCall : Core.StreamCall → StreamEvent
  | .onData chunk => .onData chunk
  | .onClose outcome => .onClose (JsString.fromNative (Core.encodeClose outcome))

def StreamEvent.isNative : StreamEvent → Bool
  | .onData _ | .onClose _ => true
  | .close | .next | .return => false

/-- What the controller of the stream has handled, and how many callbacks among it. -/
structure HostRun where
  events : List StreamEvent := []
  taken : ℕ := 0

inductive HostAction where
  | callback (c : Core.StreamCall)
  | next
  /-- The consumer breaks out of its loop. -/
  | return
  | close

namespace HostRun

def step (x : HostRun) : HostAction → Option HostRun
  | .callback c => some ⟨x.events ++ [.ofCall c], x.taken + 1⟩
  | .next => some { x with events := x.events ++ [.next] }
  | .return => some { x with events := x.events ++ [.return] }
  | .close => some { x with events := x.events ++ [.close] }

/-- The controller. -/
def stream (capacity : Option Number) (x : HostRun) : StreamController :=
  (StreamController.streamed Teardown.owner capacity x.events {}).1

end HostRun

def hostMachine : Machine HostRun HostAction where
  init x := x = {}
  step := HostRun.step

/-- The next callback is the one the reader called next. -/
def Dispatches (p : SendRun × RawStream) : HostAction → HostRun → Prop
  | .callback c, x => p.2.log[x.taken]? = some c
  | _, _ => True

instance (p : SendRun × RawStream) :
    (a : HostAction) → (x : HostRun) → Decidable (Dispatches p a x)
  | .callback _, _ => inferInstanceAs (Decidable (_ = _))
  | .next, _ | .return, _ | .close, _ => .isTrue trivial

def hostsMachine (far near : UInt64) (framing : Core.Framing) :
    Machine ((SendRun × RawStream) × HostRun) ((SendAction ⊕ RawStreamAction) ⊕ HostAction) :=
  (streamPairMachine far near framing).link hostMachine Dispatches

namespace StreamHosts

/-- No write fails for a reason of the transport. -/
def NoTransportError :
    (SendRun × RawStream) × HostRun → (SendAction ⊕ RawStreamAction) ⊕ HostAction → Prop :=
  Machine.Left HostRun HostAction Core.StreamPair.NoTransportError

instance (y : (SendRun × RawStream) × HostRun)
    (c : (SendAction ⊕ RawStreamAction) ⊕ HostAction) : Decidable (NoTransportError y c) :=
  inferInstanceAs (Decidable (Machine.Left _ _ Core.StreamPair.NoTransportError y c))

variable {far near : UInt64} {framing : Core.Framing} {p q : SendRun × RawStream} {x x' : HostRun}

/-- The host has handled the first callbacks of the reader, in order. -/
structure Taken (p : SendRun × RawStream) (x : HostRun) : Prop where
  bound : x.taken ≤ p.2.log.length
  natives : x.events.filter StreamEvent.isNative = (p.2.log.take x.taken).map .ofCall

/-- The reader takes no callback back. -/
theorem log_grows {y y' : RawStream} {a : RawStreamAction} (h : y.Steps near a y') :
    y.log <+: y'.log := by
  cases h with
  | task hp ht =>
      cases ht with
      | onData | onClose => exact List.prefix_append _ _
      | poll | read | finished | failed | park | drop => exact List.prefix_rfl
  | _ => exact List.prefix_rfl

theorem Taken.pair (h : Taken p x) (hlog : p.2.log <+: q.2.log) : Taken q x := by
  obtain ⟨later, hlater⟩ := hlog
  refine ⟨?_, h.natives.trans ?_⟩
  · rw [← hlater, List.length_append]
    exact Nat.le_add_right_of_le h.bound
  · rw [← hlater, List.take_append_of_le_length h.bound]

theorem Taken.host (h : Taken p x) {a : HostAction} (hC : Dispatches p a x)
    (hs : x.step a = some x') : Taken p x' := by
  obtain ⟨hbound, hnatives⟩ := h
  have hown (e : StreamEvent) (he : e.isNative = false) :
      (x.events ++ [e]).filter StreamEvent.isNative = (p.2.log.take x.taken).map .ofCall := by
    rw [List.filter_append, hnatives, List.filter_cons_of_neg (by simp [he])]
    exact List.append_nil _
  cases a with
  | callback c =>
      obtain rfl := Option.some.inj hs
      obtain ⟨hlt, hc⟩ := List.getElem?_eq_some_iff.mp hC
      refine ⟨hlt, ?_⟩
      have hnative : (StreamEvent.ofCall c).isNative = true := by cases c <;> rfl
      rw [List.filter_append, hnatives, List.take_succ_eq_append_getElem hlt, hc,
        List.map_append, List.filter_cons_of_pos hnative]
      rfl
  | next =>
      obtain rfl := Option.some.inj hs
      exact ⟨hbound, hown .next rfl⟩
  | «return» =>
      obtain rfl := Option.some.inj hs
      exact ⟨hbound, hown .return rfl⟩
  | close =>
      obtain rfl := Option.some.inj hs
      exact ⟨hbound, hown .close rfl⟩

theorem taken {y : (SendRun × RawStream) × HostRun}
    (hy : (hostsMachine far near framing).Reachable NoTransportError y) : Taken y.1 y.2 := by
  refine Machine.link_reachable (I := fun y => Taken y.1 y.2) (fun p x hp hx => ?_)
    (fun p q x a _ _ h hG hs => ?_) (fun p x x' a _ _ h hC hs => h.host hC hs) hy
  · have hnew : x = {} := hx
    subst hnew
    exact ⟨Nat.zero_le _, rfl⟩
  · cases Machine.linkSteps hG hs with
    | left a ha hs => exact ⟨h.bound, h.natives⟩
    | right b hcarries hreader => exact h.pair (log_grows (RawStream.steps hreader))

/-! ## What the consumer gets -/

theorem chunksIn_natives (es : List StreamEvent) :
    chunksIn (es.filter StreamEvent.isNative) = chunksIn es := by
  rw [chunksIn, chunksIn, List.filterMap_filter]
  congr 1
  funext e
  cases e <;> rfl

theorem chunksIn_map_ofCall (log : List Core.StreamCall) :
    chunksIn (log.map .ofCall) = log.filterMap Core.StreamCall.chunk? := by
  rw [chunksIn, List.filterMap_map]
  congr 1
  funext c
  cases c <;> rfl

/-- The chunks the controller was given are the first the reader delivered. -/
theorem Taken.chunks (h : Taken p x) :
    chunksIn x.events = (p.2.log.take x.taken).filterMap Core.StreamCall.chunk? := by
  rw [← chunksIn_natives, h.natives, chunksIn_map_ofCall]

theorem Taken.chunks_front (h : Taken p x) : chunksIn x.events <+: p.2.delivered := by
  rw [h.chunks]
  exact (List.take_prefix _ _).filterMap _

theorem received_front (x : HostRun) (capacity : Option Number) :
    (x.stream capacity).chunks.delivered <+: chunksIn x.events := by
  obtain ⟨late, hlate⟩ := StreamController.outlived Teardown.owner capacity x.events {}
  have hfront : chunksIn (unbroken x.events) <+: chunksIn x.events :=
    (List.takeWhile_prefix _).filterMap _
  rw [HostRun.stream, hlate.delivered]
  exact ((List.take_prefix _ _).trans (Course.run_channel _ _).1).trans hfront

theorem delivered_of_front {s : SendRun} {chunks chunks' : List (List UInt8)} {order : List ℕ}
    (h : Delivered s chunks order) (hfront : chunks' <+: chunks) :
    ∃ order', Delivered s chunks' order' := by
  obtain ⟨hdistinct, horder, hadmitted, rfl⟩ := h
  refine ⟨order.take chunks'.length, hdistinct.sublist (List.take_sublist _ _),
    (List.take_prefix _ _).trans horder, hadmitted, ?_⟩
  rw [List.map_take]
  exact List.prefix_iff_eq_take.mp hfront

/-- No end was reported to a course that goes on. -/
theorem run_open {capacity : Capacity} {es : List StreamEvent}
    (h : (Course.run capacity es).outcome = none) (line : String) : .onClose line ∉ es := by
  induction es using List.reverseRecOn with
  | nil => exact List.not_mem_nil
  | append_singleton es e ih =>
      have hrun : Course.run capacity (es ++ [e]) = (Course.run capacity es).step capacity e := by
        rw [Course.run, Course.run, List.foldl_append]
        rfl
      rw [hrun] at h
      cases ho : (Course.run capacity es).outcome with
      | some r => rw [Course.step_ended ho, ho] at h; cases h
      | none =>
          intro hmem
          rcases List.mem_append.mp hmem with hmem | hmem
          · exact ih ho hmem
          · obtain rfl := List.mem_singleton.mp hmem
            rw [Course.step, ho] at h
            cases h

/-- What ends a course ends it once, and what came before it was carried. -/
theorem run_ended {capacity : Capacity} {es : List StreamEvent} {r : Option IrohError}
    (h : (Course.run capacity es).outcome = some r) :
    ∃ before e after, es = before ++ e :: after ∧ (∀ line, .onClose line ∉ before) ∧
      (Course.run capacity es).channel = ⟨chunksIn before, before.count .next⟩ ∧
      trigger capacity ⟨chunksIn before, before.count .next⟩ e = some r := by
  induction es using List.reverseRecOn with
  | nil => cases h
  | append_singleton es e ih =>
      have hrun : Course.run capacity (es ++ [e]) = (Course.run capacity es).step capacity e := by
        rw [Course.run, Course.run, List.foldl_append]
        rfl
      rw [hrun] at h ⊢
      cases ho : (Course.run capacity es).outcome with
      | some r' =>
          rw [Course.step_ended ho] at h ⊢
          obtain ⟨before, d, after, rfl, hopen, hchannel, htrigger⟩ := ih h
          exact ⟨before, d, after ++ [e], by simp, hopen, hchannel, htrigger⟩
      | none =>
          have hchannel := (Course.run_channel capacity es).2 ho
          cases ht : trigger capacity (Course.run capacity es).channel e with
          | none =>
              rw [Course.step, ho] at h
              simp only [ht] at h
              cases h
          | some r' =>
              rw [Course.step, ho] at h ⊢
              simp only [ht] at h ⊢
              obtain rfl := Option.some.inj h
              exact ⟨es, e, [], rfl, run_open ho, hchannel, hchannel ▸ ht⟩

theorem front_of_log {chunks : List (List UInt8)} {front rest : List Core.StreamCall}
    {outcome outcome' : Option Core.IrohError}
    (h : chunks.map .onData ++ [.onClose outcome] = front ++ .onClose outcome' :: rest) :
    front = chunks.map .onData := by
  induction chunks generalizing front with
  | nil =>
      cases front with
      | nil => rfl
      | cons c front => simp at h
  | cons chunk chunks ih =>
      cases front with
      | nil => cases (List.cons.inj h).1
      | cons c front =>
          obtain ⟨rfl, hrest⟩ := List.cons.inj h
          rw [ih hrest, List.map_cons]

/-- The reader reports the end after the last chunk. -/
theorem Taken.all_delivered (h : Taken p x) (hr : p.2.Read framing)
    {before after : List StreamEvent} {line : String}
    (hes : x.events = before ++ .onClose line :: after) :
    chunksIn before = p.2.delivered ∧
      ∃ outcome ∈ p.2.closes, line = JsString.fromNative (Core.encodeClose outcome) := by
  have hnatives := h.natives
  rw [hes, List.filter_append, List.filter_cons_of_pos (by rfl)] at hnatives
  obtain ⟨front, back, htake, hfront, hback⟩ := List.map_eq_append_iff.mp hnatives.symm
  obtain ⟨c, later, rfl, hc, -⟩ := List.map_eq_cons_iff.mp hback
  obtain ⟨outcome, rfl, rfl⟩ : ∃ outcome, c = .onClose outcome ∧
      line = JsString.fromNative (Core.encodeClose outcome) := by
    cases c with
    | onData chunk => cases hc
    | onClose outcome => exact ⟨outcome, rfl, (StreamEvent.onClose.inj hc).symm⟩
  obtain ⟨rest, hlog⟩ : ∃ rest, p.2.log = front ++ .onClose outcome :: rest := by
    refine ⟨later ++ p.2.log.drop x.taken, ?_⟩
    rw [← List.cons_append, ← List.append_assoc, ← htake, List.take_append_drop]
  have hmem : outcome ∈ p.2.closes := by
    rw [RawStream.closes, hlog, List.filterMap_append]
    exact List.mem_append_right _ List.mem_cons_self
  refine ⟨?_, outcome, hmem, rfl⟩
  -- The end that was reported is the only one, and it is the last callback.
  have hsplit := hr.log
  rw [(hr.ended hmem).2.1] at hsplit
  obtain rfl := front_of_log (hsplit.symm.trans hlog)
  rw [← chunksIn_natives, ← hfront, chunksIn_map_ofCall, List.filterMap_map]
  exact List.filterMap_some

/-- How the stream of the host has ended, and what its consumer has then. -/
inductive HostEnd (capacity : Capacity) (p : SendRun × RawStream) (x : HostRun)
    (delivered : List (List UInt8)) : Option IrohError → Prop where
  /-- The host closed it, before an end was reported. -/
  | closed {before after : List StreamEvent} : x.events = before ++ .close :: after →
      (∀ line, .onClose line ∉ before) → HostEnd capacity p x delivered none
  /-- The consumer fell behind: with one more chunk there are too many that it has not asked
  for. -/
  | overflow {before after : List StreamEvent} {chunk : List UInt8} :
      x.events = before ++ .onData chunk :: after → (∀ line, .onClose line ∉ before) →
      .return ∉ before →
      capacity.exceeded ((chunksIn before ++ [chunk]).drop (before.count .next)).length →
      HostEnd capacity p x delivered (some (overflowError 1))
  /-- The transport failed. -/
  | failed {err : Core.ReadError} {e : Core.IrohError} : p.2.ending = some (.failed err) →
      Core.readCloseReason err = some e →
      HostEnd capacity p x delivered (some ⟨.ofCore e, JsString.fromNative (Core.encodeError e)⟩)
  /-- A host has closed the connection, which ends the stream in order. -/
  | closedByHost {err : Core.ConnectionError} :
      p.2.ending = some (.failed (.connectionLost err)) → err.byHost = true →
      HostEnd capacity p x delivered none
  /-- The sender has finished the stream.  Every payload was handed to the controller first, those
  of the confirmed sends among them, and the consumer has what it had asked for before that and
  before it broke out. -/
  | complete {before after : List StreamEvent} : p.2.ending = some .finished →
      x.events = before ++ .onClose "end" :: after →
      chunksIn before = p.1.sent.map p.1.payload →
      delivered = (chunksIn (unbroken before)).take ((unbroken before).count .next) →
      (∀ i ∈ p.1.confirmed, i ∈ p.1.sent) → HostEnd capacity p x delivered none

/-- What a host gets of what the other one sends. -/
structure HostLaw (capacity : Option Number) (p : SendRun × RawStream) (x : HostRun) : Prop where
  /-- The payloads of sends, in the order of their admission, and none is left out. -/
  received : ∃ order, Delivered p.1 (x.stream capacity).chunks.delivered order
  ended : ∀ r, (x.stream capacity).settlement.outcome = some r →
    HostEnd (.ofOption capacity) p x (x.stream capacity).chunks.delivered r

/-- The end that the core reported. -/
theorem reported_end {capacity : Capacity} (hp : (streamPairMachine far near .framed).Reachable
    Core.StreamPair.NoTransportError p) (h : Taken p x) {before after : List StreamEvent}
    {line : String} (hes : x.events = before ++ .onClose line :: after)
    {delivered : List (List UInt8)}
    (hdelivered : delivered = (chunksIn (unbroken before)).take ((unbroken before).count .next)) :
    HostEnd capacity p x delivered (parseCloseEvent line) := by
  obtain ⟨hall, outcome, ho, rfl⟩ := h.all_delivered (Core.StreamPair.parts hp).2.2 hes
  rw [parseCloseEvent_crossed]
  have hreported := Core.StreamPair.reported hp ho
  cases hreported with
  | finished he hcomplete =>
      exact .complete he hes (hall.trans hcomplete.delivered) hdelivered hcomplete.confirmed
  | closedByHost he hhost => exact .closedByHost he hhost
  | failed he hreason => exact .failed he hreason

theorem host_end (hp : (streamPairMachine far near .framed).Reachable
    Core.StreamPair.NoTransportError p) (h : Taken p x) (capacity : Option Number)
    {r : Option IrohError} (hr : (x.stream capacity).settlement.outcome = some r) :
    HostEnd (.ofOption capacity) p x (x.stream capacity).chunks.delivered r := by
  obtain ⟨late, hes, hdelivered, houtcome⟩ :=
    StreamController.outlived Teardown.owner capacity x.events {}
  rw [HostRun.stream] at hr ⊢
  rw [houtcome] at hr
  cases ho : (Course.run (.ofOption capacity) (unbroken x.events)).outcome with
  | some r' =>
      -- The stream had ended before the consumer broke out.
      rw [ho, Option.orElse_some] at hr
      obtain rfl := Option.some.inj hr
      obtain ⟨before, e, after, hsplit, hopen, hchannel, htrigger⟩ := run_ended ho
      have hbroken : .return ∉ before := fun hmem =>
        return_notMem_unbroken x.events (hsplit ▸ List.mem_append_left _ hmem)
      have hevents : x.events = before ++ e :: (after ++ late) := by
        conv_lhs => rw [hes]
        rw [hsplit, List.append_assoc, List.cons_append]
      cases e with
      | onData chunk =>
          rw [trigger] at htrigger
          obtain ⟨hfull, hsome⟩ := Option.ite_none_right_eq_some.mp htrigger
          obtain rfl := Option.some.inj hsome
          exact .overflow hevents hopen hbroken hfull
      | onClose line =>
          obtain rfl := Option.some.inj htrigger
          refine reported_end hp h hevents ?_
          rw [hdelivered, hchannel, unbroken_of_notMem hbroken]
          rfl
      | close =>
          obtain rfl := Option.some.inj htrigger
          exact .closed hevents hopen
      | next => cases htrigger
      | «return» => cases htrigger
  | none =>
      rw [ho] at hr
      obtain ⟨before, e, after, rfl, he, hbefore⟩ := List.findSome?_eq_some_iff.mp hr
      have hevents : x.events = (unbroken x.events ++ before) ++ e :: after := by
        conv_lhs => rw [hes]
        rw [List.append_assoc]
      cases e with
      | onClose line =>
          obtain rfl := Option.some.inj he
          refine reported_end hp h hevents ?_
          have hsame : unbroken (unbroken x.events ++ before) = unbroken x.events :=
            unbroken_between (List.prefix_append _ _) ⟨_, hevents.symm⟩
          rw [hsame, hdelivered, (Course.run_channel _ _).2 ho]
          rfl
      | close =>
          obtain rfl := Option.some.inj he
          refine .closed hevents fun line hmem => ?_
          rcases List.mem_append.mp hmem with hmem | hmem
          · exact run_open ho line hmem
          · cases hbefore _ hmem
      | onData | next => cases he
      | «return» => cases he

/-- In every run of two hosts and a framed stream between them, whatever the calls, the tasks
and the transport do. -/
theorem host_law (far near : UInt64) (capacity : Option Number)
    {y : (SendRun × RawStream) × HostRun}
    (hy : (hostsMachine far near .framed).Reachable NoTransportError y) :
    HostLaw capacity y.1 y.2 := by
  have hp := (Machine.reachable_parts hy).1
  have htaken := taken hy
  refine ⟨?_, fun r hr => host_end hp htaken capacity hr⟩
  obtain ⟨order, horder⟩ := Core.StreamPair.delivered_front hp
  refine delivered_of_front horder ?_
  exact ((received_front y.2 capacity).trans htaken.chunks_front).trans (List.prefix_append _ _)

/-- The run of the two ends, and a consumer that asks once before the end and once after. -/
def hostsRun : List ((SendAction ⊕ RawStreamAction) ⊕ HostAction) :=
  .inr .next :: Core.StreamPair.pairRun.map .inl ++
    [.inr (.callback (.onData [7])), .inr (.callback (.onData [])),
      .inr (.callback (.onClose none)), .inr .next]

/-- The same run, and a consumer that breaks out after the first chunk. -/
def breakingRun : List ((SendAction ⊕ RawStreamAction) ⊕ HostAction) :=
  .inr .next :: Core.StreamPair.pairRun.map .inl ++
    [.inr (.callback (.onData [7])), .inr .return, .inr (.callback (.onData [])),
      .inr (.callback (.onClose none)), .inr .next]

def newHosts : (SendRun × RawStream) × HostRun := (Core.StreamPair.newPair .framed, {})

def hostsEnd (run : List ((SendAction ⊕ RawStreamAction) ⊕ HostAction)) :
    (SendRun × RawStream) × HostRun :=
  ((hostsMachine 1 2 .framed).run newHosts run).getD newHosts

theorem newHosts_init : (hostsMachine 1 2 .framed).init newHosts := ⟨⟨rfl, rfl⟩, rfl⟩

theorem hostsRun_reachable :
    (hostsMachine 1 2 .framed).Reachable NoTransportError (hostsEnd hostsRun) :=
  Machine.reachable_getD_of_guarded newHosts_init (by decide +kernel) (by decide +kernel) _

theorem breakingRun_reachable :
    (hostsMachine 1 2 .framed).Reachable NoTransportError (hostsEnd breakingRun) :=
  Machine.reachable_getD_of_guarded newHosts_init (by decide +kernel) (by decide +kernel) _

/-- The second payload was not asked for in time. -/
theorem host_law_late :
    (((hostsEnd hostsRun).2.stream none).results = [.value [7], .done] ∧
      HostEnd (.ofOption none) (hostsEnd hostsRun).1 (hostsEnd hostsRun).2 [[7]] none) ∧
    ((hostsEnd breakingRun).2.stream none).results = [.value [7], .done] ∧
      HostEnd (.ofOption none) (hostsEnd breakingRun).1 (hostsEnd breakingRun).2 [[7]] none := by
  refine ⟨⟨by decide +kernel, ?_⟩, by decide +kernel, ?_⟩
  · have hdelivered : ((hostsEnd hostsRun).2.stream none).chunks.delivered = [[7]] := by
      decide +kernel
    have hlaw := host_law 1 2 none hostsRun_reachable
    exact hdelivered ▸ hlaw.ended none (by decide +kernel)
  · have hdelivered : ((hostsEnd breakingRun).2.stream none).chunks.delivered = [[7]] := by
      decide +kernel
    have hlaw := host_law 1 2 none breakingRun_reachable
    exact hdelivered ▸ hlaw.ended none (by decide +kernel)

end StreamHosts

end Iroh
