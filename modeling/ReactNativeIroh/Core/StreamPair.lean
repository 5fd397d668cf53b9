import ReactNativeIroh.Core.ReadLaw
import ReactNativeIroh.Core.SendFrames
import ReactNativeIroh.Lib.Linked

/-!
# The two ends of a stream

The sender of a stream and its reader, each with the calls of its host, and the transport
between them.  The transport gives the reader the bytes of the wire, in order and as late
as it likes, and the finish after the last of them; it may lose the connection.

The reader delivers what was sent, each payload once and in the order in which the sends
were admitted to the stream, whatever is under way at either end (`delivered_in_order`).  It
reports no error after the finish of the sender, with everything delivered, and after a
connection that a host has closed, with whatever had been delivered by then.
-/

namespace Iroh.Core

open Delimited Transition

/-- What the transport may do at the reader. -/
def Carries (x : SendRun) : RawStreamAction → RawStream → Prop
  | .arrive bytes, y => y.consumed ++ y.arrived ++ bytes <+: x.wire
  | .finish, y => x.finishedAt = some (y.consumed ++ y.arrived)
  | _, _ => True

instance (x : SendRun) : (a : RawStreamAction) → (y : RawStream) → Decidable (Carries x a y)
  | .arrive _, _ => inferInstanceAs (Decidable (_ <+: _))
  | .finish, _ => inferInstanceAs (Decidable (_ = _))
  | .fail _, _ | .subscribe, _ | .take _, _ | .spawn _, _ | .store _, _ | .send, _ | .close, _
  | .leave, _ | .task _, _ => .isTrue trivial

/-- The sender and the reader of a stream, by the handles their hosts know it by. -/
def streamPairMachine (far near : UInt64) (framing : Framing) :
    Machine (SendRun × RawStream) (SendAction ⊕ RawStreamAction) :=
  (sendMachine far framing).link (rawStreamMachine near framing) Carries

/-- A host closed the connection, the one at this end or the one at the other. -/
def ConnectionError.byHost : ConnectionError → Bool
  | .locallyClosed | .applicationClosed _ => true
  | .other _ => false

namespace StreamPair

/-- No write fails for a reason of the transport. -/
def NoTransportError : SendRun × RawStream → SendAction ⊕ RawStreamAction → Prop :=
  Machine.Left RawStream RawStreamAction SendRun.NoTransportError

instance (p : SendRun × RawStream) (c : SendAction ⊕ RawStreamAction) :
    Decidable (NoTransportError p c) :=
  inferInstanceAs (Decidable (Machine.Left _ _ SendRun.NoTransportError p c))

variable {far near : UInt64} {framing : Framing} {x x' : SendRun} {y y' : RawStream}

/-! ## The line -/

/-- The reader has a front of the wire, and all of it once it has the finish. -/
structure Carried (p : SendRun × RawStream) : Prop where
  bytes : p.2.consumed ++ p.2.arrived <+: p.1.wire
  finish : p.2.ending = some .finished → p.1.finishedAt = some (p.2.consumed ++ p.2.arrived)

theorem wire_grows {a : SendAction} (h : x.Moves a x') :
    x.wire <+: x'.wire ∧ ∀ w, x.finishedAt = some w → x'.finishedAt = some w := by
  cases h with
  | write => exact ⟨List.prefix_append _ _, fun _ hw => hw⟩
  | finish => exact ⟨List.prefix_rfl, fun w hw => by rw [hw, Option.getD_some]⟩
  | send | close | closed | poll | acquire | next | fail | release | complete =>
      exact ⟨List.prefix_rfl, fun _ hw => hw⟩

/-- The bytes the reader has, and how it was told they end. -/
theorem task_total {p : ReadPhase} (h : RawStream.TaskSteps y p y') :
    y'.consumed ++ y'.arrived = y.consumed ++ y.arrived ∧ y'.ending = y.ending := by
  refine ⟨?_, h.calls.2.2.2.2.2⟩
  cases h with
  | read n =>
      show y.consumed ++ y.arrived.take n ++ y.arrived.drop n = _
      rw [List.append_assoc, List.take_append_drop]
  | poll | finished | failed | park | drop | onData | onClose => rfl

theorem Carried.reader {b : RawStreamAction} (h : Carried (x, y)) (hC : Carries x b y)
    (hs : y.Steps near b y') : Carried (x, y') := by
  cases hs with
  | arrive bytes he =>
      refine ⟨?_, fun hf => ?_⟩
      · show y.consumed ++ (y.arrived ++ bytes) <+: _
        rw [← List.append_assoc]
        exact hC
      · rw [show y.ending = some .finished from hf] at he
        cases he
  | finish => exact ⟨h.bytes, fun _ => hC⟩
  | fail => exact ⟨h.bytes, nofun⟩
  | lookUp | unknown | take | refuse | spawn | store | send | close | leave => exact ⟨h.1, h.2⟩
  | closed => exact h
  | task _ ht =>
      obtain ⟨htotal, hending⟩ := task_total ht
      refine ⟨htotal.symm ▸ h.bytes, fun hf => ?_⟩
      rw [htotal]
      exact h.finish (hending.symm.trans hf)

theorem carried {p : SendRun × RawStream}
    (hp : (streamPairMachine far near framing).Reachable NoTransportError p) : Carried p := by
  refine Machine.link_reachable (fun x y hx hy => ?_) (fun x x' y a _ _ h _ hs => ?_)
    (fun x y y' b _ _ h hC hs => h.reader hC (RawStream.steps hs)) hp
  · have hnew : y = { framing } := hy
    subst hnew
    exact ⟨List.nil_prefix, nofun⟩
  · obtain ⟨hwire, hfinished⟩ := wire_grows (SendRun.step_moves hs)
    exact ⟨h.bytes.trans hwire, fun hf => hfinished _ (h.finish hf)⟩

end StreamPair

/-! ## The sends on the wire -/

def Job.payload : Job → List UInt8
  | .send data => data
  | .close => []

namespace SendRun

def payload (x : SendRun) (i : ℕ) : List UInt8 := ((x.tasks i).map fun t => t.job.payload).getD []

/-- The sends that have written their bytes, and the one that is writing, in the order of
admission. -/
def onWire (x : SendRun) : List ℕ := x.sent ++ x.holder.toList.filter x.isSendAt

variable {x : SendRun} {i : ℕ} {t : Task}

theorem exists_of_holder (hv : x.Valid) (h : x.holder = some i) : ∃ t, x.tasks i = some t := by
  cases ht : x.tasks i with
  | none => exact absurd h (hv.fresh i ht).2.2
  | some t => exact ⟨t, rfl⟩

theorem mem_onWire (hi : i ∈ x.onWire) :
    i ∈ x.sent ∨ (x.holder = some i ∧ x.isSendAt i = true) := by
  rcases List.mem_append.mp hi with hsent | hheld
  · exact .inl hsent
  · obtain ⟨hmem, hsend⟩ := List.mem_filter.mp hheld
    exact .inr ⟨Option.mem_toList.mp hmem, hsend⟩

/-- One on the wire is a send that was accepted. -/
theorem send_of_mem_onWire (hv : x.Valid) (hc : x.Clean) (hi : i ∈ x.onWire) :
    ∃ data written phase, x.tasks i = some ⟨.send data, written, phase⟩ ∧
      accepts x.framing data = true := by
  have hsend : ∃ data written phase, x.tasks i = some ⟨.send data, written, phase⟩ ∧
      phase.isServed = true := by
    rcases mem_onWire hi with hsent | ⟨hheld, hsend⟩
    · exact send_of_mem_sent hsent
    · obtain ⟨⟨job, written, phase⟩, ht⟩ := exists_of_holder hv hheld
      have hholding := (hv.fits i _ ht).holds.1 hheld
      rw [isSendAt_of_tasks ht] at hsend
      cases job with
      | close => cases hsend
      | send data =>
          refine ⟨data, written, phase, ht, ?_⟩
          cases phase with
          | holding => rfl
          | refused | spawned | waiting | released | done => cases hholding
  obtain ⟨data, written, phase, ht, hserved⟩ := hsend
  refine ⟨data, written, phase, ht, ?_⟩
  rcases hc.accepted i data written phase ht with haccepts | ⟨err, rfl⟩
  · exact haccepts
  · cases hserved

theorem onWire_sublist (hv : x.Valid) : x.onWire.Sublist x.served := by
  cases hh : x.holder with
  | none =>
      rw [onWire, hh]
      show (x.sent ++ []).Sublist _
      rw [List.append_nil]
      exact List.filter_sublist
  | some i =>
      obtain ⟨t, ht⟩ := exists_of_holder hv hh
      have hholding := (hv.fits i t ht).holds.1 hh
      obtain ⟨-, before, hserved, -⟩ := hv.holding ht hholding
      have hsent : x.sent = before.filter fun i => (x.tasks i).any Task.hasSent := by
        rw [sent, hserved, List.filter_append]
        simp [ht, Task.hasSent, hholding]
      rw [onWire, hsent, hh, hserved]
      exact List.filter_sublist.append List.filter_sublist

/-- The bytes of a send are its payload in a frame, or its payload. -/
theorem bytesOf_send {data written : List UInt8} {phase : Phase}
    (ht : x.tasks i = some ⟨.send data, written, phase⟩) :
    x.bytesOf i = encode x.framing (x.payload i) := by
  rw [bytesOf, payload, ht]
  rfl

theorem flatMap_bytesOf {order : List ℕ} (h : ∀ i ∈ order, x.isSendAt i = true) :
    order.flatMap x.bytesOf = (order.map x.payload).flatMap (encode x.framing) := by
  rw [List.flatMap_map]
  refine List.flatMap_congr fun i hi => ?_
  have hsend := h i hi
  cases ht : x.tasks i with
  | none =>
      rw [isSendAt, ht] at hsend
      cases hsend
  | some t =>
      obtain ⟨job, written, phase⟩ := t
      rw [isSendAt_of_tasks ht] at hsend
      cases job with
      | close => cases hsend
      | send data => exact bytesOf_send ht

/-- What is on the wire, or a part of it. -/
theorem Clean.wire_front (hv : x.Valid) (h : x.Clean) : x.wire <+: x.onWire.flatMap x.bytesOf := by
  obtain ⟨part, hwire, hfree, hheld⟩ := h.wire hv
  rw [hwire, onWire, List.flatMap_append]
  refine List.prefix_append_right_inj _ |>.mpr ?_
  cases hh : x.holder with
  | none => exact (hfree hh).symm ▸ List.nil_prefix
  | some i =>
      obtain ⟨-, hpart, hwritten⟩ := hheld i hh
      cases hs : x.isSendAt i with
      | true => simpa [hs] using hpart
      | false =>
          rw [hwritten, hv.close_written hs]
          exact List.nil_prefix

end SendRun

namespace StreamPair

variable {far near : UInt64} {framing : Framing} {p : SendRun × RawStream}

/-! ## The two ends -/

theorem parts (hp : (streamPairMachine far near framing).Reachable NoTransportError p) :
    (p.1.Valid ∧ p.1.Clean ∧ p.1.framing = framing) ∧ p.2.Calls near ∧ p.2.Read framing := by
  obtain ⟨hsender, hreader⟩ := Machine.reachable_parts hp
  obtain ⟨⟨hv, hc⟩, hframing⟩ := (SendRun.framed_invariant far framing).reachable hsender
  exact ⟨⟨hv, hc, hframing⟩, (RawStream.read_invariant near framing).reachable hreader⟩

theorem isSendAt_onWire (hv : p.1.Valid) (hc : p.1.Clean) : ∀ i ∈ p.1.onWire, p.1.isSendAt i := by
  intro i hi
  obtain ⟨data, written, phase, ht, -⟩ := SendRun.send_of_mem_onWire hv hc hi
  rw [SendRun.isSendAt_of_tasks ht]
  rfl

theorem isSendAt_sent : ∀ i ∈ p.1.sent, p.1.isSendAt i := by
  intro i hi
  obtain ⟨data, written, phase, ht, -⟩ := SendRun.send_of_mem_sent hi
  rw [SendRun.isSendAt_of_tasks ht]
  rfl

/-- The payloads of the sends that were admitted. -/
theorem payload_accepted (hv : p.1.Valid) (hc : p.1.Clean) :
    ∀ data ∈ p.1.onWire.map p.1.payload, accepts p.1.framing data = true := by
  intro data hdata
  obtain ⟨i, hi, rfl⟩ := List.mem_map.mp hdata
  obtain ⟨data, written, phase, ht, haccepts⟩ := SendRun.send_of_mem_onWire hv hc hi
  rw [SendRun.payload, ht]
  exact haccepts

/-- What the reader has delivered or left over is in front of what the sends have written or
are writing. -/
theorem read_front (hp : (streamPairMachine far near framing).Reachable NoTransportError p) :
    ∃ rest later, p.2.consumed = p.2.chunks.flatMap (encode framing) ++ rest ∧
      RawStream.Leftover framing rest ∧
      p.2.chunks.flatMap (encode framing) ++ (rest ++ later) =
        (p.1.onWire.map p.1.payload).flatMap (encode framing) := by
  obtain ⟨⟨hv, hc, hframing⟩, -, hr⟩ := parts hp
  obtain ⟨rest, hbytes, hleft⟩ := hr.bytes
  obtain ⟨later, hlater⟩ : p.2.consumed <+: p.1.onWire.flatMap p.1.bytesOf :=
    ((List.prefix_append _ _).trans (carried hp).bytes).trans (hc.wire_front hv)
  refine ⟨rest, later, hbytes, hleft, ?_⟩
  rw [SendRun.flatMap_bytesOf (isSendAt_onWire hv hc), hframing, hbytes] at hlater
  rw [← hlater, List.append_assoc]

/-- The chunks are the payloads of these sends. -/
structure Delivered (x : SendRun) (chunks : List (List UInt8)) (order : List ℕ) : Prop where
  distinct : order.Nodup
  /-- In the order in which the sends were admitted, and none is left out. -/
  front : order <+: x.onWire
  admitted : x.onWire.Sublist x.served
  chunks : chunks = order.map x.payload

theorem delivered_front (hp : (streamPairMachine far near .framed).Reachable NoTransportError p) :
    ∃ order, Delivered p.1 p.2.chunks order := by
  obtain ⟨⟨hv, hc, hframing⟩, -, hr⟩ := parts hp
  obtain ⟨rest, later, -, -, hsplit⟩ := read_front hp
  have hvalid : ∀ data ∈ p.1.onWire.map p.1.payload, frames.Valid data := fun data hdata =>
    SendRun.accepts_framed (hframing ▸ payload_accepted hv hc data hdata)
  obtain ⟨ms, hms, -⟩ := Code.prefix_of_encodeAll hr.chunks_whole hvalid hsplit
  have hsublist := SendRun.onWire_sublist hv
  have hchunks : p.2.chunks = (p.1.onWire.take p.2.chunks.length).map p.1.payload := by
    rw [List.map_take, hms, List.take_left]
  exact ⟨_, (hv.nodup.1.sublist hsublist).sublist (List.take_sublist _ _),
    List.take_prefix _ _, hsublist, hchunks⟩

/-- The reader of a framed stream is never told of an oversized frame. -/
theorem not_oversized (hp : (streamPairMachine far near .framed).Reachable NoTransportError p)
    {rest : List UInt8} (hbytes : p.2.consumed = p.2.chunks.flatMap (encode .framed) ++ rest) :
    ¬ Oversized rest := by
  intro hover
  obtain ⟨⟨hv, hc, hframing⟩, -, hr⟩ := parts hp
  obtain ⟨rest', later, hbytes', -, hsplit⟩ := read_front hp
  obtain rfl : rest = rest' := List.append_cancel_left (hbytes.symm.trans hbytes')
  have hvalid : ∀ data ∈ p.1.onWire.map p.1.payload, frames.Valid data := fun data hdata =>
    SendRun.accepts_framed (hframing ▸ payload_accepted hv hc data hdata)
  obtain ⟨ms, hms, hrest⟩ := Code.prefix_of_encodeAll hr.chunks_whole hvalid hsplit
  cases ms with
  | nil =>
      have hnil : rest = [] := (List.append_eq_nil_iff.mp hrest).1
      rw [hnil] at hover
      exact absurd hover.1 (by decide)
  | cons data ms =>
      -- The first frame that is left over is one of a send.
      have hdata : data.length ≤ MAX_FRAME_SIZE :=
        hvalid data (hms ▸ List.mem_append_right _ List.mem_cons_self)
      have hlarge : MAX_FRAME_SIZE < announced (rest ++ later) := (oversized_append hover later).2
      rw [hrest, Code.encodeAll, List.flatMap_cons] at hlarge
      rw [show frames.encode data = encode .framed data from rfl, announced_encode hdata] at hlarge
      omega

/-- The bytes of a finished stream are those of the sends. -/
theorem finished_bytes (hp : (streamPairMachine far near framing).Reachable NoTransportError p)
    (he : p.2.ending = some .finished) :
    p.2.consumed ++ p.2.arrived = (p.1.sent.map p.1.payload).flatMap (encode framing) ∧
      ∀ i ∈ p.1.confirmed, i ∈ p.1.sent := by
  obtain ⟨⟨hv, hc, hframing⟩, -, -⟩ := parts hp
  obtain ⟨-, hall⟩ := hc.wire_finished hv ((carried hp).finish he)
  refine ⟨?_, fun i hi => ?_⟩
  · rw [hall, SendRun.flatMap_bytesOf isSendAt_sent, hframing]
  · obtain ⟨t, ht, hconfirmed⟩ := hc.confirmed i hi
    exact hv.mem_sent_of_isConfirmed ht hconfirmed

/-- What the host of the reader gets from a stream that is closed. -/
structure Complete (p : SendRun × RawStream) : Prop where
  delivered : p.2.delivered = p.1.sent.map p.1.payload
  /-- Every send that was confirmed before the sender closed the stream has arrived. -/
  confirmed : ∀ i ∈ p.1.confirmed, i ∈ p.1.sent

/-- What a reader tells its host at the end, and whether everything has been delivered then. -/
inductive Reported (y : RawStream) (all : Prop) : Option IrohError → Prop where
  /-- The sender has finished the stream. -/
  | finished : y.ending = some .finished → all → Reported y all none
  /-- A host has closed the connection, which is no error either. -/
  | closedByHost {err : ConnectionError} : y.ending = some (.failed (.connectionLost err)) →
      err.byHost = true → Reported y all none
  | failed {err : ReadError} {e : IrohError} : y.ending = some (.failed err) →
      readCloseReason err = some e → Reported y all (some e)

theorem Reported.of_failed {y : RawStream} {all : Prop} {err : ReadError}
    (h : y.ending = some (.failed err)) : Reported y all (readCloseReason err) := by
  cases err with
  | other text => exact .failed h rfl
  | connectionLost err =>
      cases err with
      | locallyClosed => exact .closedByHost h rfl
      | applicationClosed text => exact .closedByHost h rfl
      | other text => exact .failed h rfl

/-- After the finish of the sender everything has been delivered. -/
theorem Reported.all {y : RawStream} {all : Prop} (h : Reported y all none)
    (he : y.ending = some .finished) : all := by
  cases h with
  | finished _ hall => exact hall
  | closedByHost hfailed _ =>
      rw [hfailed] at he
      cases he

/-- What the reader of a framed stream may report. -/
theorem reported (hp : (streamPairMachine far near .framed).Reachable NoTransportError p)
    {outcome : Option IrohError} (ho : outcome ∈ p.2.closes) :
    Reported p.2 (Complete p) outcome := by
  obtain ⟨⟨hv, hc, hframing⟩, -, hr⟩ := parts hp
  obtain ⟨htask, -, rest, hend, -, hbytes⟩ := hr.ended ho
  have hchunks : p.2.chunks = p.2.delivered := by
    rw [RawStream.chunks, htask]
    exact List.append_nil _
  cases hend with
  | failed he => exact .of_failed he
  | oversized _ hover => exact absurd hover (not_oversized hp (hchunks ▸ hbytes))
  | finished he ha _ hends =>
      obtain ⟨hall, hconfirmed⟩ := finished_bytes hp he
      rw [ha, List.append_nil] at hall
      have hvalid : ∀ data ∈ p.1.sent.map p.1.payload, frames.Valid data := by
        intro data hdata
        obtain ⟨i, hi, rfl⟩ := List.mem_map.mp hdata
        refine SendRun.accepts_framed (hframing ▸ payload_accepted hv hc _ (List.mem_map.mpr ?_))
        exact ⟨i, List.mem_append_left _ hi, rfl⟩
      have hstuck := (hends rfl).stuck
      obtain ⟨hsame, rfl⟩ := (⟨hr.whole, hbytes, hstuck⟩ : frames.Parses _ _ _).unique
        ⟨hvalid, hall.trans (List.append_nil _).symm, Code.stuck_nil⟩
      obtain rfl := Ends.unique (hends rfl) .finished
      exact .finished he ⟨hsame, hconfirmed⟩

/-- In every run of the two ends of a framed stream, whatever the calls at both ends and
the transport do: the chunks are payloads of sends, in the order of their admission, with
none left out, and they are all delivered before the finish of the sender is reported. -/
theorem delivered_in_order (far near : UInt64) {p : SendRun × RawStream}
    (hp : (streamPairMachine far near .framed).Reachable NoTransportError p) :
    (∃ order, Delivered p.1 p.2.chunks order) ∧
      ∀ outcome ∈ p.2.closes, Reported p.2 (Complete p) outcome :=
  ⟨delivered_front hp, fun _ ho => reported hp ho⟩

/-- The same of the bytes of a raw stream. -/
structure RawComplete (p : SendRun × RawStream) : Prop where
  delivered : p.2.delivered.flatten = (p.1.sent.map p.1.payload).flatten
  confirmed : ∀ i ∈ p.1.confirmed, i ∈ p.1.sent

/-- In every run of the two ends of a raw stream: the chunks, put together, are a front of the
payloads of the sends, put together in the order of their admission, and all of it before the
finish of the sender is reported. -/
theorem raw_delivered_in_order (far near : UInt64) {p : SendRun × RawStream}
    (hp : (streamPairMachine far near .raw).Reachable NoTransportError p) :
    p.2.chunks.flatten <+: (p.1.onWire.map p.1.payload).flatten ∧
      p.1.onWire.Sublist p.1.served ∧
      ∀ outcome ∈ p.2.closes, Reported p.2 (RawComplete p) outcome := by
  obtain ⟨⟨hv, hc, hframing⟩, -, hr⟩ := parts hp
  refine ⟨?front, SendRun.onWire_sublist hv, fun outcome ho => ?close⟩
  case front =>
    obtain ⟨rest, later, -, -, hsplit⟩ := read_front hp
    rw [RawStream.flatMap_encode_raw, RawStream.flatMap_encode_raw] at hsplit
    exact ⟨_, hsplit⟩
  case close =>
    obtain ⟨-, -, rest, hend, hleft, hbytes⟩ := hr.ended ho
    cases hend with
    | failed he => exact .of_failed he
    | oversized hf => cases hf
    | finished he ha hraw _ =>
        obtain ⟨hall, hconfirmed⟩ := finished_bytes hp he
        rw [ha, List.append_nil, hbytes, show rest = [] from hleft, List.append_nil,
          RawStream.flatMap_encode_raw, RawStream.flatMap_encode_raw] at hall
        obtain rfl := hraw rfl
        exact .finished he ⟨hall, hconfirmed⟩

/-- Two sends and the close of the sender, and a reader that subscribes in between and reads
them in three pieces. -/
def pairRun : List (SendAction ⊕ RawStreamAction) :=
  [.inl (.send [7]), .inl (.poll 0), .inl (.acquire 0), .inl (.write 0 4), .inr .subscribe,
    .inr (.take 0), .inr (.arrive [0, 0]), .inr (.spawn 0), .inr (.task .poll),
    .inr (.task (.read 2)), .inl (.next 0), .inl (.write 0 1), .inl (.next 0), .inl (.release 0),
    .inl (.complete 0), .inl (.send []), .inl (.poll 1), .inl (.acquire 1), .inl (.write 1 4),
    .inl (.next 1), .inl (.next 1), .inl (.release 1), .inl (.complete 1), .inl .close,
    .inr (.arrive [0, 1, 7, 0, 0, 0, 0]), .inr (.task (.read 2)), .inr (.task (.read 1)),
    .inr (.task .onData), .inr (.task (.read 4)), .inl (.poll 2), .inl (.acquire 2),
    .inl (.finish 2), .inr .finish, .inr (.task .onData), .inr (.task .readEnd),
    .inr (.task .onClose)]

def newPair (framing : Framing) : SendRun × RawStream :=
  ({ handle := 1, framing }, { framing })

def pairEnd : SendRun × RawStream :=
  ((streamPairMachine 1 2 .framed).run (newPair .framed) pairRun).getD (newPair .framed)

theorem pairEnd_reachable : (streamPairMachine 1 2 .framed).Reachable NoTransportError pairEnd := by
  have hinit : (streamPairMachine 1 2 .framed).init (newPair .framed) := ⟨rfl, rfl⟩
  exact Machine.reachable_getD_of_guarded hinit (by decide +kernel) (by decide +kernel) _

theorem delivered_in_order_two :
    pairEnd.2.log = [.onData [7], .onData [], .onClose none] ∧
      (∃ order, Delivered pairEnd.1 pairEnd.2.chunks order) ∧ Complete pairEnd := by
  obtain ⟨hdelivered, hclose⟩ := delivered_in_order 1 2 pairEnd_reachable
  refine ⟨by decide +kernel, hdelivered, (hclose none (by decide +kernel)).all (by decide +kernel)⟩

/-- A send of two bytes, which the reader gets one at a time, and the close of the sender. -/
def rawRun : List (SendAction ⊕ RawStreamAction) :=
  [.inl (.send [7, 9]), .inl (.poll 0), .inl (.acquire 0), .inl (.write 0 2), .inr .subscribe,
    .inr (.take 0), .inr (.arrive [7]), .inr (.spawn 0), .inr (.task .poll),
    .inr (.task (.read 1)), .inr (.task .onData), .inl (.next 0), .inl (.release 0),
    .inl (.complete 0), .inl .close, .inr (.arrive [9]), .inr (.task (.read 1)),
    .inl (.poll 1), .inl (.acquire 1), .inl (.finish 1), .inr .finish, .inr (.task .onData),
    .inr (.task .readEnd), .inr (.task .onClose)]

def rawEnd : SendRun × RawStream :=
  ((streamPairMachine 1 2 .raw).run (newPair .raw) rawRun).getD (newPair .raw)

theorem rawEnd_reachable : (streamPairMachine 1 2 .raw).Reachable NoTransportError rawEnd := by
  have hinit : (streamPairMachine 1 2 .raw).init (newPair .raw) := ⟨rfl, rfl⟩
  exact Machine.reachable_getD_of_guarded hinit (by decide +kernel) (by decide +kernel) _

theorem raw_delivered_in_order_two :
    rawEnd.2.log = [.onData [7], .onData [9], .onClose none] ∧
      rawEnd.2.chunks.flatten <+: (rawEnd.1.onWire.map rawEnd.1.payload).flatten ∧
      RawComplete rawEnd := by
  obtain ⟨hfront, -, hclose⟩ := raw_delivered_in_order 1 2 rawEnd_reachable
  exact ⟨by decide +kernel, hfront, (hclose none (by decide +kernel)).all (by decide +kernel)⟩

end StreamPair

end Iroh.Core
