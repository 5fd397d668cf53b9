import ReactNativeIroh.Core.ReadCalls

/-!
# What the read task delivers

Whatever the calls of other threads do, one subscription at most gets the receive half.
Its task delivers what stands in the bytes it read, in order, and calls `on_close` at most
once, after the last chunk (`readLaw`).  It stops with the last call after a close, and
until then it tells the host how the stream ended (`readStops`).
-/

namespace Iroh.Core

open Delimited Transition

namespace RawStream

variable {handle : UInt64} {x y : RawStream} {p : ReadPhase} {a : RawStreamAction}

/-! ## The bytes -/

/-- What may be left of the bytes that were read. -/
def Leftover : Framing → List UInt8 → Prop
  | .framed, rest => frames.Stuck rest
  | .raw, rest => rest = []

/-- Why the loop ended, with this outcome and these bytes left. -/
inductive Ended (framing : Framing) (x : RawStream) (rest : List UInt8) :
    Option IrohError → Prop where
  | oversized : framing = .framed → Oversized rest →
      Ended framing x rest (some (frameTooLarge (announced rest)))
  | finished {outcome : Option IrohError} : x.ending = some .finished → x.arrived = [] →
      (framing = .raw → outcome = none) → (framing = .framed → Ends rest outcome) →
      Ended framing x rest outcome
  | failed {err : ReadError} : x.ending = some (.failed err) →
      Ended framing x rest (readCloseReason err)

/-- What stands between the chunks and the bytes that were read, in each phase. -/
inductive Stands (framing : Framing) (x : RawStream) (rest : List UInt8) : ReadPhase → Prop where
  | parked {r : Reading} : Reading.Fits framing r → r.held = rest → x.closes = [] →
      Stands framing x rest (.parked r)
  | polled {r : Reading} : Reading.Fits framing r → r.held = rest → x.closes = [] →
      Stands framing x rest (.polled r)
  | calling {chunk : List UInt8} {r : Reading} : Reading.Fits framing r → r.held = rest →
      x.closes = [] → Reading.Chunk framing chunk → Stands framing x rest (.calling chunk r)
  | closing {outcome : Option IrohError} : Ended framing x rest outcome → Leftover framing rest →
      x.closes = [] → Stands framing x rest (.closing outcome)
  | ended {outcome : Option IrohError} : Ended framing x rest outcome → Leftover framing rest →
      x.closes = [outcome] → Stands framing x rest .ended
  | dropped : Leftover framing rest → x.closes = [] → x.state.aborted = true →
      Stands framing x rest .dropped

/-- Every byte that was read is in a chunk or left over. -/
structure Account (framing : Framing) (x : RawStream) (p : ReadPhase) (rest : List UInt8) :
    Prop where
  bytes : x.consumed = x.chunks.flatMap (encode framing) ++ rest
  stands : Stands framing x rest p

/-- What holds of the read task and its callbacks. -/
structure Read (framing : Framing) (x : RawStream) : Prop where
  inherits : x.framing = framing
  whole : ∀ c ∈ x.delivered, Reading.Chunk framing c
  log : x.log = x.delivered.map .onData ++ x.closes.map .onClose
  unread : x.task = none → x.consumed = [] ∧ x.log = []
  account : ∀ p, x.task = some p → ∃ rest, Account framing x p rest

variable {framing : Framing} {rest : List UInt8}

theorem leftover_held {r : Reading} (h : Reading.Fits framing r) : Leftover framing r.held := by
  cases framing with
  | raw =>
      cases r with
      | raw => rfl
      | header | payload => exact h.elim
  | framed =>
      obtain ⟨outcome, -, -, hends⟩ := Reading.feed_finished h
      exact (hends rfl).stuck

/-- The cause of the end is not touched by what comes after it. -/
theorem Ended.congr {outcome : Option IrohError} (h : Ended framing x rest outcome)
    (he : x.ending ≠ none → y.ending = x.ending ∧ y.arrived = x.arrived) :
    Ended framing y rest outcome := by
  cases h with
  | oversized hf ho => exact .oversized hf ho
  | finished hx ha hraw hframed =>
      obtain ⟨hending, harrived⟩ := he (by simp [hx])
      exact .finished (hending.trans hx) (harrived.trans ha) hraw hframed
  | failed hx => exact .failed ((he (by simp [hx])).1.trans hx)

theorem Stands.congr (h : Stands framing x rest p) (hlog : y.log = x.log)
    (ha : x.state.aborted = true → y.state.aborted = true)
    (he : x.ending ≠ none → y.ending = x.ending ∧ y.arrived = x.arrived) :
    Stands framing y rest p := by
  have hcloses : y.closes = x.closes := by rw [closes, hlog, closes]
  cases h with
  | parked hr hh hc => exact .parked hr hh (hcloses.trans hc)
  | polled hr hh hc => exact .polled hr hh (hcloses.trans hc)
  | calling hr hh hc hchunk => exact .calling hr hh (hcloses.trans hc) hchunk
  | closing hend hl hc => exact .closing (hend.congr he) hl (hcloses.trans hc)
  | ended hend hl hc => exact .ended (hend.congr he) hl (hcloses.trans hc)
  | dropped hl hc hab => exact .dropped hl (hcloses.trans hc) (ha hab)

/-- A step that leaves the read task alone. -/
theorem Read.congr (h : x.Read framing) (hframing : y.framing = x.framing) (hlog : y.log = x.log)
    (htask : y.task = x.task) (hconsumed : y.consumed = x.consumed)
    (ha : x.state.aborted = true → y.state.aborted = true)
    (he : x.ending ≠ none → y.ending = x.ending ∧ y.arrived = x.arrived) :
    y.Read framing := by
  have hdelivered : y.delivered = x.delivered := by rw [delivered, hlog, delivered]
  have hcloses : y.closes = x.closes := by rw [closes, hlog, closes]
  refine ⟨hframing.trans h.inherits, hdelivered ▸ h.whole, ?_, ?_, fun p hp => ?_⟩
  · rw [hlog, hdelivered, hcloses]
    exact h.log
  · rw [htask, hconsumed, hlog]
    exact h.unread
  · obtain ⟨rest, hbytes, hstands⟩ := h.account p (htask ▸ hp)
    refine ⟨rest, ?_, hstands.congr hlog ha he⟩
    rw [hconsumed, chunks, htask, hdelivered, ← chunks, hbytes]

/-- A step of the read task that is no callback. -/
theorem Read.moves (h : x.Read framing) (rest : List UInt8) {q : ReadPhase}
    (hframing : y.framing = x.framing) (hlog : y.log = x.log) (hq : y.task = some q)
    (hbytes : y.consumed = (x.delivered ++ q.inFlight).flatMap (encode framing) ++ rest)
    (hstands : Stands framing y rest q) : y.Read framing := by
  have hdelivered : y.delivered = x.delivered := by rw [delivered, hlog, delivered]
  have hcloses : y.closes = x.closes := by rw [closes, hlog, closes]
  refine ⟨hframing.trans h.inherits, hdelivered ▸ h.whole, ?_, fun hn => ?_, fun p hp => ?_⟩
  · rw [hlog, hdelivered, hcloses]
    exact h.log
  · rw [hq] at hn
    cases hn
  · obtain rfl : q = p := Option.some.inj (hq.symm.trans hp)
    refine ⟨rest, ?_, hstands⟩
    rw [chunks, hq, hdelivered]
    exact hbytes

theorem Read.task (h : x.Read framing) (hp : x.task = some p) (ht : TaskSteps x p y) :
    y.Read framing := by
  obtain ⟨rest, hbytes, hstands⟩ := h.account p hp
  have hchunks : x.chunks = x.delivered ++ p.inFlight := by rw [chunks, hp]; rfl
  rw [hchunks] at hbytes
  cases ht with
  | poll =>
      cases hstands with
      | parked hr hh hc => exact h.moves _ rfl rfl rfl hbytes (.polled hr hh hc)
  | park =>
      cases hstands with
      | polled hr hh hc => exact h.moves _ rfl rfl rfl hbytes (.parked hr hh hc)
  | drop ha =>
      cases hstands with
      | parked hr hh hc =>
          exact h.moves _ rfl rfl rfl hbytes (.dropped (hh ▸ leftover_held hr) hc ha)
  | @read r n hg =>
      cases hstands with
      | polled hr hh hc =>
          have haccounts := Reading.feed_bytes hr hg
          rw [hh] at haccounts
          have hread : x.consumed ++ x.arrived.take n =
              x.delivered.flatMap (encode framing) ++ (rest ++ x.arrived.take n) := by
            rw [hbytes]
            show (x.delivered ++ []).flatMap _ ++ rest ++ _ = _
            rw [List.append_nil, List.append_assoc]
          cases hstep : r.feed (.bytes (x.arrived.take n)) with
          | read r' =>
              rw [hstep] at haccounts
              obtain ⟨hr', hh'⟩ : Reading.Fits framing r' ∧ r'.held = rest ++ x.arrived.take n := by
                cases haccounts with
                | read hr' hh' => exact ⟨hr', hh'⟩
              refine h.moves (rest ++ x.arrived.take n) rfl rfl rfl ?_ (.polled hr' hh' hc)
              show x.consumed ++ x.arrived.take n = (x.delivered ++ []).flatMap _ ++ _
              rw [List.append_nil, hread]
          | deliver chunk r' =>
              rw [hstep] at haccounts
              cases haccounts with
              | deliver hr' hh' hchunk hc' =>
                  refine h.moves [] rfl rfl rfl ?_ (.calling hr' hh' hc hc')
                  show x.consumed ++ x.arrived.take n = (x.delivered ++ [chunk]).flatMap _ ++ []
                  rw [List.flatMap_append, List.flatMap_singleton, hchunk, List.append_nil, hread]
          | close outcome =>
              rw [hstep] at haccounts
              cases haccounts with
              | oversized hframed hover =>
                  refine h.moves _ rfl rfl rfl ?_
                    (.closing (.oversized hframed hover) (hframed ▸ stuck_of_oversized hover) hc)
                  show x.consumed ++ x.arrived.take n = (x.delivered ++ []).flatMap _ ++ _
                  rw [List.append_nil, hread]
  | @finished r he ha =>
      cases hstands with
      | polled hr hh hc =>
          obtain ⟨outcome, hstep, hraw, hframed⟩ := Reading.feed_finished hr
          rw [hstep]
          exact h.moves _ rfl rfl rfl hbytes
            (.closing (.finished he ha hraw (hh ▸ hframed)) (hh ▸ leftover_held hr) hc)
  | failed he =>
      cases hstands with
      | polled hr hh hc =>
          exact h.moves _ rfl rfl rfl hbytes (.closing (.failed he) (hh ▸ leftover_held hr) hc)
  | onData chunk r =>
      cases hstands with
      | calling hr hh hc hchunk =>
          have hdelivered : ((x.put (.polled r)).call (.onData chunk)).delivered =
              x.delivered ++ [chunk] := by
            rw [delivered, call, List.filterMap_append]
            rfl
          have hcloses : ((x.put (.polled r)).call (.onData chunk)).closes = [] := by
            rw [closes, call, List.filterMap_append]
            exact (List.append_nil _).trans hc
          refine ⟨h.inherits, fun c hmem => ?_, ?_, nofun, fun q hq => ?_⟩
          · rw [hdelivered] at hmem
            rcases List.mem_append.mp hmem with hold | hnew
            · exact h.whole c hold
            · exact List.mem_singleton.mp hnew ▸ hchunk
          · have hlog := h.log
            rw [hc] at hlog
            show x.log ++ [.onData chunk] = _
            rw [hdelivered, hcloses, hlog, List.map_append]
            simp
          · obtain rfl := Option.some.inj hq
            refine ⟨rest, ?_, .polled hr hh hcloses⟩
            show x.consumed = _
            rw [chunks, hdelivered, hbytes]
            show (x.delivered ++ [chunk]).flatMap _ ++ rest =
              (x.delivered ++ [chunk] ++ []).flatMap _ ++ rest
            rw [List.append_nil]
  | onClose outcome =>
      cases hstands with
      | closing hend hl hc =>
          have hdelivered : ((x.put .ended).call (.onClose outcome)).delivered = x.delivered := by
            rw [delivered, call, List.filterMap_append]
            exact List.append_nil _
          have hcloses : ((x.put .ended).call (.onClose outcome)).closes = [outcome] := by
            rw [closes, call, List.filterMap_append]
            show x.closes ++ [outcome] = _
            rw [hc, List.nil_append]
          refine ⟨h.inherits, hdelivered ▸ h.whole, ?_, nofun, fun q hq => ?_⟩
          · have hlog := h.log
            rw [hc] at hlog
            show x.log ++ [.onClose outcome] = _
            rw [hdelivered, hcloses, hlog]
            simp
          · obtain rfl := Option.some.inj hq
            refine ⟨rest, ?_, .ended (hend.congr fun _ => ⟨rfl, rfl⟩) hl hcloses⟩
            show x.consumed = _
            rw [chunks, hdelivered]
            exact hbytes

theorem Read.step (h : x.Read framing) (hc : x.Calls handle) (hs : Steps handle x a y) :
    y.Read framing := by
  have ha : x.state.aborted = true → y.state.aborted = true := by
    intro ha
    rcases hs.state hc with heq | hm
    · rwa [heq]
    · exact hm.aborted ha
  cases hs with
  | arrive bytes he => exact h.congr rfl rfl rfl rfl ha (absurd he)
  | finish he => exact h.congr rfl rfl rfl rfl ha (absurd he)
  | fail err he => exact h.congr rfl rfl rfl rfl ha (absurd he)
  | lookUp => exact h.congr rfl rfl rfl rfl ha fun _ => ⟨rfl, rfl⟩
  | unknown => exact h.congr rfl rfl rfl rfl ha fun _ => ⟨rfl, rfl⟩
  | take => exact h.congr rfl rfl rfl rfl ha fun _ => ⟨rfl, rfl⟩
  | refuse => exact h.congr rfl rfl rfl rfl ha fun _ => ⟨rfl, rfl⟩
  | store => exact h.congr rfl rfl rfl rfl ha fun _ => ⟨rfl, rfl⟩
  | send => exact h.congr rfl rfl rfl rfl ha fun _ => ⟨rfl, rfl⟩
  | close => exact h.congr rfl rfl rfl rfl ha fun _ => ⟨rfl, rfl⟩
  | leave => exact h.congr rfl rfl rfl rfl ha fun _ => ⟨rfl, rfl⟩
  | closed => exact h
  | task hp ht => exact h.task hp ht
  | spawn hi =>
      -- The call that has the receive half spawns the first task.
      have htask : x.task = none := by
        have hmem : 0 < x.readers.countP ReaderPhase.isTaken :=
          List.countP_pos_iff.mpr ⟨.taken, List.mem_of_getElem? hi, rfl⟩
        have hone := Bool.toNat_le (!x.recv)
        have htaken := hc.taken
        have hstarted := hc.started
        cases hx : x.task with
        | none => rfl
        | some p =>
            rw [hx] at hstarted
            simp only [Option.isSome_some, Bool.toNat_true] at hstarted
            omega
      obtain ⟨hconsumed, hlog⟩ := h.unread htask
      have hdelivered : x.delivered = [] := by rw [delivered, hlog]; rfl
      have hcloses : x.closes = [] := by rw [closes, hlog]; rfl
      refine h.moves [] rfl rfl rfl ?_
        (.parked (h.inherits ▸ Reading.fits_start x.framing) (Reading.held_start _) hcloses)
      rw [hdelivered]
      exact hconsumed

theorem read_invariant (handle : UInt64) (framing : Framing) :
    (rawStreamMachine handle framing).Invariant Any
      (fun x => x.Calls handle ∧ x.Read framing) where
  init x hx := by
    have hnew : x = { framing } := hx
    subst hnew
    exact ⟨⟨Retained.Sound.new, rfl, rfl, rfl, rfl, nofun⟩, rfl, nofun, rfl, fun _ => ⟨rfl, rfl⟩,
      nofun⟩
  step x a y h _ hy := ⟨h.1.step (steps hy), h.2.step h.1 (steps hy)⟩

/-! ## The law -/

/-- The chunks and the outcome are those of the bytes. -/
structure Delivers (x : RawStream) : Prop where
  /-- `on_close` is called at most once, and nothing after it. -/
  log : ∃ outcome : Option (Option IrohError),
    x.log = x.delivered.map .onData ++ outcome.toList.map .onClose
  /-- The frames that were read in full, and no others. -/
  framed : x.framing = .framed → ∃ rest, frames.Parses x.consumed x.chunks rest
  /-- The bytes that were read, in pieces of a bounded size. -/
  raw : x.framing = .raw → x.chunks.flatten = x.consumed ∧
    ∀ chunk ∈ x.chunks, chunk ≠ [] ∧ chunk.length ≤ RAW_READ_CHUNK
  /-- The outcome is that of the error, or that of the bytes. -/
  outcome : ∀ outcome ∈ x.closes,
    (∃ err, x.ending = some (.failed err) ∧ outcome = readCloseReason err) ∨
      (x.framing = .raw ∧ x.ending = some .finished ∧ x.arrived = [] ∧ outcome = none) ∨
      (x.framing = .framed ∧ ∀ {σ : Type} (t : RecvStream σ) (s : σ), t.Orderly →
        t.pending s = x.consumed ++ x.arrived → t.readFramed s = (x.delivered, outcome))

theorem Stands.whole (h : Stands framing x rest p) :
    ∀ c ∈ p.inFlight, Reading.Chunk framing c := by
  intro c hc
  cases h with
  | calling hr hh hcloses hchunk => exact List.mem_singleton.mp hc ▸ hchunk
  | parked | polled | closing | ended | dropped => cases hc

theorem Stands.leftover (h : Stands framing x rest p) : Leftover framing rest := by
  cases h with
  | parked hr hh => exact hh ▸ leftover_held hr
  | polled hr hh => exact hh ▸ leftover_held hr
  | calling hr hh => exact hh ▸ leftover_held hr
  | closing _ hl => exact hl
  | ended _ hl => exact hl
  | dropped hl => exact hl

theorem chunks_of_none (h : x.task = none) : x.chunks = x.delivered := by
  rw [chunks, h]
  exact List.append_nil _

theorem Read.chunks_whole (h : x.Read framing) : ∀ c ∈ x.chunks, Reading.Chunk framing c := by
  intro c hc
  rcases List.mem_append.mp hc with hold | hnew
  · exact h.whole c hold
  · cases hp : x.task with
    | none =>
        rw [hp] at hnew
        cases hnew
    | some p =>
        obtain ⟨rest, -, hstands⟩ := h.account p hp
        rw [hp] at hnew
        exact hstands.whole c hnew

/-- Every byte that was read is in a chunk or left over. -/
theorem Read.bytes (h : x.Read framing) :
    ∃ rest, x.consumed = x.chunks.flatMap (encode framing) ++ rest ∧ Leftover framing rest := by
  cases hp : x.task with
  | none =>
      obtain ⟨hconsumed, hlog⟩ := h.unread hp
      have hchunks : x.chunks = [] := by
        rw [chunks_of_none hp, delivered, hlog]
        rfl
      rw [hconsumed, hchunks]
      exact ⟨[], rfl, by cases framing with
        | framed => exact Code.stuck_nil
        | raw => rfl⟩
  | some p =>
      obtain ⟨rest, hbytes, hstands⟩ := h.account p hp
      exact ⟨rest, hbytes, hstands.leftover⟩

theorem flatMap_encode_raw (chunks : List (List UInt8)) :
    chunks.flatMap (encode .raw) = chunks.flatten := by
  induction chunks with
  | nil => rfl
  | cons chunk chunks ih => rw [List.flatMap_cons, Reading.encode_raw, ih, List.flatten_cons]

/-- The task has ended exactly if it has called `on_close`. -/
theorem Read.ended (h : x.Read framing) {outcome : Option IrohError} (ho : outcome ∈ x.closes) :
    x.task = some .ended ∧ x.closes = [outcome] ∧ ∃ rest, Ended framing x rest outcome ∧
      Leftover framing rest ∧ x.consumed = x.delivered.flatMap (encode framing) ++ rest := by
  cases hp : x.task with
  | none =>
      rw [closes, (h.unread hp).2] at ho
      cases ho
  | some p =>
      obtain ⟨rest, hbytes, hstands⟩ := h.account p hp
      rw [chunks, hp] at hbytes
      cases hstands with
      | parked _ _ hc => rw [hc] at ho; cases ho
      | polled _ _ hc => rw [hc] at ho; cases ho
      | calling _ _ hc => rw [hc] at ho; cases ho
      | closing _ _ hc => rw [hc] at ho; cases ho
      | dropped _ hc => rw [hc] at ho; cases ho
      | ended hend hl hc =>
          rw [hc] at ho
          obtain rfl := List.mem_singleton.mp ho
          refine ⟨rfl, hc, rest, hend, hl, ?_⟩
          rw [hbytes]
          show (x.delivered ++ []).flatMap _ ++ rest = _
          rw [List.append_nil]

theorem Read.delivers (h : x.Read framing) : x.Delivers := by
  obtain rfl := h.inherits
  obtain ⟨rest, hbytes, hleft⟩ := h.bytes
  have hwhole := h.chunks_whole
  refine ⟨?log, fun hf => ⟨rest, ?valid, ?split, ?stuck⟩, fun hr => ⟨?flat, ?size⟩, ?outcome⟩
  case log =>
    cases hc : x.closes with
    | nil => exact ⟨none, by rw [h.log, hc]; rfl⟩
    | cons outcome l =>
        have hone := (h.ended (hc ▸ List.mem_cons_self)).2.1
        exact ⟨some outcome, by rw [h.log, hone]; rfl⟩
  case valid => rw [hf] at hwhole; exact hwhole
  case split => rw [hf] at hbytes; exact hbytes
  case stuck => rw [hf] at hleft; exact hleft
  case flat =>
    rw [hr] at hbytes hleft
    rw [hbytes, flatMap_encode_raw, show rest = [] from hleft, List.append_nil]
  case size => rw [hr] at hwhole; exact hwhole
  case outcome =>
    intro outcome ho
    obtain ⟨-, -, rest, hend, -, hbytes⟩ := h.ended ho
    have hvalid := h.whole
    cases hend with
    | failed he => exact .inl ⟨_, he, rfl⟩
    | oversized hf hover =>
        rw [hf] at hvalid hbytes
        refine .inr (.inr ⟨hf, fun t s ht hs => ?_⟩)
        have hend := Ends.oversized (oversized_append hover x.arrived)
        rw [announced_append hover.1] at hend
        refine readFramed_of_parses ht ⟨hvalid, ?_, hend.stuck⟩ hend
        rw [hs, hbytes, List.append_assoc]
        rfl
    | finished he ha hraw hframed =>
        cases hf : x.framing with
        | raw => exact .inr (.inl ⟨rfl, he, ha, hraw hf⟩)
        | framed =>
            rw [hf] at hvalid hbytes
            refine .inr (.inr ⟨rfl, fun t s ht hs => ?_⟩)
            have hend := hframed hf
            refine readFramed_of_parses ht ⟨hvalid, ?_, hend.stuck⟩ hend
            rw [hs, ha, hbytes, List.append_nil]
            rfl

/-- One subscription has the stream, and what it delivers is what was sent. -/
structure ReadLaw (handle : UInt64) (x : RawStream) : Prop where
  /-- At most one subscription succeeds. -/
  once : ∀ i j : ℕ, x.readers[i]? = some (.returned (.ok ())) →
    x.readers[j]? = some (.returned (.ok ())) → i = j
  /-- One that fails came after the close, or another took the receive half. -/
  refused : ∀ (i : ℕ) (e : IrohError), x.readers[i]? = some (.returned (.error e)) →
    (e = .invalidHandle handle ∧ x.state.registered = false) ∨
      (e = alreadyRead ∧ ∃ (j : ℕ) (p : ReaderPhase), j ≠ i ∧ x.readers[j]? = some p ∧
        (p.isTaken = true ∨ p.started = true))
  /-- Nothing is read before a subscription has the receive half. -/
  unread : (∀ p ∈ x.readers, p.started = false) → x.consumed = [] ∧ x.log = []
  delivers : x.Delivers

theorem Calls.once (h : x.Calls handle) {i j : ℕ} {p q : ReaderPhase}
    (hi : x.readers[i]? = some p) (hj : x.readers[j]? = some q) (hp : p.started = true)
    (hq : q.started = true) : i = j := by
  by_contra hne
  have hcount := countP_set_add (f := ReaderPhase.started) (b := .lookedUp) hi
  rw [hp] at hcount
  have hmem : q ∈ x.readers.set i .lookedUp := by
    refine List.mem_of_getElem? (i := j) ?_
    rw [List.getElem?_set_ne hne]
    exact hj
  have hpos : 0 < (x.readers.set i .lookedUp).countP ReaderPhase.started :=
    List.countP_pos_iff.mpr ⟨q, hmem, hq⟩
  have hone := Bool.toNat_le (!x.recv)
  have htaken := h.taken
  simp only [Bool.toNat_true, ReaderPhase.started, Bool.toNat_false] at hcount
  omega

/-- The receive half is gone because a call of `stream_subscribe` has it. -/
theorem Calls.taker (h : x.Calls handle) (hr : x.recv = false) :
    ∃ (j : ℕ) (p : ReaderPhase),
      x.readers[j]? = some p ∧ (p.isTaken = true ∨ p.started = true) := by
  have htaken := h.taken
  rw [hr, Bool.not_false, Bool.toNat_true] at htaken
  rcases Nat.eq_zero_or_pos (x.readers.countP ReaderPhase.isTaken) with hzero | hpos
  · have hpos : 0 < x.readers.countP ReaderPhase.started := by omega
    obtain ⟨p, hmem, hp⟩ := List.countP_pos_iff.mp hpos
    obtain ⟨j, hj⟩ := List.mem_iff_getElem?.mp hmem
    exact ⟨j, p, hj, .inr hp⟩
  · obtain ⟨p, hmem, hp⟩ := List.countP_pos_iff.mp hpos
    obtain ⟨j, hj⟩ := List.mem_iff_getElem?.mp hmem
    exact ⟨j, p, hj, .inl hp⟩

/-- In every state of every run of a stream, however the calls on it interleave. -/
theorem readLaw (handle : UInt64) (framing : Framing) {x : RawStream}
    (hx : (rawStreamMachine handle framing).Reachable Any x) : x.ReadLaw handle := by
  obtain ⟨hc, hr⟩ := (read_invariant handle framing).reachable hx
  refine ⟨fun i j hi hj => hc.once hi hj rfl rfl, fun i e hi => ?_, fun hnone => hr.unread ?_,
    hr.delivers⟩
  · rcases hc.refused e (List.mem_of_getElem? hi) with hinvalid | ⟨halready, hrecv⟩
    · exact .inl hinvalid
    · obtain ⟨j, p, hj, hp⟩ := hc.taker hrecv
      refine .inr ⟨halready, j, p, fun hji => ?_, hj, hp⟩
      -- The one that failed has not got the receive half.
      subst hji
      obtain rfl := Option.some.inj (hi.symm.trans hj)
      rcases hp with htaken | hstarted
      · cases htaken
      · cases hstarted
  · have hzero : x.readers.countP ReaderPhase.started = 0 :=
      List.countP_eq_zero.mpr fun p hp => by simp [hnone p hp]
    have hstarted := hc.started
    rw [hzero] at hstarted
    cases hx : x.task with
    | none => rfl
    | some p =>
        rw [hx] at hstarted
        cases hstarted

/-- Two frames are read, one of them in two pieces, while a send and a second subscription
come in; then the peer finishes. -/
def readTwo : List RawStreamAction :=
  [.subscribe, .take 0, .subscribe, .spawn 0, .arrive [0, 0, 0, 1], .take 1, .store 0, .send,
    .task .poll, .task (.read 4), .arrive [7, 0, 0], .task (.read 1), .task .onData, .leave,
    .arrive [0, 0], .task (.read 2), .finish, .task (.read 2), .task .onData, .task .readEnd,
    .task .onClose]

/-- The stream is closed after that, and a third subscription comes too late. -/
def closeTwo : List RawStreamAction := readTwo ++ [.close, .leave, .subscribe]

def framedRun (as : List RawStreamAction) : RawStream :=
  ((rawStreamMachine 1 .framed).run { framing := .framed } as).getD { framing := .framed }

theorem twoClosed_reachable :
    (rawStreamMachine 1 .framed).Reachable Any (framedRun closeTwo) :=
  Machine.reachable_getD rfl (by decide +kernel) _

theorem readLaw_two :
    (framedRun closeTwo).log = [.onData [7], .onData [], .onClose none] ∧
      (framedRun closeTwo).readers.map ReaderPhase.succeeded = [true, false, false] ∧
      (framedRun closeTwo).state.registered = false ∧ (framedRun closeTwo).ReadLaw 1 :=
  ⟨by decide +kernel, by decide +kernel, by decide +kernel, readLaw 1 .framed twoClosed_reachable⟩

/-! ## The end -/

/-- No worker polls the read task. -/
def Idle (x : RawStream) : Prop := ∀ p, x.task = some p → p.isPolled = false

/-- There is nothing to do for the read task. -/
def Quiet (handle : UInt64) (x : RawStream) : Prop := ∀ a, x.step handle (.task a) = none

/-- Nothing refers to the stream, and its task was aborted where it is parked. -/
structure Stopped (handle : UInt64) (x : RawStream) : Prop where
  calls : x.Calls handle
  dropped : x.state.Dropped
  idle : ∀ p, x.task = some p → p.isPolled = false ∧ x.state.aborted = true

theorem Stopped.no_calls (h : x.Stopped handle) :
    x.state.registered = false ∧ x.state.calls = 0 := by
  have hzero : x.state.registered.toNat + x.state.calls = 0 := h.dropped
  cases hr : x.state.registered with
  | false => exact ⟨rfl, by omega⟩
  | true =>
      rw [hr, Bool.toNat_true] at hzero
      omega

theorem Stopped.no_reader (h : x.Stopped handle) {i : ℕ} {q : ReaderPhase}
    (hi : x.readers[i]? = some q) (hq : q.refers = true) : False := by
  have := h.calls.reader_refers hi hq
  have := h.no_calls.2
  omega

theorem Stopped.step (h : x.Stopped handle) (hs : Steps handle x a y) :
    y.Stopped handle ∧ y.log = x.log ∧ y.consumed = x.consumed := by
  have hcalls := h.calls.step hs
  obtain ⟨hunregistered, hnone⟩ := h.no_calls
  cases hs with
  | arrive | finish | fail | unknown => exact ⟨⟨hcalls, h.dropped, h.idle⟩, rfl, rfl⟩
  | closed => exact ⟨h, rfl, rfl⟩
  | lookUp hr | send hr | close hr =>
      rw [hunregistered] at hr
      cases hr
  | take hi | refuse hi | spawn hi | store hi => exact (h.no_reader hi rfl).elim
  | leave ho =>
      have := h.calls.calls
      omega
  | task hp ht =>
      obtain ⟨hpolled, haborted⟩ := h.idle _ hp
      cases ht with
      | poll ha =>
          rw [haborted] at ha
          cases ha
      | drop =>
          refine ⟨⟨hcalls, h.dropped, fun q hq => ?_⟩, rfl, rfl⟩
          obtain rfl := Option.some.inj hq
          exact ⟨rfl, haborted⟩
      | read | finished | failed | park | onData | onClose => cases hpolled

/-- Once the stream is closed and every call has returned, it stops. -/
theorem Calls.stopped (h : x.Calls handle) (hr : x.state.registered = false) (ho : x.others = 0)
    (hreaders : ∀ p ∈ x.readers, p.refers = false) (hi : x.Idle) : x.Stopped handle := by
  have hcount : x.readers.countP ReaderPhase.refers = 0 :=
    List.countP_eq_zero.mpr fun p hp => by simp [hreaders p hp]
  have hdropped : x.state.Dropped := by
    have := h.calls
    show x.state.registered.toNat + x.state.calls = 0
    rw [hr, Bool.toNat_false]
    omega
  refine ⟨h, hdropped, fun p hp => ⟨hi p hp, h.sound.2 ⟨hdropped, ?_⟩⟩⟩
  -- The call that spawned the task has returned, so it has stored its handle.
  have hle : x.readers.countP ReaderPhase.started ≤ x.readers.countP ReaderPhase.succeeded := by
    refine List.countP_mono_left fun p hmem hp => ?_
    cases p with
    | returned result => cases result <;> exact hp
    | lookedUp | taken | spawned => exact absurd (hreaders _ hmem) (by decide)
  have hstarted := h.started
  have hstored := h.stored
  rw [hp, Option.isSome_some, Bool.toNat_true] at hstarted
  cases hs : x.state.stored with
  | true => rfl
  | false =>
      rw [hs, Bool.toNat_false] at hstored
      omega

/-- A task that has nothing to do, of a stream that has ended and was not dropped, has
called `on_close`. -/
theorem Read.reported (h : x.Read framing) (hc : x.Calls handle) (hp : x.task = some p)
    (hd : ¬ x.state.Dropped) (hq : x.Quiet handle) (he : x.ending ≠ none) :
    ∃ outcome, x.closes = [outcome] := by
  have hrun : x.state.aborted = false := hc.sound.not_aborted (Nat.pos_of_ne_zero hd)
  have hquiet : ∀ a, x.readStep p a = none := by
    intro a
    have hnone := hq a
    rw [RawStream.step, hp] at hnone
    exact hnone
  obtain ⟨rest, -, hstands⟩ := h.account p hp
  cases hstands with
  | parked =>
      have := hquiet .poll
      simp [readStep, hrun] at this
  | @polled r hr =>
      cases hx : x.ending with
      | none => exact absurd hx he
      | some e =>
          cases e with
          | failed err =>
              have := hquiet .readEnd
              simp [readStep, hx] at this
          | finished =>
              cases ha : x.arrived with
              | nil =>
                  have := hquiet .readEnd
                  simp [readStep, hx, ha] at this
              | cons b l =>
                  have hpos := Reading.wanted_pos hr
                  have := hquiet (.read 1)
                  simp [readStep, ha] at this
                  omega
  | calling =>
      have := hquiet .onData
      simp [readStep] at this
  | closing =>
      have := hquiet .onClose
      simp [readStep] at this
  | ended _ _ hcloses => exact ⟨_, hcloses⟩
  | dropped _ _ ha =>
      rw [hrun] at ha
      cases ha

/-- What a close stops, and what happens without one. -/
structure ReadStops (handle : UInt64) (framing : Framing) (x : RawStream) : Prop where
  /-- After the close and the last call, nothing is read or delivered any more. -/
  stops : x.state.registered = false → x.others = 0 → (∀ p ∈ x.readers, p.refers = false) →
    x.Idle → ∀ y, (rawStreamMachine handle framing).Leads Any x y →
      y.log = x.log ∧ y.consumed = x.consumed
  /-- Before that, a subscription is told how the stream ended. -/
  reports : (∃ p ∈ x.readers, p.started = true) → ¬ x.state.Dropped → x.Quiet handle →
    x.ending ≠ none → ∃ outcome, x.closes = [outcome]

theorem readStops (handle : UInt64) (framing : Framing) {x : RawStream}
    (hx : (rawStreamMachine handle framing).Reachable Any x) : x.ReadStops handle framing := by
  obtain ⟨hc, hr⟩ := (read_invariant handle framing).reachable hx
  refine ⟨fun hregistered ho hreaders hi y hy => ?stops, fun hs hd hq he => ?reports⟩
  case stops =>
    have hall : y.Stopped handle ∧ y.log = x.log ∧ y.consumed = x.consumed := by
      refine Machine.Leads.keeps (I := fun y => y.Stopped handle ∧ y.log = x.log ∧
        y.consumed = x.consumed) (fun z a u hz _ hu => ?_) hy
        ⟨hc.stopped hregistered ho hreaders hi, rfl, rfl⟩
      obtain ⟨hstopped, hlog, hconsumed⟩ := hz.1.step (steps hu)
      exact ⟨hstopped, hlog.trans hz.2.1, hconsumed.trans hz.2.2⟩
    exact hall.2
  case reports =>
    obtain ⟨q, hmem, hq'⟩ := hs
    have hpos : 0 < x.readers.countP ReaderPhase.started :=
      List.countP_pos_iff.mpr ⟨q, hmem, hq'⟩
    have hstarted := hc.started
    cases hp : x.task with
    | none =>
        rw [hp, Option.isSome_none, Bool.toNat_false] at hstarted
        omega
    | some p => exact hr.reported hc hp hd hq he

/-- A frame is read, and the reader waits for more when the stream is closed. -/
def readParked : List RawStreamAction :=
  [.subscribe, .take 0, .spawn 0, .store 0, .arrive [0, 0, 0, 1, 7, 0], .task .poll,
    .task (.read 4), .task (.read 1), .task .onData, .task (.read 1), .task .park, .close,
    .leave]

/-- The waiting reader makes no further callback, and the one that is not closed has told of the
end. -/
theorem readStops_two :
    (framedRun readParked).task = some (.parked (.header [0])) ∧
      (∀ y, (rawStreamMachine 1 .framed).Leads Any (framedRun readParked) y →
        y.log = [.onData [7]] ∧ y.consumed = [0, 0, 0, 1, 7, 0]) ∧
      (framedRun readTwo).state.registered = true ∧
      ∃ outcome, (framedRun readTwo).closes = [outcome] := by
  have hparked : (rawStreamMachine 1 .framed).Reachable Any (framedRun readParked) :=
    Machine.reachable_getD rfl (by decide +kernel) _
  have htwo : (rawStreamMachine 1 .framed).Reachable Any (framedRun readTwo) :=
    Machine.reachable_getD rfl (by decide +kernel) _
  have htask : (framedRun readParked).task = some (.parked (.header [0])) := by decide +kernel
  have hended : (framedRun readTwo).task = some .ended := by decide +kernel
  refine ⟨htask, fun y hy => ?_, by decide +kernel, ?_⟩
  · refine (readStops 1 .framed hparked).stops (by decide +kernel) (by decide +kernel)
      (by decide +kernel) (fun p hp => ?_) y hy
    obtain rfl := Option.some.inj (htask.symm.trans hp)
    rfl
  · refine (readStops 1 .framed htwo).reports (by decide +kernel) (by decide +kernel)
      (fun a => ?_) (by decide +kernel)
    rw [RawStream.step, hended]
    cases a <;> rfl

end RawStream

end Iroh.Core
