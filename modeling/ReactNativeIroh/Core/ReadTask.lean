import ReactNativeIroh.Core.ReadFramed

/-!
# The read loop, one read at a time

`read_framed` and `read_raw` are loops over the reads of the transport.  Between two reads
the loop is at a header or a payload it has a part of, or it reads verbatim.  A read gives
some of the bytes that were asked for, or the end of the stream, or an error; the loop
then reads on, delivers a chunk or ends (`Reading.feed`).

The loop keeps account of every byte (`Reading.feed_bytes`), however the transport cuts
them, and a finish ends it as it ends `readFramed` (`Reading.feed_finished`).
-/

namespace Iroh.Core

open Delimited

/-- How many bytes an unframed read asks for at a time. -/
def RAW_READ_CHUNK : ℕ := 64 * 1024

/-- Where the loop is between two reads. -/
inductive Reading where
  | raw
  | header (read : List UInt8)
  | payload (len : ℕ) (read : List UInt8)
deriving DecidableEq

/-- What a read of the transport gives. -/
inductive ReadResult where
  | bytes (bytes : List UInt8)
  | finished
  | failed (err : ReadError)
deriving DecidableEq

/-- What the loop does after a read. -/
inductive ReadStep where
  | read (r : Reading)
  | deliver (chunk : List UInt8) (r : Reading)
  | close (outcome : Option IrohError)

namespace Reading

/-- Where the loop starts. -/
def start : Framing → Reading
  | .framed => .header []
  | .raw => .raw

/-- How many bytes the next read asks for. -/
def wanted : Reading → ℕ
  | .raw => RAW_READ_CHUNK
  | .header read => 4 - read.length
  | .payload len read => len - read.length

/-- The loop has the bytes of a header. -/
def atHeader (header : List UInt8) : ReadStep :=
  let len := (fromBeBytes header).toNat
  if len > MAX_FRAME_SIZE then .close (some (frameTooLarge len))
  -- `read_exact` into an empty buffer reads nothing.
  else if len = 0 then .deliver [] (.header [])
  else .read (.payload len [])

/-- What the loop makes of a read. -/
def feed : Reading → ReadResult → ReadStep
  | .raw, .bytes chunk => .deliver chunk .raw
  | .raw, .finished => .close none
  | .header read, .bytes bytes =>
      if (read ++ bytes).length < 4 then .read (.header (read ++ bytes))
      else atHeader (read ++ bytes)
  | .header [], .finished => .close none
  | .header read, .finished => .close (some (endedInHeader read.length))
  | .payload len read, .bytes bytes =>
      if (read ++ bytes).length < len then .read (.payload len (read ++ bytes))
      else .deliver (read ++ bytes) (.header [])
  | .payload len read, .finished => .close (some (endedInPayload read.length len))
  | _, .failed err => .close (readCloseReason err)

/-- The transport may give this to the next read. -/
def Gives (r : Reading) : ReadResult → Prop
  | .bytes bytes => bytes ≠ [] ∧ bytes.length ≤ r.wanted
  | _ => True

instance (r : Reading) : (result : ReadResult) → Decidable (r.Gives result)
  | .bytes _ => inferInstanceAs (Decidable (_ ∧ _))
  | .finished | .failed _ => .isTrue trivial

/-- The bytes that were read and not delivered. -/
def held : Reading → List UInt8
  | .raw => []
  | .header read => read
  | .payload len read => toBeBytes (.ofNat len) ++ read

/-- What holds of a loop of this framing between two reads. -/
def Fits : Framing → Reading → Prop
  | .raw, .raw => True
  | .framed, .header read => read.length < 4
  | .framed, .payload len read => read.length < len ∧ len ≤ MAX_FRAME_SIZE
  | _, _ => False

/-- What a chunk of this framing may be. -/
def Chunk : Framing → List UInt8 → Prop
  | .framed, chunk => chunk.length ≤ MAX_FRAME_SIZE
  | .raw, chunk => chunk ≠ [] ∧ chunk.length ≤ RAW_READ_CHUNK

variable {framing : Framing} {r : Reading}

theorem fits_start (framing : Framing) : Fits framing (start framing) := by
  cases framing with
  | framed => exact Nat.zero_lt_of_ne_zero (by decide)
  | raw => trivial

@[simp] theorem held_start (framing : Framing) : (start framing).held = [] := by
  cases framing <;> rfl

theorem wanted_pos (h : Fits framing r) : 0 < r.wanted := by
  cases framing <;> cases r <;> simp only [Fits] at h <;> simp only [wanted]
  · omega
  · omega
  · decide

/-! ## The account of the bytes -/

/-- What the loop has done with the bytes it had and the ones it read. -/
inductive Accounts (framing : Framing) (bytes : List UInt8) : ReadStep → Prop where
  | read {r : Reading} : Fits framing r → r.held = bytes → Accounts framing bytes (.read r)
  | deliver {chunk : List UInt8} {r : Reading} : Fits framing r → r.held = [] →
      encode framing chunk = bytes → Chunk framing chunk →
      Accounts framing bytes (.deliver chunk r)
  | oversized : framing = .framed → Oversized bytes →
      Accounts framing bytes (.close (some (frameTooLarge (announced bytes))))

theorem encode_raw (chunk : List UInt8) : encode .raw chunk = chunk := by
  simp [encode, writes]

theorem accounts_atHeader {header : List UInt8} (h : header.length = 4) :
    Accounts .framed header (atHeader header) := by
  have hannounced : announced header = (fromBeBytes header).toNat := by
    rw [announced, List.take_of_length_le h.le]
  simp only [atHeader]
  split
  · next hlarge =>
      rw [← hannounced] at hlarge ⊢
      exact .oversized rfl ⟨h.ge, hlarge⟩
  next hsmall =>
  split
  · next hzero =>
      refine .deliver (fits_start .framed) rfl ?_ (Nat.zero_le _)
      have hzero' : fromBeBytes header = .ofNat 0 := UInt32.toNat.inj hzero
      rw [encode_framed, List.append_nil, List.length_nil, ← hzero', toBeBytes_fromBeBytes h]
  · next hpos =>
      refine .read ⟨Nat.pos_of_ne_zero hpos, Nat.not_lt.mp hsmall⟩ ?_
      rw [held, UInt32.ofNat_toNat, toBeBytes_fromBeBytes h, List.append_nil]

/-- The loop loses no byte and makes none up. -/
theorem feed_bytes {bytes : List UInt8} (h : Fits framing r) (hg : r.Gives (.bytes bytes)) :
    Accounts framing (r.held ++ bytes) (r.feed (.bytes bytes)) := by
  obtain ⟨hne, hlength⟩ := hg
  cases r with
  | raw =>
      cases framing with
      | framed => exact h.elim
      | raw => exact .deliver trivial rfl (encode_raw bytes) ⟨hne, hlength⟩
  | header read =>
      cases framing with
      | raw => exact h.elim
      | framed =>
          simp only [Fits] at h
          simp only [wanted] at hlength
          simp only [feed, held]
          split
          · next hshort => exact .read hshort rfl
          · next hlong =>
              refine accounts_atHeader ?_
              rw [List.length_append] at hlong ⊢
              omega
  | payload len read =>
      cases framing with
      | raw => exact h.elim
      | framed =>
          simp only [Fits] at h
          simp only [wanted] at hlength
          simp only [feed, held]
          split
          · next hshort => exact .read ⟨hshort, h.2⟩ (by rw [held, List.append_assoc])
          · next hlong =>
              have hfull : (read ++ bytes).length = len := by
                rw [List.length_append] at hlong ⊢
                omega
              refine .deliver (fits_start .framed) rfl ?_ (hfull.trans_le h.2)
              rw [encode_framed, hfull, List.append_assoc]

/-- How a finish ends the loop. -/
theorem feed_finished (h : Fits framing r) :
    ∃ outcome, r.feed .finished = .close outcome ∧
      (framing = .raw → outcome = none) ∧ (framing = .framed → Ends r.held outcome) := by
  cases framing with
  | raw =>
      cases r with
      | raw => exact ⟨none, rfl, fun _ => rfl, nofun⟩
      | header => exact h.elim
      | payload => exact h.elim
  | framed =>
      cases r with
      | raw => exact h.elim
      | header read =>
          simp only [Fits] at h
          cases read with
          | nil => exact ⟨none, rfl, nofun, fun _ => .finished⟩
          | cons b read => exact ⟨_, rfl, nofun, fun _ => .header ⟨List.cons_ne_nil b read, h⟩⟩
      | payload len read =>
          simp only [Fits] at h
          have hsize : (UInt32.ofNat len).toNat = len :=
            UInt32.toNat_ofNat_of_lt' (Nat.lt_of_le_of_lt h.2 (by decide))
          have hannounced : announced (toBeBytes (.ofNat len) ++ read) = len := by
            rw [announced, List.take_left' (length_toBeBytes _), fromBeBytes_toBeBytes, hsize]
          have hlength : (toBeBytes (.ofNat len) ++ read).length = 4 + read.length := by
            rw [List.length_append, length_toBeBytes]
          have hends : EndsInPayload (toBeBytes (.ofNat len) ++ read) := by
            refine ⟨?_, hannounced.trans_le h.2, ?_⟩
            · rw [hlength]
              exact Nat.le_add_right 4 _
            · rw [hlength, hannounced]
              omega
          refine ⟨_, rfl, nofun, fun _ => ?_⟩
          have hend := Ends.payload hends
          rwa [hannounced, hlength, Nat.add_sub_cancel_left] at hend

theorem feed_failed (r : Reading) (err : ReadError) :
    r.feed (.failed err) = .close (readCloseReason err) := by
  cases r with
  | raw => rfl
  | header read => cases read <;> rfl
  | payload => rfl

end Reading

/-! ## The whole loop -/

/-- What stands after the frames ends the loop in one way. -/
theorem Ends.unique {bytes : List UInt8} {o o' : Option IrohError} (h : Ends bytes o)
    (h' : Ends bytes o') : o = o' := by
  have hpending : RecvStream.ofPieces.pending [bytes] = bytes := List.append_nil bytes
  rw [← hpending] at h h'
  have hread := RecvStream.readFramed_ends RecvStream.ofPieces_orderly h
  rw [RecvStream.readFramed_ends RecvStream.ofPieces_orderly h'] at hread
  exact (Prod.mk.inj hread).2.symm

/-- The whole loop delivers what the loop has delivered that has ended so. -/
theorem readFramed_of_parses {σ : Type} {t : RecvStream σ} (ht : t.Orderly) {s : σ}
    {payloads : List (List UInt8)} {rest : List UInt8} {outcome : Option IrohError}
    (hp : frames.Parses (t.pending s) payloads rest) (he : Ends rest outcome) :
    t.readFramed s = (payloads, outcome) := by
  obtain ⟨rest', hparses, hends⟩ := RecvStream.readFramed_reads ht s
  obtain ⟨hpayloads, rfl⟩ := hparses.unique hp
  exact Prod.ext hpayloads (Ends.unique hends he)

theorem announced_append {bytes : List UInt8} (h : 4 ≤ bytes.length) (tail : List UInt8) :
    announced (bytes ++ tail) = announced bytes := by
  rw [announced, List.take_append_of_le_length h, announced]

theorem oversized_append {bytes : List UInt8} (h : Oversized bytes)
    (tail : List UInt8) : Oversized (bytes ++ tail) := by
  refine ⟨?_, (announced_append h.1 tail).symm ▸ h.2⟩
  rw [List.length_append]
  exact Nat.le_add_right_of_le h.1

end Iroh.Core
