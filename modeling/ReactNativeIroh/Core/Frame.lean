import ReactNativeIroh.Lib.BigEndian
import ReactNativeIroh.Lib.Delimited

/-!
# The framed format

Under `Framing::Framed` a send is written as the length of its payload, a big-endian
`u32`, and then the payload.  The frames of payloads that are not too large form a
self-delimiting code (`frames`).
-/

namespace Iroh.Core

open Delimited

/-- How a stream splits its byte stream into the chunks the host sees. -/
inductive Framing where
  | framed
  | raw
deriving DecidableEq

/-- The largest payload of a frame, in bytes. -/
def MAX_FRAME_SIZE : ℕ := 16 * 1024 * 1024

/-- `u32::to_be_bytes`. -/
def toBeBytes (n : UInt32) : List UInt8 := BigEndian.encode 4 n.toNat

/-- `u32::from_be_bytes`. -/
def fromBeBytes (bytes : List UInt8) : UInt32 := .ofNat (BigEndian.decode bytes)

/-- What `stream_send` passes to `write_all`, one call after the other. -/
def writes : Framing → List UInt8 → List (List UInt8)
  | .framed, data => [toBeBytes (.ofNat data.length), data]
  | .raw, data => [data]

/-- The bytes of one send. -/
def encode (framing : Framing) (data : List UInt8) : List UInt8 := (writes framing data).flatten

/-- The send is not rejected as oversized. -/
def accepts (framing : Framing) (data : List UInt8) : Bool :=
  !(decide (framing = .framed) && decide (data.length > MAX_FRAME_SIZE))

/-- The payload length that the first four bytes announce. -/
def announced (bytes : List UInt8) : ℕ := (fromBeBytes (bytes.take 4)).toNat

/-! ## The header -/

@[simp] theorem length_toBeBytes (n : UInt32) : (toBeBytes n).length = 4 :=
  BigEndian.length_encode 4 n.toNat

theorem fromBeBytes_toBeBytes (n : UInt32) : fromBeBytes (toBeBytes n) = n := by
  rw [fromBeBytes, toBeBytes, BigEndian.decode_encode 4 n.toNat_lt]
  exact UInt32.ofNat_toNat

theorem toBeBytes_fromBeBytes {bytes : List UInt8} (h : bytes.length = 4) :
    toBeBytes (fromBeBytes bytes) = bytes := by
  have hlt : BigEndian.decode bytes < 2 ^ 32 := by
    have := BigEndian.decode_lt bytes
    rwa [h] at this
  rw [toBeBytes, fromBeBytes, UInt32.toNat_ofNat_of_lt' hlt, ← h]
  exact BigEndian.encode_decode bytes

/-- The length of a payload that is not too large fits the header. -/
theorem toNat_ofNat_length {data : List UInt8} (h : data.length ≤ MAX_FRAME_SIZE) :
    (UInt32.ofNat data.length).toNat = data.length := by
  refine UInt32.toNat_ofNat_of_lt' (Nat.lt_of_le_of_lt h ?_)
  decide

/-! ## Frames -/

theorem encode_framed (data : List UInt8) :
    encode .framed data = toBeBytes (.ofNat data.length) ++ data := by
  simp [encode, writes]

theorem announced_encode {data : List UInt8} (h : data.length ≤ MAX_FRAME_SIZE)
    (r : List UInt8) : announced (encode .framed data ++ r) = data.length := by
  have htake : (encode .framed data ++ r).take 4 = toBeBytes (.ofNat data.length) := by
    rw [encode_framed, List.append_assoc]
    exact List.take_left' (length_toBeBytes _)
  rw [announced, htake, fromBeBytes_toBeBytes, toNat_ofNat_length h]

theorem drop_encode (data r : List UInt8) : (encode .framed data ++ r).drop 4 = data ++ r := by
  rw [encode_framed, List.append_assoc]
  exact List.drop_left' (length_toBeBytes _)

/-- The complete frames of payloads that are not too large. -/
def frames : Code (List UInt8) UInt8 where
  Valid data := data.length ≤ MAX_FRAME_SIZE
  encode := encode .framed
  encode_ne_nil data _ h := by
    have hlength := congrArg List.length h
    simp [encode_framed] at hlength
  cancel {a b r r'} ha hb h := by
    have hlength : a.length = b.length := by
      rw [← announced_encode ha r, ← announced_encode hb r', h]
    have hdrop : a ++ r = b ++ r' := by
      rw [← drop_encode a r, ← drop_encode b r', h]
    exact List.append_inj hdrop hlength

/-! ## What stands at the front -/

/-- The header announces a payload that is too large. -/
def Oversized (bytes : List UInt8) : Prop := 4 ≤ bytes.length ∧ MAX_FRAME_SIZE < announced bytes

/-- The bytes end inside a header. -/
def EndsInHeader (bytes : List UInt8) : Prop := bytes ≠ [] ∧ bytes.length < 4

/-- The bytes end inside a payload. -/
def EndsInPayload (bytes : List UInt8) : Prop :=
  4 ≤ bytes.length ∧ announced bytes ≤ MAX_FRAME_SIZE ∧ bytes.length < 4 + announced bytes

/-- A header and as many bytes as it announces are a frame. -/
theorem eq_encode_append {bytes : List UInt8} (h : 4 + announced bytes ≤ bytes.length) :
    bytes = encode .framed ((bytes.drop 4).take (announced bytes)) ++
      bytes.drop (4 + announced bytes) := by
  have hheader : (bytes.take 4).length = 4 := by
    rw [List.length_take]
    omega
  have hlength : ((bytes.drop 4).take (announced bytes)).length = announced bytes := by
    rw [List.length_take, List.length_drop]
    omega
  rw [encode_framed, hlength, announced, UInt32.ofNat_toNat, toBeBytes_fromBeBytes hheader,
    ← announced, List.append_assoc, ← List.drop_drop, List.take_append_drop,
    List.take_append_drop]

theorem stuck_of_oversized {bytes : List UInt8} (h : Oversized bytes) : frames.Stuck bytes := by
  rintro data r hdata rfl
  have hlength := announced_encode hdata r
  have hlarge : MAX_FRAME_SIZE < announced (encode .framed data ++ r) := h.2
  have hvalid : data.length ≤ MAX_FRAME_SIZE := hdata
  omega

theorem stuck_of_endsInHeader {bytes : List UInt8} (h : EndsInHeader bytes) :
    frames.Stuck bytes := by
  rintro data r hdata rfl
  have hlength : (encode .framed data ++ r).length < 4 := h.2
  rw [encode_framed, List.length_append, List.length_append, length_toBeBytes] at hlength
  omega

theorem stuck_of_endsInPayload {bytes : List UInt8} (h : EndsInPayload bytes) :
    frames.Stuck bytes := by
  rintro data r hdata rfl
  have hlength : (encode .framed data ++ r).length < 4 + announced (encode .framed data ++ r) :=
    h.2.2
  rw [announced_encode hdata, encode_framed, List.length_append, List.length_append,
    length_toBeBytes] at hlength
  omega

end Iroh.Core
