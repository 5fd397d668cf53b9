import ReactNativeIroh.Core.Error
import ReactNativeIroh.Core.Frame

/-!
# Reading frames

`readFramed` reads length-prefixed frames until the stream ends.  It reads through
`read_exact`, which returns the next `k` bytes, or how many there were before the end.
A `RecvStream` is a receive half with that behaviour; how the transport cuts the bytes
into pieces is its own business (`RecvStream.ofPieces` is one that is given pieces).

On a stream that ends with an orderly finish, `readFramed` delivers the frames at the
front of the bytes and then reports what stands after them (`readFramed_reads`).
-/

namespace Iroh.Core

open Delimited

/-- Why `read_exact` did not fill its buffer. -/
inductive ReadExactError where
  | finishedEarly (read : ℕ)
  | readError (err : ReadError)

/-- The receive half of a stream: the bytes still to come, and the read of `k` bytes. -/
structure RecvStream (σ : Type*) where
  pending : σ → List UInt8
  readExact : ℕ → σ → Except ReadExactError (List UInt8) × σ
  read_ok : ∀ {k s s' bytes}, readExact k s = (.ok bytes, s') →
    bytes.length = k ∧ pending s = bytes ++ pending s'
  read_early : ∀ {k s s' n}, readExact k s = (.error (.finishedEarly n), s') →
    n = (pending s).length ∧ n < k

def endedInHeader (read : ℕ) : IrohError :=
  .streamClosed s!"stream ended {read} bytes into a frame header"

def frameTooLarge (len : ℕ) : IrohError :=
  .streamFrameTooLarge s!"peer announced a {len}-byte frame, over the {MAX_FRAME_SIZE}-byte limit"

def endedInPayload (read len : ℕ) : IrohError :=
  .streamClosed s!"stream ended {read} bytes into a {len}-byte frame"

namespace RecvStream

variable {σ : Type*} (t : RecvStream σ)

/-- The stream ends with a finish, not with an error. -/
def Orderly : Prop := ∀ k s err s', t.readExact k s ≠ (.error (.readError err), s')

/-- Read length-prefixed frames until the stream ends.  The payloads delivered to
`on_data`, and the outcome. -/
def readFramed (s : σ) : List (List UInt8) × Option IrohError :=
  match _hheader : t.readExact 4 s with
  | (.error (.finishedEarly 0), _) => ([], none)
  | (.error (.finishedEarly read), _) => ([], some (endedInHeader read))
  | (.error (.readError err), _) => ([], readCloseReason err)
  | (.ok header, s') =>
      let len := (fromBeBytes header).toNat
      if len > MAX_FRAME_SIZE then ([], some (frameTooLarge len))
      else
        match _hpayload : t.readExact len s' with
        | (.ok payload, s'') =>
            let (delivered, outcome) := readFramed s''
            (payload :: delivered, outcome)
        | (.error (.finishedEarly read), _) => ([], some (endedInPayload read len))
        | (.error (.readError err), _) => ([], readCloseReason err)
termination_by (t.pending s).length
decreasing_by
  have h := t.read_ok _hheader
  have h' := t.read_ok _hpayload
  rw [h.2, h'.2]
  simp only [List.length_append, h.1]
  omega

/-! ## A transport that is given pieces -/

/-- Take `k` bytes off the front of the pieces, or all there are. -/
def pull : ℕ → List (List UInt8) → List UInt8 × List (List UInt8)
  | _, [] => ([], [])
  | k, piece :: pieces =>
      if piece.length ≤ k then
        let (bytes, pieces) := pull (k - piece.length) pieces
        (piece ++ bytes, pieces)
      else (piece.take k, piece.drop k :: pieces)
termination_by structural _ pieces => pieces

theorem pull_eq (k : ℕ) (pieces : List (List UInt8)) :
    (pull k pieces).1 = pieces.flatten.take k ∧
      (pull k pieces).2.flatten = pieces.flatten.drop k := by
  induction pieces generalizing k with
  | nil => simp [pull]
  | cons piece pieces ih =>
      obtain ⟨hbytes, hrest⟩ := ih (k - piece.length)
      rcases Nat.lt_or_ge k piece.length with hk | hk
      · have hle : k ≤ piece.length := hk.le
        rw [pull, if_neg (Nat.not_le.mpr hk)]
        simp [List.take_append_of_le_length hle, List.drop_append_of_le_length hle]
      · rw [pull, if_pos hk]
        simp [hbytes, hrest, List.take_append, List.drop_append, List.take_of_length_le hk,
          List.drop_of_length_le hk]

/-- A receive half that is given the bytes in pieces. -/
def ofPieces : RecvStream (List (List UInt8)) where
  pending := List.flatten
  readExact k pieces :=
    if (pull k pieces).1.length = k then (.ok (pull k pieces).1, (pull k pieces).2)
    else (.error (.finishedEarly (pull k pieces).1.length), (pull k pieces).2)
  read_ok {k s s' bytes} h := by
    split at h
    · next hlength =>
        obtain ⟨rfl, rfl⟩ : (pull k s).1 = bytes ∧ (pull k s).2 = s' := by simpa using h
        obtain ⟨hbytes, hrest⟩ := pull_eq k s
        exact ⟨hlength, by rw [hbytes, hrest, List.take_append_drop]⟩
    · cases h
  read_early {k s s' n} h := by
    split at h
    · cases h
    · next hlength =>
        obtain ⟨rfl, -⟩ : (pull k s).1.length = n ∧ (pull k s).2 = s' := by simpa using h
        rw [(pull_eq k s).1, List.length_take] at hlength ⊢
        omega

theorem ofPieces_orderly : ofPieces.Orderly := by
  intro k s err s' h
  simp only [ofPieces] at h
  split at h <;> cases h

/-! ## One read -/

variable {t} {s : σ} {k : ℕ}

theorem readExact_ok (ht : t.Orderly) (h : k ≤ (t.pending s).length) :
    ∃ s', t.readExact k s = (.ok ((t.pending s).take k), s') ∧
      t.pending s' = (t.pending s).drop k := by
  rcases hread : t.readExact k s with ⟨result, s'⟩
  cases result with
  | ok bytes =>
      obtain ⟨hlength, hsplit⟩ := t.read_ok hread
      rw [hsplit]
      exact ⟨s', by rw [List.take_left' hlength], (List.drop_left' hlength).symm⟩
  | error err =>
      cases err with
      | finishedEarly n =>
          have hearly := t.read_early hread
          omega
      | readError err => exact absurd hread (ht k s err s')

theorem readExact_early (ht : t.Orderly) (h : (t.pending s).length < k) :
    ∃ s', t.readExact k s = (.error (.finishedEarly (t.pending s).length), s') := by
  rcases hread : t.readExact k s with ⟨result, s'⟩
  cases result with
  | ok bytes =>
      have hlength := congrArg List.length (t.read_ok hread).2
      rw [List.length_append, (t.read_ok hread).1] at hlength
      omega
  | error err =>
      cases err with
      | finishedEarly n =>
          obtain ⟨rfl, -⟩ := t.read_early hread
          exact ⟨s', rfl⟩
      | readError err => exact absurd hread (ht k s err s')

/-! ## One round of the loop -/

theorem readFramed_nil (ht : t.Orderly) (h : t.pending s = []) : t.readFramed s = ([], none) := by
  obtain ⟨s', hread⟩ := readExact_early ht (s := s) (k := 4) (by rw [h]; decide)
  rw [h] at hread
  unfold readFramed
  split <;> simp_all

theorem readFramed_endsInHeader (ht : t.Orderly) (h : EndsInHeader (t.pending s)) :
    t.readFramed s = ([], some (endedInHeader (t.pending s).length)) := by
  obtain ⟨s', hread⟩ := readExact_early ht h.2
  have hne : (t.pending s).length ≠ 0 := fun hzero => h.1 (List.length_eq_zero_iff.mp hzero)
  unfold readFramed
  split <;> simp_all

theorem readFramed_oversized (ht : t.Orderly) (h : Oversized (t.pending s)) :
    t.readFramed s = ([], some (frameTooLarge (announced (t.pending s)))) := by
  obtain ⟨s', hread, -⟩ := readExact_ok ht h.1
  have hlarge := h.2
  unfold readFramed
  split <;> simp_all [announced]

theorem readFramed_endsInPayload (ht : t.Orderly) (h : EndsInPayload (t.pending s)) :
    t.readFramed s =
      ([], some (endedInPayload ((t.pending s).length - 4) (announced (t.pending s)))) := by
  obtain ⟨hheader, hsmall, hshort⟩ := h
  obtain ⟨s', hread, hpending⟩ := readExact_ok ht hheader
  have hlength : (t.pending s').length = (t.pending s).length - 4 := by
    rw [hpending, List.length_drop]
  obtain ⟨s'', hread'⟩ := readExact_early ht (s := s') (k := announced (t.pending s)) (by omega)
  unfold readFramed
  split
  · simp_all
  · simp_all
  · simp_all
  · next header s₁ hread₁ =>
      obtain ⟨rfl, rfl⟩ : (t.pending s).take 4 = header ∧ s' = s₁ := by simp_all
      show (if announced (t.pending s) > MAX_FRAME_SIZE then _ else _) = _
      rw [if_neg (Nat.not_lt.mpr hsmall)]
      split
      · simp_all [announced]
      · simp_all [announced]
      · simp_all [announced]

/-- A complete frame is delivered. -/
theorem readFramed_frame (ht : t.Orderly) (hsmall : announced (t.pending s) ≤ MAX_FRAME_SIZE)
    (hlong : 4 + announced (t.pending s) ≤ (t.pending s).length) :
    ∃ s', t.pending s' = (t.pending s).drop (4 + announced (t.pending s)) ∧
      t.readFramed s =
        (((t.pending s).drop 4).take (announced (t.pending s)) :: (t.readFramed s').1,
          (t.readFramed s').2) := by
  obtain ⟨s', hread, hpending⟩ := readExact_ok ht (s := s) (k := 4) (by omega)
  obtain ⟨s'', hread', hpending'⟩ :=
    readExact_ok ht (s := s') (k := announced (t.pending s)) (by
      rw [hpending, List.length_drop]
      omega)
  rw [hpending] at hread' hpending'
  refine ⟨s'', by rw [hpending', List.drop_drop], ?_⟩
  rw [readFramed]
  split
  · simp_all
  · simp_all
  · simp_all
  · next header s₁ hread₁ =>
      obtain ⟨rfl, rfl⟩ : (t.pending s).take 4 = header ∧ s' = s₁ := by simp_all
      show (if announced (t.pending s) > MAX_FRAME_SIZE then _ else _) = _
      rw [if_neg (Nat.not_lt.mpr hsmall)]
      split
      · next payload s₂ hread₂ =>
          obtain ⟨rfl, rfl⟩ : ((t.pending s).drop 4).take (announced (t.pending s)) = payload ∧
              s'' = s₂ := by
            rw [announced] at hread' ⊢
            simp_all
          rfl
      · simp_all [announced]
      · simp_all [announced]

end RecvStream

/-! ## The whole stream -/

/-- How the loop ends, by what stands after the frames. -/
inductive Ends : List UInt8 → Option IrohError → Prop where
  | finished : Ends [] none
  | header {rest} : EndsInHeader rest → Ends rest (some (endedInHeader rest.length))
  | oversized {rest} : Oversized rest → Ends rest (some (frameTooLarge (announced rest)))
  | payload {rest} : EndsInPayload rest →
      Ends rest (some (endedInPayload (rest.length - 4) (announced rest)))

theorem Ends.stuck {rest : List UInt8} {outcome : Option IrohError} (h : Ends rest outcome) :
    frames.Stuck rest := by
  cases h with
  | finished => exact Code.stuck_nil
  | header h => exact stuck_of_endsInHeader h
  | oversized h => exact stuck_of_oversized h
  | payload h => exact stuck_of_endsInPayload h

/-- Bytes end in one of four ways, or a frame stands at their front. -/
theorem ends_or_frame (bytes : List UInt8) :
    (∃ outcome, Ends bytes outcome) ∨
      (announced bytes ≤ MAX_FRAME_SIZE ∧ 4 + announced bytes ≤ bytes.length) := by
  by_cases hnil : bytes = []
  · subst hnil
    exact Or.inl ⟨_, .finished⟩
  rcases Nat.lt_or_ge bytes.length 4 with hheader | hheader
  · exact Or.inl ⟨_, .header ⟨hnil, hheader⟩⟩
  rcases Nat.lt_or_ge MAX_FRAME_SIZE (announced bytes) with hlarge | hsmall
  · exact Or.inl ⟨_, .oversized ⟨hheader, hlarge⟩⟩
  rcases Nat.lt_or_ge bytes.length (4 + announced bytes) with hshort | hlong
  · exact Or.inl ⟨_, .payload ⟨hheader, hsmall, hshort⟩⟩
  · exact Or.inr ⟨hsmall, hlong⟩

/-- The payloads are those of the frames at the front of the bytes, as many as there
are, and the outcome says what stands after them. -/
structure ReadsFrames (bytes : List UInt8) (payloads : List (List UInt8))
    (outcome : Option IrohError) (rest : List UInt8) : Prop where
  parses : frames.Parses bytes payloads rest
  finished : outcome = none ↔
    ∃ ps : List (List UInt8), (∀ p ∈ ps, p.length ≤ MAX_FRAME_SIZE) ∧
      bytes = ps.flatMap (encode .framed)
  tooLarge : (∃ detail, outcome = some (.streamFrameTooLarge detail)) ↔ Oversized rest
  closed : (∃ detail, outcome = some (.streamClosed detail)) ↔
    EndsInHeader rest ∨ EndsInPayload rest

theorem readsFrames_of_ends {bytes rest : List UInt8} {payloads : List (List UInt8)}
    {outcome : Option IrohError} (h : frames.Parses bytes payloads rest) (he : Ends rest outcome) :
    ReadsFrames bytes payloads outcome rest := by
  have hnil := h.rest_eq_nil_iff
  cases he with
  | finished =>
      refine ⟨h, ⟨fun _ => hnil.1 rfl, fun _ => rfl⟩, ⟨nofun, fun ho => ?_⟩, ⟨nofun, fun hc => ?_⟩⟩
      · exact absurd ho.1 (by decide)
      · rcases hc with hc | hc
        · exact absurd rfl hc.1
        · exact absurd hc.1 (by decide)
  | header hh =>
      refine ⟨h, ⟨nofun, fun hf => absurd (hnil.2 hf) hh.1⟩, ⟨nofun, fun ho => ?_⟩,
        ⟨fun _ => Or.inl hh, fun _ => ⟨_, rfl⟩⟩⟩
      exact absurd ho.1 (Nat.not_le.mpr hh.2)
  | oversized ho =>
      refine ⟨h, ⟨nofun, fun hf => ?_⟩, ⟨fun _ => ho, fun _ => ⟨_, rfl⟩⟩, ⟨nofun, fun hc => ?_⟩⟩
      · rw [hnil.2 hf] at ho
        exact absurd ho.1 (by decide)
      · rcases hc with hc | hc
        · exact absurd hc.2 (Nat.not_lt.mpr ho.1)
        · exact absurd ho.2 (Nat.not_lt.mpr hc.2.1)
  | payload hp =>
      refine ⟨h, ⟨nofun, fun hf => ?_⟩, ⟨nofun, fun ho => ?_⟩,
        ⟨fun _ => Or.inr hp, fun _ => ⟨_, rfl⟩⟩⟩
      · rw [hnil.2 hf] at hp
        exact absurd hp.1 (by decide)
      · exact absurd ho.2 (Nat.not_lt.mpr hp.2.1)

namespace RecvStream

variable {σ : Type*} {t : RecvStream σ}

theorem readFramed_ends (ht : t.Orderly) {s : σ} {outcome : Option IrohError}
    (h : Ends (t.pending s) outcome) : t.readFramed s = ([], outcome) := by
  generalize hbytes : t.pending s = bytes at h
  cases h with
  | finished => exact readFramed_nil ht hbytes
  | header hh => exact hbytes ▸ readFramed_endsInHeader ht (hbytes ▸ hh)
  | oversized ho => exact hbytes ▸ readFramed_oversized ht (hbytes ▸ ho)
  | payload hp => exact hbytes ▸ readFramed_endsInPayload ht (hbytes ▸ hp)

/-- The loop, by induction on the bytes still to come. -/
theorem readFramed_reads (ht : t.Orderly) (s : σ) :
    ∃ rest, frames.Parses (t.pending s) (t.readFramed s).1 rest ∧ Ends rest (t.readFramed s).2 := by
  generalize hn : (t.pending s).length = n
  induction n using Nat.strong_induction_on generalizing s with
  | _ n ih =>
      rcases ends_or_frame (t.pending s) with ⟨outcome, he⟩ | ⟨hsmall, hlong⟩
      · rw [readFramed_ends ht he]
        exact ⟨_, .nil he.stuck, he⟩
      · obtain ⟨s', hpending, hframe⟩ := readFramed_frame ht hsmall hlong
        have hshorter : (t.pending s').length < n := by
          rw [hpending, List.length_drop]
          omega
        obtain ⟨rest, hparses, hends⟩ := ih _ hshorter s' rfl
        have hvalid : frames.Valid (((t.pending s).drop 4).take (announced (t.pending s))) :=
          Nat.le_trans (List.length_take_le _ _) hsmall
        have hcons := hparses.cons hvalid
        rw [hpending] at hcons
        rw [hframe]
        have hsplit := eq_encode_append hlong
        exact ⟨rest, hsplit.symm.subst (motive := fun bytes => frames.Parses bytes _ rest) hcons,
          hends⟩

/-- On every stream that ends with a finish, the frames at the front are delivered and
the outcome says what stands after them.  What `stream_send` writes is read back. -/
theorem readFramed_delivers (t : RecvStream σ) (ht : t.Orderly) :
    (∀ s, ∃ rest, ReadsFrames (t.pending s) (t.readFramed s).1 (t.readFramed s).2 rest) ∧
      ∀ payloads : List (List UInt8), (∀ p ∈ payloads, p.length ≤ MAX_FRAME_SIZE) →
        ∀ s, t.pending s = payloads.flatMap (encode .framed) →
          t.readFramed s = (payloads, none) := by
  refine ⟨fun s => ?_, fun payloads hvalid s hs => ?_⟩
  · obtain ⟨rest, hparses, hends⟩ := readFramed_reads ht s
    exact ⟨rest, readsFrames_of_ends hparses hends⟩
  · obtain ⟨rest, hparses, hends⟩ := readFramed_reads ht s
    have hall : frames.Parses (t.pending s) payloads [] :=
      hs.symm.subst (motive := fun bytes => frames.Parses bytes payloads [])
        (Code.parses_encodeAll hvalid)
    obtain ⟨hpayloads, rfl⟩ := hparses.unique hall
    have hnone := (readsFrames_of_ends hparses hends).finished.2 ⟨payloads, hvalid, hs⟩
    exact Prod.ext hpayloads hnone

/-- Two frames, one of them empty, cut in the middle of the second header. -/
theorem readFramed_delivers_two :
    ofPieces.readFramed [[0, 0, 0, 2, 7], [9, 0, 0], [0, 0]] = ([[7, 9], []], none) :=
  (readFramed_delivers ofPieces ofPieces_orderly).2 [[7, 9], []] (by decide) _ (by decide)

end RecvStream

end Iroh.Core
