import Mathlib.Data.List.Basic

/-!
# Lossy UTF-8

`from_utf8_lossy` reads bytes as UTF-8, and puts one `U+FFFD` for each longest run of
bytes that is the front of no character.  An ASCII byte is always read as itself, and
no other byte is read as an ASCII character.
-/

namespace Iroh

theorem toNat_ofNat {n : ℕ} (h : n.isValidChar) : (Char.ofNat n).toNat = n := by
  rw [Char.ofNat, dif_pos h]
  rfl

namespace Core.Utf8

/-- The UTF-8 bytes of a text. -/
def encode (t : String) : List UInt8 := t.toUTF8.data.toList

theorem encode_injective : Function.Injective encode := by
  intro s t h
  exact String.toByteArray_inj.mp (ByteArray.ext (Array.toList_inj.mp h))

def replacement : Char := Char.ofNat 0xFFFD

/-- A continuation byte. -/
def tail (b : UInt8) : Bool := decide (0x80 ≤ b.toNat ∧ b.toNat ≤ 0xBF)

/-- The bytes that may follow the first byte of a character.  After `first` they are from
`low` on, and after `last` they are up to `high`. -/
def second (first low last high : ℕ) (b c : UInt8) : Bool :=
  if b.toNat = first then decide (low ≤ c.toNat ∧ c.toNat ≤ 0xBF)
  else if b.toNat = last then decide (0x80 ≤ c.toNat ∧ c.toNat ≤ high)
  else tail c

/-- The second byte of a character of three bytes. -/
def second3 : UInt8 → UInt8 → Bool := second 0xE0 0xA0 0xED 0x9F

/-- The second byte of a character of four bytes. -/
def second4 : UInt8 → UInt8 → Bool := second 0xF0 0x90 0xF4 0x8F

/-- The bits a continuation byte adds. -/
def push (n : ℕ) (b : UInt8) : ℕ := n * 0x40 + (b.toNat - 0x80)

/-- The rest of a character of two bytes, and how many of the bytes were read. -/
def read2 (b : UInt8) : List UInt8 → Char × ℕ
  | c :: _ => if tail c then (Char.ofNat (push (b.toNat - 0xC0) c), 1) else (replacement, 0)
  | [] => (replacement, 0)

/-- The rest of a character of three bytes. -/
def read3 (b : UInt8) : List UInt8 → Char × ℕ
  | c :: rest =>
      if second3 b c then
        match rest with
        | d :: _ =>
            if tail d then (Char.ofNat (push (push (b.toNat - 0xE0) c) d), 2)
            else (replacement, 1)
        | [] => (replacement, 1)
      else (replacement, 0)
  | [] => (replacement, 0)

/-- The rest of a character of four bytes. -/
def read4 (b : UInt8) : List UInt8 → Char × ℕ
  | c :: rest =>
      if second4 b c then
        match rest with
        | d :: rest =>
            if tail d then
              match rest with
              | e :: _ =>
                  if tail e then (Char.ofNat (push (push (push (b.toNat - 0xF0) c) d) e), 3)
                  else (replacement, 2)
              | [] => (replacement, 2)
            else (replacement, 1)
        | [] => (replacement, 1)
      else (replacement, 0)
  | [] => (replacement, 0)

/-- The character that a byte starts, and how many of the bytes after it were read. -/
def readChar (b : UInt8) (rest : List UInt8) : Char × ℕ :=
  if b.toNat < 0x80 then (Char.ofNat b.toNat, 0)
  else if 0xC2 ≤ b.toNat ∧ b.toNat ≤ 0xDF then read2 b rest
  else if 0xE0 ≤ b.toNat ∧ b.toNat ≤ 0xEF then read3 b rest
  else if 0xF0 ≤ b.toNat ∧ b.toNat ≤ 0xF4 then read4 b rest
  else (replacement, 0)

/-- The characters of the bytes, of which the first `skip` were read already. -/
def fromUtf8LossyFrom : ℕ → List UInt8 → List Char
  | _, [] => []
  | skip + 1, _ :: rest => fromUtf8LossyFrom skip rest
  | 0, b :: rest => (readChar b rest).1 :: fromUtf8LossyFrom (readChar b rest).2 rest
termination_by structural _ bytes => bytes

def fromUtf8Lossy (bytes : List UInt8) : List Char := fromUtf8LossyFrom 0 bytes

/-! ## ASCII -/

/-- A character beyond ASCII, and as many bytes beyond ASCII. -/
structure Beyond (read : Char × ℕ) (rest : List UInt8) : Prop where
  char : 0x80 ≤ read.1.toNat
  bytes : ∀ b ∈ rest.take read.2, 0x80 ≤ b.toNat

theorem beyond_replacement {n : ℕ} {rest : List UInt8}
    (h : ∀ b ∈ rest.take n, 0x80 ≤ b.toNat) : Beyond (replacement, n) rest :=
  ⟨(by decide : 0x80 ≤ replacement.toNat), h⟩

theorem tail_bounds {b : UInt8} (h : tail b = true) : 0x80 ≤ b.toNat ∧ b.toNat ≤ 0xBF := by
  simpa [tail] using h

theorem second_bounds {first low last high : ℕ} {b c : UInt8} (hlow : 0x80 ≤ low)
    (hhigh : high ≤ 0xBF) (hne : first ≠ last) (h : second first low last high b c = true) :
    (0x80 ≤ c.toNat ∧ c.toNat ≤ 0xBF) ∧ (b.toNat = first → low ≤ c.toNat) ∧
      (b.toNat = last → c.toNat ≤ high) := by
  simp only [second, tail] at h
  split at h
  · next hb =>
      simp only [decide_eq_true_eq] at h
      exact ⟨by omega, fun _ => h.1, fun hl => absurd (hb.symm.trans hl) hne⟩
  · next hb =>
      split at h
      · simp only [decide_eq_true_eq] at h
        exact ⟨by omega, fun hf => absurd hf hb, fun _ => h.2⟩
      · next hl =>
          simp only [decide_eq_true_eq] at h
          exact ⟨h, fun hf => absurd hf hb, fun hc => absurd hc hl⟩

theorem read2_beyond {b : UInt8} (hb : 0xC2 ≤ b.toNat ∧ b.toNat ≤ 0xDF) (rest : List UInt8) :
    Beyond (read2 b rest) rest := by
  unfold read2
  split
  · next c rest =>
      split
      · next hc =>
          obtain ⟨hlow, hhigh⟩ := tail_bounds hc
          have hvalue : push (b.toNat - 0xC0) c = (b.toNat - 0xC0) * 0x40 + (c.toNat - 0x80) := rfl
          refine ⟨?_, by simpa using hlow⟩
          rw [toNat_ofNat (Or.inl (by omega))]
          omega
      · exact beyond_replacement (by simp)
  · exact beyond_replacement (by simp)

theorem read3_beyond {b : UInt8} (hb : 0xE0 ≤ b.toNat ∧ b.toNat ≤ 0xEF) (rest : List UInt8) :
    Beyond (read3 b rest) rest := by
  unfold read3
  split
  · next c rest =>
      split
      · next hc =>
          obtain ⟨⟨hlow, hhigh⟩, hfirst, hlast⟩ :=
            second_bounds (by decide) (by decide) (by decide) hc
          split
          · next d rest =>
              split
              · next hd =>
                  obtain ⟨dlow, dhigh⟩ := tail_bounds hd
                  have hvalue : push (push (b.toNat - 0xE0) c) d =
                      ((b.toNat - 0xE0) * 0x40 + (c.toNat - 0x80)) * 0x40 + (d.toNat - 0x80) := rfl
                  refine ⟨?_, by simpa using ⟨hlow, dlow⟩⟩
                  rw [toNat_ofNat (by unfold Nat.isValidChar; omega)]
                  omega
              · exact beyond_replacement (by simpa using hlow)
          · exact beyond_replacement (by simpa using hlow)
      · exact beyond_replacement (by simp)
  · exact beyond_replacement (by simp)

theorem read4_beyond {b : UInt8} (hb : 0xF0 ≤ b.toNat ∧ b.toNat ≤ 0xF4) (rest : List UInt8) :
    Beyond (read4 b rest) rest := by
  unfold read4
  split
  · next c rest =>
      split
      · next hc =>
          obtain ⟨⟨hlow, hhigh⟩, hfirst, hlast⟩ :=
            second_bounds (by decide) (by decide) (by decide) hc
          split
          · next d rest =>
              split
              · next hd =>
                  obtain ⟨dlow, dhigh⟩ := tail_bounds hd
                  split
                  · next e rest =>
                      split
                      · next he =>
                          obtain ⟨elow, ehigh⟩ := tail_bounds he
                          have hvalue : push (push (push (b.toNat - 0xF0) c) d) e =
                              (((b.toNat - 0xF0) * 0x40 + (c.toNat - 0x80)) * 0x40 +
                                (d.toNat - 0x80)) * 0x40 + (e.toNat - 0x80) := rfl
                          refine ⟨?_, by simpa using ⟨hlow, dlow, elow⟩⟩
                          rw [toNat_ofNat (by unfold Nat.isValidChar; omega)]
                          omega
                      · exact beyond_replacement (by simpa using ⟨hlow, dlow⟩)
                  · exact beyond_replacement (by simpa using ⟨hlow, dlow⟩)
              · exact beyond_replacement (by simpa using hlow)
          · exact beyond_replacement (by simpa using hlow)
      · exact beyond_replacement (by simp)
  · exact beyond_replacement (by simp)

theorem readChar_ascii {b : UInt8} (h : b.toNat < 0x80) (rest : List UInt8) :
    readChar b rest = (Char.ofNat b.toNat, 0) := by
  simp only [readChar, if_pos h]

/-- A byte beyond ASCII starts a character beyond ASCII, of bytes beyond ASCII. -/
theorem readChar_beyond {b : UInt8} (h : 0x80 ≤ b.toNat) (rest : List UInt8) :
    Beyond (readChar b rest) rest := by
  unfold readChar
  rw [if_neg (by omega)]
  split
  · next hb => exact read2_beyond hb rest
  · split
    · next hb => exact read3_beyond hb rest
    · split
      · next hb => exact read4_beyond hb rest
      · exact beyond_replacement (by simp)

/-- The character of an ASCII byte. -/
def ascii (a : UInt8) : Char := Char.ofNat a.toNat

theorem ascii_toNat {a : UInt8} (h : a.toNat < 0x80) : (ascii a).toNat = a.toNat :=
  toNat_ofNat (Or.inl (by omega))

theorem ascii_inj {a b : UInt8} (ha : a.toNat < 0x80) (hb : b.toNat < 0x80) :
    ascii a = ascii b ↔ a = b := by
  constructor
  · intro h
    rw [← UInt8.toNat_inj, ← ascii_toNat ha, ← ascii_toNat hb, h]
  · rintro rfl
    rfl

theorem mem_fromUtf8LossyFrom {a : UInt8} (ha : a.toNat < 0x80) (bytes : List UInt8)
    (skip : ℕ) (hskip : ∀ b ∈ bytes.take skip, 0x80 ≤ b.toNat) :
    ascii a ∈ fromUtf8LossyFrom skip bytes ↔ a ∈ bytes := by
  induction bytes generalizing skip with
  | nil => simp [fromUtf8LossyFrom]
  | cons b rest ih =>
      cases skip with
      | succ skip =>
          have hb : 0x80 ≤ b.toNat := hskip b (by simp)
          have hne : a ≠ b := by
            rintro rfl
            omega
          have hrest := ih skip fun c hc => hskip c (by simp [hc])
          simp [fromUtf8LossyFrom, hrest, hne]
      | zero =>
          by_cases hb : b.toNat < 0x80
          · have hrest := ih 0 (by simp)
            rw [fromUtf8LossyFrom, readChar_ascii hb, List.mem_cons, List.mem_cons, hrest]
            exact or_congr_left (ascii_inj ha hb)
          · have hbeyond := readChar_beyond (Nat.le_of_not_lt hb) rest
            have hrest := ih _ hbeyond.bytes
            have hchar : ascii a ≠ (readChar b rest).1 := by
              intro h
              have hlow := hbeyond.char
              rw [← h, ascii_toNat ha] at hlow
              omega
            have hne : a ≠ b := by
              rintro rfl
              exact hb ha
            rw [fromUtf8LossyFrom, List.mem_cons, List.mem_cons, hrest]
            exact or_congr (iff_of_false hchar hne) Iff.rfl

/-- An ASCII character is read exactly where its byte stands. -/
theorem mem_fromUtf8Lossy {a : UInt8} (ha : a.toNat < 0x80) (bytes : List UInt8) :
    ascii a ∈ fromUtf8Lossy bytes ↔ a ∈ bytes :=
  mem_fromUtf8LossyFrom ha bytes 0 (by simp)

/-- An ASCII text is read from its own bytes only. -/
theorem fromUtf8Lossy_eq_ascii {text bytes : List UInt8} (h : ∀ a ∈ text, a.toNat < 0x80) :
    fromUtf8Lossy bytes = text.map ascii ↔ bytes = text := by
  induction text generalizing bytes with
  | nil =>
      cases bytes with
      | nil => simp [fromUtf8Lossy, fromUtf8LossyFrom]
      | cons b rest => simp [fromUtf8Lossy, fromUtf8LossyFrom]
  | cons a text ih =>
      have ha := h a (List.mem_cons_self ..)
      cases bytes with
      | nil => simp [fromUtf8Lossy, fromUtf8LossyFrom]
      | cons b rest =>
          by_cases hb : b.toNat < 0x80
          · have hrest : fromUtf8Lossy rest = text.map ascii ↔ rest = text :=
              ih fun c hc => h c (List.mem_cons_of_mem _ hc)
            rw [fromUtf8Lossy, fromUtf8LossyFrom, readChar_ascii hb, List.map_cons, List.cons.injEq,
              List.cons.injEq]
            exact and_congr (ascii_inj hb ha) hrest
          · have hlow := (readChar_beyond (Nat.le_of_not_lt hb) rest).char
            rw [fromUtf8Lossy, fromUtf8LossyFrom, List.map_cons, List.cons.injEq, List.cons.injEq]
            refine iff_of_false (fun hc => ?_) fun hc => ?_
            · rw [hc.1, ascii_toNat ha] at hlow
              omega
            · exact hb (hc.1 ▸ ha)

end Core.Utf8

end Iroh
