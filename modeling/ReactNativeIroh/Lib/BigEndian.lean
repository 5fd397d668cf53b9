import Mathlib.Algebra.Order.Ring.Nat
import Mathlib.Data.List.Induction

/-!
# Big-endian numbers

A number below `256 ^ k` as `k` bytes, the most significant one first, and back.
-/

namespace BigEndian

/-- The low `k` bytes of a number. -/
def encode : ℕ → ℕ → List UInt8
  | 0, _ => []
  | k + 1, n => encode k (n / 256) ++ [UInt8.ofNat n]
termination_by structural k => k

/-- The number that the bytes write. -/
def decode (bs : List UInt8) : ℕ := bs.foldl (fun n b => n * 256 + b.toNat) 0

@[simp] theorem decode_concat (bs : List UInt8) (b : UInt8) :
    decode (bs ++ [b]) = decode bs * 256 + b.toNat := by
  simp [decode]

@[simp] theorem length_encode (k n : ℕ) : (encode k n).length = k := by
  induction k generalizing n with
  | zero => rfl
  | succ k ih => simp [encode, ih]

theorem decode_lt (bs : List UInt8) : decode bs < 256 ^ bs.length := by
  induction bs using List.reverseRecOn with
  | nil => exact Nat.one_pos
  | append_singleton bs b ih =>
      have hb : b.toNat < 256 := b.toNat_lt
      rw [decode_concat, List.length_append, List.length_singleton, pow_succ]
      omega

theorem decode_encode (k : ℕ) {n : ℕ} (h : n < 256 ^ k) : decode (encode k n) = n := by
  induction k generalizing n with
  | zero =>
      rw [pow_zero] at h
      exact (Nat.lt_one_iff.mp h).symm
  | succ k ih =>
      have hn : n / 256 < 256 ^ k := by
        rw [Nat.div_lt_iff_lt_mul (by decide)]
        rwa [pow_succ] at h
      have hb : (UInt8.ofNat n).toNat = n % 256 := UInt8.toNat_ofNat'
      rw [encode, decode_concat, ih hn, hb]
      omega

theorem encode_decode (bs : List UInt8) : encode bs.length (decode bs) = bs := by
  induction bs using List.reverseRecOn with
  | nil => rfl
  | append_singleton bs b ih =>
      have hb : b.toNat < 256 := b.toNat_lt
      have hdiv : (decode bs * 256 + b.toNat) / 256 = decode bs := by omega
      have hmod : UInt8.ofNat (decode bs * 256 + b.toNat) = b := by
        apply UInt8.toNat_inj.mp
        rw [UInt8.toNat_ofNat']
        omega
      rw [List.length_append, List.length_singleton, encode, decode_concat, hdiv, hmod, ih]

end BigEndian
