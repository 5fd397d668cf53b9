import Mathlib.Data.Rat.Floor
import Mathlib.Data.Rat.Cast.Order

/-!
# JavaScript numbers

The library compares and rounds a few numbers that the host may set to any
JavaScript number: `NaN`, the infinities, negative and fractional values.  A
finite double is a rational, and the operations used here (`Math.floor`,
`Math.max` and `<`) are exact on doubles, so the model takes every rational.
-/

namespace Iroh

/-- A JavaScript number. -/
inductive Number where
  | nan
  | negInf
  | fin (q : ℚ)
  | posInf
deriving DecidableEq

namespace Number

/-- The number of an array length. -/
def ofNat (n : ℕ) : Number := .fin n

/-- `a < b`.  A comparison with `NaN` is false. -/
def lt : Number → Number → Bool
  | .nan, _ => false
  | _, .nan => false
  | .negInf, .negInf => false
  | .negInf, _ => true
  | .fin _, .negInf => false
  | .fin a, .fin b => decide (a < b)
  | .fin _, .posInf => true
  | .posInf, _ => false

/-- `a <= b`.  A comparison with `NaN` is false. -/
def le (a b : Number) : Bool := decide (a ≠ .nan) && decide (b ≠ .nan) && !lt b a

/-- `Math.floor`. -/
def floor : Number → Number
  | .fin q => .fin ⌊q⌋
  | a => a

/-- `Math.max(a, b)`, which is `NaN` when an argument is. -/
def max (a b : Number) : Number :=
  if a = .nan ∨ b = .nan then .nan else if lt a b then b else a

/-- `Math.max(1, Math.floor(a))`, the clamp of every capacity and cap. -/
def clamp (a : Number) : Number := max (.fin 1) (floor a)

/-! ## Clamped numbers -/

@[simp] theorem clamp_nan : clamp .nan = .nan := by simp [clamp, floor, max]

@[simp] theorem clamp_posInf : clamp .posInf = .posInf := by simp [clamp, floor, max, lt]

@[simp] theorem clamp_negInf : clamp .negInf = .fin 1 := by simp [clamp, floor, max, lt]

theorem clamp_fin (q : ℚ) : clamp (.fin q) = .fin (Max.max 1 ⌊q⌋ : ℤ) := by
  simp only [clamp, floor, max, lt, reduceCtorEq, or_self, if_false, decide_eq_true_eq]
  by_cases h : (1 : ℚ) < ⌊q⌋
  · have h' : (1 : ℤ) < ⌊q⌋ := by exact_mod_cast h
    rw [if_pos h, max_eq_right h'.le]
  · have h' : ⌊q⌋ ≤ (1 : ℤ) := by exact_mod_cast not_lt.mp h
    rw [if_neg h, max_eq_left h']
    norm_num

/-- A clamped number other than `NaN` is infinite or a natural number from 1 on. -/
theorem clamp_cases {a : Number} (h : a ≠ .nan) :
    clamp a = .posInf ∨ ∃ k : ℕ, 1 ≤ k ∧ clamp a = ofNat k := by
  cases a with
  | nan => exact absurd rfl h
  | negInf => exact Or.inr ⟨1, Nat.le_refl 1, by simp [ofNat]⟩
  | posInf => exact Or.inl clamp_posInf
  | fin q =>
      refine Or.inr ⟨(Max.max 1 ⌊q⌋).toNat, ?_, ?_⟩
      · have : (1 : ℤ) ≤ Max.max 1 ⌊q⌋ := le_max_left ..
        omega
      · have h1 : (0 : ℤ) ≤ Max.max 1 ⌊q⌋ := le_trans (by norm_num) (le_max_left ..)
        rw [clamp_fin, ofNat]
        congr 1
        exact_mod_cast congrArg (Int.cast : ℤ → ℚ) (Int.toNat_of_nonneg h1).symm

/-- Whatever the clamped number is, one is not above it. -/
@[simp] theorem clamp_lt_one (a : Number) : lt (clamp a) (ofNat 1) = false := by
  by_cases h : a = .nan
  · simp [h, lt]
  · rcases clamp_cases h with hc | ⟨k, hk, hc⟩
    · simp [hc, lt, ofNat]
    · simp only [hc, ofNat, lt, decide_eq_false_iff_not, not_lt]
      exact_mod_cast hk

/-- A natural number is at most a clamped number exactly when it is not above it. -/
theorem le_clamp_iff {a : Number} (h : a ≠ .nan) (n : ℕ) :
    le (ofNat n) (clamp a) = true ↔ lt (clamp a) (ofNat n) = false := by
  rcases clamp_cases h with hc | ⟨k, -, hc⟩
  · simp [hc, le, ofNat]
  · simp [hc, le, ofNat]

end Number

end Iroh
