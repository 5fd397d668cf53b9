import Mathlib.Data.List.Induction
import ReactNativeIroh.Ts.Number

/-!
# Retained items

The hooks keep the last items of a stream in an array of bounded length.  The bound may be
any JavaScript number.  An array keeps at least one item whatever the bound is, a bound
with a fraction is rounded up, and with the bound `NaN` nothing is ever dropped.

The start of the slice is computed exactly here.  On doubles it may be rounded up to 2 when
the array has one item, and the slice is empty either way.
-/

namespace Iroh

variable {α : Type*}

/-- `l.slice(start)`. -/
def sliceFrom (start : Number) (l : List α) : List α :=
  match start with
  | .nan => l
  | .negInf => l
  | .posInf => []
  | .fin q =>
      let k : ℤ := if 0 ≤ q then ⌊q⌋ else ⌈q⌉
      if k < 0 then l.drop (l.length + k).toNat else l.drop k.toNat

/-- `length - max + 1`. -/
def sliceStart (length : ℕ) : Number → Number
  | .nan => .nan
  | .negInf => .posInf
  | .posInf => .negInf
  | .fin q => .fin (length - q + 1)

def appendCapped (prev : List α) (item : α) (max : Number) : List α :=
  let start :=
    if Number.le max (.ofNat prev.length) then sliceStart prev.length max else .ofNat 0
  sliceFrom start prev ++ [item]

/-- How many items an array retains, if there is a bound. -/
def retained : Number → Option ℕ
  | .nan => none
  | .negInf => some 1
  | .posInf => none
  | .fin q => some (Max.max 1 ⌈q⌉).toNat

/-- The last items. -/
def lastItems (k : Option ℕ) (l : List α) : List α :=
  match k with
  | none => l
  | some k => l.drop (l.length - k)

variable {max : Number} {k : ℕ} {l : List α}

theorem one_le_retained (h : retained max = some k) : 1 ≤ k := by
  cases max with
  | nan => cases h
  | negInf => exact (Option.some.inj h).le
  | posInf => cases h
  | fin q =>
      obtain rfl := Option.some.inj h
      have hone : (1 : ℤ) ≤ Max.max 1 ⌈q⌉ := le_max_left ..
      omega

theorem lastItems_length (k : ℕ) (l : List α) :
    (lastItems (some k) l).length = min l.length k := by
  simp only [lastItems, List.length_drop]
  omega

@[simp] theorem sliceFrom_ofNat (n : ℕ) (l : List α) : sliceFrom (.ofNat n) l = l.drop n := by
  simp [sliceFrom, Number.ofNat]

/-- A full array loses its first item, and another one nothing. -/
theorem slice_retained (h : retained max = some k) (hl : l.length ≤ k) :
    sliceFrom (if Number.le max (.ofNat l.length) then sliceStart l.length max else .ofNat 0) l =
      l.drop (l.length + 1 - k) := by
  have hk := one_le_retained h
  cases max with
  | nan => cases h
  | posInf => cases h
  | negInf =>
      obtain rfl := Option.some.inj h
      simp [Number.le, Number.ofNat, Number.lt, sliceStart, sliceFrom]
  | fin q =>
      obtain rfl := Option.some.inj h
      have hle : Number.le (.fin q) (.ofNat l.length) = decide (q ≤ l.length) := by
        simp [Number.le, Number.ofNat, Number.lt, ← not_lt]
      rw [hle]
      by_cases hq : q ≤ l.length
      · have hstart : ⌊(l.length : ℚ) - q + 1⌋ = (l.length : ℤ) + 1 - ⌈q⌉ := by
          rw [Int.floor_add_one, sub_eq_add_neg, Int.floor_natCast_add, Int.floor_neg]
          omega
        have hpos : (0 : ℚ) ≤ l.length - q + 1 := by linarith
        have hceil : ⌈q⌉ ≤ (l.length : ℤ) := Int.ceil_le.mpr (by exact_mod_cast hq)
        rw [if_pos (decide_eq_true hq), sliceStart, sliceFrom]
        simp only [hpos, if_true, hstart]
        rw [if_neg (by omega)]
        by_cases hone : 1 ≤ ⌈q⌉
        · rw [max_eq_right hone]
          congr 1
          omega
        · rw [max_eq_left (by omega), List.drop_eq_nil_of_le (by omega),
            List.drop_eq_nil_of_le (by simp)]
      · have hceil : (l.length : ℤ) < ⌈q⌉ := Int.lt_ceil.mpr (by exact_mod_cast not_le.mp hq)
        rw [if_neg (by simpa using hq), sliceFrom_ofNat]
        congr 1
        omega

theorem appendCapped_lastItems (items : List α) (item : α) (max : Number) :
    appendCapped (lastItems (retained max) items) item max =
      lastItems (retained max) (items ++ [item]) := by
  rw [appendCapped]
  cases h : retained max with
  | none =>
      have hle : Number.le max (.ofNat items.length) = false := by
        cases max with
        | nan => rfl
        | posInf => rfl
        | _ => cases h
      rw [lastItems, hle, if_neg Bool.false_ne_true, sliceFrom_ofNat]
      rfl
  | some k =>
      have hk := one_le_retained h
      have hlength := lastItems_length k items
      rw [slice_retained h (hlength ▸ Nat.min_le_right _ _), hlength]
      simp only [lastItems, List.drop_drop, List.length_append, List.length_singleton]
      rw [List.drop_append_of_le_length (by omega)]
      congr 2
      omega

/-- An array to which items were appended one by one has the last of them. -/
theorem foldl_appendCapped (items : List α) (max : Number) :
    items.foldl (fun prev item => appendCapped prev item max) [] =
      lastItems (retained max) items := by
  induction items using List.reverseRecOn with
  | nil =>
      cases retained max with
      | none => rfl
      | some k => simp [lastItems]
  | append_singleton items item ih =>
      rw [List.foldl_append, ih]
      exact appendCapped_lastItems items item max

end Iroh
