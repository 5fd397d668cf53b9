import Mathlib.Data.List.TakeWhile
import ReactNativeIroh.Core.Utf8

/-!
# JavaScript strings

A JavaScript string is a list of UTF-16 code units, and any list of them is one.  A
Unicode text is a string without lone surrogates.

A string crosses the bridge as a C string of its UTF-8 text, which the native side
reads up to the first NUL.  A lone surrogate has no UTF-8 text, and becomes `U+FFFD`.  In
the other direction nothing is cut off: the bridge takes every NUL out of a text before it
makes a C string of it.
-/

namespace Iroh

abbrev JsString := List UInt16

namespace JsString

open Core.Utf8 (replacement)

/-- A code unit that starts a surrogate pair. -/
def isLead (u : UInt16) : Bool := decide (0xD800 ≤ u.toNat ∧ u.toNat ≤ 0xDBFF)

/-- A code unit that ends a surrogate pair. -/
def isTrail (u : UInt16) : Bool := decide (0xDC00 ≤ u.toNat ∧ u.toNat ≤ 0xDFFF)

/-- The character of a surrogate pair. -/
def pair (u v : UInt16) : Char :=
  Char.ofNat (0x10000 + (u.toNat - 0xD800) * 0x400 + (v.toNat - 0xDC00))

/-- The characters of a string, with a replacement for each lone surrogate. -/
def chars : JsString → List Char
  | [] => []
  | u :: rest =>
      if isLead u then
        match rest with
        | [] => [replacement]
        | v :: rest =>
            if isTrail v then pair u v :: chars rest else replacement :: chars (v :: rest)
      else if isTrail u then replacement :: chars rest
      else Char.ofNat u.toNat :: chars rest
termination_by structural s => s

/-- The code units of a character. -/
def units (c : Char) : List UInt16 :=
  if c.toNat < 0x10000 then [.ofNat c.toNat]
  else [.ofNat (0xD800 + (c.toNat - 0x10000) / 0x400),
    .ofNat (0xDC00 + (c.toNat - 0x10000) % 0x400)]

/-- The string of a text. -/
def ofText (t : String) : JsString := t.toList.flatMap units

/-- The text of a string. -/
def toText (s : JsString) : String := String.ofList (chars s)

/-- A Unicode text, as every string is that the native side makes. -/
def WellFormed (s : JsString) : Prop := ofText (toText s) = s

def nul : Char := Char.ofNat 0

/-- The text the native side reads. -/
def native (s : JsString) : String :=
  String.ofList ((chars s).takeWhile fun c => decide (c ≠ nul))

/-- The text the host is given of a text of the native side. -/
def fromNative (t : String) : String :=
  String.ofList (t.toList.filter fun c => decide (c ≠ nul))

/-- A character of one code unit, such as every ASCII character.  Those from `U+E000` on
have one as well, and are not needed here. -/
def Single (c : Char) : Prop := c.toNat < 0xD800

instance (c : Char) : Decidable (Single c) := inferInstanceAs (Decidable (_ < _))

/-- The code unit of such a character. -/
def unit (c : Char) : UInt16 := .ofNat c.toNat

/-! ## Reading -/

theorem toNat_unit {c : Char} (h : Single c) : (unit c).toNat = c.toNat := by
  unfold Single at h
  simp only [unit, UInt16.toNat_ofNat']
  omega

/-- Such a code unit is no surrogate. -/
theorem unit_lone {c : Char} (h : Single c) :
    isLead (unit c) = false ∧ isTrail (unit c) = false := by
  have hunit := toNat_unit h
  unfold Single at h
  simp only [isLead, isTrail, decide_eq_false_iff_not, hunit]
  omega

theorem ofNat_toNat_unit {c : Char} (h : Single c) : Char.ofNat (unit c).toNat = c := by
  rw [toNat_unit h, Char.ofNat_toNat]

theorem chars_pair {u v : UInt16} (hu : isLead u = true) (hv : isTrail v = true)
    (rest : JsString) : chars (u :: v :: rest) = pair u v :: chars rest := by
  simp only [chars, if_pos hu, if_pos hv]

theorem chars_lead {u v : UInt16} (hu : isLead u = true) (hv : isTrail v = false)
    (rest : JsString) : chars (u :: v :: rest) = replacement :: chars (v :: rest) := by
  conv_lhs => unfold chars
  simp only [if_pos hu, hv, Bool.false_eq_true, if_false]

theorem chars_trail {u : UInt16} (hu : isLead u = false) (ht : isTrail u = true)
    (rest : JsString) : chars (u :: rest) = replacement :: chars rest := by
  conv_lhs => unfold chars
  simp only [hu, Bool.false_eq_true, if_false, if_pos ht]

theorem chars_lone {u : UInt16} (hu : isLead u = false) (ht : isTrail u = false)
    (rest : JsString) : chars (u :: rest) = Char.ofNat u.toNat :: chars rest := by
  conv_lhs => unfold chars
  simp only [hu, ht, Bool.false_eq_true, if_false]

theorem chars_unit_cons {c : Char} (h : Single c) (rest : JsString) :
    chars (unit c :: rest) = c :: chars rest := by
  rw [chars_lone (unit_lone h).1 (unit_lone h).2, ofNat_toNat_unit h]

/-- Reading goes on after such a code unit as at the start. -/
theorem chars_append_unit {c : Char} (h : Single c) (s rest : JsString) :
    chars (s ++ unit c :: rest) = chars s ++ c :: chars rest := by
  fun_induction chars s with
  | case1 => exact chars_unit_cons h rest
  | case2 u hu =>
      rw [List.cons_append, List.nil_append, chars_lead hu (unit_lone h).2, chars_unit_cons h]
      rfl
  | case3 u hu v s hv ih => rw [List.cons_append, List.cons_append, chars_pair hu hv, ih]; rfl
  | case4 u hu v s hv ih =>
      rw [List.cons_append, List.cons_append, chars_lead hu (by simpa using hv), ← List.cons_append,
        ih]
      rfl
  | case5 u s hu ht ih =>
      rw [List.cons_append, chars_trail (by simpa using hu) ht, ih]
      rfl
  | case6 u s hu ht ih =>
      rw [List.cons_append, chars_lone (by simpa using hu) (by simpa using ht), ih]
      rfl

theorem pair_toNat {u v : UInt16} (hu : isLead u = true) (hv : isTrail v = true) :
    (pair u v).toNat = 0x10000 + (u.toNat - 0xD800) * 0x400 + (v.toNat - 0xDC00) := by
  simp only [isLead, isTrail, decide_eq_true_eq] at hu hv
  rw [pair, toNat_ofNat (by unfold Nat.isValidChar; omega)]

theorem lone_toNat {u : UInt16} (hu : isLead u = false) (ht : isTrail u = false) :
    (Char.ofNat u.toNat).toNat = u.toNat := by
  have hlt := u.toNat_lt
  simp only [isLead, isTrail, decide_eq_false_iff_not] at hu ht
  exact toNat_ofNat (by unfold Nat.isValidChar; omega)

/-- A character of one code unit is read where its code unit stands. -/
theorem mem_chars {c : Char} (h : Single c) {s : JsString} : c ∈ chars s ↔ unit c ∈ s := by
  have hreplacement : c ≠ replacement := by
    rintro rfl
    exact absurd h (by decide)
  have hlone := unit_lone h
  have hlead : ∀ {u}, isLead u = true → unit c ≠ u := by
    rintro u hu rfl
    exact Bool.false_ne_true (hlone.1.symm.trans hu)
  have htrail : ∀ {u}, isTrail u = true → unit c ≠ u := by
    rintro u hu rfl
    exact Bool.false_ne_true (hlone.2.symm.trans hu)
  fun_induction chars s with
  | case1 => simp only [List.not_mem_nil]
  | case2 u hu => simp [hreplacement, hlead hu]
  | case3 u hu v s hv ih =>
      have hpair : c ≠ pair u v := by
        intro hc
        have hnat := congrArg Char.toNat hc
        rw [pair_toNat hu hv] at hnat
        unfold Single at h
        omega
      simp [hpair, hlead hu, htrail hv, ih]
  | case4 u hu v s hv ih => simpa [hreplacement, hlead hu] using ih
  | case5 u s hu ht ih => simp [hreplacement, htrail ht, ih]
  | case6 u s hu ht ih =>
      have hchar : c = Char.ofNat u.toNat ↔ unit c = u := by
        constructor
        · rintro rfl
          rw [unit, lone_toNat (by simpa using hu) (by simpa using ht), UInt16.ofNat_toNat]
        · rintro rfl
          exact (ofNat_toNat_unit h).symm
      simp [hchar, ih]

/-! ## Reading a text back -/

/-- A character is read from its code units. -/
theorem chars_units (c : Char) (rest : JsString) : chars (units c ++ rest) = c :: chars rest := by
  have hvalid : c.toNat < 0xD800 ∨ 0xDFFF < c.toNat ∧ c.toNat < 0x110000 := c.valid
  unfold units
  split
  · next hlt =>
      have hunit : (UInt16.ofNat c.toNat).toNat = c.toNat := by
        simp only [UInt16.toNat_ofNat']
        omega
      have hlead : isLead (.ofNat c.toNat) = false := by
        simp only [isLead, hunit, decide_eq_false_iff_not]
        omega
      have htrail : isTrail (.ofNat c.toNat) = false := by
        simp only [isTrail, hunit, decide_eq_false_iff_not]
        omega
      rw [List.singleton_append, chars_lone hlead htrail, hunit, Char.ofNat_toNat]
  · next hle =>
      have hu : (UInt16.ofNat (0xD800 + (c.toNat - 0x10000) / 0x400)).toNat =
          0xD800 + (c.toNat - 0x10000) / 0x400 := by
        simp only [UInt16.toNat_ofNat']
        omega
      have hv : (UInt16.ofNat (0xDC00 + (c.toNat - 0x10000) % 0x400)).toNat =
          0xDC00 + (c.toNat - 0x10000) % 0x400 := by
        simp only [UInt16.toNat_ofNat']
        omega
      have hlead : isLead (.ofNat (0xD800 + (c.toNat - 0x10000) / 0x400)) = true := by
        simp only [isLead, hu, decide_eq_true_eq]
        omega
      have htrail : isTrail (.ofNat (0xDC00 + (c.toNat - 0x10000) % 0x400)) = true := by
        simp only [isTrail, hv, decide_eq_true_eq]
        omega
      have hpair : 0x10000 + (0xD800 + (c.toNat - 0x10000) / 0x400 - 0xD800) * 0x400 +
          (0xDC00 + (c.toNat - 0x10000) % 0x400 - 0xDC00) = c.toNat := by omega
      rw [List.cons_append, List.singleton_append, chars_pair hlead htrail, pair, hu, hv, hpair,
        Char.ofNat_toNat]

theorem chars_ofText (t : String) : chars (ofText t) = t.toList := by
  unfold ofText
  induction t.toList with
  | nil => rfl
  | cons c cs ih => rw [List.flatMap_cons, chars_units, ih]

@[simp] theorem toText_ofText (t : String) : toText (ofText t) = t := by
  rw [toText, chars_ofText, String.ofList_toList]

theorem ofText_injective : Function.Injective ofText :=
  Function.LeftInverse.injective toText_ofText

theorem mem_ofText {c : Char} (h : Single c) {t : String} : unit c ∈ ofText t ↔ c ∈ t.toList := by
  rw [← mem_chars h, chars_ofText]

@[simp] theorem ofText_eq_nil {t : String} : ofText t = [] ↔ t = "" :=
  ofText_injective.eq_iff' rfl

/-! ## Crossing the bridge -/

theorem native_toList (s : JsString) :
    (native s).toList = (chars s).takeWhile fun c => decide (c ≠ nul) :=
  String.toList_ofList

theorem takeWhile_nul_eq_self {cs : List Char} :
    cs.takeWhile (fun c => decide (c ≠ nul)) = cs ↔ nul ∉ cs := by
  rw [List.takeWhile_eq_self_iff]
  constructor
  · exact fun h hmem => by simpa using h nul hmem
  · intro h c hc
    simp only [decide_eq_true_eq]
    rintro rfl
    exact h hc

theorem single_nul : Single nul := by decide

/-- A string without NUL is read to its end. -/
theorem native_of_notMem {s : JsString} (h : unit nul ∉ s) : native s = toText s := by
  have hnul : nul ∉ chars s := fun hmem => h ((mem_chars single_nul).mp hmem)
  rw [native, takeWhile_nul_eq_self.mpr hnul, toText]

/-- A text without NUL is read as it is. -/
theorem native_ofText {t : String} (h : nul ∉ t.toList) : native (ofText t) = t := by
  rw [native_of_notMem (fun hmem => h ((mem_ofText single_nul).mp hmem)), toText_ofText]

/-- What is read has no NUL. -/
theorem nul_notMem_native (s : JsString) : nul ∉ (native s).toList := by
  intro hmem
  rw [native_toList] at hmem
  simpa using List.mem_takeWhile_imp hmem

theorem fromNative_toList (t : String) :
    (fromNative t).toList = t.toList.filter fun c => decide (c ≠ nul) :=
  String.toList_ofList

/-- A text without NUL is given to the host as it is. -/
theorem fromNative_of_notMem {t : String} (h : nul ∉ t.toList) : fromNative t = t := by
  refine String.toList_inj.mp ?_
  rw [fromNative_toList, List.filter_eq_self]
  intro c hc
  rw [decide_eq_true_eq]
  rintro rfl
  exact h hc

theorem fromNative_append (t u : String) : fromNative (t ++ u) = fromNative t ++ fromNative u := by
  refine String.toList_inj.mp ?_
  simp only [String.toList_append, fromNative_toList, List.filter_append]

/-- No other character is taken out. -/
theorem mem_fromNative {c : Char} (hc : c ≠ nul) {t : String} :
    c ∈ (fromNative t).toList ↔ c ∈ t.toList := by
  rw [fromNative_toList, List.mem_filter, decide_eq_true_eq]
  exact and_iff_left hc

/-- A string is read up to its first NUL, whatever follows. -/
theorem native_append_unit {c : Char} (h : Single c) (hc : c ≠ nul) (s rest : JsString) :
    (native (s ++ unit c :: rest)).toList =
      if unit nul ∈ s then (native s).toList
      else (native s).toList ++ c :: (native rest).toList := by
  simp only [native_toList, chars_append_unit h, List.takeWhile_append]
  by_cases hs : unit nul ∈ s
  · have hlength : ((chars s).takeWhile fun c => decide (c ≠ nul)).length ≠ (chars s).length := by
      intro hlength
      have hself := (List.takeWhile_prefix _).eq_of_length hlength
      exact takeWhile_nul_eq_self.mp hself ((mem_chars single_nul).mpr hs)
    rw [if_neg hlength, if_pos hs]
  · have hself := takeWhile_nul_eq_self.mpr fun hmem => hs ((mem_chars single_nul).mp hmem)
    rw [if_neg hs, hself, if_pos rfl, List.takeWhile_cons_of_pos (by simpa using hc)]

end JsString

end Iroh
