import ReactNativeIroh.Core.Error
import ReactNativeIroh.Core.Utf8
import ReactNativeIroh.Lib.Separated

/-!
# Paths of the core

A Unix path is a list of bytes.  Its components are the pieces between slashes, without
the empty ones and without `.`; the last of them is its file name, unless it is `..`.
-/

namespace Iroh.Core

abbrev Path := List UInt8

namespace Path

def slash : UInt8 := 0x2F

def dot : UInt8 := 0x2E

def backslash : UInt8 := 0x5C

def nul : UInt8 := 0

/-- `PathBuf::from`. -/
def ofText (t : String) : Path := Utf8.encode t

/-- `Path::is_absolute`. -/
def isAbsolute (p : Path) : Bool := decide (p.head? = some slash)

/-- The normal and parent components of `Path::components`. -/
def components (p : Path) : List Path :=
  (Separated.segments slash p).filter fun s => decide (s ≠ [dot])

/-- `Path::file_name`. -/
def fileName (p : Path) : Option Path :=
  p.components.getLast?.bind fun s => if s = [dot, dot] then none else some s

/-- `to_string_lossy` and `Path::display`. -/
def toStringLossy (p : Path) : String := String.ofList (Utf8.fromUtf8Lossy p)

theorem ofText_injective : Function.Injective ofText := Utf8.encode_injective

/-- A file name is a single component, and not one of the two special ones. -/
structure Name (n : Path) : Prop where
  segment : Separated.Segment slash n
  ne_dot : n ≠ [dot]
  ne_dots : n ≠ [dot, dot]

theorem name_of_fileName {p n : Path} (h : p.fileName = some n) : Name n := by
  obtain ⟨s, hlast, hn⟩ := Option.bind_eq_some_iff.mp h
  obtain ⟨hsegment, hdot⟩ := List.mem_filter.mp (List.mem_of_getLast? hlast)
  by_cases hs : s = [dot, dot]
  · simp [hs] at hn
  · obtain rfl : s = n := by simpa [hs] using hn
    exact ⟨Separated.segment_of_mem hsegment, by simpa using hdot, hs⟩

/-- A file name read as text is read byte by byte where it is ASCII. -/
theorem mem_toStringLossy {a : UInt8} (ha : a.toNat < 0x80) (p : Path) :
    Utf8.ascii a ∈ p.toStringLossy.toList ↔ a ∈ p := by
  rw [toStringLossy, String.toList_ofList, Utf8.mem_fromUtf8Lossy ha]

/-- A path is read as an ASCII text when it is that text. -/
theorem toStringLossy_eq_ascii {p text : Path} (h : ∀ a ∈ text, a.toNat < 0x80) :
    p.toStringLossy = String.ofList (text.map Utf8.ascii) ↔ p = text := by
  rw [toStringLossy, String.ofList_inj, Utf8.fromUtf8Lossy_eq_ascii h]

end Path

/-- Accept an absolute path, or say what the other one was for. -/
def requireAbsolute (path : Path) (what : String) : Except IrohError Path :=
  if path.isAbsolute then .ok path
  else .error (.invalidPath (what ++ " must be absolute: " ++ path.toStringLossy))

end Iroh.Core
