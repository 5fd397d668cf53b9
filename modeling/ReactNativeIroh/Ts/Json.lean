import ReactNativeIroh.Ts.Manifest

/-!
# JSON texts

The grammar of RFC 8259 over code units, as a reader, and the compact text `JSON.stringify`
writes.  A string of a value is a JavaScript string, which need not be a Unicode text.  A
number is kept as it was written.
-/

namespace Iroh

open JsString

inductive Json where
  | null
  | bool (b : Bool)
  | num (literal : JsString)
  | str (s : JsString)
  | arr (elements : List Json)
  | obj (members : List (JsString × Json))

namespace Json

/-! ## Tokens -/

def isSpace (u : UInt16) : Bool :=
  decide (u = unit ' ' ∨ u = unit '\t' ∨ u = unit '\n' ∨ u = unit '\r')

def skipSpace (text : JsString) : JsString := text.dropWhile isSpace

/-- The text behind a character, if it starts with the character. -/
def token (c : Char) : JsString → Option JsString
  | [] => none
  | u :: rest => if u = unit c then some rest else none

/-- The text behind a word, if it starts with the word. -/
def keyword (word : String) (text : JsString) : Option JsString :=
  if ofText word <+: text then some (text.drop (ofText word).length) else none

def isDigit (u : UInt16) : Bool := decide (unit '0' ≤ u ∧ u ≤ unit '9')

/-- A run of one digit or more. -/
def readDigits (text : JsString) : Option (JsString × JsString) :=
  if text.takeWhile isDigit = [] then none
  else some (text.takeWhile isDigit, text.dropWhile isDigit)

/-- A decimal without leading zeros. -/
def readInt (text : JsString) : Option (JsString × JsString) :=
  (readDigits text).filter fun p => decide (p.1.head? ≠ some (unit '0') ∨ p.1.length = 1)

/-- The fraction of a number, which may be missing. -/
def readFraction (text : JsString) : Option (JsString × JsString) :=
  match token '.' text with
  | some rest => (readDigits rest).map fun p => (unit '.' :: p.1, p.2)
  | none => some ([], text)

/-- The exponent of a number, which may be missing. -/
def readExponent : JsString → Option (JsString × JsString)
  | [] => some ([], [])
  | e :: rest =>
      if e = unit 'e' ∨ e = unit 'E' then
        match rest with
        | [] => none
        | s :: digits =>
            if s = unit '+' ∨ s = unit '-' then
              (readDigits digits).map fun p => (e :: s :: p.1, p.2)
            else (readDigits rest).map fun p => (e :: p.1, p.2)
      else some ([], e :: rest)

def readNumber (text : JsString) : Option (JsString × JsString) := do
  let minus := (token '-' text).isSome
  let (int, text) ← readInt ((token '-' text).getD text)
  let (fraction, text) ← readFraction text
  let (exponent, text) ← readExponent text
  return ((if minus then [unit '-'] else []) ++ int ++ fraction ++ exponent, text)

/-! ## Strings -/

def hexValue (u : UInt16) : Option ℕ :=
  if unit '0' ≤ u ∧ u ≤ unit '9' then some (u.toNat - 0x30)
  else if unit 'a' ≤ u ∧ u ≤ unit 'f' then some (u.toNat - 0x61 + 10)
  else if unit 'A' ≤ u ∧ u ≤ unit 'F' then some (u.toNat - 0x41 + 10)
  else none

/-- The code unit of `\uXXXX`. -/
def hexUnit (a b c d : UInt16) : Option UInt16 := do
  return .ofNat ((((← hexValue a) * 0x10 + (← hexValue b)) * 0x10 + (← hexValue c)) * 0x10 +
    (← hexValue d))

/-- The code unit of a character behind a backslash. -/
def escaped (u : UInt16) : Option UInt16 :=
  if u = unit '"' ∨ u = unit '\\' ∨ u = unit '/' then some u
  else if u = unit 'b' then some 0x08
  else if u = unit 'f' then some 0x0C
  else if u = unit 'n' then some 0x0A
  else if u = unit 'r' then some 0x0D
  else if u = unit 't' then some 0x09
  else none

/-- The string whose opening quote was read. -/
def readString : JsString → Option (JsString × JsString)
  | [] => none
  | u :: rest =>
      if u = unit '"' then some ([], rest)
      else if u = unit '\\' then
        match rest with
        | [] => none
        | e :: rest =>
            if e = unit 'u' then
              match rest with
              | a :: b :: c :: d :: rest =>
                  (hexUnit a b c d).bind fun v =>
                    (readString rest).map fun p => (v :: p.1, p.2)
              | _ => none
            else
              (escaped e).bind fun v => (readString rest).map fun p => (v :: p.1, p.2)
      else if u < 0x20 then none
      else (readString rest).map fun p => (u :: p.1, p.2)
termination_by structural text => text

/-! ## Values -/

/-- A value that is no string, array or object. -/
def readScalar (text : JsString) : Option (Json × JsString) :=
  match keyword "null" text, keyword "true" text, keyword "false" text with
  | some rest, _, _ => some (.null, rest)
  | _, some rest, _ => some (.bool true, rest)
  | _, _, some rest => some (.bool false, rest)
  | _, _, _ => (readNumber text).map fun p => (.num p.1, p.2)

mutual

/-- The value at the front of the text, of at most this size. -/
def readValue : ℕ → JsString → Option (Json × JsString)
  | 0, _ => none
  | n + 1, text =>
      match skipSpace text with
      | [] => none
      | u :: rest =>
          if u = unit '"' then (readString rest).map fun p => (.str p.1, p.2)
          else if u = unit '[' then
            match token ']' (skipSpace rest) with
            | some rest => some (.arr [], rest)
            | none => (readElements n rest).map fun p => (.arr p.1, p.2)
          else if u = unit '{' then
            match token '}' (skipSpace rest) with
            | some rest => some (.obj [], rest)
            | none => (readMembers n rest).map fun p => (.obj p.1, p.2)
          else readScalar (u :: rest)
termination_by structural n => n

/-- The elements of an array, up to its end. -/
def readElements : ℕ → JsString → Option (List Json × JsString)
  | 0, _ => none
  | n + 1, text =>
      (readValue n text).bind fun (v, rest) =>
        match token ',' (skipSpace rest) with
        | some rest => (readElements n rest).map fun p => (v :: p.1, p.2)
        | none => (token ']' (skipSpace rest)).map fun rest => ([v], rest)
termination_by structural n => n

/-- The members of an object, up to its end. -/
def readMembers : ℕ → JsString → Option (List (JsString × Json) × JsString)
  | 0, _ => none
  | n + 1, text =>
      ((token '"' (skipSpace text)).bind readString).bind fun (key, rest) =>
        ((token ':' (skipSpace rest)).bind (readValue n)).bind fun (v, rest) =>
          match token ',' (skipSpace rest) with
          | some rest => (readMembers n rest).map fun p => ((key, v) :: p.1, p.2)
          | none => (token '}' (skipSpace rest)).map fun rest => ([(key, v)], rest)
termination_by structural n => n

end

/-- `JSON.parse`. -/
def parse (text : JsString) : Option Json :=
  (readValue (text.length + 1) text).bind fun (v, rest) =>
    if skipSpace rest = [] then some v else none

/-! ## Writing -/

mutual

/-- The text of a value, without white space. -/
def write : Json → List Char
  | .null => "null".toList
  | .bool b => (if b then "true" else "false").toList
  | .num literal => chars literal
  | .str s => (Manifest.stringify s).toList
  | .arr elements => '[' :: writeElements elements ++ [']']
  | .obj members => '{' :: writeMembers members ++ ['}']

def writeElements : List Json → List Char
  | [] => []
  | [v] => v.write
  | v :: w :: rest => v.write ++ ',' :: writeElements (w :: rest)

def writeMembers : List (JsString × Json) → List Char
  | [] => []
  | [(key, v)] => (Manifest.stringify key).toList ++ ':' :: v.write
  | (key, v) :: m :: rest =>
      (Manifest.stringify key).toList ++ ':' :: v.write ++ ',' :: writeMembers (m :: rest)

end

/-- `JSON.stringify`. -/
def stringify (v : Json) : JsString := ofText (String.ofList v.write)

/-- The value of a key.  Of members with one key the last counts. -/
def get (key : String) : Json → Option Json
  | .obj members => (members.reverse.find? fun m => decide (m.1 = ofText key)).map Prod.snd
  | _ => none

end Json

end Iroh
