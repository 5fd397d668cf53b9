import Mathlib.Data.List.Basic

/-!
# Typed errors of the TypeScript layer

`KIND_BY_CODE` is the enumeration `IrohErrorCode`, with the numeric code and the
kind of each member.  `IrohError.fromMessage` is `IrohError.from(new Error(m))`:
it keeps the whole message and takes the code from the first `[iroh:<code>]` tag,
or `1000` when there is no tag or the code is unknown.  `parseCloseEvent` reads a
native close event.

JavaScript strings are compared and cut by code units.  The lines that cross the
bridge are made by Rust, so they are Unicode text, and every cut is at an ASCII
character, where code units and characters agree.
-/

namespace Iroh

/-- The first occurrence of a character that the text before it does not have. -/
theorem idxOf?_append_cons {α : Type*} [BEq α] [LawfulBEq α] {l : List α} {c : α} (h : c ∉ l)
    (r : List α) : (l ++ c :: r).idxOf? c = some l.length := by
  induction l with
  | nil => simp [List.idxOf?_cons]
  | cons a l ih =>
      obtain ⟨ha, hl⟩ := not_or.mp (fun hc => h (List.mem_cons.mpr hc))
      have hne : (a == c) = false := by simpa using Ne.symm ha
      rw [List.cons_append, List.idxOf?_cons, hne]
      simp [ih hl]

/-- The stable error codes, the keys of `KIND_BY_CODE`. -/
inductive IrohErrorCode where
  | internal
  | invalidHandle
  | invalidTicket
  | invalidPath
  | endpointBind
  | blobImport
  | blobDownload
  | blobExport
  | cancelled
  | gossipSubscribe
  | gossipBroadcast
  | gossipMessageTooLarge
  | streamListen
  | streamConnect
  | streamOpen
  | streamSend
  | streamClosed
  | streamFrameTooLarge
  | streamOverflow
deriving DecidableEq, Repr

namespace IrohErrorCode

/-- The numeric code. -/
def value : IrohErrorCode → ℕ
  | internal => 1000
  | invalidHandle => 1001
  | invalidTicket => 1002
  | invalidPath => 1003
  | endpointBind => 2000
  | blobImport => 3000
  | blobDownload => 3001
  | blobExport => 3002
  | cancelled => 3003
  | gossipSubscribe => 4000
  | gossipBroadcast => 4001
  | gossipMessageTooLarge => 4002
  | streamListen => 5000
  | streamConnect => 5001
  | streamOpen => 5002
  | streamSend => 5003
  | streamClosed => 5004
  | streamFrameTooLarge => 5005
  | streamOverflow => 5006

/-- The kind `KIND_BY_CODE` gives the code. -/
def kind : IrohErrorCode → String
  | internal => "internal"
  | invalidHandle => "invalid-handle"
  | invalidTicket => "invalid-ticket"
  | invalidPath => "invalid-path"
  | endpointBind => "endpoint-bind"
  | blobImport => "blob-import"
  | blobDownload => "blob-download"
  | blobExport => "blob-export"
  | cancelled => "cancelled"
  | gossipSubscribe => "gossip-subscribe"
  | gossipBroadcast => "gossip-broadcast"
  | gossipMessageTooLarge => "gossip-message-too-large"
  | streamListen => "stream-listen"
  | streamConnect => "stream-connect"
  | streamOpen => "stream-open"
  | streamSend => "stream-send"
  | streamClosed => "stream-closed"
  | streamFrameTooLarge => "stream-frame-too-large"
  | streamOverflow => "stream-overflow"

/-- Every code of the table. -/
def all : List IrohErrorCode :=
  [internal, invalidHandle, invalidTicket, invalidPath, endpointBind, blobImport, blobDownload,
    blobExport, cancelled, gossipSubscribe, gossipBroadcast, gossipMessageTooLarge, streamListen,
    streamConnect, streamOpen, streamSend, streamClosed, streamFrameTooLarge, streamOverflow]

/-- `isKnownCode`, with the code it narrows to. -/
def ofValue? (n : ℕ) : Option IrohErrorCode := all.find? fun c => c.value == n

theorem ofValue?_value (c : IrohErrorCode) : ofValue? c.value = some c := by
  cases c <;> decide

end IrohErrorCode

/-- A typed error: a known code and the message it was made with. -/
structure IrohError where
  /-- The stable code. -/
  code : IrohErrorCode
  /-- The message, the native one unchanged. -/
  message : String
deriving DecidableEq, Repr

namespace IrohError

/-- The kind that belongs to the code. -/
def kind (e : IrohError) : String := e.code.kind

/-- A match of `\[iroh:(\d+)\]` at the front of the text: the number captured.
The digits are taken greedily, and no shorter run of digits is followed by `]`. -/
def tagAt (cs : List Char) : Option ℕ :=
  if cs.take 6 = "[iroh:".toList then
    let digits := (cs.drop 6).takeWhile Char.isDigit
    let rest := (cs.drop 6).dropWhile Char.isDigit
    if digits ≠ [] ∧ rest.head? = some ']' then some (Nat.ofDigitChars 10 digits 0) else none
  else none

/-- `ERROR_CODE_PATTERN.exec(message)`: the leftmost match. -/
def parseIrohMessage : List Char → Option ℕ
  | [] => none
  | c :: cs => (tagAt (c :: cs)).orElse fun _ => parseIrohMessage cs
termination_by structural cs => cs

/-- `IrohError.from(new Error(message))`. -/
def fromMessage (message : String) : IrohError :=
  ⟨((parseIrohMessage message.toList).bind IrohErrorCode.ofValue?).getD .internal, message⟩

end IrohError

/-- `parseCloseEvent`: an untagged line, and any tag but `error`, is an orderly
end. -/
def parseCloseEvent (event : String) : Option IrohError :=
  match event.toList.idxOf? ' ' with
  | none => none
  | some space =>
      if event.toList.take space ≠ "error".toList then none
      else some (IrohError.fromMessage (String.ofList (event.toList.drop (space + 1))))

@[simp] theorem parseCloseEvent_end : parseCloseEvent "end" = none := by decide

/-- A failure event carries its detail, whatever the detail is. -/
@[simp] theorem parseCloseEvent_error (detail : String) :
    parseCloseEvent ("error " ++ detail) = some (IrohError.fromMessage detail) := by
  have htext : ("error " ++ detail).toList = "error".toList ++ ' ' :: detail.toList := by
    rw [String.toList_append]
    rfl
  have hspace := idxOf?_append_cons (l := "error".toList) (c := ' ') (by decide) detail.toList
  unfold parseCloseEvent
  rw [htext, hspace]
  simp [String.ofList_toList]

end Iroh
