import ReactNativeIroh.Ts.Connection

/-!
# Listeners

`StreamListenerController` queues the connections its listener accepts.  It reaches
them through its owner: `createConnection` wraps a native connection, which may
throw, and a connection the queue discards is closed.  In the model a connection is
referred to by its native id.

An accepted connection arrives as the line `"<connection-id> <remote-id>"`.
-/

namespace Iroh

open Ownership

/-- The owner of a listener: `release` is `binding.stopListen(listenerId)`. -/
structure ListenerHooks (ω : Type*) extends Owner ω where
  /-- `createConnection(connectionId, remoteId)`.  `none` when it throws. -/
  createConnection : ℕ → String → ω → Option ω
  /-- `binding.closeConnection(connectionId)`. -/
  closeConnection : ℕ → ω → ω
  /-- `close()` of the connection that wraps the id. -/
  close : ℕ → ω → ω

/-- `Number(text)` of a decimal handle, the only text the binding sends. -/
def numberOf (text : List Char) : Option ℕ :=
  if text ≠ [] ∧ text.all Char.isDigit then some (Nat.ofDigitChars 10 text 0) else none

/-- The connection id and the remote id of an accepted connection's line. -/
def parseLine (line : String) : Option (ℕ × String) :=
  match line.toList.idxOf? ' ' with
  | none => none
  | some space =>
      (numberOf (line.toList.take space)).map fun connectionId =>
        (connectionId, String.ofList (line.toList.drop (space + 1)))

/-- The line the binding sends for an accepted connection. -/
def acceptedLine (connectionId : ℕ) (remoteId : String) : String :=
  toString connectionId ++ " " ++ remoteId

structure StreamListenerController where
  alpn : String
  accepted : MessageQueue ℕ IrohError
  disposed : Bool := false

inductive ListenerEvent where
  | onConnection (line : String)
  | onClose (event : String)
  | close
  | next
  | return
deriving DecidableEq

namespace StreamListenerController

variable {ω : Type*}

/-- The constructor, once `listen` has returned. -/
def new (alpn : String) : StreamListenerController :=
  { alpn := alpn, accepted := .new (some DEFAULT_STREAM_BACKLOG) }

/-- The hooks of `accepted`: a discarded connection is closed. -/
def acceptedHooks (h : ListenerHooks ω) : QueueHooks ℕ IrohError ω where
  onDropped := h.close

/-- A connection was accepted. -/
def onConnection (h : ListenerHooks ω) (line : String) :
    StreamListenerController × ω → StreamListenerController × ω
  | (l, w) =>
      match parseLine line with
      | none => (l, w)
      | some (connectionId, remoteId) =>
          match h.createConnection connectionId remoteId w with
          | none => (l, h.closeConnection connectionId w)
          | some w =>
              let (accepted, w) := MessageQueue.push (acceptedHooks h) connectionId (l.accepted, w)
              ({ l with accepted }, w)

/-- Stop listening, once. -/
def finish (h : ListenerHooks ω) (error : Option IrohError) :
    StreamListenerController × ω → StreamListenerController × ω
  | (l, w) =>
      if l.disposed then (l, w)
      else
        let (accepted, w) := MessageQueue.close (acceptedHooks h) error (l.accepted, h.release w)
        ({ l with disposed := true, accepted }, h.onDispose w)

def handle (h : ListenerHooks ω) :
    ListenerEvent → StreamListenerController × ω → StreamListenerController × ω
  | .onConnection line, p => onConnection h line p
  | .onClose event, p => finish h (parseCloseEvent event) p
  | .close, p => finish h none p
  | .next, (l, w) => ({ l with accepted := l.accepted.next }, w)
  | .return, (l, w) =>
      let (accepted, w) := MessageQueue.return (acceptedHooks h) (l.accepted, w)
      ({ l with accepted }, w)

/-! ## The line -/

theorem toList_toString (n : ℕ) : (toString n).toList = Nat.toDigits 10 n := by
  rw [Nat.toString_eq_ofList_toDigits]
  exact String.toList_ofList

theorem isDigit_of_mem_toString {n : ℕ} {c : Char} (hc : c ∈ (toString n).toList) :
    c.isDigit = true := by
  rw [toList_toString] at hc
  exact Nat.isDigit_of_mem_toDigits (by decide) (by decide) hc

theorem numberOf_toString (n : ℕ) : numberOf (toString n).toList = some n := by
  have hne : (toString n).toList ≠ [] := by
    rw [toList_toString]
    exact Nat.toDigits_ne_nil
  have hall : (toString n).toList.all Char.isDigit = true :=
    List.all_eq_true.mpr fun _ hc => isDigit_of_mem_toString hc
  rw [numberOf, if_pos ⟨hne, hall⟩, toList_toString,
    Nat.ofDigitChars_toDigits (by decide) (by decide)]

/-- What the binding sends is read back. -/
theorem parseLine_acceptedLine (connectionId : ℕ) (remoteId : String) :
    parseLine (acceptedLine connectionId remoteId) = some (connectionId, remoteId) := by
  have hspace : ' ' ∉ (toString connectionId).toList := by
    intro hc
    exact absurd (isDigit_of_mem_toString hc) (by decide)
  have htext : (acceptedLine connectionId remoteId).toList =
      (toString connectionId).toList ++ ' ' :: remoteId.toList := by
    rw [acceptedLine, String.toList_append, String.toList_append, List.append_assoc]
    rfl
  unfold parseLine
  rw [htext, idxOf?_append_cons hspace]
  have hnumber := numberOf_toString connectionId
  rw [toList_toString] at hnumber
  simp [hnumber, String.ofList_toList]

/-! ## What each function does -/

theorem finish_disposed (h : ListenerHooks ω) (error : Option IrohError)
    {l : StreamListenerController} (hl : l.disposed = true) (w : ω) :
    finish h error (l, w) = (l, w) := by
  simp [finish, hl]

theorem finish_live (h : ListenerHooks ω) (error : Option IrohError)
    {l : StreamListenerController} (hl : l.disposed = false) (w : ω) :
    finish h error (l, w) =
      ({ l with
        disposed := true
        accepted := (MessageQueue.close (acceptedHooks h) error (l.accepted, h.release w)).1 },
        h.onDispose (MessageQueue.close (acceptedHooks h) error (l.accepted, h.release w)).2) := by
  simp [finish, hl]

end StreamListenerController

end Iroh
