/-!
# Errors of the core

The error taxonomy, and the errors of the transport that the core maps onto it.  The
errors of the transport carry the text they are displayed with.
-/

namespace Iroh.Core

/-- All errors the core can produce. -/
inductive IrohError where
  | internal (detail : String)
  | invalidHandle (handle : UInt64)
  | invalidTicket (detail : String)
  | invalidPath (detail : String)
  | endpointBind (detail : String)
  | blobImport (detail : String)
  | blobDownload (detail : String)
  | blobExport (detail : String)
  | cancelled
  | gossipSubscribe (detail : String)
  | gossipBroadcast (detail : String)
  | gossipMessageTooLarge (detail : String)
  | streamListen (detail : String)
  | streamConnect (detail : String)
  | streamOpen (detail : String)
  | streamSend (detail : String)
  | streamClosed (detail : String)
  | streamFrameTooLarge (detail : String)
  | streamOverflow (detail : String)
deriving DecidableEq

namespace IrohError

/-- The stable numeric code. -/
def code : IrohError → UInt32
  | .internal _ => 1000
  | .invalidHandle _ => 1001
  | .invalidTicket _ => 1002
  | .invalidPath _ => 1003
  | .endpointBind _ => 2000
  | .blobImport _ => 3000
  | .blobDownload _ => 3001
  | .blobExport _ => 3002
  | .cancelled => 3003
  | .gossipSubscribe _ => 4000
  | .gossipBroadcast _ => 4001
  | .gossipMessageTooLarge _ => 4002
  | .streamListen _ => 5000
  | .streamConnect _ => 5001
  | .streamOpen _ => 5002
  | .streamSend _ => 5003
  | .streamClosed _ => 5004
  | .streamFrameTooLarge _ => 5005
  | .streamOverflow _ => 5006

/-- The text the error is displayed with. -/
def display : IrohError → String
  | .internal detail => "internal error: " ++ detail
  | .invalidHandle handle => "invalid or stale handle: " ++ toString handle
  | .invalidTicket detail => "invalid blob ticket: " ++ detail
  | .invalidPath detail => "invalid path: " ++ detail
  | .endpointBind detail => "failed to create endpoint: " ++ detail
  | .blobImport detail => "failed to share blob: " ++ detail
  | .blobDownload detail => "failed to download blob: " ++ detail
  | .blobExport detail => "failed to export blob: " ++ detail
  | .cancelled => "transfer cancelled"
  | .gossipSubscribe detail => "failed to subscribe to gossip topic: " ++ detail
  | .gossipBroadcast detail => "failed to broadcast gossip message: " ++ detail
  | .gossipMessageTooLarge detail => "gossip message too large: " ++ detail
  | .streamListen detail => "failed to listen on alpn: " ++ detail
  | .streamConnect detail => "failed to connect: " ++ detail
  | .streamOpen detail => "failed to open stream: " ++ detail
  | .streamSend detail => "failed to send on stream: " ++ detail
  | .streamClosed detail => "stream closed: " ++ detail
  | .streamFrameTooLarge detail => "stream frame too large: " ++ detail
  | .streamOverflow detail => "stream overflow: " ++ detail

end IrohError

/-- An error as the bridge passes it on. -/
def encodeError (err : IrohError) : String :=
  "[iroh:" ++ toString err.code ++ "] " ++ err.display

/-- Why a stream or a connection ended, as the line the host parses. -/
def encodeClose : Option IrohError → String
  | none => "end"
  | some err => "error " ++ encodeError err

/-- Why a connection ended. -/
inductive ConnectionError where
  | locallyClosed
  | applicationClosed (text : String)
  | other (text : String)
deriving DecidableEq

/-- Why a read stopped. -/
inductive ReadError where
  | connectionLost (err : ConnectionError)
  | other (text : String)
deriving DecidableEq

/-- Why a write failed. -/
inductive WriteError where
  | closedStream (text : String)
  | stopped (text : String)
  | connectionLost (text : String)
  | other (text : String)
deriving DecidableEq

/-- Both sides' deliberate closes are no error. -/
def connectionCloseReason : ConnectionError → Option IrohError
  | .locallyClosed | .applicationClosed _ => none
  | .other text => some (.streamClosed text)

def readCloseReason : ReadError → Option IrohError
  | .connectionLost err => connectionCloseReason err
  | .other text => some (.streamClosed text)

/-- A peer or transport that ended the stream, or a failure to send. -/
def writeError : WriteError → IrohError
  | .closedStream text | .stopped text | .connectionLost text => .streamClosed text
  | .other text => .streamSend text

end Iroh.Core
