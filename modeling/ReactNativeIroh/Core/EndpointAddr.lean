import Mathlib.Data.Finset.Sort
import Mathlib.Data.Sum.Order
import ReactNativeIroh.Core.Error
import ReactNativeIroh.Ts.Json

/-!
# Addresses of endpoints

The address of an endpoint is its id and a set of transport addresses.  The bridge splits the
set into the relay URLs and the direct addresses and writes a JSON object.  The bootstrap
peers of a subscription come back as such objects, one on a line.

The types of ids, URLs and sockets are arguments, with the text each of them has, and so are
`serde_json::from_str` and the way Rust quotes a string for debugging.
-/

namespace Iroh.Core

/-- The constructors are in the order of the variants. -/
inductive TransportAddr (υ σ κ : Type*) where
  | relay (url : υ)
  | ip (socket : σ)
  | custom (addr : κ)
deriving DecidableEq

namespace TransportAddr

variable {υ σ κ : Type*}

/-- The variants one after the other, as the derived order has them. -/
def toLex : TransportAddr υ σ κ → υ ⊕ₗ σ ⊕ₗ κ
  | .relay url => Sum.inlₗ url
  | .ip socket => Sum.inrₗ (Sum.inlₗ socket)
  | .custom addr => Sum.inrₗ (Sum.inrₗ addr)

theorem toLex_injective : Function.Injective (toLex : TransportAddr υ σ κ → _) := by
  intro a b h
  cases a <;> cases b <;> simp_all [toLex]

instance [LinearOrder υ] [LinearOrder σ] [LinearOrder κ] : LinearOrder (TransportAddr υ σ κ) :=
  .lift' toLex toLex_injective

def relay? : TransportAddr υ σ κ → Option υ
  | .relay url => some url
  | _ => none

def ip? : TransportAddr υ σ κ → Option σ
  | .ip socket => some socket
  | _ => none

/-- A relay URL or a socket. -/
def isStandard : TransportAddr υ σ κ → Bool
  | .custom _ => false
  | _ => true

end TransportAddr

structure EndpointAddr (ι υ σ κ : Type*) where
  id : ι
  addrs : Finset (TransportAddr υ σ κ)

structure EndpointAddrInfo where
  id : String
  relayUrls : List String
  directAddrs : List String

/-! ## JSON texts -/

/-- A character in a JSON string literal. -/
def pushChar (ch : Char) : List Char :=
  if ch = '"' then ['\\', '"']
  else if ch = '\\' then ['\\', '\\']
  else if ch = '\n' then ['\\', 'n']
  else if ch = '\r' then ['\\', 'r']
  else if ch = '\t' then ['\\', 't']
  else if ch.toNat < 0x20 then Manifest.escapeUnit (.ofNat ch.toNat)
  else [ch]

def pushJsonString (value : String) : List Char := '"' :: value.toList.flatMap pushChar ++ ['"']

def pushStringArray (values : List String) : List Char :=
  '[' :: Separated.join ',' (values.map pushJsonString) ++ [']']

def endpointAddrToJson (info : EndpointAddrInfo) : String :=
  String.ofList ("\x7b\"id\":".toList ++ pushJsonString info.id ++ ",\"relayUrls\":".toList ++
    pushStringArray info.relayUrls ++ ",\"directAddrs\":".toList ++
    pushStringArray info.directAddrs ++ ['}'])

/-- A string of a value, as a text. -/
def asStr : Json → Option String
  | .str s => some (JsString.toText s)
  | _ => none

/-- The strings of the array under the key. -/
def jsonStrings (value : Json) (key : String) : List String :=
  match value.get key with
  | some (.arr elements) => elements.filterMap asStr
  | _ => []

/-! ## Libraries -/

/-- The parts of the libraries that addresses are read and written with. -/
structure AddrLib (ι υ σ : Type) where
  showId : ι → String
  parseId : String → Except String ι
  showUrl : υ → String
  parseUrl : String → Except String υ
  showSocket : σ → String
  parseSocket : String → Except String σ
  /-- `serde_json::from_str`. -/
  fromStr : String → Except String Json
  quote : String → String

namespace AddrLib

variable {ι υ σ κ : Type} [LinearOrder υ] [LinearOrder σ] [LinearOrder κ] (lib : AddrLib ι υ σ)

/-- Transport addresses of other kinds are left out. -/
def addrInfo (addr : EndpointAddr ι υ σ κ) : EndpointAddrInfo where
  id := lib.showId addr.id
  relayUrls := ((addr.addrs.sort (· ≤ ·)).filterMap TransportAddr.relay?).map lib.showUrl
  directAddrs := ((addr.addrs.sort (· ≤ ·)).filterMap TransportAddr.ip?).map lib.showSocket

def parseRelay (relay : String) : Except String (TransportAddr υ σ κ) :=
  match lib.parseUrl relay with
  | .ok url => .ok (.relay url)
  | .error e => .error ("relay url " ++ lib.quote relay ++ " is invalid: " ++ e)

def parseDirect (direct : String) : Except String (TransportAddr υ σ κ) :=
  match lib.parseSocket direct with
  | .ok socket => .ok (.ip socket)
  | .error e => .error ("direct addr " ++ lib.quote direct ++ " is invalid: " ++ e)

def parseEndpointAddr (json : String) : Except String (EndpointAddr ι υ σ κ) := do
  let value ← (lib.fromStr json).mapError fun e => "addr json is invalid: " ++ e
  let idStr ← ((value.get "id").bind asStr).elim (.error "addr is missing id") .ok
  let id ← (lib.parseId idStr).mapError fun e => "endpoint id is invalid: " ++ e
  let relays ← (jsonStrings value "relayUrls").mapM lib.parseRelay
  let directs ← (jsonStrings value "directAddrs").mapM lib.parseDirect
  return { id, addrs := (relays ++ directs).toFinset }

/-- The non-empty lines. -/
def bootstrapLines (joined : String) : List String :=
  (Separated.segments '\n' joined.toList).map String.ofList

def parseBootstrap (joined : String) : Except IrohError (List (EndpointAddr ι υ σ κ)) :=
  (bootstrapLines joined).mapM fun line =>
    (lib.parseEndpointAddr line).mapError fun detail => .gossipSubscribe ("bootstrap " ++ detail)

/-- What `gossip_subscribe` does before it returns: its result, and the addresses that were added
to the lookup of the endpoint, which it returns the peers of. -/
def gossipSubscribe (endpoint : ℕ) (isOpen : Bool) (joined : String)
    (lookup : List (EndpointAddr ι υ σ κ)) :
    Except IrohError (List ι) × List (EndpointAddr ι υ σ κ) :=
  if isOpen then
    match lib.parseBootstrap joined with
    | .ok bootstrap => (.ok (bootstrap.map EndpointAddr.id), lookup ++ bootstrap)
    | .error e => (.error e, lookup)
  else (.error (.invalidHandle (.ofNat endpoint)), lookup)

end AddrLib

end Iroh.Core
