import ReactNativeIroh.Ts.AddressRoundTrip

/-!
# The replies that the bridge encodes

The bridge answers with JSON texts: the parts of a ticket, the address of an endpoint, what is
known of a remote endpoint and the children of a collection.  They are written by hand, with the
escapes of `pushJsonString`, and their strings come from peers.

Each text is read by the grammar as the object that its reply stands for, and the reply is read
back from that object.
-/

namespace Iroh.Core

open JsString Json

structure TicketInfo where
  hash : String
  format : String
  nodeId : String
  size : Option UInt64
deriving DecidableEq

structure RemoteAddrInfo where
  addr : String
  kind : String
  active : Bool
deriving DecidableEq

structure RemoteEndpointInfo where
  id : String
  addrs : List RemoteAddrInfo
deriving DecidableEq

/-- A child of a collection, as the manifest has it. -/
structure CollectionEntry where
  name : String
  ticket : String
deriving DecidableEq

/-! ## The texts -/

def pushSize : Option UInt64 → List Char
  | some size => ",\"size\":".toList ++ (toString size).toList
  | none => []

def ticketInfoToJson (info : TicketInfo) : String :=
  String.ofList ("\x7b\"hash\":".toList ++ pushJsonString info.hash ++ ",\"format\":".toList ++
    pushJsonString info.format ++ ",\"nodeId\":".toList ++ pushJsonString info.nodeId ++
    pushSize info.size ++ ['}'])

/-- One entry of the addresses of a remote endpoint. -/
def pushRemoteAddr (entry : RemoteAddrInfo) : List Char :=
  "\x7b\"addr\":".toList ++ pushJsonString entry.addr ++ ",\"kind\":".toList ++
    pushJsonString entry.kind ++ ",\"active\":".toList ++
    (if entry.active then "true" else "false").toList ++ ['}']

def remoteInfoToJson : Option RemoteEndpointInfo → String
  | none => "null"
  | some info =>
      String.ofList ("\x7b\"id\":".toList ++ pushJsonString info.id ++ ",\"addrs\":[".toList ++
        Separated.join ',' (info.addrs.map pushRemoteAddr) ++ "]\x7d".toList)

/-- One child of a collection. -/
def pushEntry (entry : CollectionEntry) : List Char :=
  "\x7b\"name\":".toList ++ pushJsonString entry.name ++ ",\"ticket\":".toList ++
    pushJsonString entry.ticket ++ ['}']

def collectionEntriesToJson (entries : List CollectionEntry) : String :=
  String.ofList ('[' :: Separated.join ',' (entries.map pushEntry) ++ [']'])

example : collectionEntriesToJson [⟨"a b", "t"⟩, ⟨"", "u"⟩] =
    "[\x7b\"name\":\"a b\",\"ticket\":\"t\"\x7d,\x7b\"name\":\"\",\"ticket\":\"u\"\x7d]" := by
  decide

/-! ## The values they stand for -/

def ticketInfoValue (info : TicketInfo) : Json :=
  .obj ([(ofText "hash", .str (ofText info.hash)), (ofText "format", .str (ofText info.format)),
    (ofText "nodeId", .str (ofText info.nodeId))] ++
      info.size.toList.map fun size => (ofText "size", .num (ofText (toString size))))

def remoteAddrValue (entry : RemoteAddrInfo) : Json :=
  .obj [(ofText "addr", .str (ofText entry.addr)), (ofText "kind", .str (ofText entry.kind)),
    (ofText "active", .bool entry.active)]

def remoteInfoValue : Option RemoteEndpointInfo → Json
  | none => .null
  | some info =>
      .obj [(ofText "id", .str (ofText info.id)),
        (ofText "addrs", .arr (info.addrs.map remoteAddrValue))]

def entryValue (entry : CollectionEntry) : Json :=
  .obj [(ofText "name", .str (ofText entry.name)), (ofText "ticket", .str (ofText entry.ticket))]

def collectionEntriesValue (entries : List CollectionEntry) : Json := .arr (entries.map entryValue)

/-! ## Reading them back -/

/-- The string of a key. -/
def stringAt (v : Json) (key : String) : Option String := (v.get key).bind asStr

/-- The array of a key, with each element read. -/
def arrayAt {β : Type} (v : Json) (key : String) (read : Json → Option β) : Option (List β) :=
  match v.get key with
  | some (.arr elements) => elements.mapM read
  | _ => none

/-- The number that a literal of digits stands for. -/
def readSize (literal : JsString) : Option UInt64 :=
  let n := Nat.ofDigitChars 10 (chars literal) 0
  if n < 2 ^ 64 then some (.ofNat n) else none

/-- The size of a ticket may be left out. -/
def sizeAt (v : Json) : Option (Option UInt64) :=
  match v.get "size" with
  | none => some none
  | some (.num literal) => (readSize literal).map some
  | some _ => none

def readTicketInfo (v : Json) : Option TicketInfo := do
  return {
    hash := ← stringAt v "hash"
    format := ← stringAt v "format"
    nodeId := ← stringAt v "nodeId"
    size := ← sizeAt v }

def readAddrInfo (v : Json) : Option EndpointAddrInfo := do
  return {
    id := ← stringAt v "id"
    relayUrls := ← arrayAt v "relayUrls" asStr
    directAddrs := ← arrayAt v "directAddrs" asStr }

def readRemoteAddr (v : Json) : Option RemoteAddrInfo := do
  let addr ← stringAt v "addr"
  let kind ← stringAt v "kind"
  match v.get "active" with
  | some (.bool active) => return { addr, kind, active }
  | _ => none

def readRemoteInfo : Json → Option (Option RemoteEndpointInfo)
  | .null => some none
  | v => do
      return some {
        id := ← stringAt v "id"
        addrs := ← arrayAt v "addrs" readRemoteAddr }

def readEntry (v : Json) : Option CollectionEntry := do
  return { name := ← stringAt v "name", ticket := ← stringAt v "ticket" }

def readEntries : Json → Option (List CollectionEntry)
  | .arr elements => elements.mapM readEntry
  | _ => none

/-! ## The texts are read as the values -/

theorem first_member (key : String) (t : JsString) :
    unit '{' :: keyUnits key [] ++ t = unit '{' :: commas [keyUnits key t] := by
  rw [commas, Separated.join_singleton, keyUnits_eq_append key t, List.cons_append]

theorem next_member {texts : List JsString} (h : texts ≠ []) (key : String) (t : JsString) :
    unit '{' :: commas texts ++ unit ',' :: keyUnits key [] ++ t =
      unit '{' :: commas (texts ++ [keyUnits key t]) := by
  rw [commas_append_singleton h, keyUnits_eq_append key t]
  simp only [List.cons_append, List.append_assoc]

theorem append_singleton_ne_nil (texts : List JsString) (t : JsString) : texts ++ [t] ≠ [] := by
  simp

theorem end_units : ['}'].flatMap units = [unit '}'] := by decide

theorem writesMember_string (key : String) (hkey : key.toList.flatMap pushChar = key.toList)
    (t : String) :
    WritesMember (keyUnits key ((pushJsonString t).flatMap units)) (ofText key, .str (ofText t)) :=
  writesMember_key key hkey (writes_pushJsonString t)

theorem hashKey : "\x7b\"hash\":".toList.flatMap units = unit '{' :: keyUnits "hash" [] := by
  decide

theorem formatKey :
    ",\"format\":".toList.flatMap units = unit ',' :: keyUnits "format" [] := by decide

theorem nodeIdKey :
    ",\"nodeId\":".toList.flatMap units = unit ',' :: keyUnits "nodeId" [] := by decide

theorem sizeKey : ",\"size\":".toList.flatMap units = unit ',' :: keyUnits "size" [] := by decide

theorem pushSize_some (size : UInt64) :
    pushSize (some size) = ",\"size\":".toList ++ (toString size).toList := rfl

theorem pushSize_units {texts : List JsString} (h : texts ≠ []) (size : Option UInt64) :
    unit '{' :: commas texts ++ (pushSize size).flatMap units =
      unit '{' :: commas (texts ++
        size.toList.map fun size => keyUnits "size" (ofText (toString size))) := by
  cases size with
  | none =>
      show _ ++ ([] : JsString) = _ :: commas (texts ++ [])
      rw [List.append_nil, List.append_nil]
  | some size =>
      rw [pushSize_some, List.flatMap_append, sizeKey, ← List.append_assoc, next_member h]
      rfl

theorem ticketInfoToJson_toList (info : TicketInfo) : (ticketInfoToJson info).toList =
    "\x7b\"hash\":".toList ++ pushJsonString info.hash ++ ",\"format\":".toList ++
      pushJsonString info.format ++ ",\"nodeId\":".toList ++ pushJsonString info.nodeId ++
      pushSize info.size ++ ['}'] := String.toList_ofList

theorem ofText_ticketInfoToJson (info : TicketInfo) : ofText (ticketInfoToJson info) =
    unit '{' :: (commas ([keyUnits "hash" ((pushJsonString info.hash).flatMap units),
      keyUnits "format" ((pushJsonString info.format).flatMap units),
      keyUnits "nodeId" ((pushJsonString info.nodeId).flatMap units)] ++
        info.size.toList.map fun size => keyUnits "size" (ofText (toString size))) ++
      [unit '}']) := by
  rw [ofText, ticketInfoToJson_toList]
  rw [List.flatMap_append, List.flatMap_append, List.flatMap_append, List.flatMap_append,
    List.flatMap_append, List.flatMap_append, List.flatMap_append, hashKey, formatKey, nodeIdKey,
    end_units]
  rw [first_member, next_member (List.cons_ne_nil _ _), next_member (append_singleton_ne_nil _ _),
    pushSize_units (append_singleton_ne_nil _ _)]
  simp only [List.cons_append, List.nil_append]

theorem ofText_toString (size : UInt64) :
    ofText (toString size) = (Nat.toDigits 10 size.toNat).flatMap units := by
  have hrepr : toString size = size.toNat.repr := rfl
  rw [ofText, hrepr, Nat.toList_repr]

/-- The size is read up to the brace behind it. -/
theorem writesField_size (size : UInt64) :
    WritesField (keyUnits "size" (ofText (toString size)))
      (ofText "size", .num (ofText (toString size))) where
  read := by
    have hkey := reads_pushChars "size".toList
    refine ⟨_, _, rfl, hkey, fun n hn rest hrest => ?_⟩
    obtain ⟨u, more, rfl, hu⟩ := hrest.number
    rw [ofText_toString] at hn ⊢
    exact (decimal_toDigits size.toNat).readValue hu hn more

theorem writes_ticketInfoToJson (info : TicketInfo) :
    Writes (ofText (ticketInfoToJson info)) (ticketInfoValue info) := by
  have hhash := (writesMember_string "hash" (by decide) info.hash).field
  have hformat := (writesMember_string "format" (by decide) info.format).field
  have hnodeId := (writesMember_string "nodeId" (by decide) info.nodeId).field
  rw [ofText_ticketInfoToJson, ticketInfoValue]
  cases info.size with
  | none =>
      exact @Writes.fields [(_, _), (_, _), (_, _)]
        (List.forall_mem_cons.mpr ⟨hhash, List.forall_mem_cons.mpr ⟨hformat,
          List.forall_mem_singleton.mpr hnodeId⟩⟩)
  | some size =>
      exact @Writes.fields [(_, _), (_, _), (_, _), (_, _)]
        (List.forall_mem_cons.mpr ⟨hhash, List.forall_mem_cons.mpr ⟨hformat,
          List.forall_mem_cons.mpr ⟨hnodeId, List.forall_mem_singleton.mpr
            (writesField_size size)⟩⟩⟩)

theorem addrKey : "\x7b\"addr\":".toList.flatMap units = unit '{' :: keyUnits "addr" [] := by
  decide

theorem kindKey : ",\"kind\":".toList.flatMap units = unit ',' :: keyUnits "kind" [] := by decide

theorem activeKey :
    ",\"active\":".toList.flatMap units = unit ',' :: keyUnits "active" [] := by decide

theorem pushRemoteAddr_units (entry : RemoteAddrInfo) : (pushRemoteAddr entry).flatMap units =
    unit '{' :: (commas [keyUnits "addr" ((pushJsonString entry.addr).flatMap units),
      keyUnits "kind" ((pushJsonString entry.kind).flatMap units),
      keyUnits "active" (ofText (if entry.active then "true" else "false"))] ++ [unit '}']) := by
  unfold pushRemoteAddr
  rw [List.flatMap_append, List.flatMap_append, List.flatMap_append, List.flatMap_append,
    List.flatMap_append, List.flatMap_append, addrKey, kindKey, activeKey, end_units]
  have hword : (if entry.active then "true" else "false").toList.flatMap units =
    ofText (if entry.active then "true" else "false") := rfl
  rw [first_member, next_member (List.cons_ne_nil _ _), next_member (append_singleton_ne_nil _ _),
    hword]
  simp only [List.cons_append, List.nil_append]

theorem writes_pushRemoteAddr (entry : RemoteAddrInfo) :
    Writes ((pushRemoteAddr entry).flatMap units) (remoteAddrValue entry) := by
  have haddr := writesMember_string "addr" (by decide) entry.addr
  have hkind := writesMember_string "kind" (by decide) entry.kind
  have hactive := writesMember_key "active" (by decide) (writes_bool entry.active)
  rw [pushRemoteAddr_units]
  exact @Writes.obj [(_, _), (_, _), (_, _)]
    (List.forall_mem_cons.mpr ⟨haddr, List.forall_mem_cons.mpr ⟨hkind,
      List.forall_mem_singleton.mpr hactive⟩⟩)

/-- An array behind its bracket is the last member. -/
theorem next_array {texts : List JsString} (h : texts ≠ []) (key : String) (items : JsString) :
    unit '{' :: commas texts ++ (unit ',' :: keyUnits key [] ++ [unit '[']) ++ items ++
        ([unit ']'] ++ [unit '}']) =
      unit '{' :: commas (texts ++ [keyUnits key (unit '[' :: (items ++ [unit ']']))]) ++
        [unit '}'] := by
  rw [← next_member h]
  simp only [List.cons_append, List.append_assoc, List.nil_append]

/-- The key of the addresses, with the bracket of their array. -/
theorem addrsKey : ",\"addrs\":[".toList.flatMap units =
    unit ',' :: keyUnits "addrs" [] ++ [unit '['] := by decide

theorem addrsEnd : "]\x7d".toList.flatMap units = [unit ']'] ++ [unit '}'] := by decide

theorem remoteInfoToJson_toList (info : RemoteEndpointInfo) :
    (remoteInfoToJson (some info)).toList =
      "\x7b\"id\":".toList ++ pushJsonString info.id ++ ",\"addrs\":[".toList ++
        Separated.join ',' (info.addrs.map pushRemoteAddr) ++ "]\x7d".toList :=
  String.toList_ofList

theorem ofText_remoteInfoToJson (info : RemoteEndpointInfo) :
    ofText (remoteInfoToJson (some info)) =
      unit '{' :: (commas [keyUnits "id" ((pushJsonString info.id).flatMap units),
        keyUnits "addrs" (unit '[' :: (commas (info.addrs.map fun entry =>
          (pushRemoteAddr entry).flatMap units) ++ [unit ']']))] ++ [unit '}']) := by
  rw [ofText, remoteInfoToJson_toList]
  rw [List.flatMap_append, List.flatMap_append, List.flatMap_append, List.flatMap_append, idKey,
    addrsKey, addrsEnd, join_units, List.map_map, first_member,
    next_array (List.cons_ne_nil _ _)]
  simp only [List.cons_append, List.nil_append, Function.comp_def]

theorem writes_remoteInfoToJson : (info : Option RemoteEndpointInfo) →
    Writes (ofText (remoteInfoToJson info)) (remoteInfoValue info)
  | none => writes_null
  | some info => by
      have hid := writesMember_string "id" (by decide) info.id
      have haddrs := writesMember_key "addrs" (by decide)
        (Writes.items info.addrs writes_pushRemoteAddr)
      rw [ofText_remoteInfoToJson]
      exact @Writes.obj [(_, _), (_, _)]
        (List.forall_mem_cons.mpr ⟨hid, List.forall_mem_singleton.mpr haddrs⟩)

theorem nameKey : "\x7b\"name\":".toList.flatMap units = unit '{' :: keyUnits "name" [] := by
  decide

theorem ticketKey :
    ",\"ticket\":".toList.flatMap units = unit ',' :: keyUnits "ticket" [] := by decide

theorem pushEntry_units (entry : CollectionEntry) : (pushEntry entry).flatMap units =
    unit '{' :: (commas [keyUnits "name" ((pushJsonString entry.name).flatMap units),
      keyUnits "ticket" ((pushJsonString entry.ticket).flatMap units)] ++ [unit '}']) := by
  unfold pushEntry
  rw [List.flatMap_append, List.flatMap_append, List.flatMap_append, List.flatMap_append, nameKey,
    ticketKey, end_units]
  rw [first_member, next_member (List.cons_ne_nil _ _)]
  simp only [List.cons_append, List.nil_append]

theorem writes_pushEntry (entry : CollectionEntry) :
    Writes ((pushEntry entry).flatMap units) (entryValue entry) := by
  have hname := writesMember_string "name" (by decide) entry.name
  have hticket := writesMember_string "ticket" (by decide) entry.ticket
  rw [pushEntry_units]
  exact @Writes.obj [(_, _), (_, _)]
    (List.forall_mem_cons.mpr ⟨hname, List.forall_mem_singleton.mpr hticket⟩)

theorem collectionEntriesToJson_toList (entries : List CollectionEntry) :
    (collectionEntriesToJson entries).toList =
      '[' :: Separated.join ',' (entries.map pushEntry) ++ [']'] := String.toList_ofList

theorem writes_collectionEntriesToJson (entries : List CollectionEntry) :
    Writes (ofText (collectionEntriesToJson entries)) (collectionEntriesValue entries) := by
  have hentries := Writes.items entries writes_pushEntry
  rw [ofText, collectionEntriesToJson_toList, List.flatMap_append, List.flatMap_cons, join_units,
    List.map_map]
  exact hentries

/-! ## The replies are read back -/

theorem asStr_ofText (t : String) : asStr (.str (ofText t)) = some t := by
  rw [asStr, toText_ofText]

theorem stringAt_of_get {v : Json} {key : String} {t : String}
    (h : v.get key = some (.str (ofText t))) : stringAt v key = some t := by
  rw [stringAt, h, Option.bind_some, asStr_ofText]

theorem arrayAt_of_get {α : Type} {v : Json} {key : String} {read : Json → Option α}
    {items : List α} {value : α → Json} (h : v.get key = some (.arr (items.map value)))
    (hread : ∀ a, read (value a) = some a) : arrayAt v key read = some items := by
  have hitems := mapM_map_pure (k := id) (l := items) fun a _ => hread a
  rw [List.map_id] at hitems
  rw [arrayAt, h]
  exact hitems

theorem readSize_toString (size : UInt64) : readSize (ofText (toString size)) = some size := by
  have hrepr : toString size = size.toNat.repr := rfl
  have hdigits : Nat.ofDigitChars 10 (chars (ofText (toString size))) 0 = size.toNat := by
    rw [chars_ofText, hrepr, Nat.toList_repr, Nat.ofDigitChars_ten_toDigits]
  rw [readSize, hdigits, if_pos size.toNat_lt, UInt64.ofNat_toNat]

theorem ticketInfoValue_get (info : TicketInfo) :
    (ticketInfoValue info).get "hash" = some (.str (ofText info.hash)) ∧
      (ticketInfoValue info).get "format" = some (.str (ofText info.format)) ∧
      (ticketInfoValue info).get "nodeId" = some (.str (ofText info.nodeId)) ∧
      (ticketInfoValue info).get "size" =
        info.size.map fun size => .num (ofText (toString size)) := by
  obtain ⟨hash, format, nodeId, size⟩ := info
  cases size <;> refine ⟨?_, ?_, ?_, ?_⟩ <;>
    simp [ticketInfoValue, Json.get, ofText_injective.eq_iff]

theorem sizeAt_ticketInfoValue (info : TicketInfo) :
    sizeAt (ticketInfoValue info) = some info.size := by
  rw [sizeAt, (ticketInfoValue_get info).2.2.2]
  cases info.size with
  | none => rfl
  | some size =>
      show (readSize (ofText (toString size))).map some = some (some size)
      rw [readSize_toString, Option.map_some]

theorem readTicketInfo_ticketInfoValue (info : TicketInfo) :
    readTicketInfo (ticketInfoValue info) = some info := by
  obtain ⟨hhash, hformat, hnodeId, -⟩ := ticketInfoValue_get info
  rw [readTicketInfo, stringAt_of_get hhash, stringAt_of_get hformat, stringAt_of_get hnodeId,
    sizeAt_ticketInfoValue]
  rfl

theorem readAddrInfo_addrValue (info : EndpointAddrInfo) :
    readAddrInfo (addrValue info) = some info := by
  obtain ⟨hid, hrelays, hdirects⟩ := addrValue_get info
  rw [readAddrInfo, stringAt_of_get hid, arrayAt_of_get hrelays asStr_ofText,
    arrayAt_of_get hdirects asStr_ofText]
  rfl

theorem remoteAddrValue_get (entry : RemoteAddrInfo) :
    (remoteAddrValue entry).get "addr" = some (.str (ofText entry.addr)) ∧
      (remoteAddrValue entry).get "kind" = some (.str (ofText entry.kind)) ∧
      (remoteAddrValue entry).get "active" = some (.bool entry.active) := by
  refine ⟨?_, ?_, ?_⟩ <;> simp [remoteAddrValue, Json.get, ofText_injective.eq_iff]

theorem readRemoteAddr_remoteAddrValue (entry : RemoteAddrInfo) :
    readRemoteAddr (remoteAddrValue entry) = some entry := by
  obtain ⟨haddr, hkind, hactive⟩ := remoteAddrValue_get entry
  rw [readRemoteAddr, stringAt_of_get haddr, stringAt_of_get hkind, hactive]
  rfl

theorem remoteInfoValue_get (info : RemoteEndpointInfo) :
    (remoteInfoValue (some info)).get "id" = some (.str (ofText info.id)) ∧
      (remoteInfoValue (some info)).get "addrs" = some (.arr (info.addrs.map remoteAddrValue)) := by
  refine ⟨?_, ?_⟩ <;> simp [remoteInfoValue, Json.get, ofText_injective.eq_iff]

theorem readRemoteInfo_remoteInfoValue : (info : Option RemoteEndpointInfo) →
    readRemoteInfo (remoteInfoValue info) = some info
  | none => rfl
  | some info => by
      obtain ⟨hid, haddrs⟩ := remoteInfoValue_get info
      have hid := stringAt_of_get hid
      have haddrs := arrayAt_of_get haddrs readRemoteAddr_remoteAddrValue
      rw [remoteInfoValue] at hid haddrs ⊢
      rw [readRemoteInfo, hid, haddrs]
      · rfl
      · exact Json.noConfusion

theorem entryValue_get (entry : CollectionEntry) :
    (entryValue entry).get "name" = some (.str (ofText entry.name)) ∧
      (entryValue entry).get "ticket" = some (.str (ofText entry.ticket)) := by
  refine ⟨?_, ?_⟩ <;> simp [entryValue, Json.get, ofText_injective.eq_iff]

theorem readEntry_entryValue (entry : CollectionEntry) :
    readEntry (entryValue entry) = some entry := by
  obtain ⟨hname, hticket⟩ := entryValue_get entry
  rw [readEntry, stringAt_of_get hname, stringAt_of_get hticket]
  rfl

theorem readEntries_collectionEntriesValue (entries : List CollectionEntry) :
    readEntries (collectionEntriesValue entries) = some entries := by
  have hentries := mapM_map_pure (k := id) (l := entries) fun entry _ => readEntry_entryValue entry
  rw [List.map_id] at hentries
  exact hentries

/-- Every reply is a text of the grammar and is read as its value, from which its fields, strings
and lists are read back. -/
theorem replies_read_back :
    (∀ info : TicketInfo,
      Json.parse (ofText (ticketInfoToJson info)) = some (ticketInfoValue info) ∧
        readTicketInfo (ticketInfoValue info) = some info) ∧
    (∀ info : EndpointAddrInfo,
      Json.parse (ofText (endpointAddrToJson info)) = some (addrValue info) ∧
        readAddrInfo (addrValue info) = some info) ∧
    (∀ info : Option RemoteEndpointInfo,
      Json.parse (ofText (remoteInfoToJson info)) = some (remoteInfoValue info) ∧
        readRemoteInfo (remoteInfoValue info) = some info) ∧
    ∀ entries : List CollectionEntry,
      Json.parse (ofText (collectionEntriesToJson entries)) =
          some (collectionEntriesValue entries) ∧
        readEntries (collectionEntriesValue entries) = some entries := by
  refine ⟨fun info => ⟨?_, ?_⟩, fun info => ⟨?_, ?_⟩, fun info => ⟨?_, ?_⟩, fun entries => ⟨?_, ?_⟩⟩
  · exact (writes_ticketInfoToJson info).parse
  · exact readTicketInfo_ticketInfoValue info
  · exact (writes_endpointAddrToJson info).parse
  · exact readAddrInfo_addrValue info
  · exact (writes_remoteInfoToJson info).parse
  · exact readRemoteInfo_remoteInfoValue info
  · exact (writes_collectionEntriesToJson entries).parse
  · exact readEntries_collectionEntriesValue entries

end Iroh.Core
