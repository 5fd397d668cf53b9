import Mathlib.Data.String.Basic
import ReactNativeIroh.Core.EndpointAddr
import ReactNativeIroh.Ts.JsonRoundTrip

/-!
# Addresses there and back

The TypeScript layer parses the JSON object of an address, and serializes it to hand it back as
a bootstrap peer.  Both layers write the same object, with their own escapes, so the core reads
back the addresses it gave out.

`Lawful` says what is assumed of the libraries: parsing inverts display, and `serde_json` reads
the object of an address as the grammar does.
-/

namespace Iroh

open JsString

/-- An address of the public API.  Its fields are as they were parsed: TypeScript's types are
not checked. -/
structure EndpointAddr where
  id : Option Json
  relayUrls : Json
  directAddrs : Json

/-- `value ?? []`. -/
def orEmpty : Option Json → Json
  | none | some .null => .arr []
  | some v => v

def parseEndpointAddr (json : JsString) : Option EndpointAddr :=
  (Json.parse json).bind fun raw =>
    match raw with
    | .null => none
    | raw => some {
        id := raw.get "id"
        relayUrls := orEmpty (raw.get "relayUrls")
        directAddrs := orEmpty (raw.get "directAddrs") }

/-- A member that is undefined is left out. -/
def serializeEndpointAddr (addr : EndpointAddr) : JsString :=
  Json.stringify (.obj (addr.id.toList.map (fun v => (ofText "id", v)) ++
    [(ofText "relayUrls", addr.relayUrls), (ofText "directAddrs", addr.directAddrs)]))

/-! ## The object of an address -/

def textArray (values : List String) : Json := .arr (values.map fun t => .str (ofText t))

/-- The value that the object of an address has. -/
def addrValue (info : Core.EndpointAddrInfo) : Json :=
  .obj [(ofText "id", .str (ofText info.id)), (ofText "relayUrls", textArray info.relayUrls),
    (ofText "directAddrs", textArray info.directAddrs)]

theorem addrValue_get (info : Core.EndpointAddrInfo) :
    (addrValue info).get "id" = some (.str (ofText info.id)) ∧
      (addrValue info).get "relayUrls" = some (textArray info.relayUrls) ∧
      (addrValue info).get "directAddrs" = some (textArray info.directAddrs) := by
  refine ⟨?_, ?_, ?_⟩ <;> simp [addrValue, Json.get, ofText_injective.eq_iff]

theorem textual_textArray (values : List String) : (textArray values).Textual := by
  rw [textArray, Json.Textual]
  induction values with
  | nil => trivial
  | cons t rest ih => exact ⟨trivial, ih⟩

theorem textual_addrValue (info : Core.EndpointAddrInfo) : (addrValue info).Textual :=
  ⟨trivial, textual_textArray _, textual_textArray _, trivial⟩

/-! ## What the core writes -/

namespace Core

open Json

/-- A character is read back, escaped or not. -/
theorem reads_pushChar (ch : Char) : Reads ((pushChar ch).flatMap units) (units ch) := by
  unfold pushChar
  by_cases h1 : ch = '"'
  · subst h1
    exact .escape (by decide) (by decide)
  by_cases h2 : ch = '\\'
  · subst h2
    exact .escape (by decide) (by decide)
  by_cases h3 : ch = '\n'
  · subst h3
    exact .escape (by decide) (by decide)
  by_cases h4 : ch = '\r'
  · subst h4
    exact .escape (by decide) (by decide)
  by_cases h5 : ch = '\t'
  · subst h5
    exact .escape (by decide) (by decide)
  rw [if_neg h1, if_neg h2, if_neg h3, if_neg h4, if_neg h5]
  have hvalid : ch.toNat < 0xD800 ∨ 0xDFFF < ch.toNat ∧ ch.toNat < 0x110000 := ch.valid
  split
  · next hc =>
      have hunits : units ch = [.ofNat ch.toNat] := if_pos (by omega)
      rw [hunits]
      exact reads_escapeUnit _
  · next hc =>
      rw [List.flatMap_singleton]
      unfold units
      split
      · next hlt =>
          have hnat : (UInt16.ofNat ch.toNat).toNat = ch.toNat := by
            simp only [UInt16.toNat_ofNat']
            omega
          refine .single ?_ ?_ (not_lt_of_toNat (by omega))
          · intro hu
            have := congrArg UInt16.toNat hu
            rw [hnat, toNat_unit (by decide)] at this
            exact h1 (Char.toNat_inj.mp this)
          · intro hu
            have := congrArg UInt16.toNat hu
            rw [hnat, toNat_unit (by decide)] at this
            exact h2 (Char.toNat_inj.mp this)
      · next hle =>
          refine (reads_surrogate ?_).append (reads_surrogate ?_)
          · simp only [UInt16.toNat_ofNat']
            omega
          · simp only [UInt16.toNat_ofNat']
            omega

theorem reads_pushChars (cs : List Char) :
    Reads ((cs.flatMap pushChar).flatMap units) (cs.flatMap units) := by
  induction cs with
  | nil => exact .nil
  | cons ch cs ih =>
      rw [List.flatMap_cons, List.flatMap_append, List.flatMap_cons]
      exact (reads_pushChar ch).append ih

theorem pushJsonString_units (t : String) :
    (pushJsonString t).flatMap units =
      unit '"' :: ((t.toList.flatMap pushChar).flatMap units ++ [unit '"']) := by
  simp only [pushJsonString, List.cons_append, List.flatMap_cons, List.flatMap_append,
    List.flatMap_nil, List.append_nil]
  rfl

theorem writes_pushJsonString (t : String) :
    Writes ((pushJsonString t).flatMap units) (.str (ofText t)) := by
  rw [pushJsonString_units]
  exact (reads_pushChars t.toList).writes

theorem join_units (texts : List (List Char)) :
    (Separated.join ',' texts).flatMap units = commas (texts.map fun t => t.flatMap units) := by
  induction texts with
  | nil => rfl
  | cons t rest ih =>
      cases rest with
      | nil => simp only [Separated.join_singleton, List.map_cons, List.map_nil, commas]
      | cons t' rest =>
          rw [Separated.join_cons_cons, List.flatMap_append, List.flatMap_cons, ih]
          simp only [List.map_cons, commas_cons_cons]
          rfl

theorem writes_pushStringArray (values : List String) :
    Writes ((pushStringArray values).flatMap units) (textArray values) := by
  have htext : (pushStringArray values).flatMap units =
      unit '[' :: (commas (values.map fun t => (pushJsonString t).flatMap units) ++
        [unit ']']) := by
    simp only [pushStringArray, List.cons_append, List.flatMap_cons, List.flatMap_append,
      List.flatMap_nil, List.append_nil, join_units, List.map_map, Function.comp_def]
    rfl
  rw [htext]
  exact .items values writes_pushJsonString

/-- The text of a member, for the code units of its value. -/
def keyUnits (key : String) (t : JsString) : JsString :=
  unit '"' :: (ofText key ++ unit '"' :: unit ':' :: t)

/-- A member whose key is a word. -/
theorem writesMember_key (key : String) (hkey : key.toList.flatMap pushChar = key.toList)
    {t : JsString} {v : Json} (h : Writes t v) :
    WritesMember (keyUnits key t) (ofText key, v) where
  read := by
    have hreads := reads_pushChars key.toList
    rw [hkey] at hreads
    exact ⟨ofText key, t, rfl, hreads, h⟩

theorem keyUnits_eq_append (key : String) (t : JsString) :
    keyUnits key t = keyUnits key [] ++ t := by
  simp only [keyUnits, List.cons_append, List.append_assoc, List.nil_append]

theorem idKey : "\x7b\"id\":".toList.flatMap units = unit '{' :: keyUnits "id" [] := by decide

theorem relayUrlsKey :
    ",\"relayUrls\":".toList.flatMap units = unit ',' :: keyUnits "relayUrls" [] := by decide

theorem directAddrsKey :
    ",\"directAddrs\":".toList.flatMap units = unit ',' :: keyUnits "directAddrs" [] := by decide

theorem endpointAddrToJson_toList (info : EndpointAddrInfo) :
    (endpointAddrToJson info).toList =
      "\x7b\"id\":".toList ++ pushJsonString info.id ++ ",\"relayUrls\":".toList ++
        pushStringArray info.relayUrls ++ ",\"directAddrs\":".toList ++
        pushStringArray info.directAddrs ++ ['}'] :=
  String.toList_ofList

theorem ofText_endpointAddrToJson (info : EndpointAddrInfo) :
    ofText (endpointAddrToJson info) =
      unit '{' :: (commas [keyUnits "id" ((pushJsonString info.id).flatMap units),
        keyUnits "relayUrls" ((pushStringArray info.relayUrls).flatMap units),
        keyUnits "directAddrs" ((pushStringArray info.directAddrs).flatMap units)] ++
          [unit '}']) := by
  have hend : ['}'].flatMap units = [unit '}'] := by decide
  rw [ofText, endpointAddrToJson_toList, List.flatMap_append, List.flatMap_append,
    List.flatMap_append, List.flatMap_append, List.flatMap_append, List.flatMap_append, idKey,
    relayUrlsKey, directAddrsKey, hend]
  rw [keyUnits_eq_append "id" (List.flatMap _ _), keyUnits_eq_append "relayUrls" (List.flatMap _ _),
    keyUnits_eq_append "directAddrs" (List.flatMap _ _)]
  simp only [commas, Separated.join_cons_cons, Separated.join_singleton, List.append_assoc,
    List.cons_append]

/-- The object that the core writes for an address. -/
theorem writes_endpointAddrToJson (info : EndpointAddrInfo) :
    Writes (ofText (endpointAddrToJson info)) (addrValue info) := by
  have hid := writesMember_key "id" (by decide) (writes_pushJsonString info.id)
  have hrelays :=
    writesMember_key "relayUrls" (by decide) (writes_pushStringArray info.relayUrls)
  have hdirects :=
    writesMember_key "directAddrs" (by decide) (writes_pushStringArray info.directAddrs)
  rw [ofText_endpointAddrToJson]
  exact @Writes.obj [(_, _), (_, _), (_, _)]
    (List.forall_mem_cons.mpr ⟨hid, List.forall_mem_cons.mpr ⟨hrelays,
      List.forall_mem_singleton.mpr hdirects⟩⟩)

end Core

/-- The address that the TypeScript layer has of what the core wrote. -/
def parsedAddr (info : Core.EndpointAddrInfo) : EndpointAddr where
  id := some (.str (ofText info.id))
  relayUrls := textArray info.relayUrls
  directAddrs := textArray info.directAddrs

theorem parseEndpointAddr_endpointAddrToJson (info : Core.EndpointAddrInfo) :
    parseEndpointAddr (ofText (Core.endpointAddrToJson info)) = some (parsedAddr info) := by
  have hparse := (Core.writes_endpointAddrToJson info).parse
  obtain ⟨hid, hrelays, hdirects⟩ := addrValue_get info
  rw [parseEndpointAddr, hparse, Option.bind_some]
  show some (EndpointAddr.mk _ _ _) = _
  rw [hid, hrelays, hdirects]
  rfl

/-- And writes the same object again. -/
theorem serializeEndpointAddr_eq (info : Core.EndpointAddrInfo) :
    serializeEndpointAddr (parsedAddr info) = (addrValue info).stringify := by
  simp only [serializeEndpointAddr, parsedAddr, addrValue, Option.toList_some, List.map_cons,
    List.map_nil, List.cons_append, List.nil_append]

/-! ## What the core reads -/

namespace Core

variable {ι υ σ κ : Type} [LinearOrder υ] [LinearOrder σ] [LinearOrder κ]

/-- What is assumed of the libraries. -/
structure AddrLib.Lawful (lib : AddrLib ι υ σ) : Prop where
  id : ∀ i, lib.parseId (lib.showId i) = .ok i
  url : ∀ u, lib.parseUrl (lib.showUrl u) = .ok u
  socket : ∀ s, lib.parseSocket (lib.showSocket s) = .ok s
  /-- The object of an address is read with the values that the grammar gives its keys. -/
  read : ∀ text info, Json.parse (ofText text) = some (addrValue info) →
    ∃ value, lib.fromStr text = .ok value ∧ ∀ key, value.get key = (addrValue info).get key

/-- The set is read back from its two lists. -/
theorem toFinset_regroup (addrs : Finset (TransportAddr υ σ κ))
    (h : ∀ t ∈ addrs, t.isStandard = true) :
    (((addrs.sort (· ≤ ·)).filterMap TransportAddr.relay?).map TransportAddr.relay ++
      ((addrs.sort (· ≤ ·)).filterMap TransportAddr.ip?).map TransportAddr.ip).toFinset =
        addrs := by
  ext t
  simp only [List.mem_toFinset, List.mem_append, List.mem_map, List.mem_filterMap, Finset.mem_sort]
  constructor
  · rintro (⟨url, ⟨a, ha, hurl⟩, rfl⟩ | ⟨socket, ⟨a, ha, hsocket⟩, rfl⟩)
    · cases a with
      | relay url' =>
          obtain rfl := Option.some.inj hurl
          exact ha
      | ip _ => cases hurl
      | custom _ => cases hurl
    · cases a with
      | relay _ => cases hsocket
      | ip socket' =>
          obtain rfl := Option.some.inj hsocket
          exact ha
      | custom _ => cases hsocket
  · intro ht
    cases t with
    | relay url => exact .inl ⟨url, ⟨_, ht, rfl⟩, rfl⟩
    | ip socket => exact .inr ⟨socket, ⟨_, ht, rfl⟩, rfl⟩
    | custom addr => exact absurd (h _ ht) (by simp [TransportAddr.isStandard])

theorem mapM_map_pure {m : Type → Type} [Monad m] [LawfulMonad m] {α β γ : Type} {f : α → β}
    {g : β → m γ} {k : α → γ} {l : List α} (h : ∀ a ∈ l, g (f a) = pure (k a)) :
    (l.map f).mapM g = pure (l.map k) := by
  induction l with
  | nil => rfl
  | cons a l ih =>
      rw [List.map_cons, List.mapM_cons, h a List.mem_cons_self, pure_bind,
        ih fun b hb => h b (List.mem_cons_of_mem _ hb), pure_bind, List.map_cons]

theorem jsonStrings_textArray {value : Json} {key : String} {values : List String}
    (h : value.get key = some (textArray values)) : jsonStrings value key = values := by
  rw [jsonStrings, h]
  show (values.map fun t => Json.str (ofText t)).filterMap asStr = values
  rw [List.filterMap_map]
  have hstr : (asStr ∘ fun t => Json.str (ofText t)) = some := funext fun t => by
    simp only [Function.comp_apply, asStr, toText_ofText]
  rw [hstr, List.filterMap_some]

namespace AddrLib

variable {lib : AddrLib ι υ σ}

/-- The core reads the address back from a text that the grammar reads as its object. -/
theorem Lawful.parse (h : lib.Lawful) {addr : EndpointAddr ι υ σ κ}
    (hs : ∀ t ∈ addr.addrs, t.isStandard = true) {text : String}
    (htext : Json.parse (ofText text) = some (addrValue (lib.addrInfo addr))) :
    lib.parseEndpointAddr text = .ok addr := by
  obtain ⟨value, hvalue, hget⟩ := h.read text _ htext
  obtain ⟨hid, hrelays, hdirects⟩ := addrValue_get (lib.addrInfo addr)
  have hrelay : ∀ url, lib.parseRelay (κ := κ) (lib.showUrl url) = .ok (.relay url) := by
    intro url
    rw [parseRelay, h.url]
  have hdirect : ∀ socket, lib.parseDirect (κ := κ) (lib.showSocket socket) = .ok (.ip socket) := by
    intro socket
    rw [parseDirect, h.socket]
  have hidStr : ((value.get "id").bind asStr) = some (lib.showId addr.id) := by
    rw [hget, hid, Option.bind_some, asStr, toText_ofText]
    rfl
  have hrelayStrs := jsonStrings_textArray ((hget "relayUrls").trans hrelays)
  have hdirectStrs := jsonStrings_textArray ((hget "directAddrs").trans hdirects)
  simp only [parseEndpointAddr, hvalue, Except.mapError, hidStr, Option.elim_some, h.id,
    hrelayStrs, hdirectStrs, addrInfo, mapM_map_pure fun url _ => hrelay url,
    mapM_map_pure fun socket _ => hdirect socket, bind, Except.bind, pure, Except.pure,
    toFinset_regroup addr.addrs hs]

/-- A line that does not parse. -/
theorem parseBootstrap_error {joined line detail : String}
    (hline : line ∈ bootstrapLines joined)
    (h : lib.parseEndpointAddr (κ := κ) line = .error detail) :
    ∃ e, lib.parseBootstrap (κ := κ) joined = .error e := by
  unfold parseBootstrap
  generalize bootstrapLines joined = lines at hline ⊢
  induction lines with
  | nil => exact absurd hline List.not_mem_nil
  | cons first rest ih =>
      rw [List.mapM_cons]
      rcases List.mem_cons.mp hline with rfl | hmem
      · rw [h]
        exact ⟨_, rfl⟩
      · obtain ⟨e, he⟩ := ih hmem
        rw [he]
        cases lib.parseEndpointAddr (κ := κ) first with
        | ok addr => exact ⟨e, rfl⟩
        | error detail => exact ⟨_, rfl⟩

/-- The addresses that the core gave out come back as they were, and a line that does not parse
seeds no address. -/
theorem bootstrap_roundtrip (lib : AddrLib ι υ σ) :
    (lib.Lawful → ∀ addrs : List (EndpointAddr ι υ σ κ),
      (∀ addr ∈ addrs, ∀ t ∈ addr.addrs, t.isStandard = true) →
      ∃ parsed : List Iroh.EndpointAddr, (addrs.map fun addr =>
          Iroh.parseEndpointAddr (ofText (endpointAddrToJson (lib.addrInfo addr)))) =
            parsed.map some ∧
        lib.parseBootstrap (native (JoinedList.join (parsed.map serializeEndpointAddr))) =
          .ok addrs) ∧
    ∀ endpoint isOpen joined (lookup : List (EndpointAddr ι υ σ κ)),
      (∃ line ∈ bootstrapLines joined, ∃ detail,
        lib.parseEndpointAddr (κ := κ) line = .error detail) →
      ∃ e, lib.gossipSubscribe endpoint isOpen joined lookup = (.error e, lookup) := by
  refine ⟨fun h addrs hs => ⟨addrs.map fun addr => parsedAddr (lib.addrInfo addr), ?_, ?_⟩, ?_⟩
  · rw [List.map_map]
    refine List.map_congr_left fun addr _ => ?_
    rw [parseEndpointAddr_endpointAddrToJson, Function.comp_apply]
  · have hserialize : (addrs.map fun addr => parsedAddr (lib.addrInfo addr)).map
        serializeEndpointAddr =
          addrs.map fun addr => (addrValue (lib.addrInfo addr)).stringify := by
      rw [List.map_map]
      refine List.map_congr_left fun addr _ => ?_
      rw [Function.comp_apply, serializeEndpointAddr_eq]
    have hplain : ∀ s ∈ addrs.map fun addr => (addrValue (lib.addrInfo addr)).stringify,
        JoinedList.Plain s := by
      intro s hmem
      obtain ⟨addr, -, rfl⟩ := List.mem_map.mp hmem
      exact Json.plain_stringify (textual_addrValue _)
    have hlines (l : List JsString) (hl : ∀ s ∈ l, JoinedList.Plain s) :
        bootstrapLines (native (JoinedList.join l)) = l.map toText :=
      (JoinedList.received_eq_allPieces l).trans (JoinedList.allPieces_plain hl)
    rw [hserialize, parseBootstrap, hlines _ hplain, List.map_map, mapM_map_pure (k := id),
      List.map_id]
    · rfl
    · intro addr haddr
      have htext : Json.parse (ofText (toText (addrValue (lib.addrInfo addr)).stringify)) =
          some (addrValue (lib.addrInfo addr)) := by
        rw [(Json.plain_stringify (textual_addrValue _)).wellFormed]
        exact Json.parse_stringify (textual_addrValue _)
      rw [Function.comp_apply, h.parse (hs addr haddr) htext]
      rfl
  · rintro endpoint isOpen joined lookup ⟨line, hline, detail, herror⟩
    obtain ⟨e, he⟩ := parseBootstrap_error hline herror
    unfold gossipSubscribe
    cases isOpen with
    | true => exact ⟨e, by rw [if_pos rfl, he]⟩
    | false => exact ⟨_, rfl⟩

/-- Libraries whose ids, URLs and sockets are texts. -/
def textual : AddrLib String String String where
  showId := id
  parseId := .ok
  showUrl := id
  parseUrl := .ok
  showSocket := id
  parseSocket := .ok
  fromStr text := (Json.parse (ofText text)).elim (.error "expected value") .ok
  quote t := (Manifest.stringify (ofText t))

theorem lawful_textual : textual.Lawful where
  id _ := rfl
  url _ := rfl
  socket _ := rfl
  read text info h := by
    have hread : textual.fromStr text = (some (addrValue info)).elim
        (.error "expected value") .ok := by
      rw [← h]
      rfl
    exact ⟨_, hread, fun _ => rfl⟩

/-- An address with a relay and two sockets. -/
def homeAddr : EndpointAddr String String String Empty where
  id := "ae58ff8833241ac82d6ff7611046ed67b5072d142c588d0063e942d9a75502b6"
  addrs := {.relay "https://relay.example./", .ip "192.168.0.7:4433", .ip "[::1]:4433"}

theorem bootstrap_roundtrip_homeAddr :
    (∃ parsed : List Iroh.EndpointAddr,
      ([homeAddr, homeAddr].map fun addr =>
        Iroh.parseEndpointAddr (ofText (endpointAddrToJson (textual.addrInfo addr)))) =
          parsed.map some ∧
      textual.parseBootstrap (native (JoinedList.join (parsed.map serializeEndpointAddr))) =
        .ok [homeAddr, homeAddr]) ∧
    ∃ e, textual.gossipSubscribe 1 true "\x7b\x7d\n" [homeAddr] = (.error e, [homeAddr]) := by
  obtain ⟨hread, herror⟩ := bootstrap_roundtrip (κ := Empty) textual
  refine ⟨hread lawful_textual [homeAddr, homeAddr] (by decide), ?_⟩
  exact herror 1 true "\x7b\x7d\n" [homeAddr] ⟨"\x7b\x7d", by decide, "addr is missing id", rfl⟩

end AddrLib

end Core

end Iroh
