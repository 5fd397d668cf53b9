import ReactNativeIroh.Core.Subscriptions
import ReactNativeIroh.Ts.Gossip
import ReactNativeIroh.Ts.JsString

/-!
# The lines of the bridge

An error, a close event and a gossip event cross the bridge as lines that the core makes and
the TypeScript layer takes apart.  A line starts with its tag, so what is behind the tag may
be any text.

The bridge takes the NULs out of a line.  No tag has one, so the line is taken apart as
before, and the text behind the tag is the one without its NULs (`fromMessage_crossed`,
`parseCloseEvent_crossed`, `parseMessage_crossed`, `parseNeighbor_crossed`).
-/

namespace Iroh

/-! ## Errors -/

/-- The code of the table that an error of the core has. -/
def IrohErrorCode.ofCore : Core.IrohError → IrohErrorCode
  | .internal _ => internal
  | .invalidHandle _ => invalidHandle
  | .invalidTicket _ => invalidTicket
  | .invalidPath _ => invalidPath
  | .endpointBind _ => endpointBind
  | .blobImport _ => blobImport
  | .blobDownload _ => blobDownload
  | .blobExport _ => blobExport
  | .cancelled => cancelled
  | .gossipSubscribe _ => gossipSubscribe
  | .gossipBroadcast _ => gossipBroadcast
  | .gossipMessageTooLarge _ => gossipMessageTooLarge
  | .streamListen _ => streamListen
  | .streamConnect _ => streamConnect
  | .streamOpen _ => streamOpen
  | .streamSend _ => streamSend
  | .streamClosed _ => streamClosed
  | .streamFrameTooLarge _ => streamFrameTooLarge
  | .streamOverflow _ => streamOverflow

/-- The two tables of codes agree. -/
theorem IrohErrorCode.value_ofCore (e : Core.IrohError) : (ofCore e).value = e.code.toNat := by
  cases e <;> rfl

namespace IrohError

theorem takeWhile_append_cons {p : Char → Bool} {cs : List Char} {c : Char}
    (hcs : ∀ d ∈ cs, p d = true) (hc : p c = false) (rest : List Char) :
    (cs ++ c :: rest).takeWhile p = cs ∧ (cs ++ c :: rest).dropWhile p = c :: rest := by
  rw [List.takeWhile_append_of_pos hcs, List.dropWhile_append_of_pos hcs]
  simp [hc]

/-- A number between the brackets of a tag is read as that number. -/
theorem tagAt_toDigits (n : ℕ) (rest : List Char) :
    tagAt ("[iroh:".toList ++ (Nat.toDigits 10 n ++ ']' :: rest)) = some n := by
  have hdigits : ∀ d ∈ Nat.toDigits 10 n, d.isDigit = true := fun d hd =>
    Nat.isDigit_of_mem_toDigits (by decide) (by decide) hd
  obtain ⟨htake, hdrop⟩ := takeWhile_append_cons hdigits (c := ']') (by decide) rest
  have hfront : ("[iroh:".toList ++ (Nat.toDigits 10 n ++ ']' :: rest)).take 6 =
      "[iroh:".toList := List.take_left' rfl
  have hback : ("[iroh:".toList ++ (Nat.toDigits 10 n ++ ']' :: rest)).drop 6 =
      Nat.toDigits 10 n ++ ']' :: rest := List.drop_left' rfl
  rw [tagAt, if_pos hfront, hback, htake, hdrop, if_pos ⟨Nat.toDigits_ne_nil, rfl⟩,
    Nat.ofDigitChars_ten_toDigits]

/-- A tag at the front is the first match, whatever follows. -/
theorem parseIrohMessage_of_tagAt {cs : List Char} {n : ℕ} (h : tagAt cs = some n) :
    parseIrohMessage cs = some n := by
  cases cs with
  | nil => cases h
  | cons c cs => rw [parseIrohMessage, h, Option.orElse_some]

theorem encodeError_toList (e : Core.IrohError) :
    (Core.encodeError e).toList =
      "[iroh:".toList ++ (Nat.toDigits 10 e.code.toNat ++ ']' :: ' ' :: e.display.toList) := by
  have hcode : toString e.code = e.code.toNat.repr := rfl
  simp only [Core.encodeError, hcode, String.toList_append, Nat.toList_repr, List.append_assoc]
  rfl

/-- The code at the front of a message is read back, whatever follows. -/
theorem fromMessage_tagged {message : String} {e : Core.IrohError} {rest : List Char}
    (h : message.toList = "[iroh:".toList ++ (Nat.toDigits 10 e.code.toNat ++ ']' :: rest)) :
    fromMessage message = ⟨.ofCore e, message⟩ := by
  have htag := tagAt_toDigits e.code.toNat rest
  rw [← h] at htag
  rw [fromMessage, parseIrohMessage_of_tagAt htag, Option.bind_some,
    ← IrohErrorCode.value_ofCore, IrohErrorCode.ofValue?_value, Option.getD_some]

theorem fromMessage_encodeError (e : Core.IrohError) :
    fromMessage (Core.encodeError e) = ⟨.ofCore e, Core.encodeError e⟩ :=
  fromMessage_tagged (encodeError_toList e)

theorem fromMessage_crossed (e : Core.IrohError) :
    fromMessage (JsString.fromNative (Core.encodeError e)) =
      ⟨.ofCore e, JsString.fromNative (Core.encodeError e)⟩ := by
  have hdigits : (Nat.toDigits 10 e.code.toNat).filter (fun c => decide (c ≠ JsString.nul)) =
      Nat.toDigits 10 e.code.toNat := by
    refine List.filter_eq_self.mpr fun d hd => ?_
    rw [decide_eq_true_eq]
    rintro rfl
    exact absurd (Nat.isDigit_of_mem_toDigits (by decide) (by decide) hd) (by decide)
  have hcrossed : (JsString.fromNative (Core.encodeError e)).toList =
      "[iroh:".toList ++ (Nat.toDigits 10 e.code.toNat ++
        ']' :: (' ' :: e.display.toList).filter fun c => decide (c ≠ JsString.nul)) := by
    rw [JsString.fromNative_toList, encodeError_toList, List.filter_append, List.filter_append,
      hdigits]
    rfl
  exact fromMessage_tagged hcrossed

end IrohError

theorem parseCloseEvent_encodeClose (reason : Option Core.IrohError) :
    parseCloseEvent (Core.encodeClose reason) =
      reason.map fun e => ⟨.ofCore e, Core.encodeError e⟩ := by
  cases reason with
  | none => exact parseCloseEvent_end
  | some e =>
      rw [Core.encodeClose, parseCloseEvent_error, IrohError.fromMessage_encodeError,
        Option.map_some]

theorem parseCloseEvent_crossed (reason : Option Core.IrohError) :
    parseCloseEvent (JsString.fromNative (Core.encodeClose reason)) =
      reason.map fun e => ⟨.ofCore e, JsString.fromNative (Core.encodeError e)⟩ := by
  cases reason with
  | none => exact parseCloseEvent_end
  | some e =>
      rw [Core.encodeClose, JsString.fromNative_append,
        JsString.fromNative_of_notMem (by decide : JsString.nul ∉ "error ".toList),
        parseCloseEvent_error, IrohError.fromMessage_crossed, Option.map_some]

/-! ## Gossip events -/

theorem splitTagged_append {tag : String} (h : ' ' ∉ tag.toList) (rest : String) :
    splitTagged (tag ++ " " ++ rest) = some (tag, rest) := by
  have htext : (tag ++ " " ++ rest).toList = tag.toList ++ ' ' :: rest.toList := by
    rw [String.toList_append, String.toList_append, List.append_assoc]
    rfl
  rw [splitTagged, htext, idxOf?_append_cons h]
  simp [String.ofList_toList]

theorem parseMessage_append {id : String} (h : ' ' ∉ id.toList) (payload : String) :
    parseMessage (id ++ " " ++ payload) = { text := payload, «from» := id } := by
  rw [parseMessage, splitTagged_append h]

/-- A line with a space is not the line of a lag. -/
theorem parseNeighbor_append {tag : String} (h : ' ' ∉ tag.toList) (rest : String) :
    parseNeighbor (tag ++ " " ++ rest) =
      if tag = "error" then .error rest
      else if tag = "up" then .change ⟨.up, rest⟩
      else if tag = "down" then .change ⟨.down, rest⟩
      else .ignored := by
  have hline : tag ++ " " ++ rest ≠ "lagged" := by
    intro hlagged
    have hsplit := splitTagged_append h rest
    rw [hlagged, splitTagged, show "lagged".toList.idxOf? ' ' = none by decide] at hsplit
    cases hsplit
  rw [parseNeighbor, if_neg hline, splitTagged_append h]

theorem parseNeighbor_up (id : String) : parseNeighbor ("up " ++ id) = .change ⟨.up, id⟩ :=
  parseNeighbor_append (by decide : ' ' ∉ "up".toList) id

theorem parseNeighbor_down (id : String) : parseNeighbor ("down " ++ id) = .change ⟨.down, id⟩ :=
  parseNeighbor_append (by decide : ' ' ∉ "down".toList) id

/-- The line of an event that has crossed the bridge. -/
theorem parseMessage_crossed {id : String} (h : ' ' ∉ id.toList) (payload : String) :
    parseMessage (JsString.fromNative (id ++ " " ++ payload)) =
      { text := JsString.fromNative payload, «from» := JsString.fromNative id } := by
  have hid : ' ' ∉ (JsString.fromNative id).toList :=
    fun hmem => h ((JsString.mem_fromNative (by decide)).mp hmem)
  rw [JsString.fromNative_append, JsString.fromNative_append,
    JsString.fromNative_of_notMem (by decide : JsString.nul ∉ " ".toList)]
  exact parseMessage_append hid _

/-- No tag has a NUL. -/
theorem parseNeighbor_crossed {tag : String} (h : ' ' ∉ tag.toList)
    (htag : JsString.nul ∉ tag.toList) (rest : String) :
    parseNeighbor (JsString.fromNative (tag ++ " " ++ rest)) =
      if tag = "error" then .error (JsString.fromNative rest)
      else if tag = "up" then .change ⟨.up, JsString.fromNative rest⟩
      else if tag = "down" then .change ⟨.down, JsString.fromNative rest⟩
      else .ignored := by
  rw [JsString.fromNative_append, JsString.fromNative_append, JsString.fromNative_of_notMem htag,
    JsString.fromNative_of_notMem (by decide : JsString.nul ∉ " ".toList)]
  exact parseNeighbor_append h _

theorem parseNeighbor_error_crossed (detail : String) :
    parseNeighbor (JsString.fromNative ("error " ++ detail)) =
      .error (JsString.fromNative detail) :=
  parseNeighbor_crossed (by decide : ' ' ∉ "error".toList) (by decide) detail

theorem parseNeighbor_up_crossed (id : String) :
    parseNeighbor (JsString.fromNative ("up " ++ id)) = .change ⟨.up, JsString.fromNative id⟩ :=
  parseNeighbor_crossed (by decide : ' ' ∉ "up".toList) (by decide) id

theorem parseNeighbor_down_crossed (id : String) :
    parseNeighbor (JsString.fromNative ("down " ++ id)) =
      .change ⟨.down, JsString.fromNative id⟩ :=
  parseNeighbor_crossed (by decide : ' ' ∉ "down".toList) (by decide) id

/-- What the TypeScript layer reads from a callback. -/
def readCall : Core.GossipCall → GossipMessage ⊕ NeighborLine
  | .onMessage line => .inl (parseMessage line)
  | .onNeighbor line => .inr (parseNeighbor line)

/-- What the TypeScript layer is to read when the core forwards an event. -/
def readEvent : Core.GossipEvent → Option (GossipMessage ⊕ NeighborLine)
  | .received deliveredFrom content =>
      let text := String.ofList (Core.Utf8.fromUtf8Lossy content)
      some (.inl { text, «from» := deliveredFrom })
  | .neighborUp id => some (.inr (.change ⟨.up, id⟩))
  | .neighborDown id => some (.inr (.change ⟨.down, id⟩))
  | .lagged => some (.inr .lagged)
  | .error _ => none

/-- The id of the endpoint that the event is about. -/
def Core.GossipEvent.id? : Core.GossipEvent → Option String
  | .received id _ | .neighborUp id | .neighborDown id => some id
  | .lagged | .error _ => none

/-- Every event is read as it was forwarded. -/
theorem readCall_forward (event : Core.GossipEvent)
    (h : ∀ id ∈ event.id?, ' ' ∉ id.toList) :
    (Core.gossipSubscribe.forward event).map readCall = readEvent event := by
  cases event with
  | received id content =>
      exact congrArg (some ∘ Sum.inl) (parseMessage_append (h id rfl) _)
  | neighborUp id => exact congrArg (some ∘ Sum.inr) (parseNeighbor_up id)
  | neighborDown id => exact congrArg (some ∘ Sum.inr) (parseNeighbor_down id)
  | lagged => rfl
  | error text => rfl

/-- What the core encodes, the TypeScript layer decodes. -/
theorem decode_lines :
    (∀ e : Core.IrohError,
      (IrohError.fromMessage (Core.encodeError e)).code.value = e.code.toNat ∧
      (IrohError.fromMessage (Core.encodeError e)).message = Core.encodeError e) ∧
    parseCloseEvent (Core.encodeClose none) = none ∧
    (∀ e : Core.IrohError, ∃ err, parseCloseEvent (Core.encodeClose (some e)) = some err ∧
      err.code.value = e.code.toNat) ∧
    (∀ id : String, ' ' ∉ id.toList →
      (∀ payload, parseMessage (id ++ " " ++ payload) = { text := payload, «from» := id }) ∧
      parseNeighbor ("up " ++ id) = .change ⟨.up, id⟩ ∧
      parseNeighbor ("down " ++ id) = .change ⟨.down, id⟩) ∧
    ∀ event : Core.GossipEvent, (∀ id ∈ event.id?, ' ' ∉ id.toList) →
      (Core.gossipSubscribe.forward event).map readCall = readEvent event := by
  refine ⟨?_, parseCloseEvent_end, ?_, ?_, readCall_forward⟩
  · intro e
    rw [IrohError.fromMessage_encodeError]
    exact ⟨IrohErrorCode.value_ofCore e, rfl⟩
  · intro e
    exact ⟨_, parseCloseEvent_encodeClose (some e), IrohErrorCode.value_ofCore e⟩
  · intro id hid
    exact ⟨parseMessage_append hid, parseNeighbor_up id, parseNeighbor_down id⟩

theorem decode_lines_received :
    parseMessage ("ab" ++ " " ++ "[iroh:9999] lagged\n") =
      { text := "[iroh:9999] lagged\n", «from» := "ab" } :=
  (decode_lines.2.2.2.1 "ab" (by decide)).1 _

end Iroh
