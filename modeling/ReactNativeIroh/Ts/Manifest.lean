import Mathlib.Data.List.DropRight
import ReactNativeIroh.Ts.IrohError
import ReactNativeIroh.Ts.JoinedList

/-!
# The manifest of a collection

The manifest names the children of a collection.  Whoever shared the collection chose the
names, so each is checked to be a single path segment before any child is downloaded.
A child is written to `destDir/<name>`, where the trailing slashes of `destDir` are
dropped first.

`NormalPath` is the lexical normal form of a path: no empty segment, no `.`, and `..` only
in front of a relative path.
-/

namespace Iroh

open JsString

structure ManifestEntry where
  name : JsString
  ticket : JsString
deriving DecidableEq

namespace Manifest

/-! ## JSON text of a string -/

def hexDigit (n : ℕ) : Char := Char.ofNat (if n < 10 then 0x30 + n else 0x61 + (n - 10))

/-- `\uXXXX`. -/
def escapeUnit (u : UInt16) : List Char :=
  ['\\', 'u', hexDigit (u.toNat / 0x1000), hexDigit (u.toNat / 0x100 % 0x10),
    hexDigit (u.toNat / 0x10 % 0x10), hexDigit (u.toNat % 0x10)]

/-- A code unit that is no surrogate, in a JSON text. -/
def quoteUnit (u : UInt16) : List Char :=
  if u = 0x22 then ['\\', '"']
  else if u = 0x5C then ['\\', '\\']
  else if u = 0x08 then ['\\', 'b']
  else if u = 0x0C then ['\\', 'f']
  else if u = 0x0A then ['\\', 'n']
  else if u = 0x0D then ['\\', 'r']
  else if u = 0x09 then ['\\', 't']
  else if u.toNat < 0x20 then escapeUnit u
  else [Char.ofNat u.toNat]

def quoteUnits : JsString → List Char
  | [] => []
  | u :: rest =>
      if isLead u then
        match rest with
        | [] => escapeUnit u
        | v :: rest =>
            if isTrail v then pair u v :: quoteUnits rest
            else escapeUnit u ++ quoteUnits (v :: rest)
      else if isTrail u then escapeUnit u ++ quoteUnits rest
      else quoteUnit u ++ quoteUnits rest
termination_by structural s => s

/-- `JSON.stringify` of a string.  A lone surrogate is escaped, so this is a Unicode text. -/
def stringify (s : JsString) : String := String.ofList ('"' :: quoteUnits s ++ ['"'])

/-! ## The checks -/

/-- The name is a single path segment. -/
structure Contained (name : JsString) : Prop where
  nonempty : name ≠ []
  ne_dot : name ≠ ofText "."
  ne_dots : name ≠ ofText ".."
  no_slash : unit '/' ∉ name
  no_backslash : unit '\\' ∉ name
  no_nul : unit nul ∉ name

/-- The condition of `requireContainedChildName`. -/
def contained (name : JsString) : Bool :=
  decide (name.length > 0) && decide (name ≠ ofText ".") && decide (name ≠ ofText "..") &&
    !name.contains (unit '/') && !name.contains (unit '\\') && !name.contains (unit nul)

def requireContainedChildName (name : JsString) : Except IrohError Unit :=
  if contained name then .ok ()
  else
    .error ⟨.invalidPath,
      "collection child name " ++ stringify name ++ " is not a single path segment"⟩

/-- Check every name of a manifest, before any child is downloaded. -/
def checkEntries : List ManifestEntry → Except IrohError Unit
  | [] => .ok ()
  | entry :: rest =>
      match requireContainedChildName entry.name with
      | .error e => .error e
      | .ok () => checkEntries rest
termination_by structural entries => entries

/-- A base32 digit of a ticket. -/
def ticketDigit (u : UInt16) : Bool :=
  decide (unit 'a' ≤ u ∧ u ≤ unit 'z') || decide (unit '2' ≤ u ∧ u ≤ unit '7')

/-- `validateTicketShape`. -/
def validateTicketShape (ticket : JsString) : Except IrohError JsString :=
  if ticket.take 4 = ofText "blob" ∧ 53 ≤ (ticket.drop 4).length ∧
      (ticket.drop 4).all ticketDigit then
    .ok ticket
  else
    .error ⟨.invalidTicket,
      "invalid blob ticket: expected \"blob\" followed by at least 53 base32 characters, got " ++
        stringify (if ticket.length > 24 then ticket.take 24 ++ ofText "..." else ticket)⟩

/-! ## Destination paths -/

/-- `destDir.replace(/\/+$/, "")`. -/
def trimSlashes (destDir : JsString) : JsString := destDir.rdropWhile fun u => decide (u = unit '/')

/-- The path a child is written to. -/
def childPath (destDir name : JsString) : JsString := trimSlashes destDir ++ unit '/' :: name

/-- A lexically normalized path. -/
structure NormalPath where
  absolute : Bool
  segments : List JsString
deriving DecidableEq

/-- Go on with one more segment of the path. -/
def pushSegment (absolute : Bool) (segments : List JsString) (s : JsString) : List JsString :=
  if s = ofText "." then segments
  else if s = ofText ".." then
    match segments.getLast? with
    | some last => if last = ofText ".." then segments ++ [s] else segments.dropLast
    | none => if absolute then [] else [s]
  else segments ++ [s]

def normalize (path : JsString) : NormalPath :=
  let absolute := decide (path.head? = some (unit '/'))
  { absolute, segments := (Separated.segments (unit '/') path).foldl (pushSegment absolute) [] }

def NormalPath.parent (p : NormalPath) : NormalPath := { p with segments := p.segments.dropLast }

/-- The path is one single segment below the directory. -/
structure DirectChild (destDir path : JsString) : Prop where
  split : ∃ name, Contained name ∧ path = childPath destDir name
  parent : (normalize path).parent = normalize destDir

variable {name destDir path : JsString} {entries : List ManifestEntry}

theorem contained_iff : contained name = true ↔ Contained name := by
  simp only [contained, Bool.and_eq_true, decide_eq_true_eq, Bool.not_eq_true',
    List.contains_eq_mem, decide_eq_false_iff_not, gt_iff_lt, List.length_pos_iff]
  constructor
  · rintro ⟨⟨⟨⟨⟨hne, hdot⟩, hdots⟩, hslash⟩, hback⟩, hnul⟩
    exact ⟨hne, hdot, hdots, hslash, hback, hnul⟩
  · rintro ⟨hne, hdot, hdots, hslash, hback, hnul⟩
    exact ⟨⟨⟨⟨⟨hne, hdot⟩, hdots⟩, hslash⟩, hback⟩, hnul⟩

theorem requireContainedChildName_ok_iff :
    requireContainedChildName name = .ok () ↔ Contained name := by
  rw [requireContainedChildName, ← contained_iff]
  split
  · next h => exact iff_of_true rfl h
  · next h => exact iff_of_false nofun h

/-- The manifest is accepted exactly when every name is a single path segment. -/
theorem checkEntries_ok_iff :
    checkEntries entries = .ok () ↔ ∀ entry ∈ entries, Contained entry.name := by
  induction entries with
  | nil => exact iff_of_true rfl nofun
  | cons entry rest ih =>
      rw [checkEntries, List.forall_mem_cons, ← requireContainedChildName_ok_iff, ← ih]
      cases requireContainedChildName entry.name with
      | error e => exact iff_of_false nofun fun h => nomatch h.1
      | ok u => exact (and_iff_right rfl).symm

/-- A name that is refused is named in the error. -/
theorem checkEntries_error {e : IrohError} (h : checkEntries entries = .error e) :
    ∃ entry ∈ entries, ¬ Contained entry.name ∧ e = ⟨.invalidPath,
      "collection child name " ++ stringify entry.name ++ " is not a single path segment"⟩ := by
  induction entries with
  | nil => cases h
  | cons entry rest ih =>
      rw [checkEntries, requireContainedChildName] at h
      cases hc : contained entry.name with
      | true =>
          rw [hc] at h
          obtain ⟨entry', hmem, hrest⟩ := ih h
          exact ⟨entry', List.mem_cons_of_mem _ hmem, hrest⟩
      | false =>
          rw [hc] at h
          refine ⟨entry, List.mem_cons_self .., fun hcontained => ?_, (Except.error.inj h).symm⟩
          exact Bool.false_ne_true (hc.symm.trans (contained_iff.mpr hcontained))

/-! ## The parent of a child -/

theorem single_slash : Single '/' := by decide

/-- Dropping the trailing slashes drops no segment. -/
theorem segments_trimSlashes (destDir : JsString) :
    Separated.segments (unit '/') (trimSlashes destDir) =
      Separated.segments (unit '/') destDir := by
  unfold trimSlashes
  induction destDir using List.reverseRecOn with
  | nil => rfl
  | append_singleton front u ih =>
      by_cases hu : u = unit '/'
      · subst hu
        rw [List.rdropWhile_concat_pos _ _ _ (by simp), ih, Separated.segments_append_cons,
          Separated.segments_nil, List.append_nil]
      · rw [List.rdropWhile_concat_neg _ _ _ (by simpa using hu)]

theorem segments_childPath (h : Contained name) (destDir : JsString) :
    Separated.segments (unit '/') (childPath destDir name) =
      Separated.segments (unit '/') destDir ++ [name] := by
  have hname : Separated.Segment (unit '/') name := ⟨h.nonempty, h.no_slash⟩
  rw [childPath, Separated.segments_append_cons, segments_trimSlashes, hname.segments]

/-- Any directory but the empty string is absolute when its children are. -/
theorem head_childPath (hne : destDir ≠ []) (name : JsString) :
    (childPath destDir name).head? = some (unit '/') ↔ destDir.head? = some (unit '/') := by
  have hprefix : trimSlashes destDir <+: destDir := List.rdropWhile_prefix _ _
  cases htrim : trimSlashes destDir with
  | nil =>
      -- the directory is made of slashes only
      obtain ⟨u, rest, rfl⟩ := List.exists_cons_of_ne_nil hne
      have hslash := List.rdropWhile_eq_nil_iff.mp htrim u (List.mem_cons_self ..)
      rw [decide_eq_true_eq] at hslash
      rw [childPath, htrim, hslash]
      exact Iff.rfl
  | cons u front =>
      rw [htrim] at hprefix
      obtain ⟨rest, rfl⟩ := hprefix
      rw [childPath, htrim]
      exact Iff.rfl

/-- A child of a directory that is not the empty string is a direct child. -/
theorem directChild (hne : destDir ≠ []) (h : Contained name) :
    DirectChild destDir (childPath destDir name) := by
  refine ⟨⟨name, h, rfl⟩, ?_⟩
  unfold normalize
  simp only [head_childPath hne, segments_childPath h, List.foldl_append, List.foldl_cons,
    List.foldl_nil, NormalPath.parent, pushSegment, if_neg h.ne_dot, if_neg h.ne_dots,
    List.dropLast_concat]

end Manifest

end Iroh
