import Mathlib.Data.List.Nodup
import ReactNativeIroh.Core.Error
import ReactNativeIroh.Core.Utf8

/-!
# The ALPNs of an endpoint

`validate_alpns` refuses a list of names with one pass that remembers the names it has
seen.  A list that passes is registered on the router name by name.

The two ALPNs that the core serves itself, and how Rust quotes a string for debugging,
are arguments.
-/

namespace Iroh.Core

/-- The constants of the libraries that the validation reads. -/
structure AlpnEnv where
  blobsAlpn : List UInt8
  gossipAlpn : List UInt8
  quote : String → String

namespace AlpnEnv

variable (env : AlpnEnv)

/-- The name is the ALPN of a protocol that the core serves itself. -/
def Reserved (alpn : String) : Prop :=
  Utf8.encode alpn = env.blobsAlpn ∨ Utf8.encode alpn = env.gossipAlpn

instance (alpn : String) : Decidable (env.Reserved alpn) := inferInstanceAs (Decidable (_ ∨ _))

/-- The loop of `validate_alpns`. -/
def validateFrom (seen : List String) : List String → Except IrohError Unit
  | [] => .ok ()
  | alpn :: rest =>
      if alpn = "" then .error (.endpointBind "alpn must not be empty")
      else if 255 < alpn.utf8ByteSize then
        .error (.endpointBind ("alpn " ++ env.quote alpn ++ " exceeds the 255-byte limit"))
      else if env.Reserved alpn then
        .error (.endpointBind ("alpn " ++ env.quote alpn ++ " is reserved by a built-in protocol"))
      else if alpn ∈ seen then .error (.endpointBind ("duplicate alpn " ++ env.quote alpn))
      else validateFrom (seen ++ [alpn]) rest
termination_by structural alpns => alpns

def validateAlpns (alpns : List String) : Except IrohError Unit := env.validateFrom [] alpns

/-- The names `stream_listen` can attach to, one queue for each. -/
def inboundAlpns (alpns : List String) : Except IrohError (List String) :=
  (env.validateAlpns alpns).map fun _ => alpns

/-- A name that may be declared. -/
structure Declarable (alpn : String) : Prop where
  nonempty : alpn ≠ ""
  short : alpn.utf8ByteSize ≤ 255
  unreserved : ¬ env.Reserved alpn

/-- A list of names that may be declared together. -/
structure Proper (alpns : List String) : Prop where
  declarable : ∀ alpn ∈ alpns, env.Declarable alpn
  nodup : alpns.Nodup

/-- What is wrong with a name that comes after the names `seen`. -/
inductive Fault (seen : List String) (alpn : String) : String → Prop where
  | empty : alpn = "" → Fault seen alpn "alpn must not be empty"
  | long : alpn ≠ "" → 255 < alpn.utf8ByteSize →
      Fault seen alpn ("alpn " ++ env.quote alpn ++ " exceeds the 255-byte limit")
  | reserved : alpn ≠ "" → alpn.utf8ByteSize ≤ 255 → env.Reserved alpn →
      Fault seen alpn ("alpn " ++ env.quote alpn ++ " is reserved by a built-in protocol")
  | duplicate : env.Declarable alpn → alpn ∈ seen →
      Fault seen alpn ("duplicate alpn " ++ env.quote alpn)

/-- The first name with a fault decides what the caller is told. -/
def Refuses (alpns : List String) (text : String) : Prop :=
  ∃ before alpn rest, alpns = before ++ alpn :: rest ∧ env.Proper before ∧
    env.Fault before alpn text

variable {env} {seen alpns rest : List String} {alpn text : String}

theorem Fault.not_declarable (h : env.Fault seen alpn text) :
    ¬ (env.Declarable alpn ∧ alpn ∉ seen) := by
  rintro ⟨hdeclarable, hnew⟩
  cases h with
  | empty hempty => exact hdeclarable.nonempty hempty
  | long hne hlong => exact absurd hdeclarable.short (Nat.not_le_of_lt hlong)
  | reserved hne hshort hreserved => exact hdeclarable.unreserved hreserved
  | duplicate hdeclarable hseen => exact hnew hseen

theorem fault_or_declarable (env : AlpnEnv) (seen : List String) (alpn : String) :
    (∃ text, env.Fault seen alpn text) ∨ env.Declarable alpn ∧ alpn ∉ seen := by
  by_cases hempty : alpn = ""
  · exact .inl ⟨_, .empty hempty⟩
  by_cases hlong : 255 < alpn.utf8ByteSize
  · exact .inl ⟨_, .long hempty hlong⟩
  have hshort := Nat.le_of_not_lt hlong
  by_cases hreserved : env.Reserved alpn
  · exact .inl ⟨_, .reserved hempty hshort hreserved⟩
  by_cases hseen : alpn ∈ seen
  · exact .inl ⟨_, .duplicate ⟨hempty, hshort, hreserved⟩ hseen⟩
  · exact .inr ⟨⟨hempty, hshort, hreserved⟩, hseen⟩

/-- The loop stops at a name with a fault. -/
theorem validateFrom_fault (h : env.Fault seen alpn text) :
    env.validateFrom seen (alpn :: rest) = .error (.endpointBind text) := by
  rw [validateFrom]
  cases h with
  | empty hempty => rw [if_pos hempty]
  | long hne hlong => rw [if_neg hne, if_pos hlong]
  | reserved hne hshort hreserved =>
      rw [if_neg hne, if_neg (Nat.not_lt_of_le hshort), if_pos hreserved]
  | duplicate hdeclarable hseen =>
      rw [if_neg hdeclarable.nonempty, if_neg (Nat.not_lt_of_le hdeclarable.short),
        if_neg hdeclarable.unreserved, if_pos hseen]

/-- It goes on after any other name. -/
theorem validateFrom_declarable (h : env.Declarable alpn) (hnew : alpn ∉ seen) :
    env.validateFrom seen (alpn :: rest) = env.validateFrom (seen ++ [alpn]) rest := by
  rw [validateFrom, if_neg h.nonempty, if_neg (Nat.not_lt_of_le h.short), if_neg h.unreserved,
    if_neg hnew]

theorem Proper.append_iff :
    env.Proper (seen ++ rest) ↔
      env.Proper seen ∧ env.Proper rest ∧ ∀ alpn ∈ rest, alpn ∉ seen := by
  constructor
  · intro h
    obtain ⟨hseen, hrest, hdisjoint⟩ := List.nodup_append'.mp h.nodup
    refine ⟨⟨fun a ha => ?_, hseen⟩, ⟨fun a ha => ?_, hrest⟩, fun a ha hmem => hdisjoint hmem ha⟩
    · exact h.declarable a (List.mem_append_left _ ha)
    · exact h.declarable a (List.mem_append_right _ ha)
  · rintro ⟨hseen, hrest, hnew⟩
    refine ⟨fun a ha => ?_, List.nodup_append'.mpr ⟨hseen.nodup, hrest.nodup, ?_⟩⟩
    · rcases List.mem_append.mp ha with ha | ha
      · exact hseen.declarable a ha
      · exact hrest.declarable a ha
    · exact fun a hs hr => hnew a hr hs

theorem proper_singleton : env.Proper [alpn] ↔ env.Declarable alpn :=
  ⟨fun h => h.declarable alpn (List.mem_singleton_self _),
    fun h => ⟨fun _ ha => List.mem_singleton.mp ha ▸ h, List.nodup_singleton _⟩⟩

/-- After proper names the loop stops at the first fault, or not at all. -/
theorem validateFrom_cases (hseen : env.Proper seen) (alpns : List String) :
    (env.validateFrom seen alpns = .ok () ∧ env.Proper (seen ++ alpns)) ∨
      ∃ text, env.validateFrom seen alpns = .error (.endpointBind text) ∧
        ∃ before alpn rest, alpns = before ++ alpn :: rest ∧ env.Proper (seen ++ before) ∧
          env.Fault (seen ++ before) alpn text := by
  induction alpns generalizing seen with
  | nil => exact .inl ⟨rfl, by rwa [List.append_nil]⟩
  | cons alpn rest ih =>
      rcases fault_or_declarable env seen alpn with ⟨text, hfault⟩ | ⟨hdeclarable, hnew⟩
      · refine .inr ⟨text, validateFrom_fault hfault, [], alpn, rest, rfl, ?_⟩
        rw [List.append_nil]
        exact ⟨hseen, hfault⟩
      · have hproper : env.Proper (seen ++ [alpn]) := by
          refine Proper.append_iff.mpr ⟨hseen, proper_singleton.mpr hdeclarable, ?_⟩
          exact fun a ha => List.mem_singleton.mp ha ▸ hnew
        rw [validateFrom_declarable hdeclarable hnew, List.append_cons seen alpn rest]
        rcases ih hproper with ⟨hok, hall⟩ | ⟨text, herror, before, name, after, rfl, hbefore⟩
        · exact .inl ⟨hok, hall⟩
        · refine .inr ⟨text, herror, alpn :: before, name, after, rfl, ?_⟩
          rwa [List.append_cons]

theorem validateAlpns_cases (env : AlpnEnv) (alpns : List String) :
    (env.validateAlpns alpns = .ok () ∧ env.Proper alpns) ∨
      ∃ text, env.validateAlpns alpns = .error (.endpointBind text) ∧ env.Refuses alpns text :=
  have hnil : env.Proper [] := ⟨nofun, List.nodup_nil⟩
  validateFrom_cases hnil alpns

/-- A name with a fault keeps the list from being proper. -/
theorem Refuses.not_proper (h : env.Refuses alpns text) : ¬ env.Proper alpns := by
  obtain ⟨before, alpn, rest, rfl, -, hfault⟩ := h
  intro hproper
  obtain ⟨-, hrest, hnew⟩ := Proper.append_iff.mp hproper
  refine hfault.not_declarable ⟨hrest.declarable alpn (List.mem_cons_self ..), ?_⟩
  exact hnew alpn (List.mem_cons_self ..)

/-- After proper names the loop gets to the next one. -/
theorem validateFrom_refuses {before : List String} (hbefore : env.Proper (seen ++ before))
    (hfault : env.Fault (seen ++ before) alpn text) :
    env.validateFrom seen (before ++ alpn :: rest) = .error (.endpointBind text) := by
  induction before generalizing seen with
  | nil =>
      rw [List.append_nil] at hfault
      exact validateFrom_fault hfault
  | cons name before ih =>
      obtain ⟨-, hnames, hnew⟩ := Proper.append_iff.mp hbefore
      have hname := List.mem_cons_self (a := name) (l := before)
      rw [List.cons_append, validateFrom_declarable (hnames.declarable name hname)
        (hnew name hname)]
      rw [List.append_cons] at hbefore hfault
      exact ih hbefore hfault

theorem validateAlpns_ok_iff : env.validateAlpns alpns = .ok () ↔ env.Proper alpns := by
  rcases validateAlpns_cases env alpns with ⟨hok, hproper⟩ | ⟨text, herror, hrefuses⟩
  · exact iff_of_true hok hproper
  · exact iff_of_false (fun h => nomatch h.symm.trans herror) hrefuses.not_proper

theorem Refuses.validateAlpns_eq (h : env.Refuses alpns text) :
    env.validateAlpns alpns = .error (.endpointBind text) := by
  obtain ⟨before, alpn, rest, rfl, hbefore, hfault⟩ := h
  exact validateFrom_refuses hbefore hfault

/-- A proper list is registered as it is. -/
theorem inboundAlpns_proper (h : env.Proper alpns) : env.inboundAlpns alpns = .ok alpns := by
  rw [inboundAlpns, validateAlpns_ok_iff.mpr h]
  rfl

/-- Any other list is refused. -/
theorem inboundAlpns_improper (h : ¬ env.Proper alpns) :
    ∃ text, env.inboundAlpns alpns = .error (.endpointBind text) := by
  rcases validateAlpns_cases env alpns with ⟨-, hproper⟩ | ⟨text, herror, -⟩
  · exact absurd hproper h
  · refine ⟨text, ?_⟩
    rw [inboundAlpns, herror]
    rfl

end AlpnEnv

end Iroh.Core
