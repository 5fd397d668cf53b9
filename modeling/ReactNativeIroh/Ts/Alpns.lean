import Mathlib.Data.List.Nodup
import ReactNativeIroh.Core.Alpns
import ReactNativeIroh.Ts.JoinedList

/-!
# Declaring ALPNs

`Endpoint.create` joins the names it is given, and the core validates what it reads of
them.  An empty list is not sent at all.

The core reads the pieces of the names.  So a name that is empty is not seen, a name with
a newline is seen as several, and one with a lone surrogate as another one.
-/

namespace Iroh

open JsString JoinedList Iroh.Core

namespace Alpns

variable (env : AlpnEnv)

/-- What `Endpoint.create` puts into the configuration. -/
def configAlpns (alpns : List JsString) : Option JsString :=
  if alpns.length > 0 then some (join alpns) else none

/-- `create_endpoint`, up to the registration on the router. -/
def createEndpoint (configured : Option JsString) : Except Core.IrohError (List String) :=
  env.inboundAlpns ((configured.map fun joined => splitJoined (native joined)).getD [])

/-- The names that can be listened on once `Endpoint.create` has returned. -/
def declared (alpns : List JsString) : Except Core.IrohError (List String) :=
  createEndpoint env (configAlpns alpns)

/-- The names may be declared together. -/
structure Proper (alpns : List JsString) : Prop where
  nonempty : ∀ s ∈ alpns, s ≠ []
  short : ∀ s ∈ alpns, (toText s).utf8ByteSize ≤ 255
  unreserved : ∀ t, ofText t ∈ alpns → ¬ env.Reserved t
  nodup : alpns.Nodup

/-- Names that may not be declared together are refused, and others are what can be
listened on. -/
structure Declares (alpns : List JsString) : Prop where
  refused : ¬ Proper env alpns → ∃ text, declared env alpns = .error (.endpointBind text)
  registered : Proper env alpns →
    ∃ names, declared env alpns = .ok names ∧ ∀ s, s ∈ names.map ofText ↔ s ∈ alpns

variable {env} {alpns : List JsString} {names : List String}

theorem declared_eq (alpns : List JsString) :
    declared env alpns = env.inboundAlpns (received alpns) := by
  cases alpns with
  | nil => rfl
  | cons s rest => rfl

theorem proper_map_iff : Proper env (names.map ofText) ↔ env.Proper names := by
  constructor
  · intro h
    refine ⟨fun t ht => ?_, (List.nodup_map_iff ofText_injective).mp h.nodup⟩
    have hmem := List.mem_map_of_mem (f := ofText) ht
    refine ⟨fun hempty => h.nonempty _ hmem (ofText_eq_nil.mpr hempty), ?_, h.unreserved t hmem⟩
    simpa using h.short _ hmem
  · intro h
    refine ⟨fun s hs => ?_, fun s hs => ?_, fun t ht => ?_,
      (List.nodup_map_iff ofText_injective).mpr h.nodup⟩
    · obtain ⟨t, ht, rfl⟩ := List.mem_map.mp hs
      exact fun hempty => (h.declarable t ht).nonempty (ofText_eq_nil.mp hempty)
    · obtain ⟨t, ht, rfl⟩ := List.mem_map.mp hs
      rw [toText_ofText]
      exact (h.declarable t ht).short
    · exact (h.declarable t ((List.mem_map_of_injective ofText_injective).mp ht)).unreserved

/-- The declaration does what it says exactly for plain names, and for names that may not
be declared and whose pieces may not be either. -/
theorem declares_iff (env : AlpnEnv) (alpns : List JsString) :
    Declares env alpns ↔
      (∀ s ∈ alpns, Plain s) ∨ ¬ Proper env alpns ∧ ¬ env.Proper (allPieces alpns) := by
  rw [← received_eq_allPieces]
  constructor
  · intro h
    by_cases hproper : Proper env alpns
    · obtain ⟨names, hnames, hsame⟩ := h.registered hproper
      rw [declared_eq] at hnames
      refine Or.inl fun s hs => ?_
      have hall : names = received alpns := by
        by_cases hreceived : env.Proper (received alpns)
        · exact (Except.ok.inj ((AlpnEnv.inboundAlpns_proper hreceived).symm.trans hnames)).symm
        · obtain ⟨text, hrefused⟩ := AlpnEnv.inboundAlpns_improper hreceived
          exact absurd (hrefused.symm.trans hnames) nofun
      obtain ⟨t, ht, rfl⟩ := List.mem_map.mp ((hsame s).mpr hs)
      exact plain_of_mem_received (hall ▸ ht)
    · refine Or.inr ⟨hproper, fun hreceived => ?_⟩
      obtain ⟨text, hrefused⟩ := h.refused hproper
      rw [declared_eq, AlpnEnv.inboundAlpns_proper hreceived] at hrefused
      cases hrefused
  · rintro (hplain | ⟨hproper, hreceived⟩)
    · have hexact := received_exact_iff.mpr hplain
      have hiff : Proper env alpns ↔ env.Proper (received alpns) := by
        rw [← proper_map_iff, hexact]
      refine ⟨fun hproper => ?_, fun hproper => ⟨received alpns, ?_, fun s => by rw [hexact]⟩⟩
      · rw [declared_eq]
        exact AlpnEnv.inboundAlpns_improper fun h => hproper (hiff.mpr h)
      · rw [declared_eq, AlpnEnv.inboundAlpns_proper (hiff.mp hproper)]
    · refine ⟨fun _ => ?_, fun h => absurd h hproper⟩
      rw [declared_eq]
      exact AlpnEnv.inboundAlpns_improper hreceived

def irohAlpns : AlpnEnv where
  blobsAlpn := Utf8.encode "/iroh-bytes/4"
  gossipAlpn := Utf8.encode "/iroh-gossip/1"
  quote alpn := "\"" ++ alpn ++ "\""

/-- An endpoint whose only name is empty is created, with no name. -/
theorem declares_empty_name : ¬ Declares irohAlpns [[]] := by
  intro h
  obtain ⟨text, hrefused⟩ := h.refused fun hproper => hproper.nonempty [] (by simp) rfl
  rw [declared_eq] at hrefused
  cases hrefused

end Alpns

end Iroh
