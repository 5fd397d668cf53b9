import Mathlib.Data.List.Forall2
import ReactNativeIroh.Core.Alpns
import ReactNativeIroh.Core.Path

/-!
# Endpoint configuration

`create_inner` checks a configuration before it binds a socket or touches the store: first
the directory, then the relay mode, then the ALPNs.  The first check that fails is what
the caller is told.

The parser of relay URLs belongs to the transport and is an argument.  It returns a URL,
or the text of what is wrong.
-/

namespace Iroh.Core

inductive NetworkPreset where
  | n0
  | minimal
deriving DecidableEq

/-- The modes of the transport, the last one with the URLs it is built from. -/
inductive RelayMode (υ : Type) where
  | default
  | disabled
  | staging
  | custom (urls : List υ)
deriving DecidableEq

/-- What the checks need of the libraries. -/
structure ConfigEnv (υ : Type) extends AlpnEnv where
  parseUrl : String → Except String υ

structure EndpointConfig where
  preset : NetworkPreset
  blobStoreDir : Option Path
  relayMode : Option String
  alpns : List String

/-- What an endpoint is bound with, once the configuration has passed. -/
structure Binding (υ : Type) where
  preset : NetworkPreset
  blobStoreDir : Option Path
  relayMode : Option (RelayMode υ)
  alpns : List String

namespace ConfigEnv

variable {υ : Type} (env : ConfigEnv υ)

/-- The URLs of a custom mode.  The first one that is malformed is reported. -/
def parseUrls : List String → Except IrohError (List υ)
  | [] => .ok []
  | segment :: rest =>
      match env.parseUrl segment with
      | .error e =>
          .error (.endpointBind ("invalid relay url " ++ env.quote segment ++ ": " ++ e))
      | .ok url => (parseUrls rest).map (url :: ·)
termination_by structural segments => segments

/-- The branch of `parse_relay_mode` for anything but a bare keyword. -/
def parseCustom (other : String) : Except IrohError (RelayMode υ) :=
  let parts := other.toList.splitOn '\n'
  let tag := parts.head?.getD []
  if tag ≠ "custom".toList then
    .error (.endpointBind ("unknown relay mode: " ++ env.quote other))
  else
    let segments := parts.tail.filter fun segment => decide (segment ≠ [])
    match env.parseUrls (segments.map String.ofList) with
    | .error e => .error e
    | .ok urls =>
        if urls.isEmpty then
          .error (.endpointBind "custom relay mode needs at least one relay url")
        else .ok (.custom urls)

def parseRelayMode : Option String → Except IrohError (Option (RelayMode υ))
  | none => .ok none
  | some field =>
      if field = "default" then .ok (some .default)
      else if field = "disabled" then .ok (some .disabled)
      else if field = "staging" then .ok (some .staging)
      else (env.parseCustom field).map some

def checkDir : Option Path → Except IrohError (Option Path)
  | none => .ok none
  | some dir => (requireAbsolute dir "blob store dir").map some

/-- `create_inner`, up to the binding. -/
def validate (config : EndpointConfig) : Except IrohError (Binding υ) := do
  let blobStoreDir ← checkDir config.blobStoreDir
  let relayMode ← env.parseRelayMode config.relayMode
  env.validateAlpns config.alpns
  return ⟨config.preset, blobStoreDir, relayMode, config.alpns⟩

/-- The segments are relay URLs, and these are the URLs. -/
def Urls (segments : List String) (urls : List υ) : Prop :=
  List.Forall₂ (fun segment url => env.parseUrl segment = .ok url) segments urls

/-- The configuration passes, and this is what the endpoint is bound with. -/
structure Passes (config : EndpointConfig) (binding : Binding υ) : Prop where
  preset : binding.preset = config.preset
  blobStoreDir : binding.blobStoreDir = config.blobStoreDir
  absolute : ∀ dir ∈ config.blobStoreDir, dir.isAbsolute
  relayMode : env.parseRelayMode config.relayMode = .ok binding.relayMode
  alpns : binding.alpns = config.alpns
  proper : env.Proper config.alpns

/-- What is wrong with the segments of a custom mode: the first that is no relay URL, or
that there is none. -/
inductive UrlFault (segments : List String) : String → Prop where
  | none : segments = [] → UrlFault segments "custom relay mode needs at least one relay url"
  | malformed {before rest : List String} {segment e : String} {urls : List υ} :
      segments = before ++ segment :: rest → env.Urls before urls →
      env.parseUrl segment = .error e →
      UrlFault segments ("invalid relay url " ++ env.quote segment ++ ": " ++ e)

/-- The first check that fails. -/
inductive Refused (config : EndpointConfig) : IrohError → Prop where
  | relative {dir : Path} : dir ∈ config.blobStoreDir → ¬ dir.isAbsolute →
      Refused config (.invalidPath ("blob store dir must be absolute: " ++ dir.toStringLossy))
  | relayMode {e : IrohError} : (∀ dir ∈ config.blobStoreDir, dir.isAbsolute) →
      env.parseRelayMode config.relayMode = .error e → Refused config e
  | alpns {mode : Option (RelayMode υ)} {text : String} :
      (∀ dir ∈ config.blobStoreDir, dir.isAbsolute) →
      env.parseRelayMode config.relayMode = .ok mode →
      env.Refuses config.alpns text → Refused config (.endpointBind text)

variable {env} {segments : List String} {urls : List υ} {mode : Option (RelayMode υ)}
  {config : EndpointConfig} {binding : Binding υ} {e : IrohError}

theorem parseUrls_urls (h : env.Urls segments urls) : env.parseUrls segments = .ok urls := by
  induction h with
  | nil => rfl
  | cons hurl _ ih =>
      rw [parseUrls, hurl, ih]
      rfl

/-- The first segment that is no relay URL is what the caller is told of. -/
theorem parseUrls_malformed {before rest : List String} {segment text : String}
    (hbefore : env.Urls before urls) (h : env.parseUrl segment = .error text) :
    env.parseUrls (before ++ segment :: rest) =
      .error (.endpointBind ("invalid relay url " ++ env.quote segment ++ ": " ++ text)) := by
  induction hbefore with
  | nil => rw [List.nil_append, parseUrls, h]
  | cons hurl _ ih =>
      rw [List.cons_append, parseUrls, hurl, ih]
      rfl

theorem urls_or_malformed (env : ConfigEnv υ) (segments : List String) :
    (∃ urls, env.Urls segments urls) ∨
      ∃ before segment rest urls text, segments = before ++ segment :: rest ∧
        env.Urls before urls ∧ env.parseUrl segment = .error text := by
  induction segments with
  | nil => exact .inl ⟨[], .nil⟩
  | cons segment rest ih =>
      cases hparse : env.parseUrl segment with
      | error text => exact .inr ⟨[], segment, rest, [], text, rfl, .nil, hparse⟩
      | ok url =>
          rcases ih with ⟨urls, hurls⟩ | ⟨before, bad, after, urls, text, rfl, hbefore, hbad⟩
          · exact .inl ⟨url :: urls, .cons hparse hurls⟩
          · exact .inr ⟨segment :: before, bad, after, url :: urls, text, rfl,
              .cons hparse hbefore, hbad⟩

/-- A field with the tag is read as the URLs behind it. -/
theorem parseRelayMode_tagged (rest : List Char) :
    env.parseRelayMode (some (String.ofList ("custom".toList ++ '\n' :: rest))) =
      (env.parseUrls ((Separated.segments '\n' rest).map String.ofList)).bind fun urls =>
        if urls.isEmpty then
          .error (.endpointBind "custom relay mode needs at least one relay url")
        else .ok (some (.custom urls)) := by
  have hne : ∀ t : String, t.toList.head? ≠ some 'c' →
      String.ofList ("custom".toList ++ '\n' :: rest) ≠ t := by
    rintro t ht rfl
    exact ht (by rw [String.toList_ofList]; rfl)
  have hsplit : ("custom".toList ++ '\n' :: rest).splitOn '\n' =
      "custom".toList :: rest.splitOn '\n' :=
    List.splitOn_append_cons_self_of_not_mem (show '\n' ∉ "custom".toList by decide) rest
  rw [parseRelayMode, if_neg (hne _ (by decide)), if_neg (hne _ (by decide)),
    if_neg (hne _ (by decide)), parseCustom, String.toList_ofList, hsplit]
  simp only [List.head?_cons, Option.getD_some, ne_eq, not_true_eq_false, if_false,
    List.tail_cons]
  change Except.map some
    (match env.parseUrls ((Separated.segments '\n' rest).map String.ofList) with
    | .error e => .error e
    | .ok urls => _) = _
  cases env.parseUrls ((Separated.segments '\n' rest).map String.ofList) with
  | error e => rfl
  | ok urls =>
      cases urls with
      | nil => rfl
      | cons url urls => rfl

theorem Urls.parseRelayMode_eq {rest : List Char}
    (h : env.Urls ((Separated.segments '\n' rest).map String.ofList) urls) (hne : urls ≠ []) :
    env.parseRelayMode (some (String.ofList ("custom".toList ++ '\n' :: rest))) =
      .ok (some (.custom urls)) := by
  rw [parseRelayMode_tagged, parseUrls_urls h]
  cases urls with
  | nil => exact absurd rfl hne
  | cons url urls => rfl

theorem UrlFault.parseRelayMode_eq {rest : List Char} {text : String}
    (h : env.UrlFault ((Separated.segments '\n' rest).map String.ofList) text) :
    env.parseRelayMode (some (String.ofList ("custom".toList ++ '\n' :: rest))) =
      .error (.endpointBind text) := by
  rw [parseRelayMode_tagged]
  cases h with
  | none hnone => rw [hnone]; rfl
  | malformed hsplit hbefore hbad => rw [hsplit, parseUrls_malformed hbefore hbad]; rfl

/-- The segments are the URLs of a custom mode, or they have a fault. -/
theorem urls_or_fault (env : ConfigEnv υ) (segments : List String) :
    (∃ urls, env.Urls segments urls ∧ urls ≠ []) ∨ ∃ text, env.UrlFault segments text := by
  rcases urls_or_malformed env segments with
    ⟨urls, hurls⟩ | ⟨before, bad, after, urls, text, hsplit, hbefore, hbad⟩
  · cases urls with
    | nil => exact .inr ⟨_, .none (List.forall₂_nil_right_iff.mp hurls)⟩
    | cons url urls => exact .inl ⟨_, hurls, List.cons_ne_nil _ _⟩
  · exact .inr ⟨_, .malformed hsplit hbefore hbad⟩

theorem parseRelayMode_ok_iff (rest : List Char) :
    env.parseRelayMode (some (String.ofList ("custom".toList ++ '\n' :: rest))) = .ok mode ↔
      ∃ urls, mode = some (.custom urls) ∧ urls ≠ [] ∧
        env.Urls ((Separated.segments '\n' rest).map String.ofList) urls := by
  constructor
  · intro h
    rcases urls_or_fault env ((Separated.segments '\n' rest).map String.ofList) with
      ⟨urls, hurls, hne⟩ | ⟨text, hfault⟩
    · exact ⟨urls, Except.ok.inj (h.symm.trans (hurls.parseRelayMode_eq hne)), hne, hurls⟩
    · exact nomatch h.symm.trans hfault.parseRelayMode_eq
  · rintro ⟨urls, rfl, hne, hurls⟩
    exact hurls.parseRelayMode_eq hne

theorem parseRelayMode_error_iff (rest : List Char) :
    env.parseRelayMode (some (String.ofList ("custom".toList ++ '\n' :: rest))) = .error e ↔
      ∃ text, e = .endpointBind text ∧
        env.UrlFault ((Separated.segments '\n' rest).map String.ofList) text := by
  constructor
  · intro h
    rcases urls_or_fault env ((Separated.segments '\n' rest).map String.ofList) with
      ⟨urls, hurls, hne⟩ | ⟨text, hfault⟩
    · exact nomatch h.symm.trans (hurls.parseRelayMode_eq hne)
    · exact ⟨text, Except.error.inj (h.symm.trans hfault.parseRelayMode_eq), hfault⟩
  · rintro ⟨text, rfl, hfault⟩
    exact hfault.parseRelayMode_eq

theorem checkDir_absolute {dir : Option Path} (h : ∀ d ∈ dir, d.isAbsolute) :
    checkDir dir = .ok dir := by
  cases dir with
  | none => rfl
  | some d => rw [checkDir, requireAbsolute, if_pos (h d rfl)]; rfl

theorem checkDir_relative {dir : Path} (h : ¬ dir.isAbsolute) :
    checkDir (some dir) =
      .error (.invalidPath ("blob store dir must be absolute: " ++ dir.toStringLossy)) := by
  rw [checkDir, requireAbsolute, if_neg h]
  rfl

theorem Refused.validate_eq (h : env.Refused config e) : env.validate config = .error e := by
  cases h with
  | relative hmem hdir =>
      rw [validate, Option.mem_def.mp hmem, checkDir_relative hdir]
      rfl
  | relayMode hdir hmode =>
      rw [validate, checkDir_absolute hdir, hmode]
      rfl
  | alpns hdir hmode hrefuses =>
      rw [validate, checkDir_absolute hdir, hmode]
      change (env.validateAlpns config.alpns >>= fun _ => _) = _
      rw [hrefuses.validateAlpns_eq]
      rfl

theorem Passes.validate_eq (h : env.Passes config binding) :
    env.validate config = .ok binding := by
  obtain ⟨preset, dir, mode, names⟩ := binding
  obtain ⟨hpreset, hdir, habsolute, hmode, hnames, hproper⟩ := h
  subst hpreset hdir hnames
  rw [validate, checkDir_absolute habsolute, hmode]
  change (env.validateAlpns config.alpns >>= fun _ => _) = _
  rw [AlpnEnv.validateAlpns_ok_iff.mpr hproper]
  rfl

/-- The checks, one after the other. -/
theorem refused_or_passes (env : ConfigEnv υ) (config : EndpointConfig) :
    (∃ e, env.Refused config e) ∨ ∃ binding, env.Passes config binding := by
  by_cases hdir : ∀ dir ∈ config.blobStoreDir, dir.isAbsolute
  case neg =>
    obtain ⟨dir, hmem, hrelative⟩ : ∃ dir ∈ config.blobStoreDir, ¬ dir.isAbsolute := by
      simpa using hdir
    exact .inl ⟨_, .relative hmem hrelative⟩
  cases hmode : env.parseRelayMode config.relayMode with
  | error e => exact .inl ⟨e, .relayMode hdir hmode⟩
  | ok mode =>
      rcases AlpnEnv.validateAlpns_cases env.toAlpnEnv config.alpns with
        ⟨-, hproper⟩ | ⟨text, -, hrefuses⟩
      · exact .inr ⟨⟨config.preset, config.blobStoreDir, mode, config.alpns⟩,
          rfl, rfl, hdir, hmode, rfl, hproper⟩
      · exact .inl ⟨_, .alpns hdir hmode hrefuses⟩

theorem validate_ok_iff : env.validate config = .ok binding ↔ env.Passes config binding := by
  refine ⟨fun h => ?_, Passes.validate_eq⟩
  rcases refused_or_passes env config with ⟨e, hrefused⟩ | ⟨b, hpasses⟩
  · exact nomatch hrefused.validate_eq.symm.trans h
  · exact Except.ok.inj (hpasses.validate_eq.symm.trans h) ▸ hpasses

theorem validate_error_iff : env.validate config = .error e ↔ env.Refused config e := by
  refine ⟨fun h => ?_, Refused.validate_eq⟩
  rcases refused_or_passes env config with ⟨e', hrefused⟩ | ⟨b, hpasses⟩
  · exact Except.error.inj (hrefused.validate_eq.symm.trans h) ▸ hrefused
  · exact nomatch hpasses.validate_eq.symm.trans h

end ConfigEnv

end Iroh.Core
