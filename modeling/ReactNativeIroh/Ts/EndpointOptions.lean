import ReactNativeIroh.Core.EndpointConfig
import ReactNativeIroh.Ts.Alpns
import ReactNativeIroh.Ts.BridgeLines

/-!
# The options of an endpoint

`Endpoint.create` turns its options into the configuration that crosses the bridge, and
the core checks what it reads of it.  A custom relay mode crosses as one string, the tag
`custom` and the URLs with newlines between them.  So the core reads the pieces of the
URLs, as it reads the pieces of the ALPNs.

Whatever the strings are, a relay mode that was asked for is never replaced by the mode of
the preset: the endpoint is bound with the mode asked for, or not at all.
-/

namespace Iroh

open JsString JoinedList
open Iroh.Core (NetworkPreset Path Binding ConfigEnv)

inductive RelayMode where
  | default
  | disabled
  | staging
  | custom (urls : List JsString)

structure EndpointOptions where
  preset : Option NetworkPreset := none
  blobStoreDir : Option JsString := none
  relayMode : Option RelayMode := none
  alpns : Option (List JsString) := none

/-- The configuration that crosses the bridge. -/
structure EndpointConfig where
  preset : NetworkPreset
  blobStoreDir : Option JsString
  relayMode : Option JsString
  alpns : Option JsString

def serializeRelayMode : RelayMode → Except IrohError JsString
  | .default => .ok (ofText "default")
  | .disabled => .ok (ofText "disabled")
  | .staging => .ok (ofText "staging")
  | .custom urls =>
      if urls.length = 0 then
        .error ⟨.endpointBind, "relayMode custom requires at least one relay URL"⟩
      else .ok (join (ofText "custom" :: urls))

namespace EndpointOptions

variable {υ : Type} (env : ConfigEnv υ)

/-- The first part of `Endpoint.create`. -/
def config (options : EndpointOptions) : Except IrohError EndpointConfig :=
  let preset := options.preset.getD .n0
  let alpns := options.alpns.bind Alpns.configAlpns
  match options.relayMode with
  | none => .ok ⟨preset, options.blobStoreDir, none, alpns⟩
  | some mode =>
      (serializeRelayMode mode).map fun joined =>
        ⟨preset, options.blobStoreDir, some joined, alpns⟩

/-- `create_endpoint` makes the configuration of the core from the bridge's. -/
def toCore (config : EndpointConfig) : Core.EndpointConfig where
  preset := config.preset
  blobStoreDir := config.blobStoreDir.map fun dir => Path.ofText (native dir)
  relayMode := config.relayMode.map native
  alpns := (config.alpns.map fun joined => splitJoined (native joined)).getD []

/-- `Endpoint.create`, up to the binding. -/
def create (options : EndpointOptions) : Except IrohError (Binding υ) :=
  match options.config with
  | .error e => .error e
  | .ok config =>
      match env.validate (toCore config) with
      | .error e => .error (IrohError.fromMessage (fromNative (Core.encodeError e)))
      | .ok binding => .ok binding

/-- A relay mode, and what the endpoint is bound with when its URLs read as `segments`. -/
inductive Means (segments : List JsString → List String) :
    Option RelayMode → Option (Core.RelayMode υ) → Prop
  | inherit : Means segments none none
  | default : Means segments (some .default) (some .default)
  | disabled : Means segments (some .disabled) (some .disabled)
  | staging : Means segments (some .staging) (some .staging)
  | custom {urls : List JsString} {parsed : List υ} (hne : parsed ≠ [])
      (h : env.Urls (segments urls) parsed) :
      Means segments (some (.custom urls)) (some (.custom parsed))

/-- The endpoint the options describe when one string reads as `text` and a list of them
as `segments`. -/
structure Describes (text : JsString → String) (segments : List JsString → List String)
    (options : EndpointOptions) (binding : Binding υ) : Prop where
  preset : binding.preset = options.preset.getD .n0
  blobStoreDir : binding.blobStoreDir = options.blobStoreDir.map fun s => Path.ofText (text s)
  absolute : ∀ dir ∈ binding.blobStoreDir, dir.isAbsolute
  relayMode : Means env segments options.relayMode binding.relayMode
  alpns : binding.alpns = segments (options.alpns.getD [])
  proper : env.Proper binding.alpns

/-- Options whose strings all cross the bridge as they are. -/
structure Crosses (options : EndpointOptions) : Prop where
  blobStoreDir : ∀ s ∈ options.blobStoreDir, unit nul ∉ s
  urls : ∀ urls, options.relayMode = some (.custom urls) → ∀ s ∈ urls, Plain s
  alpns : ∀ s ∈ options.alpns.getD [], Plain s

/-- The directory passes, or there is none. -/
def AbsoluteDir (options : EndpointOptions) : Prop :=
  ∀ dir ∈ options.blobStoreDir, (Path.ofText (native dir)).isAbsolute

/-- The first check of the core that fails. -/
inductive Refused (options : EndpointOptions) : Core.IrohError → Prop where
  | relative {dir : JsString} : dir ∈ options.blobStoreDir →
      ¬ (Path.ofText (native dir)).isAbsolute →
      Refused options (.invalidPath
        ("blob store dir must be absolute: " ++ (Path.ofText (native dir)).toStringLossy))
  | relayMode {urls : List JsString} {text : String} : options.AbsoluteDir →
      options.relayMode = some (.custom urls) → env.UrlFault (allPieces urls) text →
      Refused options (.endpointBind text)
  | alpns {mode : Option (Core.RelayMode υ)} {text : String} : options.AbsoluteDir →
      Means env allPieces options.relayMode mode →
      env.Refuses (allPieces (options.alpns.getD [])) text →
      Refused options (.endpointBind text)

/-- Why `Endpoint.create` rejects.  A custom mode without a URL is found before anything
crosses the bridge. -/
inductive Rejects (options : EndpointOptions) : IrohError → Prop where
  | noUrl : options.relayMode = some (.custom []) →
      Rejects options ⟨.endpointBind, "relayMode custom requires at least one relay URL"⟩
  | refused {e : Core.IrohError} : options.relayMode ≠ some (.custom []) →
      Refused env options e → Rejects options ⟨.ofCore e, fromNative (Core.encodeError e)⟩

/-- What `Endpoint.create` does with its options. -/
structure CreateLaw (options : EndpointOptions) : Prop where
  bound : ∀ binding, create env options = .ok binding ↔
    Describes env native allPieces options binding
  faithful : Crosses options → ∀ binding, create env options = .ok binding ↔
    Describes env toText (List.map toText) options binding
  rejected : ∀ e, create env options = .error e ↔ Rejects env options e

variable {env} {options : EndpointOptions} {mode : Option (Core.RelayMode υ)}
  {binding : Binding υ}

/-- The core reads the tag, and then the pieces of the URLs. -/
theorem native_custom (s : JsString) (rest : List JsString) :
    native (join (ofText "custom" :: s :: rest)) =
      String.ofList ("custom".toList ++ '\n' :: (native (join (s :: rest))).toList) := by
  have hplain : unit nul ∉ ofText "custom" := fun h =>
    absurd ((mem_ofText single_nul).mp h) (by decide)
  have happend := native_append_unit single_newline (by decide) (ofText "custom")
    (join (s :: rest))
  rw [if_neg hplain, native_ofText (by decide)] at happend
  rw [join, Separated.join_cons_cons, ← happend, String.ofList_toList]
  rfl

theorem segments_native (s : JsString) (rest : List JsString) :
    (Separated.segments '\n' (native (join (s :: rest))).toList).map String.ofList =
      allPieces (s :: rest) :=
  received_eq_allPieces (s :: rest)

/-- The core takes a serialized mode for what it reads of it. -/
theorem parseRelayMode_serialized {m : RelayMode} {joined : JsString}
    (h : serializeRelayMode m = .ok joined) :
    env.parseRelayMode (some (native joined)) = .ok mode ↔ Means env allPieces (some m) mode := by
  cases m with
  | default =>
      obtain rfl := Except.ok.inj h
      rw [native_ofText (by decide)]
      exact ⟨fun h => Except.ok.inj h ▸ .default, fun h => by cases h; rfl⟩
  | disabled =>
      obtain rfl := Except.ok.inj h
      rw [native_ofText (by decide)]
      exact ⟨fun h => Except.ok.inj h ▸ .disabled, fun h => by cases h; rfl⟩
  | staging =>
      obtain rfl := Except.ok.inj h
      rw [native_ofText (by decide)]
      exact ⟨fun h => Except.ok.inj h ▸ .staging, fun h => by cases h; rfl⟩
  | custom urls =>
      cases urls with
      | nil => cases h
      | cons s rest =>
          obtain rfl := Except.ok.inj h
          rw [native_custom, ConfigEnv.parseRelayMode_ok_iff, segments_native]
          constructor
          · rintro ⟨parsed, rfl, hne, hurls⟩
            exact .custom hne hurls
          · rintro (_ | _ | _ | _ | ⟨hne, hurls⟩)
            exact ⟨_, rfl, hne, hurls⟩

/-- Only the URLs of a custom mode can be wrong. -/
theorem parseRelayMode_malformed {m : RelayMode} {joined : JsString} {e : Core.IrohError}
    (h : serializeRelayMode m = .ok joined) :
    env.parseRelayMode (some (native joined)) = .error e ↔
      ∃ urls text, m = .custom urls ∧ e = .endpointBind text ∧
        env.UrlFault (allPieces urls) text := by
  cases m with
  | custom urls =>
      cases urls with
      | nil => cases h
      | cons s rest =>
          obtain rfl := Except.ok.inj h
          rw [native_custom, ConfigEnv.parseRelayMode_error_iff, segments_native]
          constructor
          · rintro ⟨text, rfl, hfault⟩
            exact ⟨_, text, rfl, rfl, hfault⟩
          · rintro ⟨urls, text, hurls, rfl, hfault⟩
            obtain rfl := RelayMode.custom.inj hurls
            exact ⟨text, rfl, hfault⟩
  | default | disabled | staging =>
      obtain rfl := Except.ok.inj h
      rw [native_ofText (by decide)]
      refine iff_of_false (fun h => ?_) fun ⟨_, _, hcustom, _⟩ => nomatch hcustom
      cases h

/-- Without URLs a custom mode means nothing. -/
theorem not_means_noUrl (h : options.relayMode = some (.custom [])) :
    ¬ Means env allPieces options.relayMode mode := by
  rw [h]
  rintro (_ | _ | _ | _ | ⟨hne, hurls⟩)
  exact hne (List.forall₂_nil_left_iff.mp hurls)

theorem config_error {e : IrohError} (h : options.config = .error e) :
    options.relayMode = some (.custom []) ∧
      e = ⟨.endpointBind, "relayMode custom requires at least one relay URL"⟩ := by
  unfold config at h
  split at h
  · cases h
  · next mode hmode =>
    rw [hmode]
    cases mode with
    | custom urls =>
        cases urls with
        | nil => exact ⟨rfl, (Except.error.inj h).symm⟩
        | cons s rest => cases h
    | _ => cases h

/-- What the configuration carries for a mode. -/
inductive Serialized : Option RelayMode → Option JsString → Prop where
  | inherit : Serialized none none
  | mode {m : RelayMode} {joined : JsString} :
      serializeRelayMode m = .ok joined → Serialized (some m) (some joined)

theorem Serialized.means {m : Option RelayMode} {joined : Option JsString}
    (h : Serialized m joined) :
    env.parseRelayMode (joined.map native) = .ok mode ↔ Means env allPieces m mode := by
  cases h with
  | inherit => exact ⟨fun h => Except.ok.inj h ▸ .inherit, fun h => by cases h; rfl⟩
  | mode hm => exact parseRelayMode_serialized hm

theorem Serialized.malformed {m : Option RelayMode} {joined : Option JsString}
    {e : Core.IrohError} (h : Serialized m joined) :
    env.parseRelayMode (joined.map native) = .error e ↔
      ∃ urls text, m = some (.custom urls) ∧ e = .endpointBind text ∧
        env.UrlFault (allPieces urls) text := by
  cases h with
  | inherit => exact iff_of_false (fun h => nomatch h) fun ⟨_, _, hcustom, _⟩ => nomatch hcustom
  | mode hm =>
      simp only [Option.some.injEq]
      exact parseRelayMode_malformed hm

theorem config_ok {config : EndpointConfig} (h : options.config = .ok config) :
    Serialized options.relayMode config.relayMode ∧
      config = ⟨options.preset.getD .n0, options.blobStoreDir, config.relayMode,
        options.alpns.bind Alpns.configAlpns⟩ := by
  unfold EndpointOptions.config at h
  split at h
  · next hmode =>
    obtain rfl := Except.ok.inj h
    exact ⟨hmode ▸ .inherit, rfl⟩
  · next m hmode =>
    cases hjoined : serializeRelayMode m with
    | error e => exact nomatch hjoined ▸ h
    | ok joined =>
        rw [hjoined] at h
        obtain rfl := Except.ok.inj h
        exact ⟨hmode ▸ .mode hjoined, rfl⟩

/-- What the core reads of the mode. -/
theorem relayMode_toCore {config : EndpointConfig} (h : options.config = .ok config) :
    env.parseRelayMode (toCore config).relayMode = .ok mode ↔
      Means env allPieces options.relayMode mode :=
  (config_ok h).1.means

theorem relayMode_toCore_error {config : EndpointConfig} {e : Core.IrohError}
    (h : options.config = .ok config) :
    env.parseRelayMode (toCore config).relayMode = .error e ↔
      ∃ urls text, options.relayMode = some (.custom urls) ∧ e = .endpointBind text ∧
        env.UrlFault (allPieces urls) text :=
  (config_ok h).1.malformed

theorem toCore_eq {config : EndpointConfig} (h : options.config = .ok config) :
    (toCore config).preset = options.preset.getD .n0 ∧
      (toCore config).blobStoreDir = options.blobStoreDir.map (fun s => Path.ofText (native s)) ∧
      (toCore config).alpns = allPieces (options.alpns.getD []) := by
  rw [(config_ok h).2]
  refine ⟨rfl, rfl, ?_⟩
  show ((options.alpns.bind Alpns.configAlpns).map fun joined =>
    splitJoined (native joined)).getD [] = allPieces (options.alpns.getD [])
  cases options.alpns with
  | none => rfl
  | some names =>
      cases names with
      | nil => rfl
      | cons s rest => exact received_eq_allPieces (s :: rest)

/-- The core checks the options as it reads them. -/
theorem passes_iff {config : EndpointConfig} (h : options.config = .ok config) :
    env.Passes (toCore config) binding ↔ Describes env native allPieces options binding := by
  obtain ⟨hpreset, hdir, halpns⟩ := toCore_eq h
  constructor
  · intro hpasses
    have hdir' := hpasses.blobStoreDir.trans hdir
    have halpns' := hpasses.alpns.trans halpns
    exact ⟨hpasses.preset.trans hpreset, hdir', hpasses.blobStoreDir ▸ hpasses.absolute,
      (relayMode_toCore h).mp hpasses.relayMode, halpns', hpasses.alpns ▸ hpasses.proper⟩
  · intro hdescribes
    have hdir' := hdescribes.blobStoreDir.trans hdir.symm
    have halpns' := hdescribes.alpns.trans halpns.symm
    exact ⟨hdescribes.preset.trans hpreset.symm, hdir', hdir' ▸ hdescribes.absolute,
      (relayMode_toCore h).mpr hdescribes.relayMode, halpns', halpns' ▸ hdescribes.proper⟩

theorem create_ok_iff : create env options = .ok binding ↔
    Describes env native allPieces options binding := by
  cases hconfig : options.config with
  | error e =>
      have hnone := (config_error hconfig).1
      refine iff_of_false ?_ fun h => not_means_noUrl hnone h.relayMode
      rw [create, hconfig]
      exact nofun
  | ok config =>
      rw [← passes_iff hconfig, ← ConfigEnv.validate_ok_iff, create, hconfig]
      simp only
      cases env.validate (toCore config) with
      | error e => exact iff_of_false (fun h => nomatch h) (fun h => nomatch h)
      | ok b => exact ⟨fun h => congrArg _ (Except.ok.inj h), fun h => congrArg _ (Except.ok.inj h)⟩

theorem Means.congr {segments segments' : List JsString → List String} {m : Option RelayMode}
    (h : Means env segments m mode)
    (hsame : ∀ urls, m = some (.custom urls) → segments urls = segments' urls) :
    Means env segments' m mode := by
  cases h with
  | inherit => exact .inherit
  | default => exact .default
  | disabled => exact .disabled
  | staging => exact .staging
  | custom hne hurls => exact .custom hne (hsame _ rfl ▸ hurls)

/-- Strings that cross the bridge as they are read as their texts. -/
theorem Crosses.describes_iff (h : Crosses options) :
    Describes env native allPieces options binding ↔
      Describes env toText (List.map toText) options binding := by
  have hdir : options.blobStoreDir.map (fun s => Path.ofText (native s)) =
      options.blobStoreDir.map fun s => Path.ofText (toText s) :=
    Option.map_congr fun s hs => congrArg Path.ofText (native_of_notMem (h.blobStoreDir s hs))
  have halpns := allPieces_plain h.alpns
  have hmode : Means env allPieces options.relayMode binding.relayMode ↔
      Means env (List.map toText) options.relayMode binding.relayMode := by
    have hpieces : ∀ urls, options.relayMode = some (.custom urls) →
        allPieces urls = urls.map toText := fun urls hurls => allPieces_plain (h.urls urls hurls)
    exact ⟨fun hmeans => hmeans.congr hpieces,
      fun hmeans => hmeans.congr fun urls hurls => (hpieces urls hurls).symm⟩
  constructor
  · intro ⟨hpreset, hdir', habsolute, hmeans, hnames, hproper⟩
    exact ⟨hpreset, hdir'.trans hdir, habsolute, hmode.mp hmeans, hnames.trans halpns, hproper⟩
  · intro ⟨hpreset, hdir', habsolute, hmeans, hnames, hproper⟩
    exact ⟨hpreset, hdir'.trans hdir.symm, habsolute, hmode.mpr hmeans,
      hnames.trans halpns.symm, hproper⟩

theorem config_noUrl (h : options.relayMode = some (.custom [])) :
    options.config =
      .error ⟨.endpointBind, "relayMode custom requires at least one relay URL"⟩ := by
  unfold config
  rw [h]
  rfl

/-- The check that fails first is the same on both sides of the bridge. -/
theorem refused_iff {config : EndpointConfig} {e : Core.IrohError}
    (h : options.config = .ok config) :
    env.Refused (toCore config) e ↔ Refused env options e := by
  obtain ⟨-, hdirs, halpns⟩ := toCore_eq h
  have habsolute : (∀ dir ∈ (toCore config).blobStoreDir, dir.isAbsolute) ↔
      options.AbsoluteDir := by
    rw [hdirs]
    simp only [Option.mem_def, Option.map_eq_some_iff, forall_exists_index, and_imp,
      forall_apply_eq_imp_iff₂]
    rfl
  constructor
  · intro hrefused
    cases hrefused with
    | relative hmem hdir =>
        rw [hdirs] at hmem
        obtain ⟨s, hs, rfl⟩ := Option.mem_map.mp hmem
        exact .relative hs hdir
    | relayMode hdir hmode =>
        obtain ⟨urls, text, hurls, rfl, hfault⟩ := (relayMode_toCore_error h).mp hmode
        exact .relayMode (habsolute.mp hdir) hurls hfault
    | alpns hdir hmode hrefuses =>
        exact .alpns (habsolute.mp hdir) ((relayMode_toCore h).mp hmode) (halpns ▸ hrefuses)
  · intro hrefused
    cases hrefused with
    | relative hmem hdir =>
        exact .relative (by rw [hdirs]; exact Option.mem_map_of_mem _ hmem) hdir
    | relayMode hdir hurls hfault =>
        refine .relayMode (habsolute.mpr hdir) ((relayMode_toCore_error h).mpr ?_)
        exact ⟨_, _, hurls, rfl, hfault⟩
    | alpns hdir hmode hrefuses =>
        exact .alpns (habsolute.mpr hdir) ((relayMode_toCore h).mpr hmode) (halpns ▸ hrefuses)

theorem create_error_iff {e : IrohError} :
    create env options = .error e ↔ Rejects env options e := by
  cases hconfig : options.config with
  | error e' =>
      obtain ⟨hnone, rfl⟩ := config_error hconfig
      rw [create, hconfig]
      constructor
      · intro h
        exact Except.error.inj h ▸ .noUrl hnone
      · rintro (_ | ⟨hne, -⟩)
        · rfl
        · exact absurd hnone hne
  | ok config =>
      have hne : options.relayMode ≠ some (.custom []) := fun hnone =>
        nomatch (config_noUrl hnone).symm.trans hconfig
      rw [create, hconfig]
      simp only
      constructor
      · intro h
        cases hvalidate : env.validate (toCore config) with
        | ok binding =>
            rw [hvalidate] at h
            cases h
        | error e' =>
            rw [hvalidate] at h
            obtain rfl := Except.error.inj h
            rw [IrohError.fromMessage_crossed]
            have hrefused := ConfigEnv.validate_error_iff.mp hvalidate
            exact .refused hne ((refused_iff hconfig).mp hrefused)
      · rintro (hnone | ⟨-, hrefused⟩)
        · exact absurd hnone hne
        · have hvalidate := ((refused_iff hconfig).mpr hrefused).validate_eq
          rw [hvalidate, ← IrohError.fromMessage_crossed]

theorem create_law (env : ConfigEnv υ) (options : EndpointOptions) : CreateLaw env options where
  bound _ := create_ok_iff
  faithful hcrosses _ := create_ok_iff.trans hcrosses.describes_iff
  rejected _ := create_error_iff

end EndpointOptions

end Iroh
