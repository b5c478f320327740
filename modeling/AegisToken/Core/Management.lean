/-
  The management service (aegis-core management_protocol.rs) and whether it seals the USB identity.
  Outside Factory a proposal is compared with the identity of the board, not with the active
  configuration. So where the active identity is another one (provisioned in Factory), a commit
  replaces it by that of the board: `commit_replaces_identity`. That is the only way it changes
  outside Factory without a factory reset: `usb_sealed_unless_replaced`. On a device whose
  capabilities do not declare a configurable identity it never happens:
  `never_replaced_of_fixed_identity`.
-/
import AegisToken.Core.Configuration
import AegisToken.Core.Presence

namespace AegisToken.Management
open ByteCodec Wire History

/-! ## Responses -/

inductive ManagementCommand where
  | getDeviceInfo
  | getCapabilities
  | getConfiguration
  | setConfiguration
  | validateConfiguration
  | commitConfiguration
  | getLifecycle
  | commissionDevice
  | getStatus
  | getDiagnostics
  | decommissionDevice
  | factoryReset
  | softDetach
  | unknown (code : UInt8)
deriving DecidableEq

inductive ResponseStatus where
  | ok
  | error (error : CoreError)
deriving DecidableEq

def maxResponseBytes : Nat := 512

/-- A status and an optional CBOR payload. -/
structure Response where
  status : ResponseStatus
  payload : BoundedBytes maxResponseBytes
deriving DecidableEq

def Response.ok : Response := ⟨.ok, BoundedBytes.empty _⟩

def Response.error (error : CoreError) : Response := ⟨.error error, BoundedBytes.empty _⟩

def Response.ofResult : Except CoreError Unit → Response
  | .ok () => .ok
  | .error error => .error error

def versionTuple : UInt8 × UInt8 × UInt8 := (0, 2, 1)

structure DeviceInfo where
  product : FixedString 64
  family : Rp2350Family
  version : UInt8 × UInt8 × UInt8
  configVersion : UInt16
  manufacturer : FixedString 64

structure StatusReport where
  lifecycle : UInt8
  configVersion : UInt16
  staged : Bool

/-- The parts of the boot plan that the diagnostics show. -/
structure BootPlan where
  destination : ExecutionState
  fido : Bool
  ccid : Bool

/-- `is_boot_destination` holds of Active, so only Active serves FIDO and CCID. -/
def BootPlan.forDestination (destination : ExecutionState) : BootPlan where
  destination
  fido := destination = .active
  ccid := destination = .active

structure DiagnosticsReport where
  version : UInt8 × UInt8 × UInt8
  lifecycle : UInt8
  configVersion : UInt16
  staged : Bool
  gpioCount : UInt8
  flashSizeBytes : UInt32
  bootPlan : BootPlan

/-- What a response carries. -/
inductive Body where
  | deviceInfo (info : DeviceInfo)
  | capabilities (capabilities : DeviceCapabilities)
  | configuration (config : DeviceConfig)
  | lifecycle (state : UInt8)
  | status (report : StatusReport)
  | diagnostics (report : DiagnosticsReport)

/-- The CBOR encodings, which the `minicbor` crate derives: of a response body, where it fits a
  response, and of a configuration. -/
structure Codec where
  encode : Body → Option (BoundedBytes maxResponseBytes)
  decode : List UInt8 → Option DeviceConfig

def Response.withPayload (C : Codec) (body : Body) : Response :=
  match C.encode body with
  | some payload => ⟨.ok, payload⟩
  | none => .error .protocolError

/-! ## The service -/

structure ManagementService where
  capabilities : DeviceCapabilities
  identity : BoardIdentity
  lifecycle : LifecycleState
  config : DeviceConfig
  staged : Option DeviceConfig
  bootPlan : BootPlan

namespace ManagementService

def new (capabilities : DeviceCapabilities) (identity : BoardIdentity) (config : DeviceConfig)
    (lifecycle : LifecycleState) : ManagementService where
  capabilities
  identity
  lifecycle
  config
  staged := none
  bootPlan := .forDestination .boot

def context (s : ManagementService) : ValidationContext where
  capabilities := s.capabilities
  lifecycle := s.lifecycle
  identity := s.identity

/-- `DeviceInfo::for_service`; it panics where the manufacturer does not fit. -/
def deviceInfo (s : ManagementService) : Option DeviceInfo :=
  match FixedString.new 64 s.identity.manufacturer with
  | .ok manufacturer => some
      { product := s.config.usb.productString
        family := s.capabilities.family
        version := versionTuple
        configVersion := AegisToken.configVersion
        manufacturer }
  | .error _ => none

def statusReport (s : ManagementService) : StatusReport where
  lifecycle := s.lifecycle.code
  configVersion := s.config.version
  staged := s.staged.isSome

def diagnosticsReport (s : ManagementService) : DiagnosticsReport where
  version := versionTuple
  lifecycle := s.lifecycle.code
  configVersion := s.config.version
  staged := s.staged.isSome
  gpioCount := s.capabilities.gpioCount
  flashSizeBytes := s.capabilities.flash.sizeBytes
  bootPlan := s.bootPlan

def decodeConfig (C : Codec) (payload : List UInt8) : Except CoreError DeviceConfig :=
  match C.decode payload with
  | some config => .ok config
  | none => .error .invalidConfiguration

def proposal (C : Codec) (s : ManagementService) (payload : List UInt8) :
    Except CoreError DeviceConfig := do
  let config ← decodeConfig C payload
  config.validate s.context
  return config

def validateOnly (C : Codec) (s : ManagementService) (payload : List UInt8) : Response :=
  .ofResult (proposal C s payload >>= fun _ => .ok ())

def setConfiguration (C : Codec) (s : ManagementService) (payload : List UInt8) :
    Response × ManagementService :=
  match proposal C s payload with
  | .ok config => (.ok, { s with staged := some config })
  | .error error => (.error error, s)

def commitConfiguration (s : ManagementService) : Response × ManagementService :=
  match s.staged with
  | none => (.error .invalidState, s)
  | some config =>
    match config.validate s.context with
    | .error error => (.error error, s)
    | .ok () => (.ok, { s with config, staged := none })

def advance (s : ManagementService) (operation : LifecycleState → Except CoreError LifecycleState) :
    Response × ManagementService :=
  match operation s.lifecycle with
  | .ok lifecycle => (.ok, { s with lifecycle })
  | .error error => (.error error, s)

/-- It panics, with the lifecycle already changed, where the product string does not fit. -/
def factoryReset (s : ManagementService) : Option Response × ManagementService :=
  match s.lifecycle.factoryReset with
  | .error error => (some (.error error), s)
  | .ok lifecycle =>
    match DeviceConfig.forBoard s.identity s.capabilities with
    | .ok config => (some .ok, { s with lifecycle, config, staged := none })
    | .error _ => (none, { s with lifecycle })

/-- Execute one management operation. There is no response where the operation panics. -/
def handle (C : Codec) (s : ManagementService) (command : ManagementCommand)
    (payload : List UInt8) : Option Response × ManagementService :=
  match command with
  | .getDeviceInfo => (s.deviceInfo.map (Response.withPayload C ∘ .deviceInfo), s)
  | .getCapabilities => (some (.withPayload C (.capabilities s.capabilities)), s)
  | .getConfiguration => (some (.withPayload C (.configuration s.config)), s)
  | .validateConfiguration => (some (s.validateOnly C payload), s)
  | .setConfiguration => Prod.map some id (s.setConfiguration C payload)
  | .commitConfiguration => Prod.map some id s.commitConfiguration
  | .getLifecycle => (some (.withPayload C (.lifecycle s.lifecycle.code)), s)
  | .commissionDevice => Prod.map some id (s.advance LifecycleState.commission)
  | .getStatus => (some (.withPayload C (.status s.statusReport)), s)
  | .getDiagnostics => (some (.withPayload C (.diagnostics s.diagnosticsReport)), s)
  | .decommissionDevice => Prod.map some id (s.advance LifecycleState.decommission)
  | .factoryReset => s.factoryReset
  | .softDetach => (some .ok, s)
  | .unknown _ => (some (.error .unsupportedCommand), s)

def step (C : Codec) (s : ManagementService) (e : ManagementCommand × List UInt8) :
    Option Response × ManagementService :=
  s.handle C e.1 e.2

/-! ## What a command does to the configuration -/

variable {C : Codec}

/-- The commit makes the staged configuration active. -/
def Commits (s : ManagementService) (command : ManagementCommand) (staged : DeviceConfig) : Prop :=
  command = .commitConfiguration ∧ s.staged = some staged ∧ staged.validate s.context = .ok ()

/-- The active configuration changes by a commit and by a factory reset only. -/
inductive ConfigEffect (s : ManagementService) (command : ManagementCommand) :
    Option Response × ManagementService → Prop
  | kept {response after} (hcommits : ∀ staged, ¬s.Commits command staged)
      (hconfig : after.config = s.config) : ConfigEffect s command (response, after)
  | committed {response after} (staged : DeviceConfig) (hcommits : s.Commits command staged)
      (hconfig : after.config = staged) : ConfigEffect s command (response, after)
  | reset {after} (hcommand : command = .factoryReset)
      (hconfig : DeviceConfig.forBoard s.identity s.capabilities = .ok after.config) :
      ConfigEffect s command (some .ok, after)

/-- What a command does to the service: it changes nothing, or it succeeds. Only a factory reset
  that panics changes the lifecycle without an answer. -/
inductive Effect (C : Codec) (s : ManagementService) (e : ManagementCommand × List UInt8) :
    Option Response × ManagementService → Prop
  | kept {answer} (hcommits : ∀ staged, ¬s.Commits e.1 staged)
      (hset : ¬(e.1 = .setConfiguration ∧ answer = some .ok)) : Effect C s e (answer, s)
  | staged (config : DeviceConfig) (hcommand : e.1 = .setConfiguration)
      (hdecode : C.decode e.2 = some config) :
      Effect C s e (some .ok, { s with staged := some config })
  | committed (config : DeviceConfig) (hcommits : s.Commits e.1 config) :
      Effect C s e (some .ok, { s with config, staged := none })
  | advanced {answer lifecycle} (hcommits : ∀ staged, ¬s.Commits e.1 staged)
      (hset : e.1 ≠ .setConfiguration) (hanswer : answer = some .ok ∨ answer = none)
      (hedge : s.lifecycle.canTransition lifecycle = true) :
      Effect C s e (answer, { s with lifecycle })
  | reset {lifecycle config} (hcommand : e.1 = .factoryReset)
      (hedge : s.lifecycle.canTransition lifecycle = true)
      (hboard : DeviceConfig.forBoard s.identity s.capabilities = .ok config) :
      Effect C s e (some .ok, { s with lifecycle, config, staged := none })

variable (s : ManagementService)

theorem commitConfiguration_effect (payload : List UInt8) :
    Effect C s (.commitConfiguration, payload) (Prod.map some id s.commitConfiguration) := by
  unfold commitConfiguration
  rcases hs : s.staged with _ | config
  · exact .kept (fun staged h => nomatch hs.symm.trans h.2.1) (fun h => nomatch h.1)
  dsimp only
  rcases hvl : config.validate s.context with error | ⟨⟩
  · refine .kept (fun staged h => ?_) (fun h => nomatch h.1)
    have heq : config = staged := Option.some.inj (hs.symm.trans h.2.1)
    rw [← heq] at h
    cases hvl.symm.trans h.2.2
  · exact .committed config ⟨rfl, hs, hvl⟩

theorem setConfiguration_effect (payload : List UInt8) :
    Effect C s (.setConfiguration, payload) (Prod.map some id (s.setConfiguration C payload)) := by
  unfold setConfiguration proposal decodeConfig
  rcases hd : C.decode payload with _ | config
  · exact .kept (fun _ h => nomatch h.1) (fun h => nomatch h.2)
  rcases hvl : config.validate s.context with error | ⟨⟩
  · simp only [bind, Except.bind, hvl]
    exact .kept (fun _ h => nomatch h.1) (fun h => nomatch h.2)
  · simp only [bind, Except.bind, hvl]
    exact .staged config rfl hd

theorem edge_of_transition {s next after : LifecycleState} (h : s.transition next = .ok after) :
    s.canTransition after = true := by
  unfold LifecycleState.transition at h
  split at h <;> cases h
  assumption

theorem edge_of_factoryReset {s after : LifecycleState} (h : s.factoryReset = .ok after) :
    s.canTransition after = true := by
  cases s <;> cases h <;> rfl

theorem edge_of_commission {s after : LifecycleState} (h : s.commission = .ok after) :
    s.canTransition after = true := by
  cases s <;> cases h <;> rfl

theorem advance_effect {e : ManagementCommand × List UInt8}
    {operation : LifecycleState → Except CoreError LifecycleState}
    (hc : ∀ staged, ¬s.Commits e.1 staged) (hs : e.1 ≠ .setConfiguration)
    (hed : ∀ after, operation s.lifecycle = .ok after → s.lifecycle.canTransition after = true) :
    Effect C s e (Prod.map some id (s.advance operation)) := by
  unfold advance
  rcases h : operation s.lifecycle with error | after
  · exact .kept hc fun h => hs h.1
  · exact .advanced hc hs (.inl rfl) (hed after h)

theorem factoryReset_effect (payload : List UInt8) :
    Effect C s (.factoryReset, payload) s.factoryReset := by
  unfold factoryReset
  rcases hrs : s.lifecycle.factoryReset with error | lifecycle
  · exact .kept (fun _ h => nomatch h.1) (fun h => nomatch h.1)
  have hed := edge_of_factoryReset hrs
  rcases hbr : DeviceConfig.forBoard s.identity s.capabilities with error | config
  · exact .advanced (fun _ h => nomatch h.1) nofun (.inr rfl) hed
  · exact .reset rfl hed hbr

theorem step_effect (e : ManagementCommand × List UInt8) :
    Effect C s e (step C s e) := by
  obtain ⟨command, payload⟩ := e
  cases command with
  | commitConfiguration => exact s.commitConfiguration_effect payload
  | factoryReset => exact s.factoryReset_effect payload
  | setConfiguration => exact s.setConfiguration_effect payload
  | commissionDevice =>
    exact s.advance_effect (fun _ h => nomatch h.1) nofun fun _ => edge_of_commission
  | decommissionDevice =>
    exact s.advance_effect (fun _ h => nomatch h.1) nofun fun _ => edge_of_transition
  | _ => exact .kept (fun _ h => nomatch h.1) (fun h => nomatch h.1)

theorem Effect.config {s : ManagementService} {e : ManagementCommand × List UInt8}
    {x : Option Response × ManagementService} (h : Effect C s e x) : ConfigEffect s e.1 x := by
  cases h with
  | kept hc | advanced hc => exact .kept hc rfl
  | staged _ hm => exact .kept (fun _ h => nomatch hm.symm.trans h.1) rfl
  | committed staged hc => exact .committed staged hc rfl
  | reset hm _ hbr => exact .reset hm hbr

/-- The capabilities and the board identity are fixed. -/
theorem Effect.device {s : ManagementService} {e : ManagementCommand × List UInt8}
    {x : Option Response × ManagementService} (h : Effect C s e x) :
    x.2.capabilities = s.capabilities ∧ x.2.identity = s.identity := by
  cases h <;> exact ⟨rfl, rfl⟩

end ManagementService

/-! ## The seal of the USB identity -/

open ManagementService

variable {C : Codec} {s : ManagementService} {e : ManagementCommand × List UInt8}
  {x : Option Response × ManagementService}

abbrev Log := Entry ManagementService (ManagementCommand × List UInt8) (Option Response)

/-- Outside Factory a command other than a successful factory reset keeps the active USB part. -/
def UsbSealed (C : Codec) (e : Log) : Prop :=
  e.before.lifecycle ≠ .factory → ¬(e.event.1 = .factoryReset ∧ e.answer = some .ok) →
    (step C e.before e.event).2.config.usb = e.before.config.usb

/-- Outside Factory a commit goes through while the active USB part is not that of the board. -/
def ReplacesIdentity (s : ManagementService) (command : ManagementCommand) : Prop :=
  s.lifecycle ≠ .factory ∧ (∃ staged, s.Commits command staged) ∧
    ¬s.config.usb.Matches s.identity

/-- What a commit makes active outside Factory is the identity of the board. -/
theorem Commits.matches {command : ManagementCommand} {staged : DeviceConfig}
    (h : s.Commits command staged) (hfx : (s.capabilities.usb.configurableIdentity &&
      s.lifecycle.allowsIdentityProvisioning) = false) : staged.usb.Matches s.identity :=
  UsbConfig.validate_matches hfx (DeviceConfig.validate_usb h.2.2)

theorem fixed_of_ne_factory (h : s.lifecycle ≠ .factory) :
    (s.capabilities.usb.configurableIdentity && s.lifecycle.allowsIdentityProvisioning) =
      false := by
  have hst : s.lifecycle.allowsIdentityProvisioning = false := by
    cases hs : s.lifecycle <;> first | rfl | exact absurd hs h
  rw [hst, Bool.and_false]

theorem usbSealed_iff (s : ManagementService) (e : ManagementCommand × List UInt8) :
    UsbSealed C (entry (step C) s e) ↔ ¬ReplacesIdentity s e.1 := by
  have he : ConfigEffect s e.1 (s.handle C e.1 e.2) := (s.step_effect e).config
  constructor
  · rintro hs ⟨hfc, ⟨staged, hc⟩, hoh⟩
    have hrs : ¬(e.1 = .factoryReset ∧ (step C s e).1 = some .ok) :=
      fun h => nomatch h.1.symm.trans hc.1
    have hkp : (s.handle C e.1 e.2).2.config.usb = s.config.usb := hs hfc hrs
    have ht := Commits.matches hc (fixed_of_ne_factory hfc)
    generalize s.handle C e.1 e.2 = after at he hkp
    cases he with
    | kept hno => exact hno staged hc
    | committed staged' hc' hf =>
      have heq : staged = staged' := Option.some.inj (hc.2.1.symm.trans hc'.2.1)
      rw [hf, ← heq] at hkp
      exact hoh (hkp ▸ ht)
    | reset hm => exact nomatch hm.symm.trans hc.1
  · intro hn hfc hrs
    change (s.handle C e.1 e.2).2.config.usb = s.config.usb
    change ¬(e.1 = .factoryReset ∧ (s.handle C e.1 e.2).1 = some .ok) at hrs
    generalize s.handle C e.1 e.2 = after at he hrs
    cases he with
    | kept _ hf => exact congrArg _ hf
    | committed staged hc hf =>
      have ht := Commits.matches hc (fixed_of_ne_factory hfc)
      -- The active part is that of the board too, or the commit would replace it.
      have ha : s.config.usb.Matches s.identity :=
        not_not.mp fun h => hn ⟨hfc, ⟨staged, hc⟩, h⟩
      rw [hf]
      exact ht.unique ha
    | reset hm => exact absurd ⟨hm, rfl⟩ hrs

theorem usb_sealed_unless_replaced (C : Codec) (capabilities : DeviceCapabilities)
    (identity : BoardIdentity) (config : DeviceConfig)
    (commands : List (ManagementCommand × List UInt8)) :
    Along (fun e _ => UsbSealed C e ↔ ¬ReplacesIdentity e.before e.event.1)
      (history (step C) (.new capabilities identity config .factory) commands) := by
  refine along_history_of_all (I := fun _ _ => True) trivial ?_ commands
  exact fun s _ e _ => ⟨usbSealed_iff s e, trivial⟩

/-- Without a configurable identity the active USB part stays that of the board. -/
structure BoardIdentityActive (s : ManagementService) : Prop where
  fixed : s.capabilities.usb.configurableIdentity = false
  active : s.config.usb.Matches s.identity

theorem BoardIdentityActive.handle (h : BoardIdentityActive s) (command : ManagementCommand)
    (payload : List UInt8) :
    BoardIdentityActive (s.handle C command payload).2 := by
  have he : Effect C s (command, payload) (s.handle C command payload) := s.step_effect _
  generalize s.handle C command payload = after at he
  obtain ⟨hcp, hi⟩ := he.device
  refine ⟨by rw [hcp]; exact h.fixed, ?_⟩
  rw [hi]
  cases he.config with
  | kept _ hc => exact hc ▸ h.active
  | committed staged hm hc =>
    exact hc ▸ Commits.matches hm (by rw [h.fixed, Bool.false_and])
  | reset _ hc => exact DeviceConfig.forBoard_matches hc

theorem never_replaced_of_fixed_identity {capabilities : DeviceCapabilities}
    {identity : BoardIdentity} {config : DeviceConfig}
    (hfx : capabilities.usb.configurableIdentity = false)
    (hvl : config.validate ⟨capabilities, .factory, identity⟩ = .ok ())
    (commands : List (ManagementCommand × List UInt8)) :
    Along (fun e _ => ¬ReplacesIdentity e.before e.event.1)
      (history (step C) (.new capabilities identity config .factory) commands) := by
  have ha : config.usb.Matches identity :=
    UsbConfig.validate_matches (show (_ && _) = false by rw [hfx, Bool.false_and])
      (DeviceConfig.validate_usb hvl)
  refine along_history_of_all (I := fun s _ => BoardIdentityActive s) ⟨hfx, ha⟩ ?_ commands
  exact fun s _ e h => ⟨fun hr => hr.2.2 h.active, h.handle e.1 e.2⟩

/-! ### A provisioned identity

  A device of the generic board whose configuration was provisioned with another identity, the one
  that the tests of the validation accept in Factory. -/

def text (bytes : List UInt8) (hlength : bytes.length < 2 ^ 64) (hutf8 : isUtf8 bytes = true) :
    Text :=
  ⟨⟨bytes, hlength⟩, hutf8⟩

def productUsbString : List UInt8 :=
  [0x41, 0x65, 0x67, 0x69, 0x73, 0x54, 0x6F, 0x6B, 0x65, 0x6E, 0x20, 0x46, 0x49, 0x44, 0x4F, 0x32,
    0x20, 0x55, 0x53, 0x42, 0x20, 0x41, 0x75, 0x74, 0x68, 0x65, 0x6E, 0x74, 0x69, 0x63, 0x61, 0x74,
    0x6F, 0x72]

def genericIdentity : BoardIdentity where
  manufacturer := text (productUsbString.take 10) (by decide) (by decide)
  product := text productUsbString (by decide) (by decide)
  vendorId := 0x1209
  productId := 0x0001

def officialDefaults : DeviceConfig where
  version := configVersion
  usb := ⟨⟨productUsbString, by decide, by decide⟩, 0x1209, 0x0001⟩
  led := ⟨true, 25, 255, .gpio, .activity⟩
  presence := ⟨.bootsel, defaultPresenceDebounceMs, defaultPresenceTimeoutMs⟩

/-- The defaults with the identity `2E8A:10B0`, `Custom Hardware Variant`. -/
def customConfig : DeviceConfig :=
  { officialDefaults with
    usb :=
      { productString := ⟨[0x43, 0x75, 0x73, 0x74, 0x6F, 0x6D, 0x20, 0x48, 0x61, 0x72, 0x64, 0x77,
          0x61, 0x72, 0x65, 0x20, 0x56, 0x61, 0x72, 0x69, 0x61, 0x6E, 0x74], by decide, by decide⟩
        vid := 0x2E8A
        pid := 0x10B0 } }

/-- The CBOR encoding of `officialDefaults`. -/
def officialBytes : List UInt8 :=
  [0xA4, 0x00, 0x01, 0x01, 0xA3, 0x00, 0x78, 0x22] ++ productUsbString ++
  [0x01, 0x19, 0x12, 0x09, 0x02, 0x01, 0x02, 0xA5, 0x00, 0xF5, 0x01, 0x18, 0x19, 0x02, 0x18, 0xFF,
    0x03, 0x00, 0x04, 0x02, 0x03, 0xA3, 0x00, 0x00, 0x01, 0x14, 0x02, 0x19, 0x3A, 0x98]

/-- The codec on the payload of the run; its responses have no payload. -/
def officialCodec : Codec where
  encode _ := none
  decode bytes := if bytes = officialBytes then some officialDefaults else none

/-- Commission the device, then set and commit the defaults of the board. -/
def replacingCommands : List (ManagementCommand × List UInt8) :=
  [(.commissionDevice, []), (.setConfiguration, officialBytes), (.commitConfiguration, [])]

theorem commit_replaces_identity :
    customConfig.validate ⟨.forVariant .rp2350 .qfn60, .factory, genericIdentity⟩ = .ok () ∧
    ¬Along (fun e _ => UsbSealed officialCodec e) (history (step officialCodec)
      (.new (.forVariant .rp2350 .qfn60) genericIdentity customConfig .factory)
      replacingCommands) := by
  refine ⟨by decide +kernel, fun h => ?_⟩
  have hkept : officialDefaults.usb = customConfig.usb := h.1 (by decide +kernel) (by decide +kernel)
  exact absurd hkept (by decide +kernel)

theorem never_replaced_fixed_defaults :
    Along (fun e _ => ¬ReplacesIdentity e.before e.event.1) (history (step officialCodec)
      (.new { DeviceCapabilities.forVariant .rp2350 .qfn60 with usb.configurableIdentity := false }
        genericIdentity officialDefaults .factory) replacingCommands) :=
  never_replaced_of_fixed_identity rfl (by decide +kernel) replacingCommands

/-! ## Transactions -/

/-- The outcome of a command that answers with an error is the state it found. -/
def KeptOnError (s : ManagementService) (x : Option Response × ManagementService) : Prop :=
  ∀ response, x.1 = some response → response.status ≠ .ok → x.2 = s

def SetsConfiguration (e : Log) : Prop := e.event.1 = .setConfiguration ∧ e.answer = some .ok

/-- The most recent SetConfiguration that succeeded decoded this configuration. -/
def LastSet (C : Codec) (config : DeviceConfig) : List Log → Prop :=
  Since (fun e _ => SetsConfiguration e ∧ C.decode e.event.2 = some config) SetsConfiguration

/-- How the outcome of a command may differ from the state it found. -/
structure Transactional (C : Codec) (s : ManagementService) (e : ManagementCommand × List UInt8)
    (x : Option Response × ManagementService) (past : List Log) : Prop where
  config : x.2.config = s.config ∨
    (e.1 = .commitConfiguration ∧ LastSet C x.2.config past ∧
      x.2.config.validate s.context = .ok ()) ∨
    (e.1 = .factoryReset ∧ x.1 = some .ok ∧
      DeviceConfig.forBoard s.identity s.capabilities = .ok x.2.config)
  lifecycle : s.lifecycle.canTransition x.2.lifecycle = true

/-- What is staged comes from the most recent SetConfiguration that succeeded. -/
def StagedInv (C : Codec) (s : ManagementService) (past : List Log) : Prop :=
  ∀ config, s.staged = some config → LastSet C config past

theorem ManagementService.Effect.keptOnError (he : Effect C s e x) : KeptOnError s x := by
  intro response hrs heo
  cases he with
  | kept => rfl
  | advanced _ _ ha =>
    rcases ha with rfl | rfl <;> cases hrs
    exact absurd rfl heo
  | _ =>
    cases hrs
    exact absurd rfl heo

theorem StagedInv.step {past : List Log} (h : StagedInv C s past) (he : Effect C s e x) :
    Transactional C s e x past ∧ StagedInv C x.2 (⟨s, e, x.1⟩ :: past) := by
  have hsl : s.lifecycle.canTransition s.lifecycle = true := if_pos rfl
  cases he with
  | kept _ ht => exact ⟨⟨.inl rfl, hsl⟩, fun config hc => .inr ⟨ht, h config hc⟩⟩
  | staged config hm hd =>
    exact ⟨⟨.inl rfl, hsl⟩, fun _ hc => .inl ⟨⟨hm, rfl⟩, hd.trans hc⟩⟩
  | committed config hcm =>
    have hls := h config hcm.2.1
    exact ⟨⟨.inr (.inl ⟨hcm.1, hls, hcm.2.2⟩), hsl⟩, fun _ hc => nomatch hc⟩
  | advanced _ ht _ hed =>
    exact ⟨⟨.inl rfl, hed⟩, fun config hc => .inr ⟨fun hs => ht hs.1, h config hc⟩⟩
  | reset hm hed hbr =>
    exact ⟨⟨.inr (.inr ⟨hm, rfl, hbr⟩), hed⟩, fun _ hc => nomatch hc⟩

theorem management_transactional (C : Codec) :
    (∀ s e, KeptOnError s (step C s e)) ∧
    ∀ capabilities identity config lifecycle commands, Along
      (fun e past => Transactional C e.before e.event (step C e.before e.event) past)
      (history (step C) (.new capabilities identity config lifecycle) commands) := by
  refine ⟨fun s e => (s.step_effect e).keptOnError, ?_⟩
  intro capabilities identity config lifecycle commands
  have hinit : StagedInv C (.new capabilities identity config lifecycle) [] :=
    fun staged (hc : none = some staged) => nomatch hc
  refine along_history_of_all hinit ?_ commands
  exact fun s past e h => h.step (s.step_effect e)

end AegisToken.Management
