/-
  The device configuration and its validation (aegis-core lifecycle.rs, capabilities.rs,
  identity.rs, configuration.rs).
  A proposal is checked against the capabilities, the lifecycle and the board identity. Outside
  Factory, and wherever the capabilities do not declare a configurable identity, only the identity
  of the board passes: `UsbConfig.validate_matches`.
-/
import AegisToken.Core.Credential

namespace AegisToken
open ByteCodec Wire

/-! ## Lifecycle -/

/-- Provisioning lifecycle of the device. -/
inductive LifecycleState where
  | factory
  | commissioning
  | commissioned
  | provisioning
  | provisioned
  | active
  | suspended
  | decommissioned
deriving DecidableEq, Repr

namespace LifecycleState

def code : LifecycleState → UInt8
  | .factory => 0
  | .commissioning => 1
  | .commissioned => 2
  | .provisioning => 3
  | .provisioned => 4
  | .active => 5
  | .suspended => 6
  | .decommissioned => 7

/-- Whether `next` is a legal successor; a state may always transition to itself. -/
def canTransition (s next : LifecycleState) : Bool :=
  if s = next then true
  else
    match s, next with
    | .factory, .commissioning => true
    | .commissioning, .commissioned | .commissioning, .factory => true
    | .commissioned, .provisioning => true
    | .provisioning, .provisioned | .provisioning, .commissioned => true
    | .provisioned, .active => true
    | .active, .suspended | .active, .decommissioned => true
    | .suspended, .active | .suspended, .decommissioned => true
    | .decommissioned, .factory => true
    | _, _ => false

/-- Apply a transition (also `LifecycleManager::advance`, which stores the result). -/
def transition (s next : LifecycleState) : Except CoreError LifecycleState :=
  if s.canTransition next then .ok next else .error .invalidState

def allowsConfigChange : LifecycleState → Bool
  | .factory | .commissioning | .commissioned => true
  | _ => false

def allowsIdentityProvisioning : LifecycleState → Bool
  | .factory => true
  | _ => false

/-- Begin commissioning; idempotent while already commissioning. -/
def commission (s : LifecycleState) : Except CoreError LifecycleState :=
  match s with
  | .factory => s.transition .commissioning
  | .commissioning => .ok s
  | _ => .error .invalidState

def decommission (s : LifecycleState) : Except CoreError LifecycleState :=
  s.transition .decommissioned

/-- Return a decommissioned device to the factory state. -/
def factoryReset (s : LifecycleState) : Except CoreError LifecycleState :=
  match s with
  | .decommissioned => s.transition .factory
  | .factory => .ok s
  | _ => .error .invalidState

end LifecycleState

/-! ## Capabilities and board identity -/

/-- RP2350 die family. -/
inductive Rp2350Family where
  | rp2350
  | rp2354
deriving DecidableEq, Repr

/-- Physical package. -/
inductive Rp2350Package where
  | qfn60
  | qfn80
deriving DecidableEq, Repr

def Rp2350Package.gpioCount : Rp2350Package → UInt8
  | .qfn60 => 30
  | .qfn80 => 48

structure FlashCapabilities where
  external : Bool
  internal : Bool
  sizeBytes : UInt32
deriving DecidableEq

structure UsbCapabilities where
  device : Bool
  fidoHid : Bool
  managementHid : Bool
  maxProductStringLen : UInt8
  configurableIdentity : Bool
deriving DecidableEq

structure LedDriverCapabilities where
  gpio : Bool
  pwm : Bool
  ws2812 : Bool
deriving DecidableEq

structure LedCapabilities where
  available : Bool
  configurableGpio : Bool
  candidateGpioMask : UInt64
  brightness : Bool
  drivers : LedDriverCapabilities
  defaultGpio : Option UInt8
  defaultBrightness : UInt8
deriving DecidableEq

structure PresenceCapabilities where
  bootsel : Bool
  externalButton : Bool
  externalButtonGpio : Option UInt8
deriving DecidableEq

/-- Complete capability set advertised by the firmware. -/
structure DeviceCapabilities where
  family : Rp2350Family
  package : Rp2350Package
  gpioCount : UInt8
  flash : FlashCapabilities
  usb : UsbCapabilities
  led : LedCapabilities
  presence : PresenceCapabilities
deriving DecidableEq

def DeviceCapabilities.forVariant (family : Rp2350Family) (package : Rp2350Package) :
    DeviceCapabilities where
  family
  package
  gpioCount := package.gpioCount
  flash :=
    { external := family ≠ .rp2354, internal := family = .rp2354, sizeBytes := 2 * 1024 * 1024 }
  usb := ⟨true, true, true, 64, true⟩
  led :=
    { available := true
      configurableGpio := true
      candidateGpioMask := (1 : UInt64) <<< 25
      brightness := true
      drivers := ⟨true, true, false⟩
      defaultGpio := some 25
      defaultBrightness := 255 }
  presence := ⟨true, false, none⟩

/-- Identity declared by a carrier board: the parts that the configuration echoes or reports. -/
structure BoardIdentity where
  manufacturer : Text
  product : Text
  vendorId : UInt16
  productId : UInt16

/-! ## The configuration -/

theorem fixedString_mk {n : Nat} (value : Text) (h : value.val.val.length ≤ n) :
    value.val.val.length ≤ n ∧ isUtf8 value.val.val = true :=
  ⟨h, value.property⟩

/-- Build from a string slice, refusing values that do not fit. -/
def FixedString.new (n : Nat) (value : Text) : Except CoreError (FixedString n) :=
  if h : value.val.val.length ≤ n then .ok ⟨value.val.val, fixedString_mk value h⟩
  else .error .invalidConfiguration

inductive LedDriver where
  | gpio
  | pwm
  | ws2812
deriving DecidableEq, Repr

inductive LedBehavior where
  | off
  | solid
  | activity
  | blink
deriving DecidableEq, Repr

inductive PresenceSource where
  | bootsel
  | externalButton
deriving DecidableEq, Repr

/-- USB identity configuration. -/
structure UsbConfig where
  productString : FixedString 64
  vid : UInt16
  pid : UInt16
deriving DecidableEq

structure LedConfig where
  enabled : Bool
  gpio : UInt8
  brightness : UInt8
  driver : LedDriver
  behavior : LedBehavior
deriving DecidableEq

structure PresenceConfig where
  source : PresenceSource
  debounceMs : UInt16
  timeoutMs : UInt16
deriving DecidableEq

/-- Complete persistent device configuration. -/
structure DeviceConfig where
  version : UInt16
  usb : UsbConfig
  led : LedConfig
  presence : PresenceConfig
deriving DecidableEq

def configVersion : UInt16 := 1
def defaultPresenceDebounceMs : UInt16 := 20
def defaultPresenceTimeoutMs : UInt16 := 15000
def minDebounceMs : UInt16 := 5
def maxDebounceMs : UInt16 := 1000
def minTimeoutMs : UInt16 := 1000
def maxTimeoutMs : UInt16 := 60000

/-! ## Validation -/

/-- The GPIO is a candidate, or the default where it is not configurable. -/
def LedConfig.gpioAllowed (c : LedConfig) (caps : LedCapabilities) : Bool :=
  if caps.configurableGpio then
    caps.candidateGpioMask &&& ((1 : UInt64) <<< c.gpio.toUInt64) ≠ 0
  else some c.gpio = caps.defaultGpio

def LedDriver.supported (caps : LedDriverCapabilities) : LedDriver → Bool
  | .gpio => caps.gpio
  | .pwm => caps.pwm
  | .ws2812 => caps.ws2812

def LedConfig.validate (c : LedConfig) (caps : LedCapabilities) (gpioCount : UInt8) :
    Except CoreError Unit :=
  if !caps.available then if c.enabled then .error .invalidCapability else .ok ()
  else if !c.enabled then .ok ()
  else if c.gpio ≥ gpioCount then .error .invalidConfiguration
  else if !c.gpioAllowed caps then .error .invalidCapability
  else if !caps.brightness && c.brightness ≠ caps.defaultBrightness then
    .error .invalidCapability
  else if !c.driver.supported caps.drivers then .error .invalidCapability
  else .ok ()

def PresenceSource.available (caps : PresenceCapabilities) : PresenceSource → Bool
  | .bootsel => caps.bootsel
  | .externalButton => caps.externalButton

def PresenceConfig.validate (c : PresenceConfig) (caps : PresenceCapabilities)
    (gpioCount : UInt8) : Except CoreError Unit :=
  if !c.source.available caps then .error .invalidCapability
  else if c.source = .externalButton ∧ caps.externalButtonGpio.any (· ≥ gpioCount) then
    .error .invalidConfiguration
  else if c.debounceMs < minDebounceMs ∨ c.debounceMs > maxDebounceMs then
    .error .invalidConfiguration
  else if c.timeoutMs < minTimeoutMs ∨ c.timeoutMs > maxTimeoutMs then
    .error .invalidConfiguration
  else if c.timeoutMs ≤ c.debounceMs then .error .invalidConfiguration
  else .ok ()

/-- Inputs required to validate a configuration against the device. -/
structure ValidationContext where
  capabilities : DeviceCapabilities
  lifecycle : LifecycleState
  identity : BoardIdentity

/-- The part of `DeviceConfig::validate` about the USB identity. -/
def UsbConfig.validate (usb : UsbConfig) (ctx : ValidationContext) : Except CoreError Unit :=
  if ctx.capabilities.usb.configurableIdentity && ctx.lifecycle.allowsIdentityProvisioning then
    if usb.vid = 0 ∨ usb.pid = 0 then .error .invalidConfiguration
    else if usb.productString.val.isEmpty ∨
        usb.productString.val.length > ctx.capabilities.usb.maxProductStringLen.toNat then
      .error .invalidConfiguration
    else .ok ()
  else if usb.productString.val ≠ ctx.identity.product.val.val then .error .unauthorized
  else if usb.vid ≠ ctx.identity.vendorId ∨ usb.pid ≠ ctx.identity.productId then
    .error .unauthorized
  else if usb.productString.val.length > ctx.capabilities.usb.maxProductStringLen.toNat then
    .error .invalidConfiguration
  else .ok ()

namespace DeviceConfig

/-- The external button and the LED must not share a pin. -/
def sharesPin (c : DeviceConfig) (caps : PresenceCapabilities) : Bool :=
  match c.presence.source, c.led.enabled, caps.externalButtonGpio with
  | .externalButton, true, some button => c.led.gpio = button
  | _, _, _ => false

def validate (c : DeviceConfig) (ctx : ValidationContext) : Except CoreError Unit :=
  if c.version ≠ configVersion then .error .invalidConfiguration
  else if !ctx.lifecycle.allowsConfigChange then .error .unauthorized
  else do
    c.usb.validate ctx
    c.led.validate ctx.capabilities.led ctx.capabilities.gpioCount
    c.presence.validate ctx.capabilities.presence ctx.capabilities.gpioCount
    if c.sharesPin ctx.capabilities.presence then .error .invalidConfiguration else .ok ()

/-- Factory configuration for the installed board. It is refused (the source panics) where the
  product string of the board does not fit. -/
def forBoard (identity : BoardIdentity) (capabilities : DeviceCapabilities) :
    Except CoreError DeviceConfig := do
  let led := capabilities.led
  let productString ← FixedString.new 64 identity.product
  return {
    version := configVersion
    usb := { productString, vid := identity.vendorId, pid := identity.productId }
    led :=
      { enabled := led.available
        gpio := led.defaultGpio.getD 0
        brightness := led.defaultBrightness
        driver :=
          if led.drivers.gpio then .gpio
          else if led.drivers.pwm then .pwm
          else if led.drivers.ws2812 then .ws2812
          else .gpio
        behavior := .activity }
    presence :=
      { source := if capabilities.presence.bootsel then .bootsel else .externalButton
        debounceMs := defaultPresenceDebounceMs
        timeoutMs := defaultPresenceTimeoutMs } }

end DeviceConfig

/-- The USB part of the configuration is the identity of the board. -/
def UsbConfig.Matches (usb : UsbConfig) (identity : BoardIdentity) : Prop :=
  usb.productString.val = identity.product.val.val ∧ usb.vid = identity.vendorId ∧
    usb.pid = identity.productId

theorem UsbConfig.Matches.unique {identity : BoardIdentity} {a b : UsbConfig}
    (ha : a.Matches identity) (hb : b.Matches identity) : a = b := by
  obtain ⟨aproduct, avid, apid⟩ := a
  obtain ⟨bproduct, bvid, bpid⟩ := b
  obtain ⟨hpr, hv, hp⟩ := ha
  obtain ⟨hpr', hv', hp'⟩ := hb
  dsimp only at hpr hv hp hpr' hv' hp'
  obtain rfl : aproduct = bproduct := Subtype.ext (hpr.trans hpr'.symm)
  rw [hv, hp, hv', hp']

/-- Where the identity cannot be provisioned, a USB part that passes is the identity of the
  board. -/
theorem UsbConfig.validate_matches {usb : UsbConfig} {ctx : ValidationContext}
    (hfx : (ctx.capabilities.usb.configurableIdentity &&
      ctx.lifecycle.allowsIdentityProvisioning) = false)
    (h : usb.validate ctx = .ok ()) : usb.Matches ctx.identity := by
  unfold UsbConfig.validate at h
  rw [hfx, if_neg Bool.false_ne_true] at h
  split at h
  · cases h
  rename_i hpr
  split at h
  · cases h
  · rename_i hi
    rw [not_or, not_ne_iff, not_ne_iff] at hi
    exact ⟨not_ne_iff.mp hpr, hi⟩

theorem DeviceConfig.validate_usb {c : DeviceConfig} {ctx : ValidationContext}
    (h : c.validate ctx = .ok ()) : c.usb.validate ctx = .ok () := by
  unfold DeviceConfig.validate at h
  rcases hu : c.usb.validate ctx with e | ⟨⟩
  · rw [hu] at h
    split at h
    · cases h
    · split at h <;> cases h
  · rfl

theorem DeviceConfig.forBoard_matches {identity : BoardIdentity} {caps : DeviceCapabilities}
    {c : DeviceConfig} (h : DeviceConfig.forBoard identity caps = .ok c) :
    c.usb.Matches identity := by
  unfold DeviceConfig.forBoard FixedString.new at h
  split at h
  · cases h
    exact ⟨rfl, rfl, rfl⟩
  · cases h

end AegisToken
