/-
  The PIV card applet (aegis-applets piv.rs): keys, policies, the management key, and the loading
  of the state on SELECT.
  `Piv σ` is the state of the applet over a store with states `σ`. The store is the trait
  `PivStore`, a record of functions: a read has the size of its buffer and may give nothing, a
  write may fail, and both may change the store. A command returns its response and the applet it
  leaves; the output buffers are not part of the state. Hashes, ciphers and curves are the
  parameter `PivCrypto`, of which nothing is assumed.
-/
import AegisToken.Applets.PinSlot
import AegisToken.Applets.Rsa

namespace AegisToken.Applets
open ByteCodec

/-- The primitives of the PIV applet. The curves take the bytes of a scalar and give nothing when
  they are none; a point is uncompressed and a signature is DER. AES takes a key of 16, 24 or 32
  bytes. -/
structure PivCrypto where
  sha256 : List UInt8 → FixedBytes 32
  bigUint : BigUint
  p256Public : List UInt8 → Option (FixedBytes 65)
  p384Public : List UInt8 → Option (FixedBytes 97)
  p256Sign : List UInt8 → List UInt8 → Option (List UInt8)
  p384Sign : List UInt8 → List UInt8 → Option (List UInt8)
  tdesEncrypt : FixedBytes 24 → FixedBytes 8 → FixedBytes 8
  aesEncrypt : List UInt8 → FixedBytes 16 → FixedBytes 16

/-- The trait `PivStore`: a read into a buffer of `cap` bytes, and whether a write worked. -/
structure PivStore (σ : Type) where
  read : Nat → (cap : Nat) → σ → Option (BoundedBytes cap) × σ
  write : Nat → List UInt8 → σ → Bool × σ

namespace Piv

/-! ## Constants -/

def recordPin : Nat := 1
def recordPuk : Nat := 2
def recordMgmtKey : Nat := 3
def recordKeyBase : Nat := 10
def recordObjectBase : Nat := 30
def maxRecordBytes : Nat := 1536
def keyRecordBytes : Nat := 6 + rsaBlobBytes
def scratchBytes : Nat := maxRecordBytes + 16

def refPin : UInt8 := 0x80
def refPuk : UInt8 := 0x81
def refPivAuth : UInt8 := 0x9A
def refManagement : UInt8 := 0x9B
def refSignature : UInt8 := 0x9C
def refCardAuth : UInt8 := 0x9E

def algTdes : UInt8 := 0x03
def algRsa2048 : UInt8 := 0x07
def algAes128 : UInt8 := 0x08
def algAes192 : UInt8 := 0x0A
def algAes256 : UInt8 := 0x0C
def algEccP256 : UInt8 := 0x11
def algEccP384 : UInt8 := 0x14

/-- Application properties returned by SELECT. -/
def fci : List UInt8 :=
  [0x61, 0x11, 0x4F, 0x06, 0x00, 0x00, 0x10, 0x00, 0x01, 0x00, 0x79, 0x07, 0x4F, 0x05, 0xA0, 0x00,
    0x00, 0x03, 0x08]

/-- The factory 3DES management key. -/
def defaultMgmtKey : List UInt8 :=
  [0x01, 0x02, 0x03, 0x04, 0x05, 0x06, 0x07, 0x08, 0x01, 0x02, 0x03, 0x04, 0x05, 0x06, 0x07, 0x08,
    0x01, 0x02, 0x03, 0x04, 0x05, 0x06, 0x07, 0x08]

def defaultPin : List UInt8 := [0x31, 0x32, 0x33, 0x34, 0x35, 0x36]

def defaultPuk : List UInt8 := [0x31, 0x32, 0x33, 0x34, 0x35, 0x36, 0x37, 0x38]

/-- PIN and PUK policy: 6 to 8 bytes, three attempts. -/
def pivPinPolicy : PinPolicy := ⟨6, 8, 3, .sha256⟩

def memoryRecords : Nat := 16

/-- `MemoryPivStore`: the records with their identifiers. -/
def memoryStore : PivStore (List (Nat × List UInt8)) where
  read record cap st := ((st.lookup record).bind (BoundedBytes.ofSlice cap), st)
  write record data st :=
    if maxRecordBytes < data.length then (false, st)
    else if (st.lookup record).isSome then
      (true, st.map fun entry => if entry.1 = record then (record, data) else entry)
    else if memoryRecords ≤ st.length then (false, st)
    else (true, st ++ [(record, data)])

/-- `erase` of `MemoryPivStore`: whether there was a record. -/
def memoryErase (record : Nat) (st : List (Nat × List UInt8)) : Bool × List (Nat × List UInt8) :=
  if (st.lookup record).isSome then (true, st.filter fun entry => entry.1 ≠ record) else (false, st)

/-! ## Policies and key slots -/

/-- What a key slot requires of the PIN before signing. -/
inductive PinPolicyCode where
  | never
  | once
  | always
deriving DecidableEq, Repr

def PinPolicyCode.code : PinPolicyCode → UInt8
  | .never => 1
  | .once => 2
  | .always => 3

def PinPolicyCode.fromCode (code : UInt8) : Option PinPolicyCode :=
  if code = 1 then some .never
  else if code = 2 then some .once
  else if code = 3 then some .always
  else none

/-- Whether a key slot requires user presence before signing. -/
inductive TouchPolicy where
  | never
  | always
  | cached
deriving DecidableEq, Repr

def TouchPolicy.code : TouchPolicy → UInt8
  | .never => 1
  | .always => 2
  | .cached => 3

def TouchPolicy.fromCode (code : UInt8) : Option TouchPolicy :=
  if code = 1 then some .never
  else if code = 2 then some .always
  else if code = 3 then some .cached
  else none

/-- Key slots that hold private keys. -/
inductive KeySlot where
  | pivAuth
  | signature
  | cardAuth
deriving DecidableEq, Repr

def KeySlot.fromCode (code : UInt8) : Option KeySlot :=
  if code = refPivAuth then some .pivAuth
  else if code = refSignature then some .signature
  else if code = refCardAuth then some .cardAuth
  else none

def KeySlot.record : KeySlot → Nat
  | .pivAuth => recordKeyBase
  | .signature => recordKeyBase + 1
  | .cardAuth => recordKeyBase + 2

def curveBytes (algorithm : UInt8) : Option Nat :=
  if algorithm = algEccP256 then some 32
  else if algorithm = algEccP384 then some 48
  else none

/-- Whether the applet signs with keys of this algorithm. -/
def supportsAlgorithm (algorithm : UInt8) : Bool :=
  (curveBytes algorithm).isSome ∨ algorithm = algRsa2048

/-! ## The management key -/

/-- Management key and its algorithm. -/
structure MgmtKey where
  algorithm : UInt8
  len : Nat
  key : FixedBytes 32
deriving DecidableEq

section
variable (K : PivCrypto)

/-- Single-block Triple-DES encryption. -/
def tdesEcbEncrypt (key block : List UInt8) : Option (List UInt8) :=
  if key.length ≠ 24 ∨ block.length ≠ 8 then none
  else some (K.tdesEncrypt (FixedBytes.ofList 24 key) (FixedBytes.ofList 8 block)).val

/-- Single-block AES encryption: CBC with a zero IV over one block. -/
def aesEcbEncrypt (key block : List UInt8) : Option (List UInt8) :=
  if block.length ≠ 16 then none
  else if key.length ≠ 16 ∧ key.length ≠ 24 ∧ key.length ≠ 32 then none
  else some (K.aesEncrypt key (FixedBytes.ofList 16 block)).val

end

namespace MgmtKey

def defaultKey : MgmtKey := ⟨algTdes, defaultMgmtKey.length, FixedBytes.ofList 32 defaultMgmtKey⟩

def isAes (algorithm : UInt8) : Bool :=
  algorithm = algAes128 ∨ algorithm = algAes192 ∨ algorithm = algAes256

def blockLen (key : MgmtKey) : Nat :=
  if key.algorithm = algTdes then 8 else if isAes key.algorithm then 16 else 0

def keyLenOf (algorithm : UInt8) : Nat :=
  if algorithm = algTdes then 24
  else if algorithm = algAes128 then 16
  else if algorithm = algAes192 then 24
  else if algorithm = algAes256 then 32
  else 0

def keyLen (key : MgmtKey) : Nat := keyLenOf key.algorithm

/-- Encrypt one block, or nothing when the block or the key has the wrong length. -/
def encrypt (K : PivCrypto) (key : MgmtKey) (block : List UInt8) : Option (List UInt8) :=
  if block.length ≠ key.blockLen ∨ key.len ≠ key.keyLen then none
  else if key.algorithm = algTdes then tdesEcbEncrypt K (key.key.val.take key.len) block
  else if isAes key.algorithm then aesEcbEncrypt K (key.key.val.take key.len) block
  else none

/-- The record of a key: algorithm, length, key. -/
def record (key : MgmtKey) : List UInt8 :=
  key.algorithm :: UInt8.ofNat key.len :: key.key.val.take key.len

/-- Encode a key into the 34 bytes of its record. -/
def encode (key : MgmtKey) : Option (List UInt8) :=
  if 34 < 2 + key.len then none else some key.record

def decode : List UInt8 → Option MgmtKey
  | algorithm :: len :: rest =>
    if len.toNat ≠ keyLenOf algorithm ∨ rest.length < len.toNat then none
    else some ⟨algorithm, len.toNat, FixedBytes.ofList 32 (rest.take len.toNat)⟩
  | _ => none

end MgmtKey

/-- An authentication in flight: the nonce the host has to return. -/
structure Witness where
  isMutual : Bool
  nonce : BoundedBytes 16
deriving DecidableEq

/-- A signature that waits for user presence. -/
structure PendingSign where
  slot : KeySlot
  digest : BoundedBytes 256
deriving DecidableEq

/-- Which of the two PIN records a command changes. -/
inductive PinRecord where
  | pin
  | puk
deriving DecidableEq, Repr

def PinRecord.record : PinRecord → Nat
  | .pin => recordPin
  | .puk => recordPuk

def PinRecord.fromReference (p2 : UInt8) : Option PinRecord :=
  if p2 = refPin then some .pin else if p2 = refPuk then some .puk else none

/-- Pad a PIN with `FF` to eight bytes. -/
def paddedPin (pin : List UInt8) : List UInt8 :=
  pin.take 8 ++ List.replicate (8 - min pin.length 8) 0xFF

def effectivePinLen (padded : List UInt8) : Nat :=
  (padded.reverse.dropWhile (· = 0xFF)).length

end Piv

/-! ## State -/

/-- The applet. -/
structure Piv (σ : Type) where
  store : σ
  pin : PinSlot
  puk : PinSlot
  pinFloor : UInt8
  pukFloor : UInt8
  mgmt : Piv.MgmtKey
  pinVerified : Bool
  mgmtAuthenticated : Bool
  witness : Option Piv.Witness
  pendingSign : Option Piv.PendingSign
  presenceCached : Bool
  provisioned : Bool

namespace Piv

variable {σ : Type}

def new (store : σ) : Piv σ where
  store
  pin := PinSlot.new pivPinPolicy
  puk := PinSlot.new pivPinPolicy
  pinFloor := pivPinPolicy.maxAttempts
  pukFloor := pivPinPolicy.maxAttempts
  mgmt := MgmtKey.defaultKey
  pinVerified := false
  mgmtAuthenticated := false
  witness := none
  pendingSign := none
  presenceCached := false
  provisioned := false

def slot (c : Piv σ) : PinRecord → PinSlot
  | .pin => c.pin
  | .puk => c.puk

def setSlot (c : Piv σ) (record : PinRecord) (slot : PinSlot) : Piv σ :=
  match record with
  | .pin => { c with pin := slot }
  | .puk => { c with puk := slot }

def floor (c : Piv σ) : PinRecord → UInt8
  | .pin => c.pinFloor
  | .puk => c.pukFloor

def setFloor (c : Piv σ) (record : PinRecord) (floor : UInt8) : Piv σ :=
  match record with
  | .pin => { c with pinFloor := floor }
  | .puk => { c with pukFloor := floor }

section
variable (K : PivCrypto) (S : PivStore σ)

def read (record cap : Nat) (c : Piv σ) : Option (BoundedBytes cap) × Piv σ :=
  let (bytes, store) := S.read record cap c.store
  (bytes, { c with store })

def write (record : Nat) (data : List UInt8) (c : Piv σ) : Bool × Piv σ :=
  let (written, store) := S.write record data c.store
  (written, { c with store })

def writePinSlot (record : Nat) (slot : PinSlot) (c : Piv σ) : Bool × Piv σ :=
  c.write S record slot.encode.val

/-- Write the factory slot when the record cannot be read. -/
def provisionPin (record : PinRecord) (pin : List UInt8) (c : Piv σ) : Piv σ :=
  match c.read S record.record pinStateLen with
  | (some _, c) => c
  | (none, c) =>
    let slot := ((PinSlot.new pivPinPolicy).set K.sha256 (paddedPin pin)).2
    (c.writePinSlot S record.record slot).2

/-- Write the management key when the record cannot be read. -/
def provisionMgmt (c : Piv σ) : Piv σ :=
  match c.read S recordMgmtKey 34 with
  | (some _, c) => c
  | (none, c) =>
    match c.mgmt.encode with
    | some record => (c.write S recordMgmtKey record).2
    | none => c

def provision (c : Piv σ) : Piv σ :=
  if c.provisioned then c
  else
    let c := { c with provisioned := true }
    let c := c.provisionPin K S .pin defaultPin
    let c := c.provisionPin K S .puk defaultPuk
    c.provisionMgmt S

/-- Load one PIN slot, lowered to the session floor. -/
def loadPin (record : PinRecord) (c : Piv σ) : Bool × Piv σ :=
  match c.read S record.record pinStateLen with
  | (none, c) => (false, c)
  | (some bytes, c) =>
    match PinSlot.decode pivPinPolicy bytes.val with
    | .error _ => (false, c)
    | .ok slot => (true, c.setSlot record (clampToFloor slot (c.floor record)))

def loadMgmt (c : Piv σ) : Bool × Piv σ :=
  match c.read S recordMgmtKey 34 with
  | (none, c) => (false, c)
  | (some bytes, c) =>
    match MgmtKey.decode bytes.val with
    | none => (false, c)
    | some mgmt => (true, { c with mgmt })

/-- Load the state. What was loaded before a failure stays. -/
def loadState (c : Piv σ) : Bool × Piv σ :=
  match (c.provision K S).loadPin S .pin with
  | (false, c) => (false, c)
  | (true, c) =>
    match c.loadPin S .puk with
    | (false, c) => (false, c)
    | (true, c) => c.loadMgmt S

/-- Forget what was verified in the session. -/
def endSession (c : Piv σ) : Piv σ :=
  { c with
    pinVerified := false, mgmtAuthenticated := false, witness := none, pendingSign := none,
    presenceCached := false }

def select (c : Piv σ) : Response × Piv σ :=
  match c.endSession.loadState K S with
  | (false, c) => (.status .noPreciseDiagnosis, c)
  | (true, c) => (.ok fci, c)

/-- Persist one slot and move its session floor: to the counter when the write worked, and down to
  it when it did not. -/
def persistPin (record : PinRecord) (c : Piv σ) : Bool × Piv σ :=
  let retries := (c.slot record).retriesRemaining
  match c.writePinSlot S record.record (c.slot record) with
  | (true, c) => (true, c.setFloor record retries)
  | (false, c) => (false, c.setFloor record (min (c.floor record) retries))

/-- Persist the slot when the command changed it, and answer with the result; a refused save is
  `6A84`. -/
def finishMutation (record : PinRecord) (mutated : Bool) (result : Except Sw Unit) (c : Piv σ) :
    Response × Piv σ :=
  if mutated then
    match c.persistPin S record with
    | (true, c) => (.ofResult result, c)
    | (false, c) => (.status .notEnoughMemory, c)
  else (.ofResult result, c)

end

end Piv

end AegisToken.Applets
