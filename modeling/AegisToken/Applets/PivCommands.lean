/-
  The commands of the PIV card applet (aegis-applets piv.rs): data objects, PIN commands, key
  generation, management authentication and signing, with the confirmation of user presence.
  Each command gets the random numbers it may draw as an argument.
-/
import AegisToken.Applets.Piv

namespace AegisToken.Applets.Piv
open ByteCodec

def insVerify : UInt8 := 0x20
def insChangeReferenceData : UInt8 := 0x24
def insResetRetryCounter : UInt8 := 0x2C
def insGenerateAsymmetricKeyPair : UInt8 := 0x47
def insGeneralAuthenticate : UInt8 := 0x87
def insGetData : UInt8 := 0xCB
def insPutData : UInt8 := 0xDB
def insSetMgmKey : UInt8 := 0xFF

/-! ## Responses -/

/-- Wrap `7C { tag { value } }` around a challenge, response or signature. -/
def wrapChallenge (tag : Nat) (value : List UInt8) : Response :=
  if scratchBytes < Tlv.encodedLen 0x7C (Tlv.encodedLen tag value.length) then
    .status .functionNotSupported
  else .ok (Tlv.element 0x7C (Tlv.element tag value))

/-- Wrap `86 { point }` inside `7F49`. -/
def wrapPublicKey (point : List UInt8) : Response :=
  if scratchBytes < Tlv.encodedLen 0x7F49 (Tlv.encodedLen 0x86 point.length) then
    .status .functionNotSupported
  else .ok (Tlv.element 0x7F49 (Tlv.element 0x86 point))

/-- The bytes of an exponent without leading zeros, but at least one. -/
def exponentBytes (exponent : UInt32) : List UInt8 :=
  let bytes := toBE 4 exponent.toNat
  bytes.drop (min (bytes.takeWhile (· = 0)).length 3)

/-- Wrap `81 { modulus }` and `82 { exponent }` inside `7F49`. -/
def wrapRsaPublicKey (key : Rsa2048PublicKey) : Response :=
  let exponent := exponentBytes key.e
  let innerLen := Tlv.encodedLen 0x81 key.n.val.length + Tlv.encodedLen 0x82 exponent.length
  if scratchBytes < Tlv.encodedLen 0x7F49 innerLen then .status .functionNotSupported
  else .ok (Tlv.element 0x7F49 (Tlv.element 0x81 key.n.val ++ Tlv.element 0x82 exponent))

/-- Build `53 { value }`, or `53 { tag { value } }` when an inner tag is given. -/
def wrapObject (innerTag : Option Nat) (value : List UInt8) : Response :=
  let innerLen := match innerTag with
    | some tag => Tlv.encodedLen tag value.length
    | none => value.length
  if scratchBytes < Tlv.encodedLen 0x53 innerLen then .status .functionNotSupported
  else .ok (Tlv.element 0x53 (match innerTag with
    | some tag => Tlv.element tag value
    | none => value))

/-! ## Data objects -/

def objectCardAuthCert : Nat := 0x5FC101
def objectChuid : Nat := 0x5FC102
def objectPivAuthCert : Nat := 0x5FC105
def objectCcc : Nat := 0x5FC107
def objectPrinted : Nat := 0x5FC109
def objectSignatureCert : Nat := 0x5FC10A
def objectKeyMgmtCert : Nat := 0x5FC10B
def objectKeyHistory : Nat := 0x5FC10C
def objectRetiredAuthCert : Nat := 0x5FC10D
def objectRetiredSignatureCert : Nat := 0x5FC10E
def objectRetiredKeyMgmtCert : Nat := 0x5FC10F

def defaultChuid : List UInt8 :=
  [0x30, 0x19, 0xD4, 0xE7, 0x39, 0xDA, 0x73, 0x9C, 0xED, 0x39, 0xCE, 0x73, 0x9D, 0x83, 0x68, 0x58,
    0x21, 0x08, 0x42, 0x10, 0x84, 0x21, 0x38, 0x42, 0x10, 0xC3, 0xF5, 0x34, 0x10, 0xAD, 0x64, 0xBE,
    0xAC, 0x16, 0x11, 0x4A, 0x56, 0x93, 0xA2, 0x9D, 0x58, 0x3B, 0x74, 0xCB, 0x44, 0x35, 0x08, 0x32,
    0x30, 0x33, 0x30, 0x30, 0x31, 0x30, 0x31, 0x3E, 0x00, 0xFE, 0x00]

def defaultCcc : List UInt8 :=
  [0xF0, 0x15, 0xA0, 0x00, 0x00, 0x01, 0x16, 0xFF, 0x02, 0x00, 0x00, 0x00, 0x00, 0x00, 0x00, 0x00,
    0x00, 0x00, 0x00, 0x00, 0x00, 0x00, 0x00, 0xF1, 0x01, 0x21, 0xF2, 0x01, 0x21, 0xF3, 0x00, 0xF4,
    0x01, 0x00, 0xF5, 0x01, 0x10, 0xF6, 0x00, 0xF7, 0x00, 0xFA, 0x00, 0xFB, 0x00, 0xFC, 0x00, 0xFD,
    0x00, 0xFE, 0x00]

def keyHistory : List UInt8 := [0xC1, 0x01, 0x00, 0xC2, 0x01, 0x00, 0xC3, 0x01, 0x00]

def objects : List Nat :=
  [objectCardAuthCert, objectChuid, objectPivAuthCert, objectCcc, objectPrinted,
    objectSignatureCert, objectKeyMgmtCert, objectRetiredAuthCert, objectRetiredSignatureCert,
    objectRetiredKeyMgmtCert]

def objectIndex (oid : Nat) : Option Nat := objects.findIdx? (· = oid)

def objectIsCertificate (oid : Nat) : Bool :=
  oid ∈ [objectCardAuthCert, objectPivAuthCert, objectSignatureCert, objectKeyMgmtCert,
    objectRetiredAuthCert, objectRetiredSignatureCert, objectRetiredKeyMgmtCert]

/-- Extract the object identifier from a `5C` request. -/
def requestObjectId (data : List UInt8) : Option Nat := do
  let (tag, value, _) ← Tlv.next data
  if tag ≠ 0x5C then none
  else
    let (oid, _) ← Tlv.readTag value
    some oid

def oneByte : List UInt8 → Option UInt8
  | [byte] => some byte
  | _ => none

variable {σ : Type} (K : PivCrypto) (S : PivStore σ)

/-- The stored object, or its default. The buffer `value` of the applet is empty, so only an empty
  object can be read into it. -/
def storedOrDefault (oid : Nat) (default : List UInt8) (c : Piv σ) : Response × Piv σ :=
  match objectIndex oid with
  | none => (.status .fileNotFound, c)
  | some index =>
    match c.read S (recordObjectBase + index) 0 with
    | (some value, c) => (wrapObject none value.val, c)
    | (none, c) => (wrapObject none default, c)

def getData (apdu : Apdu) (c : Piv σ) : Response × Piv σ :=
  if apdu.p1 ≠ 0x3F ∨ apdu.p2 ≠ 0xFF then (.status .incorrectParameters, c)
  else
    match requestObjectId apdu.data with
    | none => (.status .wrongData, c)
    | some oid =>
      if oid = objectChuid then c.storedOrDefault S objectChuid defaultChuid
      else if oid = objectCcc then c.storedOrDefault S objectCcc defaultCcc
      else if oid = objectKeyHistory then (wrapObject none keyHistory, c)
      else
        match objectIndex oid with
        | none => (.status .fileNotFound, c)
        | some index =>
          match c.read S (recordObjectBase + index) maxRecordBytes with
          | (some value, c) =>
            (wrapObject (if objectIsCertificate oid then some 0x70 else none) value.val, c)
          | (none, c) => (.status .fileNotFound, c)

/-- The object and the value of a PUT DATA: exactly two elements, the first of them a `5C`. -/
def putRequest (data : List UInt8) : Option (Nat × List UInt8) := do
  let (tag, identifier, rest) ← Tlv.next data
  if tag ≠ 0x5C then none
  else
    let (oid, _) ← Tlv.readTag identifier
    let (_, content, rest) ← Tlv.next rest
    if rest ≠ [] then none else some (oid, content)

/-- Write a record and answer with `answer`, or say that it could not be stored. -/
def writeAnswer (record : Nat) (data : List UInt8) (answer : Response) (c : Piv σ) :
    Response × Piv σ :=
  match c.write S record data with
  | (true, c) => (answer, c)
  | (false, c) => (.status .notEnoughMemory, c)

def putData (apdu : Apdu) (c : Piv σ) : Response × Piv σ :=
  if apdu.p1 ≠ 0x3F ∨ apdu.p2 ≠ 0xFF then (.status .incorrectParameters, c)
  else if !c.mgmtAuthenticated then (.status .securityStatusNotSatisfied, c)
  else
    match putRequest apdu.data with
    | none => (.status .wrongData, c)
    | some (oid, content) =>
      if oid = objectKeyHistory then (.status .functionNotSupported, c)
      else
        match objectIndex oid with
        | none => (.status .fileNotFound, c)
        | some index =>
          if maxRecordBytes < content.length then (.status .notEnoughMemory, c)
          else c.writeAnswer S (recordObjectBase + index) content (.status .ok)

/-! ## Management key -/

/-- The key that a SET MANAGEMENT KEY carries. -/
def parseMgmtKey (data : List UInt8) : Option MgmtKey :=
  match data with
  | algorithm :: reference :: len :: key =>
    if reference ≠ refManagement then none
    else if MgmtKey.keyLenOf algorithm = 0 then none
    else if len.toNat ≠ MgmtKey.keyLenOf algorithm ∨ key.length ≠ len.toNat then none
    else some ⟨algorithm, len.toNat, FixedBytes.ofList 32 key⟩
  | _ => none

def setMgmtKey (apdu : Apdu) (c : Piv σ) : Response × Piv σ :=
  if apdu.p1 ≠ 0xFF ∨ (apdu.p2 ≠ 0xFF ∧ apdu.p2 ≠ 0xFE) then (.status .incorrectParameters, c)
  else if !c.mgmtAuthenticated then (.status .securityStatusNotSatisfied, c)
  else
    match parseMgmtKey apdu.data with
    | none => (.status .wrongData, c)
    | some mgmt =>
      match c.write S recordMgmtKey mgmt.record with
      | (false, c) => (.status .notEnoughMemory, c)
      | (true, c) => (.status .ok, { c with mgmt, witness := none })

/-- Whether `P1` names the algorithm of the management key; hosts send both `03` and `00` for
  3DES. -/
def acceptsAlgorithm (c : Piv σ) (p1 : UInt8) : Bool :=
  p1 = c.mgmt.algorithm ∨ (c.mgmt.algorithm = algTdes ∧ p1 = 0x00)

/-- The answer to the challenge of the host in a mutual authentication. -/
def encryptedChallengeResponse (challenge : List UInt8) (c : Piv σ) : Response :=
  if challenge.length ≠ c.mgmt.blockLen then .status .wrongData
  else
    match c.mgmt.encrypt K challenge with
    | none => .status .noPreciseDiagnosis
    | some encrypted => wrapChallenge 0x82 encrypted

/-- The value that answers a pending nonce: the witness when both sides prove themselves, the
  response when only the host does. -/
def submitted (template : List UInt8) (pending : Witness) : Option (List UInt8) :=
  Tlv.find template (if pending.isMutual then 0x80 else 0x82)

/-- The second step: the host returns the nonce that the card sent encrypted. The nonce is already
  taken out of the applet. -/
def answerWitness (template : List UInt8) (pending : Witness) (c : Piv σ) : Response × Piv σ :=
  match submitted template pending with
  | none => (.status .wrongData, c)
  | some value =>
    if !constantTimeEq value pending.nonce.val then (.status .securityStatusNotSatisfied, c)
    else
      let c := { c with mgmtAuthenticated := true }
      if pending.isMutual then
        match Tlv.find template 0x81 with
        | none => (.status .wrongData, c)
        | some challenge => (c.encryptedChallengeResponse K challenge, c)
      else (.status .ok, c)

/-- The first step: draw a nonce and send it encrypted. -/
def drawWitness (template : List UInt8) (rng : Rng) (c : Piv σ) : Response × Piv σ :=
  let isMutual : Bool := Tlv.find template 0x80 = some []
  if !isMutual ∧ Tlv.find template 0x81 ≠ some [] then (.status .wrongData, c)
  else if c.mgmt.blockLen = 0 then (.status .functionNotSupported, c)
  else
    match BoundedBytes.ofSlice 16 (fillBytes c.mgmt.blockLen rng).1.val with
    | none => (.status .noPreciseDiagnosis, c)
    | some nonce =>
      match c.mgmt.encrypt K nonce.val with
      | none => (.status .noPreciseDiagnosis, c)
      | some encrypted =>
        let answer := wrapChallenge (if isMutual then 0x80 else 0x81) encrypted
        if answer.sw = .ok then (answer, { c with witness := some ⟨isMutual, nonce⟩ })
        else (.status .noPreciseDiagnosis, c)

/-- GENERAL AUTHENTICATE with the management key. -/
def authenticateManagement (apdu : Apdu) (rng : Rng) (c : Piv σ) : Response × Piv σ :=
  if !c.acceptsAlgorithm apdu.p1 then (.status .incorrectParameters, c)
  else
    match Tlv.find apdu.data 0x7C with
    | none => (.status .wrongData, c)
    | some template =>
      match c.witness with
      | some pending => { c with witness := none }.answerWitness K template pending
      | none => c.drawWitness K template rng

/-! ## PINs -/

def verify (apdu : Apdu) (c : Piv σ) : Response × Piv σ :=
  if apdu.p1 ≠ 0x00 then (.status .incorrectParameters, c)
  else
    match PinRecord.fromReference apdu.p2 with
    | none => (.status .incorrectParameters, c)
    | some record =>
      if apdu.data = [] then (.status (.retriesLeft (c.slot record).retriesRemaining), c)
      else if apdu.data.length ≠ 8 then (.status .wrongLength, c)
      else
        let before := (c.slot record).retriesRemaining
        let (result, slot) := (c.slot record).verify K.sha256 apdu.data
        let c := c.setSlot record slot
        let c := if record = .pin then { c with pinVerified := result.isOk } else c
        c.finishMutation S record (slot.retriesRemaining < before) result

def changeReferenceData (apdu : Apdu) (c : Piv σ) : Response × Piv σ :=
  if apdu.p1 ≠ 0x00 then (.status .incorrectParameters, c)
  else
    match PinRecord.fromReference apdu.p2 with
    | none => (.status .referencedDataNotFound, c)
    | some record =>
      if apdu.data.length ≠ 16 then (.status .wrongData, c)
      else if effectivePinLen (apdu.data.drop 8) < pivPinPolicy.minLen then
        (.status .conditionsNotSatisfied, c)
      else
        let before := (c.slot record).retriesRemaining
        let (result, slot) := (c.slot record).change K.sha256 (apdu.data.take 8) (apdu.data.drop 8)
        let c := c.setSlot record slot
        let c := if result.isOk ∧ record = .pin then { c with pinVerified := true } else c
        c.finishMutation S record (result.isOk || slot.retriesRemaining < before) result

/-- RESET RETRY COUNTER: the PUK installs a new PIN. -/
def resetRetryCounter (apdu : Apdu) (c : Piv σ) : Response × Piv σ :=
  if apdu.p1 ≠ 0x00 ∨ apdu.p2 ≠ refPin then (.status .incorrectParameters, c)
  else if apdu.data.length ≠ 16 then (.status .wrongData, c)
  else
    let before := c.puk.retriesRemaining
    match c.puk.verify K.sha256 (apdu.data.take 8) with
    | (.error sw, puk) =>
      { c with puk }.finishMutation S .puk (puk.retriesRemaining < before) (.error sw)
    | (.ok (), puk) =>
      let c := { c with puk }
      if effectivePinLen (apdu.data.drop 8) < pivPinPolicy.minLen then
        (.status .conditionsNotSatisfied, c)
      else
        let (result, pin) := c.pin.unblock K.sha256 (apdu.data.drop 8)
        { c with pin, pinVerified := false }.finishMutation S .pin result.isOk result

/-! ## Key generation -/

def publicPoint (algorithm : UInt8) (scalar : List UInt8) : Option (List UInt8) :=
  if algorithm = algEccP256 then (K.p256Public scalar).map Subtype.val
  else if algorithm = algEccP384 then (K.p384Public scalar).map Subtype.val
  else none

/-- Draw a scalar of the curve, in at most `tries` draws. -/
def generateScalar (algorithm : UInt8) (keyLen : Nat) : Nat → Rng → Option (List UInt8)
  | 0, _ => none
  | tries + 1, rng =>
    let (scalar, rng) := fillBytes keyLen rng
    if (publicPoint K algorithm scalar.val).isSome then some scalar.val
    else generateScalar algorithm keyLen tries rng

def curveRecord (algorithm : UInt8) (pinPolicy : PinPolicyCode) (touchPolicy : TouchPolicy)
    (scalar : List UInt8) : List UInt8 :=
  [algorithm, pinPolicy.code, touchPolicy.code, UInt8.ofNat scalar.length] ++ scalar

/-- The record of an RSA key: a zero key length, the length of the blob, and the blob. -/
def rsaRecord (pinPolicy : PinPolicyCode) (touchPolicy : TouchPolicy) (key : Rsa2048PrivateKey) :
    List UInt8 :=
  [algRsa2048, pinPolicy.code, touchPolicy.code, 0x00, UInt8.ofNat (rsaBlobBytes % 256),
    UInt8.ofNat (rsaBlobBytes / 256)] ++ key.toBlob

def generateRsaKeyPair (slot : KeySlot) (pinPolicy : PinPolicyCode) (touchPolicy : TouchPolicy)
    (rng : Rng) (c : Piv σ) : Response × Piv σ :=
  match generateKey K.bigUint rng with
  | none => (.status .noPreciseDiagnosis, c)
  | some key =>
    c.writeAnswer S slot.record (rsaRecord pinPolicy touchPolicy key) (wrapRsaPublicKey key.toPublic)

/-- A policy in a template: the default when the byte is absent, nothing when it is unknown. -/
def templatePolicy {α : Type} (template : List UInt8) (tag : Nat) (fromCode : UInt8 → Option α)
    (default : α) : Option α :=
  match (Tlv.find template tag).bind oneByte with
  | some code => fromCode code
  | none => some default

/-- What a GENERATE asks for: the algorithm and the policies. -/
def generateRequest (data : List UInt8) : Option (UInt8 × PinPolicyCode × TouchPolicy) := do
  let template ← Tlv.find data 0xAC
  let algorithm ← (Tlv.find template 0x80).bind oneByte
  let pinPolicy ← templatePolicy template 0xAA PinPolicyCode.fromCode .once
  let touchPolicy ← templatePolicy template 0xAB TouchPolicy.fromCode .never
  some (algorithm, pinPolicy, touchPolicy)

def generateKeyPair (apdu : Apdu) (rng : Rng) (c : Piv σ) : Response × Piv σ :=
  if apdu.p1 ≠ 0x00 then (.status .incorrectParameters, c)
  else if !c.mgmtAuthenticated then (.status .securityStatusNotSatisfied, c)
  else
    match KeySlot.fromCode apdu.p2 with
    | none => (.status .incorrectParameters, c)
    | some slot =>
      match generateRequest apdu.data with
      | none => (.status .wrongData, c)
      | some (algorithm, pinPolicy, touchPolicy) =>
        if algorithm = algRsa2048 then c.generateRsaKeyPair K S slot pinPolicy touchPolicy rng
        else
          match curveBytes algorithm with
          | none => (.status .functionNotSupported, c)
          | some keyLen =>
            match generateScalar K algorithm keyLen 64 rng with
            | none => (.status .noPreciseDiagnosis, c)
            | some scalar =>
              match publicPoint K algorithm scalar with
              | none => (.status .noPreciseDiagnosis, c)
              | some point =>
                c.writeAnswer S slot.record (curveRecord algorithm pinPolicy touchPolicy scalar)
                  (wrapPublicKey point)

/-! ## Signatures -/

/-- Sign a digest that is padded to the size of the curve; the signature has room for 104 bytes. -/
def signPrehash (algorithm : UInt8) (scalar digest : List UInt8) : Option (List UInt8) :=
  let signature :=
    if algorithm = algEccP256 then K.p256Sign scalar digest
    else if algorithm = algEccP384 then K.p384Sign scalar digest
    else none
  signature.filter (·.length ≤ 104)

/-- The transitions of a completed signature: a PIN policy `always` uses up the verification, and
  the touch policy sets or drops the cached presence. -/
def finishSign (pinPolicy : PinPolicyCode) (touchPolicy : TouchPolicy) (c : Piv σ) : Piv σ :=
  { c with
    pinVerified := if pinPolicy = .always then false else c.pinVerified
    presenceCached := match touchPolicy with
      | .cached => true
      | .always => false
      | .never => c.presenceCached }

def rsaRecordKey (record : List UInt8) : Option Rsa2048PrivateKey :=
  if record.length ≠ 6 + rsaBlobBytes ∨ record.getD 0 0 ≠ algRsa2048 ∨ record.getD 3 0 ≠ 0x00 ∨
      (record.getD 4 0).toNat ||| (record.getD 5 0).toNat <<< 8 ≠ rsaBlobBytes then none
  else Rsa2048PrivateKey.fromBlob (record.drop 6)

/-- Finish an RSA signature once PIN and presence are satisfied. -/
def completeRsaSign (slot : KeySlot) (pinPolicy : PinPolicyCode) (touchPolicy : TouchPolicy)
    (block : FixedBytes rsa2048Bytes) (rng : Rng) (c : Piv σ) : Response × Piv σ :=
  match c.read S slot.record keyRecordBytes with
  | (none, c) => (.status .referencedDataNotFound, c)
  | (some record, c) =>
    match rsaRecordKey record.val with
    | none => (.status .referencedDataNotFound, c)
    | some key =>
      match applyPrivate K.bigUint key block rng with
      | none => (.status .noPreciseDiagnosis, c)
      | some signature =>
        (wrapChallenge 0x82 signature.val, c.finishSign pinPolicy touchPolicy)

/-- Finish a signature once PIN and presence are satisfied. -/
def completeSign (slot : KeySlot) (algorithm : UInt8) (pinPolicy : PinPolicyCode)
    (touchPolicy : TouchPolicy) (digest : List UInt8) (rng : Rng) (c : Piv σ) :
    Response × Piv σ :=
  if algorithm = algRsa2048 then
    if h : digest.length = rsa2048Bytes then
      c.completeRsaSign K S slot pinPolicy touchPolicy ⟨digest, h⟩ rng
    else (.status .referencedDataNotFound, c)
  else
    match c.read S slot.record (4 + 48) with
    | (none, c) => (.status .referencedDataNotFound, c)
    | (some record, c) =>
      match curveBytes algorithm with
      | none => (.status .functionNotSupported, c)
      | some keyLen =>
        if record.val.length < 4 + keyLen ∨ digest.length ≠ keyLen then
          (.status .referencedDataNotFound, c)
        else
          match signPrehash K algorithm ((record.val.drop 4).take keyLen) digest with
          | none => (.status .noPreciseDiagnosis, c)
          | some signature => (wrapChallenge 0x82 signature, c.finishSign pinPolicy touchPolicy)

/-- A value padded with zeros on the left, or nothing when it is too long. -/
def leftPad (width : Nat) (value : List UInt8) : Option (List UInt8) :=
  if width < value.length then none else some (List.replicate (width - value.length) 0 ++ value)

def signBytes (algorithm : UInt8) : Option Nat :=
  if algorithm = algRsa2048 then some rsa2048Bytes else curveBytes algorithm

def touchRequired (touchPolicy : TouchPolicy) (c : Piv σ) : Bool :=
  match touchPolicy with
  | .never => false
  | .always => true
  | .cached => !c.presenceCached

def recordPolicies (record : List UInt8) : Option (PinPolicyCode × TouchPolicy) := do
  let pinPolicy ← PinPolicyCode.fromCode (record.getD 1 0)
  let touchPolicy ← TouchPolicy.fromCode (record.getD 2 0)
  some (pinPolicy, touchPolicy)

/-- GENERAL AUTHENTICATE with a key slot: sign now, or wait for user presence. The paths for RSA
  and for the curves differ in the size of the padded digest. -/
def sign (apdu : Apdu) (rng : Rng) (c : Piv σ) : Response × Piv σ :=
  match KeySlot.fromCode apdu.p2 with
  | none => (.status .incorrectParameters, c)
  | some slot =>
    match c.read S slot.record keyRecordBytes with
    | (none, c) => (.status .referencedDataNotFound, c)
    | (some record, c) =>
      if record.val.length < 4 then (.status .referencedDataNotFound, c)
      else
        let algorithm := record.val.getD 0 0
        if algorithm ≠ apdu.p1 ∨ !supportsAlgorithm algorithm then
          (.status .incorrectParameters, c)
        else
          match recordPolicies record.val with
          | none => (.status .referencedDataNotFound, c)
          | some (pinPolicy, touchPolicy) =>
            if pinPolicy ≠ .never ∧ !c.pinVerified then (.status .securityStatusNotSatisfied, c)
            else
              match (Tlv.find apdu.data 0x7C).bind (Tlv.find · 0x81) with
              | none => (.status .wrongData, c)
              | some digest =>
                match signBytes algorithm with
                | none => (.status .functionNotSupported, c)
                | some width =>
                  match leftPad width digest with
                  | none => (.status .wrongData, c)
                  | some padded =>
                    if touchRequired touchPolicy c then
                      match BoundedBytes.ofSlice 256 padded with
                      | none => (.status .noPreciseDiagnosis, c)
                      | some stashed =>
                        (.presenceRequired, { c with pendingSign := some ⟨slot, stashed⟩ })
                    else c.completeSign K S slot algorithm pinPolicy touchPolicy padded rng

def generalAuthenticate (apdu : Apdu) (rng : Rng) (c : Piv σ) : Response × Piv σ :=
  if apdu.p2 = refManagement then c.authenticateManagement K apdu rng
  else if apdu.p2 = refPivAuth ∨ apdu.p2 = refSignature ∨ apdu.p2 = refCardAuth then
    c.sign K S apdu rng
  else (.status .incorrectParameters, c)

/-! ## Dispatch -/

def process (apdu : Apdu) (rng : Rng) (c : Piv σ) : Response × Piv σ :=
  if apdu.ins = insGetData then c.getData S apdu
  else if apdu.ins = insPutData then c.putData S apdu
  else if apdu.ins = insVerify then c.verify K S apdu
  else if apdu.ins = insChangeReferenceData then c.changeReferenceData K S apdu
  else if apdu.ins = insResetRetryCounter then c.resetRetryCounter K S apdu
  else if apdu.ins = insGenerateAsymmetricKeyPair then c.generateKeyPair K S apdu rng
  else if apdu.ins = insGeneralAuthenticate then c.generalAuthenticate K S apdu rng
  else if apdu.ins = insSetMgmKey then c.setMgmtKey S apdu
  else (.status .insNotSupported, c)

/-- User presence was confirmed: complete the pending signature with the policies that the key has
  now. -/
def confirmPresence (rng : Rng) (c : Piv σ) : Response × Piv σ :=
  match c.pendingSign with
  | none => (.status .conditionsNotSatisfied, c)
  | some pending =>
    match { c with pendingSign := none }.read S pending.slot.record keyRecordBytes with
    | (none, c) => (.status .referencedDataNotFound, c)
    | (some record, c) =>
      if record.val.length < 4 then (.status .referencedDataNotFound, c)
      else
        match recordPolicies record.val with
        | none => (.status .referencedDataNotFound, c)
        | some (pinPolicy, touchPolicy) =>
          c.completeSign K S pending.slot (record.val.getD 0 0) pinPolicy touchPolicy
            pending.digest.val rng

def denyPresence (c : Piv σ) : Response × Piv σ :=
  (.status .securityStatusNotSatisfied, { c with pendingSign := none })

end AegisToken.Applets.Piv
