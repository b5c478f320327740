/-
  The commands of the OpenPGP card applet (aegis-applets openpgp.rs): PIN commands, data objects,
  key generation, signing, internal authentication and decryption, and their dispatch.
  Each command gets the random numbers it may draw as an argument.
-/
import Mathlib.Logic.Function.Basic
import AegisToken.Applets.OpenPgp

namespace AegisToken.Applets
open ByteCodec

def insVerify : UInt8 := 0x20
def insChangeReferenceData : UInt8 := 0x24
def insResetRetryCounter : UInt8 := 0x2C
def insGetData : UInt8 := 0xCA
def insPutData : UInt8 := 0xDA
def insPso : UInt8 := 0x2A
def insInternalAuthenticate : UInt8 := 0x88
def insGenerate : UInt8 := 0x47
def insGetChallenge : UInt8 := 0x84
def insSelectData : UInt8 := 0xA5
def insActivateFile : UInt8 := 0x44

/-- The tag in `P1 P2`. -/
def Apdu.tag (apdu : Apdu) : Nat := apdu.p1.toNat * 256 + apdu.p2.toNat

def outBytes : Nat := 2048

def simpleOutput (value : List UInt8) : Response :=
  if outBytes < value.length then .status .notEnoughMemory else .ok value

def constructedOutput (tag : Nat) (value : List UInt8) : Response :=
  match appendTlv outBytes [] tag value with
  | (true, out) => .ok out
  | (false, _) => .status .notEnoughMemory

namespace OpenPgp

variable {σ : Type} (K : PgpCrypto) (S : OpenPgpStore σ)

/-- Persist a change and answer with `sw`, or say that the change could not be stored. -/
def persistAnswer (sw : Sw) (c : OpenPgp σ) : Response × OpenPgp σ :=
  match c.persistState S with
  | (true, c) => (.status sw, c)
  | (false, c) => (.status .notEnoughMemory, c)

/-- Save the state and answer with `answer`, or say that it could not be stored. -/
def saveAnswer (answer : Response) (c : OpenPgp σ) : Response × OpenPgp σ :=
  match c.saveState S with
  | (true, c) => (answer, c)
  | (false, c) => (.status .notEnoughMemory, c)

/-! ## PINs -/

/-- The session flag that a successful VERIFY sets. -/
def markVerified (c : OpenPgp σ) (p2 : UInt8) : OpenPgp σ :=
  match p2 with
  | 0x81 => { c with pw1SignatureVerified := true }
  | 0x82 => { c with pw1OtherVerified := true }
  | 0x83 => { c with pw3Verified := true }
  | _ => c

/-- VERIFY on a slot. `put` is the applet with the slot it leaves. -/
def verifySlot (apdu : Apdu) (slot : PinSlot) (put : PinSlot → OpenPgp σ) :
    Response × OpenPgp σ :=
  if apdu.data = [] then
    (.status (if slot.isBlocked then .authenticationBlocked else .retriesLeft slot.retriesRemaining),
      put slot)
  else
    match slot.verify K.sha256 apdu.data with
    | (.ok (), slot) => (.status .ok, (put slot).markVerified apdu.p2)
    | (.error error, slot) =>
      -- Only a consumed attempt changes what is stored.
      if !error.isRetryIndicator then (.status error, put slot)
      else (put slot).persistAnswer S error

def verify (apdu : Apdu) (c : OpenPgp σ) : Response × OpenPgp σ :=
  match apdu.p2 with
  | 0x81 | 0x82 => verifySlot K S apdu c.pw1 fun pw1 => { c with pw1 }
  | 0x83 => verifySlot K S apdu c.pw3 fun pw3 => { c with pw3 }
  | _ => (.status .incorrectParameters, c)

def resultSw : Except Sw Unit → Sw
  | .ok () => .ok
  | .error sw => sw

/-- The user-slot change: the slot finds the end of the current PIN itself. -/
def changePw1 (body : List UInt8) (c : OpenPgp σ) : Except Sw Unit × OpenPgp σ :=
  match c.pw1.resolveChange K.sha256 body with
  | (.ok (some split), pw1) =>
    let (result, pw1) := pw1.change K.sha256 (body.take split) (body.drop split)
    (result, { c with pw1 })
  | (.ok none, pw1) => (.error (.retriesLeft pw1.retriesRemaining), { c with pw1 })
  | (.error sw, pw1) => (.error sw, { c with pw1 })

def verifyChange (apdu : Apdu) (c : OpenPgp σ) : Response × OpenPgp σ :=
  if apdu.p2 < 0x81 ∨ 0x83 < apdu.p2 then (.status .incorrectParameters, c)
  else if apdu.p2 = 0x83 then
    if !c.pw3Verified then (.status .securityStatusNotSatisfied, c)
    else if apdu.data.length ≠ 16 then (.status .wrongData, c)
    else
      let (result, pw3) := c.pw3.change K.sha256 (apdu.data.take 8) (apdu.data.drop 8)
      { c with pw3 }.persistAnswer S (resultSw result)
  else if apdu.data.length < 2 * pwPolicy.minLen ∨ 2 * pwPolicy.maxLen < apdu.data.length then
    (.status .wrongData, c)
  else
    let (result, c) := c.changePw1 K apdu.data
    c.persistAnswer S (resultSw result)

def resetRetry (apdu : Apdu) (c : OpenPgp σ) : Response × OpenPgp σ :=
  if apdu.p1 ≠ 0x02 ∨ apdu.p2 ≠ 0x81 then
    (.status (if apdu.p1 = 0x00 then .functionNotSupported else .incorrectParameters), c)
  else if !c.pw3Verified then (.status .securityStatusNotSatisfied, c)
  else if apdu.data.length ≠ 8 then (.status .wrongData, c)
  else
    let (result, pw1) := c.pw1.unblock K.sha256 apdu.data
    { c with pw1 }.persistAnswer S (resultSw result)

/-! ## Public keys and fingerprints -/

/-- The public key of a slot on a curve; an RSA slot has none here. -/
def slotPublic (c : OpenPgp σ) (slot : Fin 3) : Option (List UInt8) :=
  let key := c.keys slot
  let algo := key.effectiveAlgo slot
  if algo = keyAlgoRsa2048 then none
  else if algo = keyAlgoEddsa then some (K.ed25519Public key.scalar).val
  else if algo = keyAlgoEcdhX25519 then some (K.x25519Public key.scalar).val
  else (K.p256Public key.scalar).map Subtype.val

/-- Exact bit length of an MPI body. -/
def mpiBits : List UInt8 → Nat
  | [] => 0
  | byte :: rest => if byte = 0 then mpiBits rest else rest.length * 8 + bits byte.toNat

def curveOid (algo : UInt8) : List UInt8 :=
  if algo = keyAlgoEddsa then oidEd25519
  else if algo = keyAlgoEcdhX25519 then oidX25519
  else oidP256

/-- The hash input of a fingerprint: `99 || length || body`. -/
def fingerprintInput (body : List UInt8) : List UInt8 := 0x99 :: (toBE 2 body.length ++ body)

/-- The bytes of a number without leading zeros, but at least one. -/
def trimZeros (bytes : List UInt8) : List UInt8 :=
  match bytes.dropWhile (· = 0) with
  | [] => bytes.drop (bytes.length - 1)
  | trimmed => trimmed

def rsaFingerprint (c : OpenPgp σ) (slot : Fin 3) : Option (FixedBytes 20) := do
  let key ← (c.keys slot).rsaKey
  let mpi := fun octets : List UInt8 => toBE 2 (mpiBits octets) ++ octets
  let body := [0x04, 0, 0, 0, 0, 0x01] ++ mpi (trimZeros key.n.val) ++
    mpi (trimZeros (toBE 4 key.e.toNat))
  some (K.sha1 (fingerprintInput body))

/-- The fingerprint of a slot's public key, with creation time zero; an empty slot has none. -/
def fingerprint (c : OpenPgp σ) (slot : Fin 3) : Option (FixedBytes 20) := do
  if !(c.keys slot).present then none
  else
    let algo := (c.keys slot).effectiveAlgo slot
    if algo = keyAlgoRsa2048 then c.rsaFingerprint K slot
    else
      let point ← c.slotPublic K slot
      let octets := if algo = keyAlgoEcdhX25519 then 0x40 :: point else point
      let algoId :=
        if algo = keyAlgoEcdhP256 ∨ algo = keyAlgoEcdhX25519 then algoEcdh
        else if algo = keyAlgoEddsa then algoEddsa
        else algoEcdsa
      let oid := curveOid algo
      let kdf : List UInt8 :=
        if algo = keyAlgoEcdhP256 then [0x03, 0x01, 0x08, 0x07]
        else if algo = keyAlgoEcdhX25519 then [0x03, 0x01, 0x0A, 0x09]
        else []
      let body := [0x04, 0, 0, 0, 0, algoId, UInt8.ofNat oid.length] ++ oid ++
        toBE 2 (mpiBits octets) ++ octets ++ kdf
      some (K.sha1 (fingerprintInput body))

/-- The three fingerprints, zeros for empty slots. -/
def fingerprints (c : OpenPgp σ) : List UInt8 :=
  (List.finRange 3).flatMap fun slot =>
    ((c.fingerprint K slot).getD (FixedBytes.zero 20)).val

/-! ## Data objects -/

/-- Canonical RSA-2048 attributes. -/
def rsaAttrs : List UInt8 := [algoRsa, 0x08, 0x00, 0x00, 0x20, 0x00]

def slotAttrs (c : OpenPgp σ) (slot : Fin 3) : List UInt8 :=
  let algo := (c.keys slot).effectiveAlgo slot
  if algo = keyAlgoRsa2048 then rsaAttrs
  else if algo = keyAlgoEcdhP256 then algoEcdh :: oidP256
  else if algo = keyAlgoEddsa then algoEddsa :: oidEd25519
  else if algo = keyAlgoEcdhX25519 then algoEcdh :: oidX25519
  else algoEcdsa :: oidP256

def pwStatus (c : OpenPgp σ) : List UInt8 :=
  [0x00, 0x7F, 0x7F, 0x7F, c.pw1.retriesRemaining, 0x00, c.pw3.retriesRemaining]

def keyInfo (c : OpenPgp σ) : List UInt8 :=
  let flag := fun slot : Fin 3 => if (c.keys slot).present then 1 else 0
  [0x01, flag 0, 0x02, flag 1, 0x03, flag 2]

def aid : List UInt8 :=
  [0xD2, 0x76, 0x00, 0x01, 0x24, 0x01, 0x03, 0x04, 0x00, 0x00, 0x00, 0x00, 0x00, 0x00, 0x00, 0x00]

def historicalBytes : List UInt8 := [0x00, 0x73, 0x00, 0x00, 0xE0, 0x05, 0x90, 0x00]
def extendedLength : List UInt8 := [0x02, 0x00, 0x04, 0x00, 0x04, 0x00, 0x04, 0x00]

/-- Elements appended one after another; those that do not fit are left out. -/
def appendAll (cap : Nat) (elements : List (Nat × List UInt8)) : List UInt8 :=
  elements.foldl (fun out e => (appendTlv cap out e.1 e.2).2) []

/-- The application-related data (`6E`). -/
def applicationData (c : OpenPgp σ) : Response :=
  let discretionary := appendAll 512
    [(0xC0, List.replicate 10 0), (0xC1, c.slotAttrs 0), (0xC2, c.slotAttrs 1),
      (0xC3, c.slotAttrs 2), (0xC4, c.pwStatus), (0xC5, c.fingerprints K),
      (0xCD, List.replicate 12 0), (0xDE, c.keyInfo)]
  let body := appendAll 1024
    [(0x4F, aid), (0x5F52, historicalBytes), (0x7F66, extendedLength), (0x73, discretionary)]
  constructedOutput 0x6E body

/-- The security support template (`7A`): the low three bytes of the signature counter. -/
def securityTemplate (c : OpenPgp σ) : Response :=
  constructedOutput 0x7A (appendAll 16 [(0x93, (toBE 4 c.signatureCounter.toNat).drop 1)])

def getData (apdu : Apdu) (c : OpenPgp σ) : Response :=
  match apdu.tag with
  | 0x004F => simpleOutput aid
  | 0x005B => simpleOutput c.name.val
  | 0x5F2D => simpleOutput c.language.val
  | 0x5F35 => simpleOutput [c.sex]
  | 0x5F50 => simpleOutput c.url.val
  | 0x5F52 => simpleOutput historicalBytes
  | 0x006E => c.applicationData K
  | 0x007A => c.securityTemplate
  | 0x7F21 => constructedOutput 0x7F21 (c.certificates 0).val
  | 0x7F66 => constructedOutput 0x7F66 extendedLength
  | 0x00C1 => simpleOutput (c.slotAttrs 0)
  | 0x00C2 => simpleOutput (c.slotAttrs 1)
  | 0x00C3 => simpleOutput (c.slotAttrs 2)
  | 0x00C4 => simpleOutput c.pwStatus
  | 0x00C5 => simpleOutput (c.fingerprints K)
  | 0x00C7 => simpleOutput ((c.fingerprints K).take 20)
  | 0x00C8 => simpleOutput (((c.fingerprints K).drop 20).take 20)
  | 0x00C9 => simpleOutput ((c.fingerprints K).drop 40)
  | 0x00CD => simpleOutput (List.replicate 12 0)
  | 0x00DE => simpleOutput c.keyInfo
  | _ => .status .fileNotFound

/-- Parse RSA algorithm attributes: `01 || nbits || ebits`, with an optional import format. -/
def parseRsaAttrs (value : List UInt8) : Option UInt8 :=
  if value.length ≠ 5 ∧ value.length ≠ 6 then none
  else if value.headD 0 ≠ algoRsa then none
  else
    let nbits := ofBE ((value.drop 1).take 2)
    let ebits := ofBE ((value.drop 3).take 2)
    if nbits ≠ 2048 then none
    else if ebits ≠ 32 ∧ ebits ≠ 17 then none
    else some keyAlgoRsa2048

/-- The OID without the optional import format byte. -/
def withoutImportFormat (oid : List UInt8) : List UInt8 :=
  if oid.getLast? = some 0x00 ∨ oid.getLast? = some 0xFF then oid.dropLast else oid

def parseAttrs (value : List UInt8) : Option UInt8 :=
  match parseRsaAttrs value with
  | some algo => some algo
  | none =>
    match value with
    | [] => none
    | id :: rest =>
      let oid := withoutImportFormat rest
      if id = algoEcdsa ∧ oid = oidP256 then some keyAlgoEcdsaP256
      else if id = algoEcdh ∧ oid = oidP256 then some keyAlgoEcdhP256
      else if id = algoEddsa ∧ oid = oidEd25519 then some keyAlgoEddsa
      else if id = algoEcdh ∧ oid = oidX25519 then some keyAlgoEcdhX25519
      else none

def slotAccepts (slot : Fin 3) (algo : UInt8) : Bool :=
  if slot = 1 then
    algo = keyAlgoEcdhP256 ∨ algo = keyAlgoEcdhX25519 ∨ algo = keyAlgoRsa2048
  else algo = keyAlgoEcdsaP256 ∨ algo = keyAlgoEddsa ∨ algo = keyAlgoRsa2048

/-- Store algorithm attributes; the key of the slot is deleted. -/
def putAlgo (slot : Fin 3) (value : List UInt8) (c : OpenPgp σ) : Option (OpenPgp σ) := do
  let algo ← parseAttrs value
  if !slotAccepts slot algo then none
  else some { c with keys := Function.update c.keys slot ⟨false, 0, algo, FixedBytes.zero _⟩ }

/-- Parse the body of a `D2` import: `len || wrapped key || KDF hash || KEK algorithm`, and
  optionally a fingerprint. -/
def parseEcdhMaterial (value : List UInt8) : Option EcdhMaterial := do
  if value.length < 4 then none
  else
    let wrappedLen := (value.headD 0).toNat
    let base := 1 + wrappedLen + 2
    if wrappedLen < 24 ∨ ecdhWrappedMax < wrappedLen ∨ wrappedLen % 8 ≠ 0 ∨
        (value.length ≠ base ∧ value.length ≠ base + 20) then none
    else
      let wrapped ← BoundedBytes.ofSlice ecdhWrappedMax ((value.drop 1).take wrappedLen)
      let fingerprint :=
        if value.length = base + 20 then some (FixedBytes.ofList 20 (value.drop base)) else none
      let material : EcdhMaterial := {
        wrapped, kdfHash := value.getD (1 + wrappedLen) 0, kekAlg := value.getD (2 + wrappedLen) 0,
        fingerprint }
      if material.kdfHash ≠ Ecdh.hashSha256 ∨ material.kekAlg < 7 ∨ 9 < material.kekAlg then none
      else some material

/-- Import the RFC 6637 material of the decryption slot. -/
def putEcdhMaterial (value : List UInt8) (c : OpenPgp σ) : Option (OpenPgp σ) := do
  if (c.keys 1).effectiveAlgo 1 ≠ keyAlgoEcdhP256 ∨ !(c.keys 1).present then none
  else
    let material ← parseEcdhMaterial value
    some { c with keys := Function.update c.keys 1 (material.store (c.keys 1)) }

/-- The change a PUT DATA makes, when it is accepted. -/
def putObject (apdu : Apdu) (c : OpenPgp σ) : Option (OpenPgp σ) :=
  match apdu.tag with
  | 0x005B => (BoundedBytes.ofSlice maxName apdu.data).map fun name => { c with name }
  | 0x5F2D =>
    (BoundedBytes.ofSlice maxLanguage apdu.data).map fun language => { c with language }
  | 0x5F35 =>
    match apdu.data with
    | [sex] => some { c with sex }
    | _ => none
  | 0x5F50 => (BoundedBytes.ofSlice maxUrl apdu.data).map fun url => { c with url }
  | 0x7F21 =>
    (BoundedBytes.ofSlice maxCertificate apdu.data).map fun certificate =>
      { c with certificates := Function.update c.certificates 0 certificate }
  | 0x00C1 => c.putAlgo 0 apdu.data
  | 0x00C2 => c.putAlgo 1 apdu.data
  | 0x00C3 => c.putAlgo 2 apdu.data
  | 0x00D2 => c.putEcdhMaterial apdu.data
  | _ => none

def putData (apdu : Apdu) (c : OpenPgp σ) : Response × OpenPgp σ :=
  if !c.pw3Verified then (.status .securityStatusNotSatisfied, c)
  else
    match c.putObject apdu with
    | some c => c.persistAnswer S .ok
    | none => (.status .wrongData, c)

/-! ## Key generation -/

/-- The slot a control reference template names. -/
def templateSlot (data : List UInt8) : Option (Fin 3) :=
  if (Tlv.find data 0xB6).isSome then some 0
  else if (Tlv.find data 0xB8).isSome then some 1
  else if (Tlv.find data 0xA4).isSome then some 2
  else none

def publicKeyResponse (point : List UInt8) : Response :=
  constructedOutput 0x7F49 (appendTlv 128 [] 0x86 point).2

def rsaPublicKeyResponse (key : Rsa2048PublicKey) : Response :=
  match appendTlv 320 [] 0x81 key.n.val with
  | (false, _) => .status .notEnoughMemory
  | (true, body) =>
    match appendTlv 320 body 0x82 (trimZeros (toBE 4 key.e.toNat)) with
    | (false, _) => .status .notEnoughMemory
    | (true, body) => constructedOutput 0x7F49 body

/-- Draw a scalar of P-256 and compute its point, in at most `tries` draws. -/
def generateP256 : Nat → Rng → Option (FixedBytes 32 × FixedBytes 65)
  | 0, _ => none
  | tries + 1, rng =>
    let (scalar, rng) := fillBytes 32 rng
    match K.p256Public scalar with
    | some point => some (scalar, point)
    | none => generateP256 tries rng

/-- A slot with a new key; the counter restarts with the signature key. -/
def installKey (slot : Fin 3) (key : KeySlot) (c : OpenPgp σ) : OpenPgp σ :=
  { c with
    keys := Function.update c.keys slot key
    signatureCounter := if slot = 0 then 0 else c.signatureCounter }

/-- A key on a curve, in the first 32 bytes of the material. -/
def curveKey (algo : UInt8) (scalar : FixedBytes 32) : KeySlot :=
  ⟨true, 32, algo, FixedBytes.ofList _ scalar.val⟩

def rsaSlot (key : Rsa2048PrivateKey) : KeySlot :=
  ⟨true, rsaBlobBytes, keyAlgoRsa2048, FixedBytes.ofList _ key.toBlob⟩

def generateRsa (slot : Fin 3) (rng : Rng) (c : OpenPgp σ) : Response × OpenPgp σ :=
  match generateKey K.bigUint rng with
  | none => (.status .noPreciseDiagnosis, c)
  | some key =>
    (c.installKey slot (rsaSlot key)).saveAnswer S (rsaPublicKeyResponse key.toPublic)

def generate (apdu : Apdu) (rng : Rng) (c : OpenPgp σ) : Response × OpenPgp σ :=
  if !c.pw3Verified then (.status .securityStatusNotSatisfied, c)
  else
    match templateSlot apdu.data with
    | none => (.status .wrongData, c)
    | some slot =>
      let algo := (c.keys slot).effectiveAlgo slot
      if algo = keyAlgoRsa2048 then c.generateRsa K S slot rng
      else
        let drawn : Option (FixedBytes 32 × List UInt8) :=
          if algo = keyAlgoEddsa then
            let seed := (fillBytes 32 rng).1
            some (seed, (K.ed25519Public seed).val)
          else if algo = keyAlgoEcdhX25519 then
            let seed := (fillBytes 32 rng).1
            some (seed, (K.x25519Public seed).val)
          else (generateP256 K 64 rng).map fun (scalar, point) => (scalar, point.val)
        match drawn with
        | none => (.status .noPreciseDiagnosis, c)
        | some (scalar, point) =>
          (c.installKey slot (curveKey algo scalar)).saveAnswer S (publicKeyResponse point)

def readPublic (apdu : Apdu) (c : OpenPgp σ) : Response :=
  match templateSlot apdu.data with
  | none => .status .wrongData
  | some slot =>
    if !(c.keys slot).present then .status .fileNotFound
    else if (c.keys slot).effectiveAlgo slot = keyAlgoRsa2048 then
      match (c.keys slot).rsaKey with
      | none => .status .noPreciseDiagnosis
      | some key => rsaPublicKeyResponse key.toPublic
    else
      match c.slotPublic K slot with
      | none => .status .noPreciseDiagnosis
      | some point => publicKeyResponse point

/-! ## Signatures -/

/-- A digest in 32 bytes, padded on the left. -/
def leftPadDigest (input : List UInt8) : Option (FixedBytes 32) :=
  if 32 < input.length then none
  else some (FixedBytes.ofList 32 (List.replicate (32 - input.length) 0 ++ input))

/-- The block an RSA signature is made on: a whole block, or an encoded `DigestInfo`. -/
def signatureBlock (input : List UInt8) : Option (FixedBytes rsa2048Bytes) :=
  if h : input.length = rsa2048Bytes then some ⟨input, h⟩ else emsaEncodeDigestinfo input

/-- What a signature command computes: the signature or the status word of its failure. -/
def computeSignature (input : List UInt8) (rng : Rng) (c : OpenPgp σ) : Except Sw (List UInt8) :=
  let key := c.keys 0
  let algo := key.effectiveAlgo 0
  if algo = keyAlgoRsa2048 then
    match signatureBlock input with
    | none => .error .wrongData
    | some block =>
      match key.rsaKey with
      | none => .error .noPreciseDiagnosis
      | some rsa =>
        match applyPrivate K.bigUint rsa block rng with
        | none => .error .noPreciseDiagnosis
        | some raw => .ok raw.val
  else if algo = keyAlgoEddsa then
    if input = [] then .error .wrongData else .ok (K.ed25519Sign key.scalar input).val
  else if algo ≠ keyAlgoEcdsaP256 then .error .functionNotSupported
  else
    match leftPadDigest input with
    | none => .error .wrongData
    | some digest =>
      match K.p256Sign key.scalar digest with
      | none => .error .noPreciseDiagnosis
      | some raw => .ok raw.val

/-- PSO: COMPUTE DIGITAL SIGNATURE. A signature counts and uses up the verification before it is
  released. -/
def sign (input : List UInt8) (rng : Rng) (c : OpenPgp σ) : Response × OpenPgp σ :=
  if !c.pw1SignatureVerified then (.status .securityStatusNotSatisfied, c)
  else if !(c.keys 0).present then (.status .fileNotFound, c)
  else
    match c.computeSignature K input rng with
    | .error sw => (.status sw, c)
    | .ok raw =>
      { c with
        signatureCounter := c.signatureCounter + 1
        pw1SignatureVerified := false }.saveAnswer S (simpleOutput raw)

/-- INTERNAL AUTHENTICATE. An RSA challenge is padded on the left to a block. -/
def internalAuthenticate (input : List UInt8) (rng : Rng) (c : OpenPgp σ) : Response :=
  let key := c.keys 2
  if !c.pw1OtherVerified ∨ !key.present then .status .securityStatusNotSatisfied
  else
    let algo := key.effectiveAlgo 2
    if algo = keyAlgoRsa2048 then
      if rsa2048Bytes < input.length then .status .wrongData
      else
        let block := FixedBytes.ofList rsa2048Bytes
          (List.replicate (rsa2048Bytes - input.length) 0 ++ input)
        match key.rsaKey with
        | none => .status .noPreciseDiagnosis
        | some rsa =>
          match applyPrivate K.bigUint rsa block rng with
          | none => .status .noPreciseDiagnosis
          | some raw => simpleOutput raw.val
    else if algo = keyAlgoEddsa then
      if input = [] then .status .wrongData else simpleOutput (K.ed25519Sign key.scalar input).val
    else if algo ≠ keyAlgoEcdsaP256 then .status .functionNotSupported
    else
      match leftPadDigest input with
      | none => .status .wrongData
      | some digest =>
        match K.p256Sign key.scalar digest with
        | none => .status .noPreciseDiagnosis
        | some raw => simpleOutput raw.val

/-! ## Decryption -/

/-- The external public key of a PSO: DECIPHER command: at the top level, in the cipher object, or
  in the public key object in it. -/
def externalPublicKey (input : List UInt8) : Option (List UInt8) :=
  match Tlv.find input 0x86 with
  | some point => some point
  | none => do
    let cipher ← Tlv.find input 0xA6
    match Tlv.find cipher 0x86 with
    | some point => some point
    | none =>
      let publicTemplate ← Tlv.find cipher 0x7F49
      Tlv.find publicTemplate 0x86

/-- An RSA decipher payload as a block: a bare block, a block behind `00` or `02`, or an MPI. -/
def rsaCipherBlock (payload : List UInt8) : Option (FixedBytes rsa2048Bytes) :=
  if payload.length = rsa2048Bytes then some (FixedBytes.ofList _ payload)
  else if payload.length = rsa2048Bytes + 1 ∧
      (payload.headD 0 = 0x00 ∨ payload.headD 0 = 0x02) then
    some (FixedBytes.ofList _ (payload.drop 1))
  else if 3 ≤ payload.length ∧ payload.length ≤ rsa2048Bytes + 2 then
    let bits := ofBE (payload.take 2)
    let octets := payload.drop 2
    if bits ≤ 2048 ∧ (bits + 7) / 8 = octets.length then
      some (FixedBytes.ofList _ (List.replicate (rsa2048Bytes - octets.length) 0 ++ octets))
    else none
  else none

/-- The RFC 6637 material of the decryption slot, when it is provisioned. -/
def ecdhMaterial (c : OpenPgp σ) : Option EcdhMaterial :=
  if !(c.keys 1).present ∨ (c.keys 1).effectiveAlgo 1 ≠ keyAlgoEcdhP256 then none
  else EcdhMaterial.fromSlot (c.keys 1)

/-- The partial decrypt: the shared secret is the response. -/
def decipherEcdhSharedSecret (input : List UInt8) (c : OpenPgp σ) : Response :=
  match externalPublicKey input with
  | none => .status .wrongData
  | some point =>
    if !K.p256IsPoint point then .status .wrongData
    else if !K.p256IsSecretKey (c.keys 1).scalar then .status .noPreciseDiagnosis
    else simpleOutput (K.p256SharedSecret (c.keys 1).scalar point).val

/-- The partial decrypt for Curve25519. -/
def decipherEcdhX25519 (input : List UInt8) (c : OpenPgp σ) : Response :=
  match externalPublicKey input with
  | none => .status .wrongData
  | some point =>
    if point.length ≠ 32 then .status .wrongData
    else simpleOutput (K.x25519SharedSecret (c.keys 1).scalar (FixedBytes.ofList 32 point)).val

/-- The length of a key of a key encryption algorithm. -/
def kekLen (kekAlg : UInt8) : Option Nat :=
  match kekAlg with
  | 7 => some 16
  | 8 => some 24
  | 9 => some 32
  | _ => none

/-- `or fail with sw`. -/
def orSw {α : Type} (x : Option α) (sw : Sw) : Except Sw α :=
  match x with
  | some v => .ok v
  | none => .error sw

/-- The decryption of RFC 6637 section 8 on the card, with provisioned material. -/
def decipherProvisioned (material : EcdhMaterial) (input : List UInt8) (c : OpenPgp σ) :
    Except Sw (List UInt8) := do
  let point ← orSw (externalPublicKey input) .wrongData
  if point.length ≠ 65 then .error .wrongData
  let cipher ← orSw ((Tlv.find input 0x80).or do
    let cipher ← Tlv.find input 0xA6
    Tlv.find cipher 0x80) .wrongData
  if !K.p256IsPoint point then .error .wrongData
  if !K.p256IsSecretKey (c.keys 1).scalar then .error .noPreciseDiagnosis
  let shared := K.p256SharedSecret (c.keys 1).scalar point
  let fingerprint ← orSw (material.fingerprint.or (c.fingerprint K 1)) .noPreciseDiagnosis
  let param ← orSw (Ecdh.param Ecdh.curveOidP256 Ecdh.algEcdh material.kdfHash material.kekAlg
    fingerprint) .wrongData
  let kekLen ← orSw (kekLen material.kekAlg) .wrongData
  let kek ← orSw (Ecdh.kdf K param shared.val kekLen) .noPreciseDiagnosis
  let unwrapped ← orSw (Ecdh.aesKeyUnwrap K kek material.wrapped.val) .noPreciseDiagnosis
  let sessionKey ← orSw (sessionKeyFromWrapped unwrapped) .noPreciseDiagnosis
  let decrypted ← orSw (PgpSym.decryptAes K sessionKey cipher) .noPreciseDiagnosis
  if !decrypted.mdcVerified then .error .wrongData
  return decrypted.data

/-- Decrypt with the P-256 key: on the card when the slot has the material for it. -/
def decipherEcdh (input : List UInt8) (c : OpenPgp σ) : Response :=
  match c.ecdhMaterial with
  | none => c.decipherEcdhSharedSecret K input
  | some material =>
    match c.decipherProvisioned K material input with
    | .error sw => .status sw
    | .ok data => simpleOutput data

def decipher (input : List UInt8) (rng : Rng) (c : OpenPgp σ) : Response :=
  let key := c.keys 1
  if !c.pw1OtherVerified ∨ !key.present then .status .securityStatusNotSatisfied
  else
    let algo := key.effectiveAlgo 1
    if algo = keyAlgoRsa2048 then
      let cipher := (Tlv.find input 0xA6).getD input
      let publicTemplate := (Tlv.find cipher 0x7F49).getD cipher
      let payload := (Tlv.find publicTemplate 0x86).getD publicTemplate
      match rsaCipherBlock payload with
      | none => .status .wrongData
      | some block =>
        match key.rsaKey with
        | none => .status .noPreciseDiagnosis
        | some rsa =>
          match applyPrivate K.bigUint rsa block rng with
          | none => .status .noPreciseDiagnosis
          | some plain => simpleOutput plain.val
    else if algo = keyAlgoEcdhP256 then c.decipherEcdh K input
    else if algo = keyAlgoEcdhX25519 then c.decipherEcdhX25519 K input
    else .status .functionNotSupported

/-! ## Dispatch -/

/-- GET CHALLENGE: as many random bytes as asked for, between 1 and 64. -/
def getChallenge (apdu : Apdu) (rng : Rng) : Response :=
  let length := min (max apdu.expectedLen 1) 64
  .ok (fillBytes length rng).1.val

def process (apdu : Apdu) (rng : Rng) (c : OpenPgp σ) : Response × OpenPgp σ :=
  if apdu.ins = insVerify then c.verify K S apdu
  else if apdu.ins = insChangeReferenceData then c.verifyChange K S apdu
  else if apdu.ins = insResetRetryCounter then c.resetRetry K S apdu
  else if apdu.ins = insGetData then (c.getData K apdu, c)
  else if apdu.ins = insPutData then c.putData S apdu
  else if apdu.ins = insPso ∧ apdu.p1 = 0x9E ∧ apdu.p2 = 0x9A then c.sign K S apdu.data rng
  else if apdu.ins = insPso ∧ apdu.p1 = 0x80 ∧ apdu.p2 = 0x86 then (c.decipher K apdu.data rng, c)
  else if apdu.ins = insInternalAuthenticate then (c.internalAuthenticate K apdu.data rng, c)
  else if apdu.ins = insGenerate ∧ apdu.p1 = 0x80 then c.generate K S apdu rng
  else if apdu.ins = insGenerate ∧ apdu.p1 = 0x81 then (c.readPublic K apdu, c)
  else if apdu.ins = insGetChallenge then (getChallenge apdu rng, c)
  else if apdu.ins = insSelectData ∨ apdu.ins = insActivateFile then (.status .ok, c)
  else (.status .insNotSupported, c)

end OpenPgp

end AegisToken.Applets
