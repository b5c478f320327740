/-
  The OpenPGP card applet (aegis-applets openpgp.rs).
  `OpenPgp σ` is the state of the applet over a store with states `σ`; the store is the trait
  `OpenPgpStore`, a record of functions, whose reads and writes may fail. A command returns its
  response and the applet it leaves. The output buffer is not part of the state: a response
  carries its data, and each command clears the buffer before it writes to it.
  The persistent state is written as a sequence of pieces into a buffer of `stateBytes` bytes, and
  a piece that does not fit is dropped (`extend`), as the source drops the error.
-/
import AegisToken.Lib.Records
import AegisToken.Applets.PgpDecrypt

namespace AegisToken.Applets
open ByteCodec Wire

/-! ## Constants -/

def pwPolicy : PinPolicy := ⟨6, 127, 3, .sha256⟩
def maxCertificate : Nat := 1152
def maxName : Nat := 39
def maxLanguage : Nat := 8
def maxUrl : Nat := 255
def stateBytes : Nat := 8192
def stateVersion : UInt8 := 3
def stateVersionV2 : UInt8 := 2
def stateVersionV1 : UInt8 := 1
def slotMaterialBytes : Nat := rsaBlobBytes

def algoRsa : UInt8 := 0x01
def algoEcdh : UInt8 := 0x12
def algoEcdsa : UInt8 := 0x13
def algoEddsa : UInt8 := 0x16
def oidP256 : List UInt8 := [0x2A, 0x86, 0x48, 0xCE, 0x3D, 0x03, 0x01, 0x07]
def oidEd25519 : List UInt8 := [0x2B, 0x06, 0x01, 0x04, 0x01, 0xDA, 0x47, 0x0F, 0x01]
def oidX25519 : List UInt8 := [0x2B, 0x06, 0x01, 0x04, 0x01, 0x97, 0x55, 0x01, 0x05, 0x01]

def keyAlgoUnset : UInt8 := 0
def keyAlgoEcdsaP256 : UInt8 := 1
def keyAlgoEcdhP256 : UInt8 := 2
def keyAlgoEddsa : UInt8 := 3
def keyAlgoEcdhX25519 : UInt8 := 4
def keyAlgoRsa2048 : UInt8 := 5

def ecdhKeyBytes : Nat := 32
def ecdhWrappedMax : Nat := 48
def ecdhMaterialBytes : Nat := 1 + ecdhWrappedMax + 2 + 1 + 20

def factoryPw1 : List UInt8 := [0x31, 0x32, 0x33, 0x34, 0x35, 0x36]

def factoryPw3 : List UInt8 := [0x31, 0x32, 0x33, 0x34, 0x35, 0x36, 0x37, 0x38]

/-! ## Key slots -/

/-- A key slot: how many bytes of the material count, and the algorithm it is for (none means the
  default of the slot). -/
structure KeySlot where
  present : Bool
  len : Nat
  algo : UInt8
  material : FixedBytes slotMaterialBytes
deriving DecidableEq

instance neZero_slots : NeZero 3 := ⟨by decide⟩

namespace KeySlot

def empty : KeySlot := ⟨false, 0, keyAlgoUnset, FixedBytes.zero _⟩

def rsaKey (slot : KeySlot) : Option Rsa2048PrivateKey :=
  if slot.algo ≠ keyAlgoRsa2048 then none
  else Rsa2048PrivateKey.fromBlob (slot.material.val.take (min slot.len slotMaterialBytes))

/-- The stored algorithm, or the default of the slot: ECDH for decryption, ECDSA for the others. -/
def effectiveAlgo (slot : KeySlot) (index : Fin 3) : UInt8 :=
  if slot.algo ≠ keyAlgoUnset then slot.algo
  else if index = 1 then keyAlgoEcdhP256
  else keyAlgoEcdsaP256

/-- The first 32 bytes of the material: the scalar or seed of a key on a curve. -/
def scalar (slot : KeySlot) : FixedBytes 32 := FixedBytes.ofList 32 slot.material.val

end KeySlot

/-- The RFC 6637 material of a decryption slot. -/
structure EcdhMaterial where
  wrapped : BoundedBytes ecdhWrappedMax
  kdfHash : UInt8
  kekAlg : UInt8
  fingerprint : Option (FixedBytes 20)
deriving DecidableEq

namespace EcdhMaterial

/-- Read the material from a slot, when it is provisioned. -/
def fromSlot (slot : KeySlot) : Option EcdhMaterial :=
  if slot.len < ecdhKeyBytes + ecdhMaterialBytes then none
  else
    let material := (slot.material.val.drop ecdhKeyBytes).take ecdhMaterialBytes
    let octet := fun i => material.getD i 0
    let wrappedLen := (octet 0).toNat
    if wrappedLen = 0 ∨ ecdhWrappedMax < wrappedLen then none
    else do
      let wrapped ← BoundedBytes.ofSlice ecdhWrappedMax ((material.drop 1).take wrappedLen)
      let fingerprint :=
        if octet (3 + ecdhWrappedMax) = 1 then
          some (FixedBytes.ofList 20 (material.drop (4 + ecdhWrappedMax)))
        else none
      some {
        wrapped, kdfHash := octet (1 + ecdhWrappedMax), kekAlg := octet (2 + ecdhWrappedMax),
        fingerprint }

/-- The bytes the material takes in a slot. -/
def encoded (m : EcdhMaterial) : List UInt8 :=
  [UInt8.ofNat m.wrapped.val.length] ++ m.wrapped.val ++
    List.replicate (ecdhWrappedMax - m.wrapped.val.length) 0 ++ [m.kdfHash, m.kekAlg] ++
    match m.fingerprint with
    | some fingerprint => 1 :: fingerprint.val
    | none => 0 :: List.replicate 20 0

theorem length_encoded (m : EcdhMaterial) : m.encoded.length = ecdhMaterialBytes := by
  have hw := m.wrapped.property
  have hf : (match m.fingerprint with
      | some fingerprint => 1 :: fingerprint.val
      | none => 0 :: List.replicate 20 0).length = 21 := by
    split
    · rename_i fingerprint _
      rw [List.length_cons, fingerprint.property]
    · rfl
  unfold encoded
  simp only [List.length_append, List.length_replicate, List.length_cons, List.length_nil,
    ecdhMaterialBytes]
  omega

/-- Write the material into a slot, after the private key. -/
def store (m : EcdhMaterial) (slot : KeySlot) : KeySlot :=
  { slot with
    material := ⟨slot.material.val.take ecdhKeyBytes ++ m.encoded ++
      slot.material.val.drop (ecdhKeyBytes + ecdhMaterialBytes), by
        simp only [List.length_append, List.length_take, List.length_drop, m.length_encoded,
          slot.material.property]
        rfl⟩
    len := ecdhKeyBytes + ecdhMaterialBytes }

end EcdhMaterial

/-! ## State -/

/-- The trait `OpenPgpStore`: what a load reads (nothing on a failure) and whether a save worked. -/
structure OpenPgpStore (σ : Type) where
  load : σ → Option (BoundedBytes stateBytes) × σ
  save : List UInt8 → σ → Bool × σ

/-- The applet. -/
structure OpenPgp (σ : Type) where
  store : σ
  pw1 : PinSlot
  pw3 : PinSlot
  pw1Floor : UInt8
  pw3Floor : UInt8
  pw1SignatureVerified : Bool
  pw1OtherVerified : Bool
  pw3Verified : Bool
  keys : Fin 3 → KeySlot
  name : BoundedBytes maxName
  language : BoundedBytes maxLanguage
  sex : UInt8
  url : BoundedBytes maxUrl
  certificates : Fin 3 → BoundedBytes maxCertificate
  signatureCounter : UInt32
  loaded : Bool

namespace OpenPgp

variable {σ : Type}

def new (store : σ) : OpenPgp σ where
  store
  pw1 := PinSlot.new pwPolicy
  pw3 := PinSlot.new pwPolicy
  pw1Floor := pwPolicy.maxAttempts
  pw3Floor := pwPolicy.maxAttempts
  pw1SignatureVerified := false
  pw1OtherVerified := false
  pw3Verified := false
  keys _ := KeySlot.empty
  name := BoundedBytes.empty _
  language := BoundedBytes.empty _
  sex := 0
  url := BoundedBytes.empty _
  certificates _ := BoundedBytes.empty _
  signatureCounter := 0
  loaded := false

end OpenPgp

/-! ## Encoding -/

/-- `extend_from_slice` into the state buffer, its error ignored. -/
def extend (out bytes : List UInt8) : List UInt8 := extendTo stateBytes out bytes

/-- The pieces of a value behind a length byte. -/
def lenBytesPieces (value : List UInt8) (width : Nat) : List (List UInt8) :=
  [UInt8.ofNat value.length] :: value :: zeroPieces value.length width

/-- The pieces of a certificate: its length and its bytes in a fixed width. -/
def certificatePieces (cert : BoundedBytes maxCertificate) : List (List UInt8) :=
  toBE 2 cert.val.length :: cert.val :: zeroPieces cert.val.length maxCertificate

/-- The pieces of a key slot. -/
def KeySlot.pieces (key : KeySlot) : List (List UInt8) :=
  [[if key.present then 1 else 0], toBE 2 key.len, [key.algo], key.material.val]

namespace OpenPgp

variable {σ : Type} (S : OpenPgpStore σ)

/-- What `save_state` pushes, in order. -/
def statePieces (c : OpenPgp σ) : List (List UInt8) :=
  [[stateVersion], c.pw1.encode.val, c.pw3.encode.val] ++
    (List.finRange 3).flatMap (fun i => (c.keys i).pieces) ++
    lenBytesPieces c.name.val maxName ++
    lenBytesPieces c.language.val maxLanguage ++
    [[c.sex]] ++
    lenBytesPieces c.url.val maxUrl ++
    (List.finRange 3).flatMap (fun i => certificatePieces (c.certificates i)) ++
    [toBE 4 c.signatureCounter.toNat]

def encodeState (c : OpenPgp σ) : List UInt8 := c.statePieces.foldl extend []

def saveState (c : OpenPgp σ) : Bool × OpenPgp σ :=
  let (saved, store) := S.save c.encodeState c.store
  (saved, { c with store })

/-- Write the state and move the session floors: to the counters when the write worked, and down
  to them when it did not. -/
def persistState (c : OpenPgp σ) : Bool × OpenPgp σ :=
  let (saved, c) := c.saveState S
  let pw1Retries := c.pw1.retriesRemaining
  let pw3Retries := c.pw3.retriesRemaining
  if saved then (saved, { c with pw1Floor := pw1Retries, pw3Floor := pw3Retries })
  else (saved, { c with
    pw1Floor := min c.pw1Floor pw1Retries, pw3Floor := min c.pw3Floor pw3Retries })

end OpenPgp

/-! ## Decoding -/

def decodePin (policy : PinPolicy) : Parser Unit PinSlot := do
  let raw ← takeN pinStateLen
  match PinSlot.decode policy raw with
  | .ok slot => return slot
  | .error _ => reject ()

/-- A value of at most `n` bytes behind a length byte, in a field of `n` bytes. -/
def decodeLenBytes (n : Nat) : Parser Unit (BoundedBytes n) := do
  let len ← takeByte
  if n < len.toNat then reject ()
  else
    let raw ← takeN n
    match BoundedBytes.ofSlice n (raw.take len.toNat) with
    | some value => return value
    | none => reject ()

/-- Whether a decoded length is one the algorithm of the slot allows: a whole RSA key, or at most
  48 bytes, or the RFC 6637 material in the decryption slot of a P-256 key. -/
def geometryOk (index : Fin 3) (algo : UInt8) (len : Nat) (raw : List UInt8) : Bool :=
  if algo = keyAlgoRsa2048 then
    len = rsaBlobBytes ∧ (Rsa2048PrivateKey.fromBlob (raw.take len)).isSome
  else if 48 < len then
    len = ecdhKeyBytes + ecdhMaterialBytes ∧ index = 1 ∧
      (algo = keyAlgoUnset ∨ algo = keyAlgoEcdhP256)
  else true

/-- One key slot. Versions 1 and 2 have a length byte and 48 bytes of material, and version 1 has
  no algorithm. -/
def decodeKey (version : UInt8) (index : Fin 3) : Parser Unit KeySlot := do
  let v1 := version = stateVersionV1
  let old := v1 ∨ version = stateVersionV2
  let present ← takeByte
  let len ← if old then takeBE 1 else takeBE 2
  let algo ←
    if v1 then pure (if index = 1 then keyAlgoEcdhP256 else keyAlgoEcdsaP256) else takeByte
  let width := if old then 48 else slotMaterialBytes
  let raw ← takeN width
  if width < len then reject ()
  else if !geometryOk index algo len raw then reject ()
  else
    return ⟨present ≠ 0, len, algo, FixedBytes.ofList _ (raw.take len)⟩

def decodeCertificate : Parser Unit (BoundedBytes maxCertificate) := do
  let len ← takeBE 2
  let raw ← takeN maxCertificate
  if maxCertificate < len then reject ()
  else
    match BoundedBytes.ofSlice maxCertificate (raw.take len) with
    | some certificate => return certificate
    | none => reject ()

/-- Three values in a row. -/
def decodeThree {α : Type} (decode : Fin 3 → Parser Unit α) : Parser Unit (Fin 3 → α) := do
  let x ← decode 0
  let y ← decode 1
  let z ← decode 2
  return fun i => if i = 0 then x else if i = 1 then y else z

namespace OpenPgp

variable {σ : Type} (K : PgpCrypto) (S : OpenPgpStore σ)

/-- Parse the state into the applet; the counters are lowered to the session floors. -/
def stateParser (c : OpenPgp σ) : Parser Unit (OpenPgp σ) := do
  let version ← takeByte
  if version ≠ stateVersion ∧ version ≠ stateVersionV2 ∧ version ≠ stateVersionV1 then reject ()
  else
    let pw1 ← decodePin pwPolicy
    let pw3 ← decodePin pwPolicy
    let keys ← decodeThree (decodeKey version)
    let name ← decodeLenBytes maxName
    let language ← decodeLenBytes maxLanguage
    let sex ← takeByte
    let url ← decodeLenBytes maxUrl
    let certificates ← decodeThree fun _ => decodeCertificate
    let counter ← takeBE 4
    return { c with
      pw1 := clampToFloor pw1 c.pw1Floor
      pw3 := clampToFloor pw3 c.pw3Floor
      keys, name, language, sex, url, certificates
      signatureCounter := UInt32.ofNat counter }

def decodeState (c : OpenPgp σ) (bytes : List UInt8) : Option (OpenPgp σ) :=
  match c.stateParser bytes with
  | .ok (c, _) => some c
  | .error _ => none

/-- The factory PINs, with the counters lowered to the session floors. -/
def provision (c : OpenPgp σ) : OpenPgp σ :=
  let pw1 := (c.pw1.set K.sha256 factoryPw1).2
  let pw3 := (c.pw3.set K.sha256 factoryPw3).2
  { c with pw1 := clampToFloor pw1 c.pw1Floor, pw3 := clampToFloor pw3 c.pw3Floor }

/-- Load the state once. When nothing is read, or what is read is rejected, the PINs become the
  factory ones and the state is written. -/
def ensureLoaded (c : OpenPgp σ) : OpenPgp σ :=
  if c.loaded then c
  else
    let (read, store) := S.load c.store
    let c := { c with loaded := true, store }
    match read.bind fun bytes => c.decodeState bytes.val with
    | some c => c
    | none => ((c.provision K).saveState S).2

/-- SELECT: load the state again and forget what was verified. -/
def select (c : OpenPgp σ) : Response × OpenPgp σ :=
  let c := { c with loaded := false }.ensureLoaded K S
  (.ok [], { c with
    pw1SignatureVerified := false, pw1OtherVerified := false, pw3Verified := false })

end OpenPgp

end AegisToken.Applets
