/-
  Decryption on the OpenPGP card: key derivation and key unwrapping (aegis-applets ecdh.rs) and the
  symmetric layer (pgp_sym.rs). Hashes, ciphers and curves are the parameter `PgpCrypto`, of which
  nothing is assumed; AES takes a key of 16, 24 or 32 bytes, and the callers check its length.
-/
import AegisToken.Applets.PinSlot
import AegisToken.Applets.Rsa

namespace AegisToken.Applets
open ByteCodec

/-- The primitives of the OpenPGP applet. `p256Public` gives the uncompressed point and
  `p256Sign` the signature `r || s`; both give nothing for a key that is no scalar of the curve.
  `p256SharedSecret` is the `x` coordinate of the shared point. -/
structure PgpCrypto where
  sha1 : List UInt8 → FixedBytes 20
  sha256 : List UInt8 → FixedBytes 32
  bigUint : BigUint
  p256Public : FixedBytes 32 → Option (FixedBytes 65)
  p256Sign : FixedBytes 32 → FixedBytes 32 → Option (FixedBytes 64)
  p256IsPoint : List UInt8 → Bool
  p256IsSecretKey : FixedBytes 32 → Bool
  p256SharedSecret : FixedBytes 32 → List UInt8 → FixedBytes 32
  ed25519Public : FixedBytes 32 → FixedBytes 32
  ed25519Sign : FixedBytes 32 → List UInt8 → FixedBytes 64
  x25519Public : FixedBytes 32 → FixedBytes 32
  x25519SharedSecret : FixedBytes 32 → FixedBytes 32 → FixedBytes 32
  aesEncrypt : List UInt8 → FixedBytes 16 → FixedBytes 16
  aesDecrypt : List UInt8 → FixedBytes 16 → FixedBytes 16

variable (K : PgpCrypto)

/-! ## Key derivation and unwrapping -/

namespace Ecdh

def anonymousSender : List UInt8 :=
  [0x41, 0x6E, 0x6F, 0x6E, 0x79, 0x6D, 0x6F, 0x75, 0x73, 0x20, 0x53, 0x65, 0x6E, 0x64, 0x65, 0x72,
    0x20, 0x20, 0x20, 0x20]

def maxParam : Nat := 64
def curveOidP256 : List UInt8 := [0x2A, 0x86, 0x48, 0xCE, 0x3D, 0x03, 0x01, 0x07]
def algEcdh : UInt8 := 18
def hashSha256 : UInt8 := 8
def keyWrapIv : List UInt8 := List.replicate 8 0xA6

/-- The KDF parameters of RFC 6637 section 8. -/
def param (curveOid : List UInt8) (algId kdfHashId kekAlgId : UInt8) (fingerprint : FixedBytes 20) :
    Option (List UInt8) :=
  if curveOid = [] ∨ 0xFE < curveOid.length then none
  else
    let out := [UInt8.ofNat curveOid.length] ++ curveOid ++
      [algId, 0x03, 0x01, kdfHashId, kekAlgId] ++ anonymousSender ++ fingerprint.val
    if maxParam < out.length then none else some out

/-- The blocks of the derived key, until there are `outLen` bytes. -/
def kdfLoop (param zb : List UInt8) (outLen : Nat) : Nat → Nat → List UInt8 → List UInt8
  | 0, _, out => out
  | rounds + 1, counter, out =>
    if out.length < outLen then
      kdfLoop param zb outLen rounds (counter + 1)
        (out ++ (K.sha256 (toBE 4 counter ++ zb ++ param)).val)
    else out

/-- The key derivation of RFC 6637 section 7. Two blocks are the most that 64 bytes take. -/
def kdf (param zb : List UInt8) (outLen : Nat) : Option (List UInt8) :=
  if outLen = 0 ∨ 64 < outLen then none
  else some ((kdfLoop K param zb outLen 2 1 []).take outLen)

def block16 (bytes : List UInt8) : FixedBytes 16 := FixedBytes.ofList 16 bytes

def aesKeyLen (key : List UInt8) : Bool := key.length = 16 ∨ key.length = 24 ∨ key.length = 32

/-- One step of the unwrapping: block `index` of round `round`. -/
def unwrapStep (kek : List UInt8) (n round : Nat) (state : List UInt8 × List (List UInt8))
    (index : Nat) : Option (List UInt8 × List (List UInt8)) :=
  let (a, r) := state
  let aXor := List.zipWith (· ^^^ ·) a (toBE 8 (n * round + index + 1))
  if !aesKeyLen kek then none
  else
    let block := K.aesDecrypt kek (block16 (aXor ++ r.getD index []))
    some (block.val.take 8, r.set index (block.val.drop 8))

/-- Unwrap a key (RFC 3394). A wrong integrity check value is rejected. -/
def aesKeyUnwrap (kek wrapped : List UInt8) : Option (List UInt8) := do
  if wrapped.length < 16 ∨ wrapped.length % 8 ≠ 0 then none
  else
    let n := wrapped.length / 8 - 1
    if 8 < n then none
    else
      let r := (List.range n).map fun index => (wrapped.drop (8 * (index + 1))).take 8
      let (a, r) ← (List.range 6).reverse.foldlM
        (fun state round => (List.range n).reverse.foldlM (unwrapStep K kek n round) state)
        (wrapped.take 8, r)
      if a ≠ keyWrapIv then none else some r.flatten

end Ecdh

/-- The session key of an unwrapped value: algorithm, key, checksum and padding. -/
def sessionKeyFromWrapped (unwrapped : List UInt8) : Option (List UInt8) := do
  if unwrapped.length < 8 then none
  else
    let keyLen ← match unwrapped.headD 0 with
      | 7 => some 16
      | 8 => some 24
      | 9 => some 32
      | _ => none
    if unwrapped.length < 1 + keyLen + 2 then none
    else
      let key := (unwrapped.drop 1).take keyLen
      let checksum := ofBE ((unwrapped.drop (1 + keyLen)).take 2)
      if (key.map UInt8.toNat).sum % 2 ^ 16 ≠ checksum then none else some key

/-! ## The symmetric layer -/

namespace PgpSym

def bs : Nat := 16
def mdcTag : UInt8 := 0xD3
def mdcLength : UInt8 := 20
def mdcPacket : Nat := 22
def maxData : Nat := 4096

/-- The result of a decryption. -/
structure Decrypted where
  data : List UInt8
  mdcVerified : Bool
deriving DecidableEq

/-- Decrypt the blocks of a CFB stream with the feedback register `fr`. -/
def cfbLoop (key : List UInt8) : Nat → FixedBytes 16 → List UInt8 → List UInt8
  | 0, _, _ => []
  | blocks + 1, fr, ciphertext =>
    let block := ciphertext.take bs
    let fre := K.aesEncrypt key fr
    List.zipWith (· ^^^ ·) block fre.val ++
      cfbLoop key blocks (Ecdh.block16 block) (ciphertext.drop bs)

/-- Decrypt an OpenPGP CFB stream. The quick check of the key and the shape of the modification
  detection code are decided together; whether the code matches is part of the result. -/
def decryptAes (sessionKey ciphertext : List UInt8) : Option Decrypted :=
  if !Ecdh.aesKeyLen sessionKey then none
  else if ciphertext.length < bs + 2 + mdcPacket then none
  else if maxData < ciphertext.length then none
  else
    let plaintext := cfbLoop K sessionKey ((ciphertext.length + 15) / bs) (FixedBytes.zero 16)
      ciphertext
    let mdcStart := plaintext.length - mdcPacket
    let octet := fun i => plaintext.getD i 0
    let structureOk := octet bs = octet (bs - 2) ∧ octet (bs + 1) = octet (bs - 1) ∧
      octet mdcStart = mdcTag ∧ octet (mdcStart + 1) = mdcLength
    let expected := K.sha1 (plaintext.take (mdcStart + 2))
    let mdcVerified := constantTimeEq expected.val (plaintext.drop (mdcStart + 2))
    if structureOk then some ⟨(plaintext.take mdcStart).drop (bs + 2), mdcVerified⟩ else none

end PgpSym

end AegisToken.Applets
