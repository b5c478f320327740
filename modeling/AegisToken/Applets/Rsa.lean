/-
  RSA-2048 for the PIV and OpenPGP applets (aegis-applets rsa.rs).
  The numbers of the crate `crypto_bigint` are naturals, below `2 ^ 1024` for a `U1024` and below
  `2 ^ 2048` for a `U2048`; a wrapping operation carries its `% 2 ^ w`, and so does a resize to
  fewer bits. The primitives that are more than machine arithmetic are the parameter `BigUint`,
  with what the crate documents of each. `sub_mod` is `ModArith.subMod`: the wrapping difference,
  with the modulus added when it borrows.
  A random number generator is the sequence of the bytes it gives. A function that goes on
  drawing returns the rest of the sequence.
-/
import AegisToken.Lib.Bytes
import AegisToken.Lib.ModArith

namespace AegisToken
open ByteCodec ModArith

/-- The bytes a random number generator gives, in order (the trait `Rng`). -/
abbrev Rng := Nat → UInt8

/-- `fill_bytes` on an array of `n` bytes. -/
def fillBytes (n : Nat) (rng : Rng) : FixedBytes n × Rng :=
  (⟨(List.range n).map rng, by simp⟩, fun i => rng (n + i))

/-! ## Multi-precision integers -/

/-- The primitives of `crypto_bigint`. Modular powers and products are those of Montgomery form,
  which is for odd moduli; an inverse is reduced, and there is one for every number coprime to
  the modulus. -/
structure BigUint where
  gcd : Nat → Nat → Nat
  invertMod : Nat → Nat → Option Nat
  invertOddMod : Nat → Nat → Option Nat
  montyPow : Nat → Nat → Nat → Nat
  montyMul : Nat → Nat → Nat → Nat
  mulMod : Nat → Nat → Nat → Nat
  squareMod : Nat → Nat → Nat
  gcd_eq : ∀ a b, gcd a b = Nat.gcd a b
  invertMod_spec : ∀ {a m x}, 1 < m → invertMod a m = some x → x < m ∧ a * x ≡ 1 [MOD m]
  invertOddMod_spec : ∀ {a m x}, m % 2 = 1 → 1 < m → invertOddMod a m = some x →
    x < m ∧ a * x ≡ 1 [MOD m]
  invertOddMod_isSome : ∀ {a m}, m % 2 = 1 → a.Coprime m → (invertOddMod a m).isSome
  montyPow_eq : ∀ {m} a e, m % 2 = 1 → montyPow m a e = a ^ e % m
  montyMul_eq : ∀ {m} a b, m % 2 = 1 → montyMul m a b = a * b % m
  mulMod_eq : ∀ {m} a b, 0 < m → mulMod a b m = a * b % m
  squareMod_eq : ∀ {m} a, 0 < m → squareMod a m = a * a % m

def bits (n : Nat) : Nat := if n = 0 then 0 else n.log2 + 1

def wrappingSub (w a b : Nat) : Nat := (a + 2 ^ w - b) % 2 ^ w

/-- The number of low zero bits of a number of `w` bits. -/
def trailingZeros : Nat → Nat → Nat
  | 0, _ => 0
  | w + 1, n => if n % 2 = 1 then 0 else trailingZeros w (n / 2) + 1

/-- `Odd::new`. -/
def oddNew (n : Nat) : Option Nat := if n % 2 = 1 then some n else none

/-- `NonZero::new`. -/
def nonZeroNew (n : Nat) : Option Nat := if n = 0 then none else some n

theorem oddNew_eq_some {n m : Nat} : oddNew n = some m ↔ n % 2 = 1 ∧ m = n := by
  unfold oddNew
  split <;> rename_i h <;> simp [h, eq_comm]

theorem nonZeroNew_eq_some {n m : Nat} : nonZeroNew n = some m ↔ n ≠ 0 ∧ m = n := by
  unfold nonZeroNew
  split <;> rename_i h <;> simp [h, eq_comm]

/-! ## Keys -/

def rsa2048Bytes : Nat := 256
def rsa1024Bytes : Nat := 128
def rsaPublicExponent : UInt32 := 65537
def millerRabinRounds : Nat := 12
def primeCandidateAttempts : Nat := 4096
def keygenAttempts : Nat := 16

/-- Serialized size of a private key. -/
def rsaBlobBytes : Nat := 256 + 256 + 5 * 128 + 4

/-- RSA-2048 private key with CRT parameters (all big-endian). -/
structure Rsa2048PrivateKey where
  n : FixedBytes rsa2048Bytes
  e : UInt32
  d : FixedBytes rsa2048Bytes
  p : FixedBytes rsa1024Bytes
  q : FixedBytes rsa1024Bytes
  dp : FixedBytes rsa1024Bytes
  dq : FixedBytes rsa1024Bytes
  qinv : FixedBytes rsa1024Bytes
deriving DecidableEq

/-- RSA-2048 public key. -/
structure Rsa2048PublicKey where
  n : FixedBytes rsa2048Bytes
  e : UInt32
deriving DecidableEq

namespace Rsa2048PrivateKey

def toPublic (key : Rsa2048PrivateKey) : Rsa2048PublicKey := ⟨key.n, key.e⟩

/-- `n || d || p || q || dp || dq || qinv || e`. -/
def toBlob (key : Rsa2048PrivateKey) : List UInt8 :=
  key.n.val ++ key.d.val ++ key.p.val ++ key.q.val ++ key.dp.val ++ key.dq.val ++ key.qinv.val ++
    toBE 4 key.e.toNat

def blobField (blob : List UInt8) (start len : Nat) : FixedBytes len :=
  FixedBytes.ofList len (blob.drop start)

/-- Parse a blob. A wrong length, a trivial or even exponent, an even modulus and a zero factor
  are rejected. -/
def fromBlob (blob : List UInt8) : Option Rsa2048PrivateKey :=
  if blob.length ≠ rsaBlobBytes then none
  else
    let n := blobField blob 0 rsa2048Bytes
    let d := blobField blob 256 rsa2048Bytes
    let p := blobField blob 512 rsa1024Bytes
    let q := blobField blob 640 rsa1024Bytes
    let dp := blobField blob 768 rsa1024Bytes
    let dq := blobField blob 896 rsa1024Bytes
    let qinv := blobField blob 1024 rsa1024Bytes
    let e := UInt32.ofNat (ofBE ((blob.drop 1152).take 4))
    if e < 3 ∨ e &&& 1 = 0 then none
    else if (oddNew (ofBE n.val)).isNone then none
    else if p = FixedBytes.zero _ ∨ q = FixedBytes.zero _ then none
    else some { n, e, d, p, q, dp, dq, qinv }

end Rsa2048PrivateKey

/-! ## Primes -/

def smallPrimes : List Nat :=
  [3, 5, 7, 11, 13, 17, 19, 23, 29, 31, 37, 41, 43, 47, 53, 59, 61, 67, 71, 73, 79, 83, 89, 97,
    101, 103, 107, 109, 113, 127, 131, 137, 139, 149, 151, 157, 163, 167, 173, 179, 181, 191, 193,
    197, 199, 211, 223, 227, 229, 233, 239, 241, 251]

/-- Reject candidates divisible by one of the primes. -/
def trialDivisionOk (candidate : Nat) : List Nat → Option Bool
  | [] => some true
  | prime :: rest => do
    let divisor ← nonZeroNew prime
    if candidate % divisor = 0 then some false else trialDivisionOk candidate rest

/-- Sample a Miller-Rabin base in `[2, candidate)`, in at most `tries` draws. The draw has as many
  bits as the candidate. -/
def randomBaseLoop (candidate byteLen excess : Nat) : Nat → Rng → Option (Nat × Rng)
  | 0, _ => none
  | tries + 1, rng =>
    let (raw, rng) := fillBytes byteLen rng
    let bytes := raw.val.modify 0 (· &&& (0xFF >>> UInt8.ofNat excess))
    let a := ofBE bytes
    if 2 ≤ a ∧ a < candidate then some (a, rng)
    else randomBaseLoop candidate byteLen excess tries rng

def randomBase (candidate : Nat) (rng : Rng) : Option (Nat × Rng) :=
  let bits := bits candidate
  if bits < 3 ∨ 1024 < bits then none
  else
    let byteLen := (bits + 7) / 8
    randomBaseLoop candidate byteLen (byteLen * 8 - bits) 64 rng

/-- The squarings of one Miller-Rabin round: whether `candidate - 1` comes up before `1` does and
  within `squarings` steps. -/
def squaringLoop (B : BigUint) (candidate : Nat) : Nat → Nat → Bool
  | 0, _ => false
  | squarings + 1, x =>
    let x := B.squareMod x candidate
    if x = wrappingSub 1024 candidate 1 then true
    else if x = 1 then false
    else squaringLoop B candidate squarings x

/-- `rounds` Miller-Rabin rounds for `candidate = 2 ^ s * d + 1`. -/
def millerRabinLoop (B : BigUint) (candidate s d : Nat) : Nat → Rng → Option (Bool × Rng)
  | 0, rng => some (true, rng)
  | rounds + 1, rng => do
    let (a, rng) ← randomBase candidate rng
    let x := B.montyPow candidate a d
    if x ≠ 1 ∧ x ≠ wrappingSub 1024 candidate 1 ∧ !squaringLoop B candidate (s - 1) x then
      some (false, rng)
    else millerRabinLoop B candidate s d rounds rng

/-- Miller-Rabin with random bases, or nothing when no base could be drawn. -/
def isProbablePrime (B : BigUint) (candidate : Nat) (rng : Rng) : Option (Bool × Rng) := do
  let cMinus1 := wrappingSub 1024 candidate 1
  let s := trailingZeros 1024 cMinus1
  if s = 0 then some (false, rng)
  else
    let odd ← oddNew candidate
    millerRabinLoop B odd s (cMinus1 >>> s) millerRabinRounds rng

/-- The two top bits and the low bit of a candidate are set. -/
def shapeCandidate (raw : FixedBytes rsa1024Bytes) : FixedBytes rsa1024Bytes :=
  ⟨(raw.val.modify 0 (· ||| 0xC0)).modify (rsa1024Bytes - 1) (· ||| 0x01), by
    rw [List.length_modify, List.length_modify, raw.property]⟩

def generatePrimeLoop (B : BigUint) : Nat → Rng → Option (FixedBytes rsa1024Bytes × Rng)
  | 0, _ => none
  | attempts + 1, rng => do
    let (raw, rng) := fillBytes rsa1024Bytes rng
    let bytes := shapeCandidate raw
    let candidate := ofBE bytes.val
    let divisionOk ← trialDivisionOk candidate smallPrimes
    if !divisionOk then generatePrimeLoop B attempts rng
    else
      let (prime, rng) ← isProbablePrime B candidate rng
      if prime then some (bytes, rng) else generatePrimeLoop B attempts rng

def generatePrime (B : BigUint) (rng : Rng) : Option (FixedBytes rsa1024Bytes × Rng) :=
  generatePrimeLoop B primeCandidateAttempts rng

/-! ## Key generation -/

/-- A number as an array of `w` bytes, most significant first (`to_be_bytes`). -/
def toBeBytes (w n : Nat) : FixedBytes w := ⟨toBE w n, length_toBE w n⟩

/-- The private key of two primes: the end of an attempt of `generate_key`. -/
def keyOfPrimes (B : BigUint) (pBytes qBytes : FixedBytes rsa1024Bytes) :
    Option Rsa2048PrivateKey := do
  let p := ofBE pBytes.val
  let q := ofBE qBytes.val
  let n := p * q % 2 ^ 2048
  let pMinus1 := wrappingSub 1024 p 1
  let qMinus1 := wrappingSub 1024 q 1
  let phi ← nonZeroNew (pMinus1 * qMinus1 % 2 ^ 2048)
  let d ← B.invertMod rsaPublicExponent.toNat phi
  let p1 ← nonZeroNew pMinus1
  let q1 ← nonZeroNew qMinus1
  let dp := d % p1 % 2 ^ 1024
  let dq := d % q1 % 2 ^ 1024
  let pOdd ← oddNew p
  let qinv ← B.invertOddMod q pOdd
  some {
    n := toBeBytes _ n, e := rsaPublicExponent, d := toBeBytes _ d, p := pBytes, q := qBytes,
    dp := toBeBytes _ dp, dq := toBeBytes _ dq, qinv := toBeBytes _ qinv }

/-- Whether two candidates are taken: they differ, their product has 2048 bits and the public
  exponent is coprime to both predecessors. -/
def primesUsable (B : BigUint) (pBytes qBytes : FixedBytes rsa1024Bytes) : Bool :=
  let p := ofBE pBytes.val
  let q := ofBE qBytes.val
  pBytes ≠ qBytes ∧ bits (p * q % 2 ^ 2048) = 2048 ∧
    B.gcd rsaPublicExponent.toNat (wrappingSub 1024 p 1) = 1 ∧
    B.gcd rsaPublicExponent.toNat (wrappingSub 1024 q 1) = 1

def generateKeyLoop (B : BigUint) : Nat → Rng → Option Rsa2048PrivateKey
  | 0, _ => none
  | attempts + 1, rng => do
    let (pBytes, rng) ← generatePrime B rng
    let (qBytes, rng) ← generatePrime B rng
    if primesUsable B pBytes qBytes then keyOfPrimes B pBytes qBytes
    else generateKeyLoop B attempts rng

/-- Generate an RSA-2048 key pair, or nothing when the generator keeps giving unusable
  candidates. -/
def generateKey (B : BigUint) (rng : Rng) : Option Rsa2048PrivateKey :=
  generateKeyLoop B keygenAttempts rng

/-! ## The private operation -/

/-- Sample `r` in `[1, n)` coprime to `n`, in at most `tries` draws. -/
def randomCoprime (B : BigUint) (n : Nat) : Nat → Rng → Option Nat
  | 0, _ => none
  | tries + 1, rng =>
    let (bytes, rng) := fillBytes rsa2048Bytes rng
    let r := ofBE bytes.val
    if r = 0 ∨ n ≤ r then randomCoprime B n tries rng
    else if B.gcd r n ≠ 1 then randomCoprime B n tries rng
    else some r

/-- The CRT part of the private operation: the halves modulo `p` and `q`, put together by
  Garner's formula. -/
def crtPower (B : BigUint) (key : Rsa2048PrivateKey) (blinded : Nat) : Option Nat := do
  let p ← oddNew (ofBE key.p.val)
  let q ← oddNew (ofBE key.q.val)
  let pWide ← nonZeroNew p
  let qWide ← nonZeroNew q
  let blindedP := blinded % pWide % 2 ^ 1024
  let blindedQ := blinded % qWide % 2 ^ 1024
  let m1 := B.montyPow p blindedP (ofBE key.dp.val)
  let m2 := B.montyPow q blindedQ (ofBE key.dq.val)
  let diff := subMod 1024 m1 m2 p
  let h := B.mulMod diff (ofBE key.qinv.val) p
  some ((m2 + h * q % 2 ^ 2048) % 2 ^ 2048)

/-- The raw private operation, blinded with a fresh `r`. -/
def applyPrivate (B : BigUint) (key : Rsa2048PrivateKey) (base : FixedBytes rsa2048Bytes)
    (rng : Rng) : Option (FixedBytes rsa2048Bytes) := do
  if key.e < 3 ∨ key.e &&& 1 = 0 then none
  else
    let n ← oddNew (ofBE key.n.val)
    let c := ofBE base.val
    if n ≤ c then none
    else
      let r ← randomCoprime B n 64 rng
      let e := key.e.toNat
      let rEnc := B.montyPow n r (e % 2 ^ bits e)
      let blinded := B.montyMul n c rEnc
      let mBlinded ← crtPower B key blinded
      let rInv ← B.invertOddMod r n
      some (toBeBytes _ (B.montyMul n mBlinded rInv))

/-! ## Message encoding -/

/-- A DER header: tag, where the value starts, its length and where it ends. -/
structure TlvHeader where
  tag : UInt8
  value : Nat
  len : Nat
  stop : Nat
deriving DecidableEq

/-- Parse one DER tag and definite length at `offset`. -/
def readTlvHeader (bytes : List UInt8) (offset : Nat) : Option TlvHeader := do
  let tag ← bytes[offset]?
  let first ← bytes[offset + 1]?
  let (len, headerLen) ←
    if first < 0x80 then some (first.toNat, 2)
    else if first = 0x81 then bytes[offset + 2]?.map fun len => (len.toNat, 3)
    else if first = 0x82 then
      bytes[offset + 2]?.bind fun hi => bytes[offset + 3]?.map fun lo => (ofBE [hi, lo], 4)
    else none
  let value := offset + headerLen
  let stop := value + len
  if bytes.length < stop then none else some { tag, value, len, stop }

/-- Whether the bytes are `SEQUENCE { SEQUENCE { OID, NULL }, OCTET STRING }` with lengths that fit
  exactly. -/
def isDigestinfo (info : List UInt8) : Bool :=
  let checked : Option Bool := do
    let outer ← readTlvHeader info 0
    if outer.tag ≠ 0x30 ∨ outer.stop ≠ info.length then none
    let inner ← readTlvHeader info outer.value
    if inner.tag ≠ 0x30 then none
    let oid ← readTlvHeader info inner.value
    if oid.tag ≠ 0x06 ∨ oid.len = 0 ∨ 16 < oid.len then none
    if (info.drop oid.stop).take 2 ≠ [0x05, 0x00] then none
    let cursor := oid.stop + 2
    if cursor ≠ inner.stop then none
    let hash ← readTlvHeader info cursor
    if hash.tag ≠ 0x04 ∨ hash.len < 20 ∨ 64 < hash.len then none
    some (hash.stop = outer.stop)
  checked.getD false

/-- `00 || 01 || PS || 00 || der || hash`, when the padding has at least eight bytes. -/
def emsaPkcs1V15Encode (der hash : List UInt8) : Option (FixedBytes rsa2048Bytes) :=
  let tLen := der.length + hash.length
  let psLen := rsa2048Bytes - tLen - 3
  if h : rsa2048Bytes < tLen + 11 ∨ psLen < 8 then none
  else some ⟨[0x00, 0x01] ++ List.replicate psLen 0xFF ++ [0x00] ++ der ++ hash, by
    simp only [List.length_append, List.length_replicate, List.length_cons, List.length_nil]
    omega⟩

/-- Encode a DER `DigestInfo` for signing. -/
def emsaEncodeDigestinfo (info : List UInt8) : Option (FixedBytes rsa2048Bytes) :=
  if isDigestinfo info then emsaPkcs1V15Encode [] info else none

end AegisToken
