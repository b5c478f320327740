/-
  When the private operation of RSA-2048 is right.
  A generated key satisfies the CRT equations (`CrtEquations`), and `apply_private` computes the
  halves `m₁`, `m₂` of the blinded power from them correctly. The recombination takes `m₁ - m₂`
  with one correction by `p`, and `generate_key` does not order the primes: when `q` is the larger
  one, `m₂` can exceed `m₁ + p` and the difference wraps around at 2^1024.
-/
import Mathlib.Tactic.NormNum.Prime
import AegisToken.Applets.Rsa

namespace AegisToken
open ByteCodec ModArith

/-! ## Numbers in bytes -/

theorem two_pow_eight_mul (w : Nat) : 2 ^ (8 * w) = 256 ^ w := by rw [pow_mul]; norm_num

theorem ofBE_toBeBytes {w n : Nat} (h : n < 2 ^ (8 * w)) : ofBE (toBeBytes w n).val = n :=
  ofBE_toBE (by rwa [← two_pow_eight_mul])

theorem FixedBytes.ofBE_lt {w : Nat} (bs : FixedBytes w) : ofBE bs.val < 2 ^ (8 * w) := by
  have h := ByteCodec.ofBE_lt bs.val
  rwa [bs.property, ← two_pow_eight_mul] at h

theorem ofBE_modulusBytes {n : Nat} (h : n < 2 ^ 2048) :
    ofBE (toBeBytes rsa2048Bytes n).val = n :=
  ofBE_toBeBytes (by rwa [show 8 * rsa2048Bytes = 2048 from rfl])

theorem ofBE_factorBytes {n : Nat} (h : n < 2 ^ 1024) :
    ofBE (toBeBytes rsa1024Bytes n).val = n :=
  ofBE_toBeBytes (by rwa [show 8 * rsa1024Bytes = 1024 from rfl])

theorem factor_lt (bs : FixedBytes rsa1024Bytes) : ofBE bs.val < 2 ^ 1024 := by
  have h := FixedBytes.ofBE_lt bs
  rwa [show 8 * rsa1024Bytes = 1024 from rfl] at h

theorem toBeBytes_ofBE {w : Nat} (bs : FixedBytes w) : toBeBytes w (ofBE bs.val) = bs := by
  apply Subtype.ext
  have h := toBE_ofBE bs.val
  rwa [bs.property] at h

theorem wrappingSub_one {w n : Nat} (h : 0 < n) (hn : n < 2 ^ w) : wrappingSub w n 1 = n - 1 := by
  have ha : n + 2 ^ w - 1 = (n - 1) + 2 ^ w := by omega
  rw [wrappingSub, ha, Nat.add_mod_right, Nat.mod_eq_of_lt (by omega)]

theorem mul_lt_double {a b : Nat} (ha : a < 2 ^ 1024) (hb : b < 2 ^ 1024) : a * b < 2 ^ 2048 := by
  have hp : 2 ^ 2048 = 2 ^ 1024 * 2 ^ 1024 := by rw [← pow_add]
  rw [hp]
  exact Nat.mul_lt_mul'' ha hb

/-! ## Prime candidates -/

/-- A number of 1024 bits with the two top bits and the low bit set. -/
structure CandidateShape (bytes : FixedBytes rsa1024Bytes) : Prop where
  large : 3 * 2 ^ 1022 ≤ ofBE bytes.val
  odd : ofBE bytes.val % 2 = 1

theorem CandidateShape.two_lt {bytes : FixedBytes rsa1024Bytes} (h : CandidateShape bytes) :
    2 < ofBE bytes.val := by
  have hl := h.large
  have hp := Nat.two_pow_pos 1022
  omega

theorem shapeCandidate_shape (raw : FixedBytes rsa1024Bytes) :
    CandidateShape (shapeCandidate raw) := by
  have hl : (shapeCandidate raw).val.length = 127 + 1 := (shapeCandidate raw).property
  have hr : raw.val.length = 128 := raw.property
  constructor
  · have hfr : 192 ≤ ((shapeCandidate raw).val[0]).toNat := by
      have hv : (shapeCandidate raw).val[0] = raw.val[0] ||| 0xC0 := by
        simp [shapeCandidate, rsa1024Bytes]
      rw [hv]
      exact Nat.right_le_or
    have h := head_mul_le_ofBE hl
    have hp : 2 ^ 1022 = 256 ^ 127 * 64 := by
      rw [pow_add 2 1016 6, pow_mul 2 8 127]
      norm_num
    omega
  · have hls : (shapeCandidate raw).val[127] = raw.val[127] ||| 0x01 := by
      simp [shapeCandidate, rsa1024Bytes]
    rw [ofBE_mod_two hl, hls, UInt8.toNat_or, Nat.or_mod_two_eq_one]
    exact .inr rfl

theorem generatePrimeLoop_shape {B : BigUint} {attempts : Nat} {rng rest : Rng}
    {bytes : FixedBytes rsa1024Bytes}
    (h : generatePrimeLoop B attempts rng = some (bytes, rest)) : CandidateShape bytes := by
  induction attempts generalizing rng with
  | zero => cases h
  | succ attempts ih =>
    simp only [generatePrimeLoop, Option.bind_eq_bind, Option.bind_eq_some_iff] at h
    obtain ⟨ok, -, h⟩ := h
    split at h
    · exact ih h
    obtain ⟨⟨prime, next⟩, -, h⟩ := Option.bind_eq_some_iff.mp h
    split at h
    · cases h
      exact shapeCandidate_shape _
    · exact ih h

theorem generatePrime_shape {B : BigUint} {rng rest : Rng} {bytes : FixedBytes rsa1024Bytes}
    (h : generatePrime B rng = some (bytes, rest)) : CandidateShape bytes := by
  exact generatePrimeLoop_shape h

/-! ## The equations of a key -/

namespace Rsa2048PrivateKey

def modulus (k : Rsa2048PrivateKey) : Nat := ofBE k.n.val
def exponent (k : Rsa2048PrivateKey) : Nat := k.e.toNat
def privateExponent (k : Rsa2048PrivateKey) : Nat := ofBE k.d.val
def factorP (k : Rsa2048PrivateKey) : Nat := ofBE k.p.val
def factorQ (k : Rsa2048PrivateKey) : Nat := ofBE k.q.val

/-- What the components of a generated key have to do with each other. -/
structure CrtEquations (k : Rsa2048PrivateKey) : Prop where
  modulus_eq : k.modulus = k.factorP * k.factorQ
  factors_ne : k.factorP ≠ k.factorQ
  shapeP : CandidateShape k.p
  shapeQ : CandidateShape k.q
  exponent_eq : k.e = rsaPublicExponent
  inverse : k.exponent * k.privateExponent ≡ 1 [MOD (k.factorP - 1) * (k.factorQ - 1)]
  dp_eq : ofBE k.dp.val = k.privateExponent % (k.factorP - 1)
  dq_eq : ofBE k.dq.val = k.privateExponent % (k.factorQ - 1)
  qinv_eq : k.factorQ * ofBE k.qinv.val ≡ 1 [MOD k.factorP]

end Rsa2048PrivateKey
open Rsa2048PrivateKey

theorem keyOfPrimes_equations {B : BigUint} {pBytes qBytes : FixedBytes rsa1024Bytes}
    {k : Rsa2048PrivateKey} (hp : CandidateShape pBytes) (hq : CandidateShape qBytes)
    (hne : pBytes ≠ qBytes) (h : keyOfPrimes B pBytes qBytes = some k) : CrtEquations k := by
  have hl := factor_lt pBytes
  have ht := factor_lt qBytes
  simp only [keyOfPrimes, Option.bind_eq_bind, Option.bind_eq_some_iff, nonZeroNew_eq_some,
    oddNew_eq_some] at h
  set p := ofBE pBytes.val with hpd
  set q := ofBE qBytes.val with hqd
  have hps : 2 < p := hp.two_lt
  have hqp : 2 < q := hq.two_lt
  rw [wrappingSub_one (by omega) hl, wrappingSub_one (by omega) ht] at h
  have hp1 : p - 1 < 2 ^ 1024 := Nat.lt_of_le_of_lt (Nat.sub_le p 1) hl
  have hq1 : q - 1 < 2 ^ 1024 := Nat.lt_of_le_of_lt (Nat.sub_le q 1) ht
  rw [Nat.mod_eq_of_lt (mul_lt_double hl ht), Nat.mod_eq_of_lt (mul_lt_double hp1 hq1)] at h
  obtain ⟨phi, ⟨-, rfl⟩, d, hd, p1, ⟨-, rfl⟩, q1, ⟨-, rfl⟩, pOdd, ⟨-, rfl⟩, qinv, hqn, h⟩ := h
  cases h
  have hh : 1 < (p - 1) * (q - 1) :=
    Nat.lt_of_lt_of_le (show 1 < 2 * 2 by decide) (Nat.mul_le_mul (by omega) (by omega))
  obtain ⟨hdl, hi⟩ := B.invertMod_spec hh hd
  obtain ⟨hn, hqn⟩ := B.invertOddMod_spec hp.odd (by omega) hqn
  have hdv : ofBE (toBeBytes rsa2048Bytes d).val = d :=
    ofBE_modulusBytes (hdl.trans (mul_lt_double hp1 hq1))
  have hqv : ofBE (toBeBytes rsa1024Bytes qinv).val = qinv :=
    ofBE_factorBytes (hn.trans hl)
  have hdp : d % (p - 1) < 2 ^ 1024 := (Nat.mod_lt _ (by omega)).trans hp1
  have hdq : d % (q - 1) < 2 ^ 1024 := (Nat.mod_lt _ (by omega)).trans hq1
  exact {
    modulus_eq := ofBE_modulusBytes (mul_lt_double hl ht)
    factors_ne := by
      intro heq
      apply hne
      rw [← toBeBytes_ofBE pBytes, ← toBeBytes_ofBE qBytes]
      exact congrArg _ heq
    shapeP := hp
    shapeQ := hq
    exponent_eq := rfl
    inverse := by
      show _ * ofBE (toBeBytes rsa2048Bytes d).val ≡ 1 [MOD _]
      rw [hdv]
      exact hi
    dp_eq := by
      show ofBE (toBeBytes rsa1024Bytes _).val = ofBE (toBeBytes rsa2048Bytes d).val % _
      rw [hdv, Nat.mod_eq_of_lt hdp]
      exact ofBE_factorBytes hdp
    dq_eq := by
      show ofBE (toBeBytes rsa1024Bytes _).val = ofBE (toBeBytes rsa2048Bytes d).val % _
      rw [hdv, Nat.mod_eq_of_lt hdq]
      exact ofBE_factorBytes hdq
    qinv_eq := by
      rw [hqv]
      exact hqn }

theorem generateKeyLoop_equations {B : BigUint} {attempts : Nat} {rng : Rng}
    {k : Rsa2048PrivateKey} (h : generateKeyLoop B attempts rng = some k) : CrtEquations k := by
  induction attempts generalizing rng with
  | zero => cases h
  | succ attempts ih =>
    simp only [generateKeyLoop, Option.bind_eq_bind, Option.bind_eq_some_iff] at h
    obtain ⟨⟨pBytes, rng₁⟩, hp, ⟨qBytes, rng₂⟩, hq, h⟩ := h
    split at h
    · rename_i hu
      have hne : pBytes ≠ qBytes := by
        simp only [primesUsable, decide_eq_true_eq] at hu
        exact hu.1
      exact keyOfPrimes_equations (generatePrime_shape hp) (generatePrime_shape hq) hne h
    · exact ih h

theorem generateKey_equations {B : BigUint} {rng : Rng} {k : Rsa2048PrivateKey}
    (h : generateKey B rng = some k) : CrtEquations k := by
  exact generateKeyLoop_equations h

/-! ## Blobs -/

namespace Rsa2048PrivateKey

/-- A field that starts behind the first one is a field of what follows. -/
theorem blobField_skip {w start len : Nat} (field : FixedBytes w) (tail : List UInt8)
    (h : w ≤ start) : blobField (field.val ++ tail) start len = blobField tail (start - w) len := by
  rw [blobField, blobField, List.drop_append, List.drop_of_length_le (field.property.le.trans h),
    field.property, List.nil_append]

theorem blobField_head {len : Nat} (field : FixedBytes len) (tail : List UInt8) :
    blobField (field.val ++ tail) 0 len = field := by
  refine Subtype.ext ?_
  change (field.val ++ tail).take len ++ List.replicate (len - (field.val ++ tail).length) 0 = _
  rw [List.take_left' field.property, List.length_append, field.property,
    Nat.sub_eq_zero_of_le (Nat.le_add_right _ _), List.replicate_zero, List.append_nil]

theorem fields_toBlob (key : Rsa2048PrivateKey) :
    key.toBlob.length = rsaBlobBytes ∧ blobField key.toBlob 0 rsa2048Bytes = key.n ∧
      blobField key.toBlob 256 rsa2048Bytes = key.d ∧ blobField key.toBlob 512 rsa1024Bytes = key.p ∧
      blobField key.toBlob 640 rsa1024Bytes = key.q ∧ blobField key.toBlob 768 rsa1024Bytes = key.dp ∧
      blobField key.toBlob 896 rsa1024Bytes = key.dq ∧
      blobField key.toBlob 1024 rsa1024Bytes = key.qinv ∧
      key.toBlob.drop 1152 = toBE 4 key.e.toNat := by
  obtain ⟨n, e, d, p, q, dp, dq, qinv⟩ := key
  have hf : (n.val ++ d.val ++ p.val ++ q.val ++ dp.val ++ dq.val ++ qinv.val).length = 1152 := by
    simp only [List.length_append, n.property, d.property, p.property, q.property, dp.property,
      dq.property, qinv.property, rsa2048Bytes, rsa1024Bytes]
  refine ⟨?_, ?_, ?_, ?_, ?_, ?_, ?_, ?_, List.drop_left' hf⟩
  · rw [toBlob, List.length_append, hf]
    rfl
  -- The fields before the one that is asked for are skipped.
  all_goals
    simp (disch := decide) only [toBlob, List.append_assoc, rsa2048Bytes, rsa1024Bytes,
      blobField_skip, Nat.reduceSub]
    exact blobField_head _ _

theorem ofBE_zero (w : Nat) : ofBE (FixedBytes.zero w).val = 0 := by
  have h := ofBE_replicate_append w []
  rwa [List.append_nil] at h

/-- The blob of a key with the CRT equations is read back. -/
theorem fromBlob_toBlob {key : Rsa2048PrivateKey} (h : CrtEquations key) :
    fromBlob key.toBlob = some key := by
  obtain ⟨hl, hn, hd, hp, hq, hdp, hdq, hqn, he⟩ := fields_toBlob key
  have hx : UInt32.ofNat (ofBE ((key.toBlob.drop 1152).take 4)) = key.e := by
    rw [he, List.take_of_length_le (by rw [length_toBE]), ofBE_toBE, UInt32.ofNat_toNat]
    exact key.e.toNat_lt
  have ho : (oddNew (ofBE key.n.val)).isNone = false := by
    have hm : ofBE key.n.val % 2 = 1 := by
      rw [show ofBE key.n.val = _ from h.modulus_eq, Nat.mul_mod]
      rw [show key.factorP % 2 = 1 from h.shapeP.odd, show key.factorQ % 2 = 1 from h.shapeQ.odd]
    rw [oddNew_eq_some.mpr ⟨hm, rfl⟩]
    rfl
  have hf : ∀ {bytes : FixedBytes rsa1024Bytes}, CandidateShape bytes →
      bytes ≠ FixedBytes.zero _ := by
    rintro _ hsh rfl
    have := hsh.two_lt
    rw [ofBE_zero] at this
    omega
  unfold fromBlob
  rw [if_neg (not_not.mpr hl)]
  rw [hn, hd, hp, hq, hdp, hdq, hqn, hx, h.exponent_eq, if_neg nofun, ho,
    if_neg nofun, if_neg (not_or.mpr ⟨hf h.shapeP, hf h.shapeQ⟩), ← h.exponent_eq]

end Rsa2048PrivateKey

/-! ## Powers modulo the two primes -/

/-- A key that satisfies the CRT equations for two primes. -/
structure PrimeKey (k : Rsa2048PrivateKey) : Prop extends CrtEquations k where
  primeP : k.factorP.Prime
  primeQ : k.factorQ.Prime

namespace PrimeKey

variable {k : Rsa2048PrivateKey}

theorem inversesP (h : PrimeKey k) : Inverses k.factorP k.exponent k.privateExponent :=
  ⟨h.primeP, h.shapeP.two_lt, h.inverse.of_mul_right _⟩

theorem inversesQ (h : PrimeKey k) : Inverses k.factorQ k.exponent k.privateExponent :=
  ⟨h.primeQ, h.shapeQ.two_lt, h.inverse.of_mul_left _⟩

theorem modEq_modulus_iff (h : PrimeKey k) {x y : Nat} :
    x ≡ y [MOD k.modulus] ↔ x ≡ y [MOD k.factorP] ∧ x ≡ y [MOD k.factorQ] := by
  rw [h.modulus_eq]
  exact (Nat.modEq_and_modEq_iff_modEq_mul
    ((Nat.coprime_primes h.primeP h.primeQ).mpr h.factors_ne)).symm

theorem modulus_odd (h : PrimeKey k) : k.modulus % 2 = 1 := by
  rw [h.modulus_eq, Nat.mul_mod]
  have hp : k.factorP % 2 = 1 := h.shapeP.odd
  have hq : k.factorQ % 2 = 1 := h.shapeQ.odd
  rw [hp, hq]

theorem one_lt_modulus (h : PrimeKey k) : 1 < k.modulus := by
  have hp : 1 < k.factorP := h.primeP.one_lt
  have hq : 1 < k.factorQ := h.primeQ.one_lt
  rw [h.modulus_eq]
  exact Nat.lt_of_lt_of_le (show 1 < 2 * 2 by decide) (Nat.mul_le_mul hp hq)

/-- The public and the private power undo each other. -/
theorem pow_pow (h : PrimeKey k) (x : Nat) :
    (x ^ k.privateExponent) ^ k.exponent ≡ x [MOD k.modulus] :=
  h.modEq_modulus_iff.mpr ⟨h.inversesP.pow_pow x, h.inversesQ.pow_pow x⟩

/-- The public power determines its argument. -/
theorem modEq_of_pow (h : PrimeKey k) {x y : Nat}
    (hxy : x ^ k.exponent ≡ y ^ k.exponent [MOD k.modulus]) : x ≡ y [MOD k.modulus] := by
  obtain ⟨hp, hq⟩ := h.modEq_modulus_iff.mp hxy
  exact h.modEq_modulus_iff.mpr ⟨h.inversesP.modEq_of_pow hp, h.inversesQ.modEq_of_pow hq⟩

end PrimeKey

namespace Rsa2048PrivateKey

/-- `s` is the root of `b`: its public power is `b`. -/
def IsRoot (k : Rsa2048PrivateKey) (b s : FixedBytes rsa2048Bytes) : Prop :=
  ofBE s.val ^ k.exponent % k.modulus = ofBE b.val

/-- Garner's formula with the difference of the source. -/
def garner (k : Rsa2048PrivateKey) (m₁ m₂ : Nat) : Nat :=
  m₂ + subMod 1024 m₁ m₂ k.factorP * ofBE k.qinv.val % k.factorP * k.factorQ

end Rsa2048PrivateKey

namespace PrimeKey

variable {k : Rsa2048PrivateKey}

theorem garner_lt (h : PrimeKey k) {m₁ m₂ : Nat} (hm : m₂ < k.factorQ) :
    k.garner m₁ m₂ < k.modulus := by
  rw [h.modulus_eq]
  exact ModArith.garner_lt hm (Nat.mod_lt _ h.primeP.pos)

theorem garner_modEq_right (m₁ m₂ : Nat) : k.garner m₁ m₂ ≡ m₂ [MOD k.factorQ] :=
  ModArith.garner_modEq_right _ _ _

/-- The formula hits the first residue exactly when one correction by `p` is enough. -/
theorem garner_modEq_left_iff (h : PrimeKey k) {m₁ m₂ : Nat} (hm : m₂ < k.factorQ) :
    k.garner m₁ m₂ ≡ m₁ [MOD k.factorP] ↔ m₂ ≤ m₁ + k.factorP := by
  have hst : k.garner m₁ m₂ ≡ m₂ + subMod 1024 m₁ m₂ k.factorP [MOD k.factorP] :=
    ModArith.garner_modEq_left h.qinv_eq _ _
  rw [← add_subMod_modEq_iff h.primeP h.shapeP.two_lt (factor_lt k.p) (hm.trans (factor_lt k.q))]
  exact ⟨hst.symm.trans, hst.trans⟩

theorem isRoot_iff (h : PrimeKey k) {b s : FixedBytes rsa2048Bytes}
    (hb : ofBE b.val < k.modulus) :
    k.IsRoot b s ↔ ofBE s.val ≡ ofBE b.val ^ k.privateExponent [MOD k.modulus] := by
  unfold Rsa2048PrivateKey.IsRoot
  constructor
  · intro hrt
    apply h.modEq_of_pow
    calc ofBE s.val ^ k.exponent ≡ ofBE b.val [MOD k.modulus] := by
          rw [Nat.ModEq, hrt, Nat.mod_eq_of_lt hb]
      _ ≡ (ofBE b.val ^ k.privateExponent) ^ k.exponent [MOD k.modulus] := (h.pow_pow _).symm
  · intro hm
    have hp : ofBE s.val ^ k.exponent ≡ ofBE b.val [MOD k.modulus] :=
      (hm.pow k.exponent).trans (h.pow_pow _)
    rw [hp, Nat.mod_eq_of_lt hb]

/-- One half of the operation: the reduced exponent gives the residue of the private power. -/
theorem half_eq {p dp : Nat} (B : BigUint) (h : Inverses p k.exponent k.privateExponent)
    (ho : p % 2 = 1) (hlt : p < 2 ^ 1024) (hdp : dp = k.privateExponent % (p - 1)) (x : Nat) :
    B.montyPow p (x % p % 2 ^ 1024) dp = x ^ k.privateExponent % p := by
  rw [Nat.mod_eq_of_lt ((Nat.mod_lt x h.prime.pos).trans hlt), B.montyPow_eq _ _ ho,
    ← Nat.pow_mod, hdp]
  exact h.pow_reduced x

theorem crtPower_eq (h : PrimeKey k) (B : BigUint) (x : Nat) :
    crtPower B k x =
      some (k.garner (x ^ k.privateExponent % k.factorP) (x ^ k.privateExponent % k.factorQ)) := by
  have hm1 := half_eq B h.inversesP h.shapeP.odd (factor_lt k.p) h.dp_eq x
  have hm2 := half_eq B h.inversesQ h.shapeQ.odd (factor_lt k.q) h.dq_eq x
  have hlt : k.garner (x ^ k.privateExponent % k.factorP) (x ^ k.privateExponent % k.factorQ) <
      2 ^ 2048 := by
    refine (h.garner_lt (Nat.mod_lt _ h.primeQ.pos)).trans ?_
    rw [h.modulus_eq]
    exact mul_lt_double (factor_lt k.p) (factor_lt k.q)
  unfold Rsa2048PrivateKey.garner at hlt ⊢
  unfold crtPower
  have hp : oddNew (ofBE k.p.val) = some k.factorP := oddNew_eq_some.mpr ⟨h.shapeP.odd, rfl⟩
  have hq : oddNew (ofBE k.q.val) = some k.factorQ := oddNew_eq_some.mpr ⟨h.shapeQ.odd, rfl⟩
  have hp0 : nonZeroNew k.factorP = some k.factorP :=
    nonZeroNew_eq_some.mpr ⟨h.primeP.ne_zero, rfl⟩
  have hq0 : nonZeroNew k.factorQ = some k.factorQ :=
    nonZeroNew_eq_some.mpr ⟨h.primeQ.ne_zero, rfl⟩
  simp only [hp, hq, hp0, hq0, hm1, hm2, Option.bind_eq_bind, Option.bind_some,
    B.mulMod_eq _ _ h.primeP.pos]
  rw [Nat.mod_eq_of_lt (Nat.lt_of_le_of_lt (Nat.le_add_left _ _) hlt), Nat.mod_eq_of_lt hlt]

/-- The private power of the blinded block is the private power of the block times `r`. -/
theorem pow_blinded (h : PrimeKey k) (c r : Nat) :
    (c * (r ^ k.exponent % k.modulus) % k.modulus) ^ k.privateExponent ≡
      c ^ k.privateExponent * r [MOD k.modulus] := by
  have hr : (r ^ k.exponent) ^ k.privateExponent ≡ r [MOD k.modulus] := by
    rw [← pow_mul, Nat.mul_comm, pow_mul]
    exact h.pow_pow r
  calc (c * (r ^ k.exponent % k.modulus) % k.modulus) ^ k.privateExponent
      ≡ (c * r ^ k.exponent) ^ k.privateExponent [MOD k.modulus] :=
        ((Nat.mod_modEq _ _).trans ((Nat.mod_modEq _ _).mul_left c)).pow _
    _ = c ^ k.privateExponent * (r ^ k.exponent) ^ k.privateExponent := mul_pow _ _ _
    _ ≡ c ^ k.privateExponent * r [MOD k.modulus] := hr.mul_left _

/-- The steps of the private operation on numbers: with the blinding factor `r` and its inverse,
  Garner's formula is applied to the residues of the blinded power. -/
theorem applyPrivate_eq (h : PrimeKey k) (B : BigUint) (b : FixedBytes rsa2048Bytes) (rng : Rng) :
    applyPrivate B k b rng = if k.modulus ≤ ofBE b.val then none
      else (randomCoprime B k.modulus 64 rng).bind fun r =>
        (B.invertOddMod r k.modulus).map fun rInv =>
          let m := ofBE b.val ^ k.privateExponent * r
          toBeBytes _ (k.garner (m % k.factorP) (m % k.factorQ) * rInv % k.modulus) := by
  have hn := h.modulus_odd
  have ho : oddNew (ofBE k.n.val) = some k.modulus := oddNew_eq_some.mpr ⟨hn, rfl⟩
  have he : ¬ (k.e < 3 ∨ k.e &&& 1 = 0) := by rw [h.exponent_eq]; decide
  have hbt : k.e.toNat % 2 ^ bits k.e.toNat = k.exponent := by
    unfold Rsa2048PrivateKey.exponent
    rw [h.exponent_eq]
    decide
  unfold applyPrivate
  rw [if_neg he, ho]
  simp only [Option.bind_eq_bind, Option.bind_some]
  split
  · rfl
  congr 1
  funext r
  obtain ⟨hp, hq⟩ := h.modEq_modulus_iff.mp (h.pow_blinded (ofBE b.val) r)
  rw [hbt, B.montyPow_eq _ _ hn, B.montyMul_eq _ _ hn, h.crtPower_eq B, hp, hq]
  simp only [Option.bind_some, B.montyMul_eq _ _ hn]
  cases B.invertOddMod r k.modulus <;> rfl

end PrimeKey

/-! ## The blinding factor -/

theorem randomCoprime_spec {B : BigUint} {n tries r : Nat} {rng : Rng}
    (h : randomCoprime B n tries rng = some r) : r.Coprime n := by
  induction tries generalizing rng with
  | zero => cases h
  | succ tries ih =>
    unfold randomCoprime at h
    simp only at h
    split at h
    · exact ih h
    split at h
    · exact ih h
    · rename_i hg
      rwa [B.gcd_eq, not_not, Option.some.inj h] at hg

/-- The generator whose first 256 bytes are the number 1. -/
def drawOne : Rng := fun i => if i = 255 then 1 else 0

theorem randomCoprime_drawOne (B : BigUint) {n : Nat} (tries : Nat) (hn : 1 < n) :
    randomCoprime B n (tries + 1) drawOne = some 1 := by
  have hv : ofBE (fillBytes rsa2048Bytes drawOne).1.val = 1 := by decide +kernel
  unfold randomCoprime
  simp only [hv, B.gcd_eq, Nat.gcd_one_left]
  rw [if_neg (by omega), if_neg (by simp)]

/-! ## When the operation is right -/

namespace Rsa2048PrivateKey

/-- The private power of the blinded block, before it is reduced. -/
def blindedRoot (k : Rsa2048PrivateKey) (b : FixedBytes rsa2048Bytes) (r : Nat) : Nat :=
  ofBE b.val ^ k.privateExponent * r

/-- The difference of the two halves lies above `-p`, so that adding `p` once is enough. -/
def DifferenceFits (k : Rsa2048PrivateKey) (b : FixedBytes rsa2048Bytes) (r : Nat) : Prop :=
  k.blindedRoot b r % k.factorQ ≤ k.blindedRoot b r % k.factorP + k.factorP

end Rsa2048PrivateKey

namespace PrimeKey

variable {k : Rsa2048PrivateKey} {B : BigUint} {b s : FixedBytes rsa2048Bytes} {rng : Rng}

theorem applyPrivate_cases (h : PrimeKey k) (hs : applyPrivate B k b rng = some s) :
    ∃ r rInv, randomCoprime B k.modulus 64 rng = some r ∧ r * rInv ≡ 1 [MOD k.modulus] ∧
      ofBE b.val < k.modulus ∧ ofBE s.val =
        k.garner (k.blindedRoot b r % k.factorP) (k.blindedRoot b r % k.factorQ) * rInv %
          k.modulus := by
  rw [h.applyPrivate_eq] at hs
  split at hs
  · cases hs
  rename_i hlt
  obtain ⟨r, hr, hs⟩ := Option.bind_eq_some_iff.mp hs
  obtain ⟨rInv, hi, hs⟩ := Option.map_eq_some_iff.mp hs
  have hsp := B.invertOddMod_spec h.modulus_odd h.one_lt_modulus hi
  refine ⟨r, rInv, hr, hsp.2, Nat.lt_of_not_le hlt, ?_⟩
  rw [← hs]
  apply ofBE_modulusBytes
  refine (Nat.mod_lt _ (Nat.lt_of_succ_lt h.one_lt_modulus)).trans ?_
  rw [h.modulus_eq]
  exact mul_lt_double (factor_lt k.p) (factor_lt k.q)

/-- Whatever the block and the blinding, the result is the root exactly when the difference of the
  halves fits. -/
theorem isRoot_iff_fits (h : PrimeKey k) {r : Nat} (hr : randomCoprime B k.modulus 64 rng = some r)
    (hs : applyPrivate B k b rng = some s) : k.IsRoot b s ↔ k.DifferenceFits b r := by
  obtain ⟨r', rInv, hr', hi, hb, hv⟩ := h.applyPrivate_cases hs
  obtain rfl : r = r' := Option.some.inj (hr.symm.trans hr')
  set m := k.blindedRoot b r with hm
  have hc : k.modulus.gcd r = 1 := by rw [Nat.gcd_comm]; exact randomCoprime_spec hr
  -- Blinding again gives the output of Garner's formula.
  have hu : ofBE s.val * r ≡ k.garner (m % k.factorP) (m % k.factorQ) [MOD k.modulus] := by
    rw [hv]
    calc k.garner (m % k.factorP) (m % k.factorQ) * rInv % k.modulus * r
        ≡ k.garner (m % k.factorP) (m % k.factorQ) * rInv * r [MOD k.modulus] :=
          (Nat.mod_modEq _ _).mul_right r
      _ = k.garner (m % k.factorP) (m % k.factorQ) * (r * rInv) := by ring
      _ ≡ k.garner (m % k.factorP) (m % k.factorQ) * 1 [MOD k.modulus] := hi.mul_left _
      _ = k.garner (m % k.factorP) (m % k.factorQ) := Nat.mul_one _
  have hrt : k.IsRoot b s ↔ ofBE s.val * r ≡ m [MOD k.modulus] := by
    rw [h.isRoot_iff hb]
    exact ⟨fun heq => heq.mul_right r, Nat.ModEq.cancel_right_of_coprime hc⟩
  have hg : ofBE s.val * r ≡ m [MOD k.modulus] ↔
      k.garner (m % k.factorP) (m % k.factorQ) ≡ m [MOD k.modulus] :=
    ⟨hu.symm.trans, hu.trans⟩
  have hq : k.garner (m % k.factorP) (m % k.factorQ) ≡ m [MOD k.factorQ] :=
    (garner_modEq_right _ _).trans (Nat.mod_modEq _ _)
  have hp : k.garner (m % k.factorP) (m % k.factorQ) ≡ m [MOD k.factorP] ↔
      k.garner (m % k.factorP) (m % k.factorQ) ≡ m % k.factorP [MOD k.factorP] :=
    ⟨fun heq => heq.trans (Nat.mod_modEq _ _).symm, fun heq => heq.trans (Nat.mod_modEq _ _)⟩
  rw [hrt, hg, h.modEq_modulus_iff, hp, h.garner_modEq_left_iff (Nat.mod_lt _ h.primeQ.pos)]
  exact and_iff_left hq

/-- A larger first prime leaves room for every difference. -/
theorem fits_of_lt (h : PrimeKey k) (hlt : k.factorQ < k.factorP) (b : FixedBytes rsa2048Bytes)
    (r : Nat) : k.DifferenceFits b r := by
  have := Nat.mod_lt (k.blindedRoot b r) h.primeQ.pos
  unfold Rsa2048PrivateKey.DifferenceFits
  omega

/-- With the larger prime second there are blocks the operation gets wrong. The one built here has
  a private power that is `0` modulo `p` and `-1` modulo `q`. -/
theorem exists_not_isRoot (h : PrimeKey k) (B : BigUint) (hlt : k.factorP < k.factorQ) :
    ∃ b rng s, applyPrivate B k b rng = some s ∧ ¬ k.IsRoot b s := by
  have hc := (Nat.coprime_primes h.primeP h.primeQ).mpr h.factors_ne
  obtain ⟨m, hmp, hmq⟩ := Nat.chineseRemainder hc 0 (k.factorQ - 1)
  have hps : 0 < k.modulus := Nat.lt_of_succ_lt h.one_lt_modulus
  have hbn : k.modulus < 2 ^ 2048 := by
    rw [h.modulus_eq]
    exact mul_lt_double (factor_lt k.p) (factor_lt k.q)
  set b := toBeBytes rsa2048Bytes (m ^ k.exponent % k.modulus) with hb
  have hbv : ofBE b.val = m ^ k.exponent % k.modulus :=
    ofBE_modulusBytes ((Nat.mod_lt _ hps).trans hbn)
  have hr : randomCoprime B k.modulus 64 drawOne = some 1 :=
    randomCoprime_drawOne B 63 h.one_lt_modulus
  obtain ⟨rInv, hi⟩ := Option.isSome_iff_exists.mp
    (B.invertOddMod_isSome h.modulus_odd (Nat.coprime_one_left k.modulus))
  obtain ⟨s, hs⟩ : ∃ s, applyPrivate B k b drawOne = some s := by
    rw [h.applyPrivate_eq, if_neg (by rw [hbv]; exact Nat.not_le.mpr (Nat.mod_lt _ hps)), hr,
      Option.bind_some, hi]
    exact ⟨_, rfl⟩
  refine ⟨b, drawOne, s, hs, ?_⟩
  rw [h.isRoot_iff_fits hr hs]
  have hrt : k.blindedRoot b 1 ≡ m [MOD k.modulus] := by
    unfold Rsa2048PrivateKey.blindedRoot
    rw [hbv, Nat.mul_one]
    have hw := ((Nat.mod_modEq (m ^ k.exponent) k.modulus).pow k.privateExponent)
    rw [← pow_mul m, Nat.mul_comm, pow_mul] at hw
    exact hw.trans (h.pow_pow m)
  obtain ⟨hrp, hrq⟩ := h.modEq_modulus_iff.mp hrt
  have hp0 : k.blindedRoot b 1 % k.factorP = 0 := by
    rw [hrp, hmp, Nat.zero_mod]
  have hq1 : k.blindedRoot b 1 % k.factorQ = k.factorQ - 1 := by
    rw [hrq, hmq, Nat.mod_eq_of_lt (Nat.sub_lt h.primeQ.pos Nat.one_pos)]
  have hpd : k.factorP % 2 = 1 := h.shapeP.odd
  have hqd : k.factorQ % 2 = 1 := h.shapeQ.odd
  unfold Rsa2048PrivateKey.DifferenceFits
  omega

end PrimeKey

namespace Rsa2048PrivateKey

/-- The private operation on a generated key, whatever the random numbers: the result is the root
  of the block exactly when the difference of the CRT halves fits, and a key gets every block
  right exactly when its second prime is the smaller one. -/
theorem applyPrivate_root_iff (B : BigUint) {rng : Rng} {k : Rsa2048PrivateKey}
    (hk : generateKey B rng = some k) (hp : k.factorP.Prime) (hq : k.factorQ.Prime) :
    (∀ b draw r s, randomCoprime B k.modulus 64 draw = some r →
      applyPrivate B k b draw = some s →
        (k.IsRoot b s ↔ k.DifferenceFits b r) ∧
        (k.IsRoot b s ↔ ofBE s.val = ofBE b.val ^ k.privateExponent % k.modulus)) ∧
    ((∀ b draw s, applyPrivate B k b draw = some s → k.IsRoot b s) ↔ k.factorQ < k.factorP) := by
  have h : PrimeKey k := ⟨generateKey_equations hk, hp, hq⟩
  refine ⟨?_, ?_⟩
  · intro b draw r s hr hs
    refine ⟨h.isRoot_iff_fits hr hs, ?_⟩
    obtain ⟨r', rInv, -, -, hb, hval⟩ := h.applyPrivate_cases hs
    have hslt : ofBE s.val < k.modulus := by
      rw [hval]
      exact Nat.mod_lt _ (Nat.lt_of_succ_lt h.one_lt_modulus)
    rw [h.isRoot_iff hb, Nat.ModEq, Nat.mod_eq_of_lt hslt]
  · constructor
    · intro hall
      by_contra hlt
      have hpq : k.factorP < k.factorQ :=
        Nat.lt_of_le_of_ne (Nat.le_of_not_lt hlt) h.factors_ne
      obtain ⟨b, draw, s, hs, hwrong⟩ := h.exists_not_isRoot B hpq
      exact hwrong (hall b draw s hs)
    · intro hlt b draw s hs
      obtain ⟨r, -, hr, -⟩ := h.applyPrivate_cases hs
      exact (h.isRoot_iff_fits hr hs).mpr (h.fits_of_lt hlt b r)

/-! Two primes near 2^1024, a generator that draws them in one or the other order, and the keys it
  leads to. The multi-precision primitives are computed with `powMod` and Euclid's algorithm. -/

def computedBigUint : BigUint where
  gcd := Nat.gcd
  invertMod := inverseMod
  invertOddMod := inverseMod
  montyPow := powMod
  montyMul m a b := a * b % m
  mulMod a b m := a * b % m
  squareMod a m := a * a % m
  gcd_eq _ _ := rfl
  invertMod_spec hm h := inverseMod_spec hm h
  invertOddMod_spec _ hm h := inverseMod_spec hm h
  invertOddMod_isSome hm h := inverseMod_isSome (by omega) h
  montyPow_eq _ _ _ := powMod_eq _ _ _
  montyMul_eq _ _ _ := rfl
  mulMod_eq _ _ _ := rfl
  squareMod_eq _ _ := rfl

def lowerPrime : Nat := 7161 * 2 ^ 1011 + 1
def upperPrime : Nat := 3931 * 2 ^ 1012 + 1

theorem lowerPrime_prime : lowerPrime.Prime := by
  apply prime_of_powers (a := 13) (k := 1011) [3, 7, 11, 31]
  · norm_num
  · decide +kernel
  · decide +kernel
  · decide +kernel

theorem upperPrime_prime : upperPrime.Prime := by
  apply prime_of_powers (a := 3) (k := 1012) [3931]
  · norm_num
  · decide +kernel
  · decide +kernel
  · decide +kernel

/-- Draw `p`, then `p - 1` as the base of each Miller-Rabin round, and the same for `q`. -/
def drawPrimes (p q : Nat) : Rng := fun i =>
  let block := i / 128
  let value := if block = 0 then p else if block ≤ 12 then p - 1 else if block = 13 then q else q - 1
  UInt8.ofNat (value >>> (8 * (127 - i % 128)))

def keyOf (p q : Nat) : Rsa2048PrivateKey :=
  let d := (inverseMod 65537 ((p - 1) * (q - 1))).getD 0
  { n := toBeBytes _ (p * q), e := rsaPublicExponent, d := toBeBytes _ d, p := toBeBytes _ p,
    q := toBeBytes _ q, dp := toBeBytes _ (d % (p - 1)), dq := toBeBytes _ (d % (q - 1)),
    qinv := toBeBytes _ ((inverseMod q p).getD 0) }

theorem generateKey_drawPrimes :
    generateKey computedBigUint (drawPrimes upperPrime lowerPrime) =
        some (keyOf upperPrime lowerPrime) ∧
      generateKey computedBigUint (drawPrimes lowerPrime upperPrime) =
        some (keyOf lowerPrime upperPrime) := by
  decide +kernel

theorem factorP_keyOf {p : Nat} (h : p < 2 ^ 1024) (q : Nat) : (keyOf p q).factorP = p :=
  ofBE_factorBytes h

theorem factorQ_keyOf (p : Nat) {q : Nat} (h : q < 2 ^ 1024) : (keyOf p q).factorQ = q :=
  ofBE_factorBytes h

theorem lowerPrime_lt : lowerPrime < 2 ^ 1024 := by
  rw [lowerPrime, pow_add 2 1011 13]
  have hp := Nat.two_pow_pos 1011
  omega

theorem upperPrime_lt : upperPrime < 2 ^ 1024 := by
  rw [upperPrime, pow_add 2 1012 12]
  have hp := Nat.two_pow_pos 1012
  omega

/-- The key drawn with the larger prime first gets every block right. -/
theorem applyPrivate_root_upper_lower :
    generateKey computedBigUint (drawPrimes upperPrime lowerPrime) =
        some (keyOf upperPrime lowerPrime) ∧
      (keyOf upperPrime lowerPrime).factorP.Prime ∧ (keyOf upperPrime lowerPrime).factorQ.Prime ∧
      ∀ b draw s, applyPrivate computedBigUint (keyOf upperPrime lowerPrime) b draw = some s →
        (keyOf upperPrime lowerPrime).IsRoot b s := by
  have hp := factorP_keyOf upperPrime_lt lowerPrime
  have hq := factorQ_keyOf upperPrime lowerPrime_lt
  have hprimeP : (keyOf upperPrime lowerPrime).factorP.Prime := by rw [hp]; exact upperPrime_prime
  have hprimeQ : (keyOf upperPrime lowerPrime).factorQ.Prime := by rw [hq]; exact lowerPrime_prime
  refine ⟨generateKey_drawPrimes.1, hprimeP, hprimeQ, ?_⟩
  apply (applyPrivate_root_iff computedBigUint generateKey_drawPrimes.1 hprimeP hprimeQ).2.mpr
  decide +kernel

/-- The key drawn with the smaller prime first, and the block 180 blinded with 1: what comes out is
  not the root. -/
theorem applyPrivate_180_not_root :
    generateKey computedBigUint (drawPrimes lowerPrime upperPrime) =
        some (keyOf lowerPrime upperPrime) ∧
      (keyOf lowerPrime upperPrime).factorP.Prime ∧ (keyOf lowerPrime upperPrime).factorQ.Prime ∧
      ofBE (toBeBytes rsa2048Bytes 180).val < (keyOf lowerPrime upperPrime).modulus ∧
      ∃ s, applyPrivate computedBigUint (keyOf lowerPrime upperPrime) (toBeBytes _ 180) drawOne =
          some s ∧
        ¬ (keyOf lowerPrime upperPrime).IsRoot (toBeBytes _ 180) s := by
  refine ⟨generateKey_drawPrimes.2,
    by rw [factorP_keyOf lowerPrime_lt]; exact lowerPrime_prime,
    by rw [factorQ_keyOf _ upperPrime_lt]; exact upperPrime_prime, by decide +kernel, ?_⟩
  have hrun : (applyPrivate computedBigUint (keyOf lowerPrime upperPrime) (toBeBytes _ 180)
      drawOne).any (fun s => powMod (keyOf lowerPrime upperPrime).modulus (ofBE s.val)
        (keyOf lowerPrime upperPrime).exponent != 180) = true := by
    decide +kernel
  obtain ⟨s, hs, hne⟩ := (Option.any_eq_true _ _).mp hrun
  refine ⟨s, hs, ?_⟩
  have hval : ofBE (toBeBytes rsa2048Bytes 180).val = 180 := by decide +kernel
  rw [bne_iff_ne, powMod_eq] at hne
  unfold IsRoot
  rw [hval]
  exact hne

end Rsa2048PrivateKey

/-! ## Generated keys -/

/-- A key that is generated has factors of 1024 bits and a modulus of 2048 bits, satisfies the CRT
  equations and is read back from its blob. -/
theorem generated_key_crt {B : BigUint} {rng : Rng} {k : Rsa2048PrivateKey}
    (h : generateKey B rng = some k) :
    CrtEquations k ∧ (2 ^ 2047 ≤ k.modulus ∧ k.modulus < 2 ^ 2048) ∧
      (∀ f ∈ [k.factorP, k.factorQ], 2 ^ 1023 ≤ f ∧ f < 2 ^ 1024 ∧ f % 2 = 1) ∧
      k.exponent = 65537 ∧ k.exponent.Coprime ((k.factorP - 1) * (k.factorQ - 1)) ∧
      fromBlob k.toBlob = some k := by
  have hk := generateKey_equations h
  have hf : ∀ {bytes : FixedBytes rsa1024Bytes}, CandidateShape bytes →
      2 ^ 1023 ≤ ofBE bytes.val ∧ ofBE bytes.val < 2 ^ 1024 ∧ ofBE bytes.val % 2 = 1 := by
    intro bytes hs
    have hl := hs.large
    have hd : 2 ^ 1023 = 2 ^ 1 * 2 ^ 1022 := by rw [← pow_add]
    exact ⟨by omega, factor_lt bytes, hs.odd⟩
  have hp := hf hk.shapeP
  have hq := hf hk.shapeQ
  have hm : 2 ^ 2047 ≤ k.modulus := by
    calc 2 ^ 2047 = 2 ^ 3 * (2 ^ 1022 * 2 ^ 1022) := by rw [← pow_add, ← pow_add]
      _ ≤ 3 * 2 ^ 1022 * (3 * 2 ^ 1022) := by rw [Nat.mul_mul_mul_comm]; omega
      _ ≤ k.factorP * k.factorQ := Nat.mul_le_mul hk.shapeP.large hk.shapeQ.large
      _ = k.modulus := hk.modulus_eq.symm
  refine ⟨hk, ⟨hm, hk.modulus_eq ▸ mul_lt_double hp.2.1 hq.2.1⟩, ?_, ?_, ?_, fromBlob_toBlob hk⟩
  · exact List.forall_mem_cons.mpr ⟨hp, List.forall_mem_singleton.mpr hq⟩
  · rw [exponent, hk.exponent_eq]
    rfl
  · exact Nat.coprime_of_mul_modEq_one _ hk.inverse

theorem generated_key_crt_lower_upper :
    fromBlob (keyOf lowerPrime upperPrime).toBlob = some (keyOf lowerPrime upperPrime) :=
  (generated_key_crt generateKey_drawPrimes.2).2.2.2.2.2

/-! ## Miller-Rabin -/

/-- The generator after the bases of `rounds` rounds, or nothing when a base could not be drawn. -/
def drawBases (candidate : Nat) : Nat → Rng → Option Rng
  | 0, rng => some rng
  | rounds + 1, rng => do
    let (_, rng) ← randomBase candidate rng
    drawBases candidate rounds rng

theorem two_pow_trailingZeros (w n : Nat) :
    2 ^ trailingZeros w n * (n >>> trailingZeros w n) = n := by
  induction w generalizing n with
  | zero => simp [trailingZeros]
  | succ w ih =>
    unfold trailingZeros
    split
    · simp
    · rw [Nat.shiftRight_succ_inside, pow_succ', Nat.mul_assoc, ih]
      omega

theorem randomBaseLoop_mem {candidate byteLen excess tries a : Nat} {rng rest : Rng}
    (h : randomBaseLoop candidate byteLen excess tries rng = some (a, rest)) :
    2 ≤ a ∧ a < candidate := by
  induction tries generalizing rng with
  | zero => cases h
  | succ tries ih =>
    unfold randomBaseLoop at h
    simp only at h
    split at h
    · cases h
      assumption
    · exact ih h

section
variable (B : BigUint) {p : Nat} (hp : p.Prime) (hl : p < 2 ^ 1024)
include hp hl

theorem squaringLoop_of_prime {k x : Nat} (hx : x < p) (hn : x ≠ 1 ∧ x ≠ p - 1)
    (h : x ^ 2 ^ (k + 1) ≡ 1 [MOD p]) : squaringLoop B p k x = true := by
  induction k generalizing x with
  | zero =>
    rw [zero_add, pow_one, pow_two] at h
    exact (not_or.mpr hn (eq_of_sq_modEq_one hp hx h)).elim
  | succ k ih =>
    rw [squaringLoop, B.squareMod_eq _ hp.pos, wrappingSub_one hp.pos hl]
    split
    · rfl
    rename_i hm
    split
    · rename_i ho
      have hs : x * x ≡ 1 [MOD p] := by rw [Nat.ModEq, ho, Nat.mod_eq_of_lt hp.one_lt]
      exact (not_or.mpr hn (eq_of_sq_modEq_one hp hx hs)).elim
    rename_i ho
    refine ih (Nat.mod_lt _ hp.pos) ⟨ho, hm⟩ (((Nat.mod_modEq _ p).pow _).trans ?_)
    rwa [← pow_two, ← pow_mul, ← pow_succ']

theorem millerRabinLoop_of_prime {s d : Nat} (hs : 2 ^ (s + 1) * d = p - 1) (ho : p % 2 = 1)
    (rounds : Nat) (rng : Rng) :
    millerRabinLoop B p (s + 1) d rounds rng = (drawBases p rounds rng).map (true, ·) := by
  induction rounds generalizing rng with
  | zero => rfl
  | succ rounds ih =>
    rw [millerRabinLoop, drawBases]
    rcases hr : randomBase p rng with _ | ⟨a, rest⟩
    · rfl
    simp only [Option.bind_eq_bind, Option.bind_some]
    rw [if_neg, ih]
    rw [B.montyPow_eq _ _ ho, wrappingSub_one hp.pos hl]
    rintro ⟨h1, hm, hw⟩
    unfold randomBase at hr
    simp only at hr
    split at hr
    · cases hr
    have ha := randomBaseLoop_mem hr
    have hf : a ^ (p - 1) ≡ 1 [MOD p] := by
      refine (modEq_zero_or_pow_sub_one hp a).resolve_left fun h => ?_
      have := Nat.le_of_dvd (by omega) ((Nat.modEq_zero_iff_dvd).mp h)
      omega
    rw [squaringLoop_of_prime B hp hl (Nat.mod_lt _ hp.pos) ⟨h1, hm⟩] at hw
    · cases hw
    refine ((Nat.mod_modEq _ p).pow _).trans ?_
    rwa [← pow_mul, Nat.add_sub_cancel, Nat.mul_comm, hs]

/-- On a prime of 1024 bits the test draws its twelve bases and accepts. -/
theorem isProbablePrime_of_prime (hlow : 2 ^ 1023 ≤ p) (rng : Rng) :
    isProbablePrime B p rng = (drawBases p millerRabinRounds rng).map (true, ·) := by
  have ho : p % 2 = 1 := by
    refine hp.eq_two_or_odd.resolve_left fun h => ?_
    have := Nat.lt_two_pow_self (n := 1023)
    omega
  have hs := two_pow_trailingZeros 1024 (p - 1)
  have ht : trailingZeros 1024 (p - 1) = trailingZeros 1023 ((p - 1) / 2) + 1 :=
    if_neg (by omega)
  unfold isProbablePrime
  rw [wrappingSub_one hp.pos hl]
  dsimp only
  rw [ht] at hs ⊢
  rw [if_neg (Nat.succ_ne_zero _), oddNew_eq_some.mpr ⟨ho, rfl⟩]
  exact millerRabinLoop_of_prime B hp hl hs ho _ rng

end

theorem isProbablePrime_lowerPrime :
    (isProbablePrime computedBigUint lowerPrime fun _ => 1).map Prod.fst = some true := by
  have hdrawn : (drawBases lowerPrime millerRabinRounds fun _ => 1).isSome := by decide +kernel
  obtain ⟨rest, hrest⟩ := Option.isSome_iff_exists.mp hdrawn
  rw [isProbablePrime_of_prime computedBigUint lowerPrime_prime lowerPrime_lt, hrest]
  · rfl
  · rw [lowerPrime, pow_add 2 1011 12]
    omega

/-! ## Padding -/

variable {ok found : UInt8} {sep : Nat}

/-- Branchless equality of bytes: 1 or 0. -/
def ctEqByte (a b : UInt8) : UInt8 := ((((a ^^^ b).toUInt16 - 1) >>> 8) &&& 1).toUInt8

/-- One turn of the loop of `unpad_type2`, over `ok`, `found` and the separator. -/
def unpadStep (state : UInt8 × UInt8 × Nat) : UInt8 × Nat → UInt8 × UInt8 × Nat
  | (byte, i) =>
    let (ok, found, sep) := state
    let isZero := ctEqByte byte 0x00
    let pastMin : UInt8 := if 2 + 8 ≤ i then 1 else 0
    let notFound := found ^^^ 1
    let take := isZero &&& notFound &&& pastMin
    (ok &&& ((isZero &&& notFound &&& (pastMin ^^^ 1)) ^^^ 1), found ||| take,
      if take = 1 then i else sep)

/-- The loop: whether every check passed, whether a separator was found, and where. -/
def unpadScan (em : List UInt8) : UInt8 × UInt8 × Nat :=
  let ok := ctEqByte (em.getD 0 0) 0x00 &&& ctEqByte (em.getD 1 0) 0x02
  (em.zipIdx.drop 2).foldl unpadStep (ok, 0, 0)

/-- Remove PKCS#1 type-2 padding: the length of the message, and the buffer with it. -/
def unpadType2 (em : FixedBytes rsa2048Bytes) (out : List UInt8) : Option Nat × List UInt8 :=
  let (ok, found, sep) := unpadScan em.val
  if ok &&& found ≠ 1 then (none, out)
  else
    let msg := em.val.drop (sep + 1)
    if out.length < msg.length then (none, out) else (some msg.length, msg ++ out.drop msg.length)

set_option maxRecDepth 3000 in
theorem ctEqByte_eq (a b : UInt8) : ctEqByte a b = if a = b then 1 else 0 := by
  have h : ∀ n < 256, (((UInt8.ofNat n).toUInt16 - 1) >>> 8 &&& 1).toUInt8 =
      if UInt8.ofNat n = 0 then 1 else 0 := by decide
  have hx := h (a ^^^ b).toNat (a ^^^ b).toNat_lt
  rw [UInt8.ofNat_toNat] at hx
  rw [ctEqByte, hx]
  simp only [UInt8.xor_eq_zero_iff]

/-- Nothing changes at the bytes that are not zero, nor once the separator is found. -/
theorem unpad_skip (hok : ok = 0 ∨ ok = 1) {l : List (UInt8 × Nat)}
    (h : found = 1 ∨ (found = 0 ∧ ∀ x ∈ l, x.1 ≠ 0)) :
    l.foldl unpadStep (ok, found, sep) = (ok, found, sep) := by
  induction l with
  | nil => rfl
  | cons x l ih =>
    have hs : unpadStep (ok, found, sep) x = (ok, found, sep) := by
      simp only [unpadStep, ctEqByte_eq]
      rcases h with rfl | ⟨rfl, h⟩
      · rcases hok with rfl | rfl <;> simp
      · rw [if_neg (h x List.mem_cons_self)]
        rcases hok with rfl | rfl <;> simp
    rw [List.foldl_cons, hs]
    exact ih (h.imp_right (And.imp_right fun h y hy => h y (List.mem_cons_of_mem _ hy)))

theorem unpad_refused (s : UInt8 × Nat) (l : List (UInt8 × Nat)) :
    (l.foldl unpadStep (0, s)).1 = 0 := by
  induction l generalizing s with
  | nil => rfl
  | cons x l ih =>
    rw [List.foldl_cons, show unpadStep (0, s) x = (0, (unpadStep (0, s) x).2) by simp [unpadStep]]
    exact ih _

/-- The pass over bytes whose first zero is behind `ps`. -/
theorem unpad_zero (hok : ok = 0 ∨ ok = 1) {ps : List UInt8} (hps : 0 ∉ ps) (m : List UInt8) :
    if 8 ≤ ps.length then
      ((ps ++ 0 :: m).zipIdx 2).foldl unpadStep (ok, 0, 0) = (ok, 1, 2 + ps.length)
    else (((ps ++ 0 :: m).zipIdx 2).foldl unpadStep (ok, 0, 0)).1 = 0 := by
  rw [List.zipIdx_append, List.foldl_append, List.zipIdx_cons, List.foldl_cons,
    unpad_skip hok (.inr ⟨rfl, fun x hx h => hps (h ▸ List.fst_mem_of_mem_zipIdx hx)⟩)]
  split
  · have hs : unpadStep (ok, 0, 0) (0, 2 + ps.length) = (ok, 1, 2 + ps.length) := by
      simp only [unpadStep, ctEqByte_eq, if_pos (show 2 + 8 ≤ 2 + ps.length by omega)]
      rcases hok with rfl | rfl <;> rfl
    rw [hs]
    exact unpad_skip hok (.inl rfl)
  · have hs : unpadStep (ok, 0, 0) (0, 2 + ps.length) = (0, 0, 0) := by
      simp only [unpadStep, ctEqByte_eq, if_neg (show ¬2 + 8 ≤ 2 + ps.length by omega)]
      rcases hok with rfl | rfl <;> rfl
    rw [hs]
    exact unpad_refused _ _

theorem unpadScan_cons (a b : UInt8) (rest : List UInt8) : unpadScan (a :: b :: rest) =
    (rest.zipIdx 2).foldl unpadStep (ctEqByte a 0 &&& ctEqByte b 2, 0, 0) := rfl

/-- The padding of type 2: `00 02`, at least eight bytes that are not zero, and a zero. -/
def Padded (em ps m : List UInt8) : Prop :=
  em = 0x00 :: 0x02 :: (ps ++ 0x00 :: m) ∧ 8 ≤ ps.length ∧ 0x00 ∉ ps

theorem unpadScan_padded {em ps m : List UInt8} (h : Padded em ps m) :
    unpadScan em = (1, 1, 2 + ps.length) := by
  obtain ⟨rfl, h8, hps⟩ := h
  have hs := unpad_zero (.inr rfl) hps m
  rw [if_pos h8] at hs
  rwa [unpadScan_cons, ctEqByte_eq, ctEqByte_eq]

/-- Without a separator `found` stays 0; with one too early, or behind another start, `ok` is 0. -/
theorem unpadScan_refused {a b : UInt8} {rest : List UInt8}
    (h : ∀ ps m, ¬Padded (a :: b :: rest) ps m) :
    (unpadScan (a :: b :: rest)).1 = 0 ∨ (unpadScan (a :: b :: rest)).2.1 = 0 := by
  have hok : ctEqByte a 0 &&& ctEqByte b 2 = 0 ∨ ctEqByte a 0 &&& ctEqByte b 2 = 1 := by
    rw [ctEqByte_eq, ctEqByte_eq]
    split <;> split <;> decide
  rw [unpadScan_cons]
  by_cases h0 : 0 ∈ rest
  swap
  · rw [unpad_skip hok (.inr ⟨rfl, fun x hx h => h0 (h ▸ List.fst_mem_of_mem_zipIdx hx)⟩)]
    exact .inr rfl
  obtain ⟨ps, m, rfl, hps⟩ := List.eq_append_cons_of_mem h0
  have hs := unpad_zero hok hps m
  split at hs
  · rw [hs, ctEqByte_eq, ctEqByte_eq]
    split <;> split
    · subst a b
      exact absurd ⟨rfl, ‹_›, hps⟩ (h ps m)
    all_goals exact .inl rfl
  · exact .inl hs

/-- The message of a padded block is copied to the front of the buffer, and every other block is
  refused. -/
theorem unpadType2_iff (em : FixedBytes rsa2048Bytes) (out : List UInt8) (hout : 245 ≤ out.length) :
    (∀ ps m, Padded em.val ps m →
      unpadType2 em out = (some m.length, m ++ out.drop m.length)) ∧
    ((∀ ps m, ¬Padded em.val ps m) → unpadType2 em out = (none, out)) := by
  obtain ⟨em, hem⟩ := em
  unfold unpadType2
  constructor
  · intro ps m (h : Padded em ps m)
    have hd : em.drop (2 + ps.length + 1) = m := by
      rw [h.1, show 0 :: 2 :: (ps ++ 0 :: m) = (0 :: 2 :: ps ++ [0]) ++ m by simp]
      exact List.drop_left' (by simp; omega)
    have hm : m.length ≤ out.length := by
      have hl := congrArg List.length hd
      rw [List.length_drop, hem, rsa2048Bytes] at hl
      have := h.2.1
      omega
    rw [unpadScan_padded h]
    dsimp only
    rw [if_neg (by decide), hd, if_neg (by omega)]
  · intro h
    rcases em with _ | ⟨a, _ | ⟨b, rest⟩⟩
    · cases hem
    · cases hem
    have hs := unpadScan_refused h
    generalize unpadScan (a :: b :: rest) = s at hs ⊢
    have hn : s.1 &&& s.2.1 ≠ 1 := by rcases hs with hs | hs <;> simp [hs]
    exact if_pos hn

/-- A block whose message is as long as it can be. -/
def fullBlock : FixedBytes rsa2048Bytes :=
  ⟨0 :: 2 :: (List.replicate 8 1 ++ 0 :: List.replicate 245 7), by
    simp only [List.length_cons, List.length_append, List.length_replicate, rsa2048Bytes]⟩

theorem unpadType2_iff_full :
    unpadType2 fullBlock (List.replicate 245 0) = (some 245, List.replicate 245 7) := by
  have hl : (List.replicate 245 (0 : UInt8)).length = 245 := List.length_replicate
  have h := (unpadType2_iff fullBlock _ hl.ge).1 (List.replicate 8 1) (List.replicate 245 7)
    ⟨rfl, by decide, by decide⟩
  rwa [List.length_replicate, List.drop_of_length_le hl.le, List.append_nil] at h

end AegisToken
