/-
  Arithmetic modulo a prime and modulo a product of two primes, as RSA uses it.
  The exponents `e` and `d` are inverse to each other modulo `p - 1`: then `x ↦ x ^ e` and
  `x ↦ x ^ d` undo each other modulo `p`, also at the multiples of `p`. Two residues are put
  together by Garner's formula `m₂ + h·q`.
  `powMod` and `inverseMod` compute powers and inverses by structural recursion, so that the
  kernel can evaluate them at numbers of any size, and `prime_of_powers` is Lucas's test in
  terms of `powMod`.
-/
import Mathlib.Data.List.Prime
import Mathlib.Data.Nat.ModEq
import Mathlib.FieldTheory.Finite.Basic
import Mathlib.NumberTheory.LucasPrimality
import Mathlib.Tactic.Ring

namespace ModArith

/-! ## Powers modulo a prime -/

variable {p a m : Nat}

theorem modEq_zero_or_pow_sub_one (hp : p.Prime) (x : Nat) :
    x ≡ 0 [MOD p] ∨ x ^ (p - 1) ≡ 1 [MOD p] := by
  by_cases hx : p ∣ x
  · exact .inl ((Nat.modEq_zero_iff_dvd).mpr hx)
  have hc : x.Coprime p := ((hp.coprime_iff_not_dvd).mpr hx).symm
  have h := Nat.ModEq.pow_totient hc
  rw [Nat.totient_prime hp] at h
  exact .inr h

/-- Modulo a prime, 1 has two square roots. -/
theorem eq_of_sq_modEq_one (hp : p.Prime) {x : Nat} (hx : x < p) (h : x * x ≡ 1 [MOD p]) :
    x = 1 ∨ x = p - 1 := by
  rcases x with _ | x
  · exact absurd (Nat.dvd_one.mp (Nat.modEq_zero_iff_dvd.mp h.symm)) hp.ne_one
  have hd : p ∣ x * (x + 2) := by
    have hs := (Nat.modEq_iff_dvd' (Nat.mul_pos x.succ_pos x.succ_pos)).mp h.symm
    rwa [show (x + 1) * (x + 1) = x * (x + 2) + 1 by ring, Nat.add_sub_cancel] at hs
  rcases hp.dvd_mul.mp hd with h | h
  · have := Nat.eq_zero_of_dvd_of_lt h (by omega)
    omega
  · have := Nat.le_of_dvd (by omega) h
    omega

/-- Exponents that agree modulo `p - 1` and are not zero give the same power. -/
theorem pow_modEq_of_modEq (hp : p.Prime) {a b : Nat} (ha : 0 < a) (hb : 0 < b)
    (h : a ≡ b [MOD p - 1]) (x : Nat) : x ^ a ≡ x ^ b [MOD p] := by
  obtain hx | hx := modEq_zero_or_pow_sub_one hp x
  · have hzr : ∀ n, 0 < n → x ^ n ≡ 0 [MOD p] := by
      intro n hn
      have := hx.pow n
      rwa [zero_pow hn.ne'] at this
    exact (hzr a ha).trans (hzr b hb).symm
  · -- Write the larger exponent as the smaller one and a multiple of `p - 1`.
    have hst : ∀ c k, x ^ (c + (p - 1) * k) ≡ x ^ c [MOD p] := by
      intro c k
      have hk := (hx.pow k).mul_left (x ^ c)
      rwa [one_pow, mul_one, ← pow_mul, ← pow_add] at hk
    obtain hab | hab := Nat.le_total a b
    · obtain ⟨k, hk⟩ := (Nat.modEq_iff_dvd' hab).mp h
      have hb' : b = a + (p - 1) * k := by omega
      rw [hb']
      exact (hst a k).symm
    obtain ⟨k, hk⟩ := (Nat.modEq_iff_dvd' hab).mp h.symm
    have ha' : a = b + (p - 1) * k := by omega
    rw [ha']
    exact hst b k

variable {e d : Nat}

/-- `d` and `e` are inverse exponents modulo `p`. -/
structure Inverses (p e d : Nat) : Prop where
  prime : p.Prime
  two_lt : 2 < p
  mul : e * d ≡ 1 [MOD p - 1]

theorem Inverses.symm (h : Inverses p e d) : Inverses p d e :=
  ⟨h.prime, h.two_lt, by rw [Nat.mul_comm]; exact h.mul⟩

theorem Inverses.mul_pos (h : Inverses p e d) : 0 < e * d := by
  rcases Nat.eq_zero_or_pos (e * d) with h0 | hp
  · have hm := h.mul
    rw [h0, Nat.ModEq, Nat.zero_mod, Nat.mod_eq_of_lt (by have := h.two_lt; omega)] at hm
    exact absurd hm nofun
  · exact hp

/-- Raising to `d` and then to `e` gives the number back. -/
theorem Inverses.pow_pow (h : Inverses p e d) (x : Nat) : (x ^ d) ^ e ≡ x [MOD p] := by
  rw [← pow_mul, Nat.mul_comm]
  have hp := pow_modEq_of_modEq h.prime h.mul_pos Nat.one_pos h.mul x
  rwa [pow_one] at hp

/-- `x ↦ x ^ e` is injective modulo `p`. -/
theorem Inverses.modEq_of_pow (h : Inverses p e d) {x y : Nat} (hxy : x ^ e ≡ y ^ e [MOD p]) :
    x ≡ y [MOD p] :=
  ((h.symm.pow_pow x).symm.trans (hxy.pow d)).trans (h.symm.pow_pow y)

/-- The reduced exponent `d % (p - 1)` does the work of `d`. -/
theorem Inverses.pow_reduced (h : Inverses p e d) (x : Nat) :
    x ^ (d % (p - 1)) ≡ x ^ d [MOD p] := by
  have hd : 0 < d := Nat.pos_of_mul_pos_left h.mul_pos
  have hr : 0 < d % (p - 1) := by
    rcases Nat.eq_zero_or_pos (d % (p - 1)) with h0 | hp
    · have hm := h.mul
      rw [Nat.ModEq, Nat.mul_mod, h0, Nat.mul_zero, Nat.zero_mod,
        Nat.mod_eq_of_lt (by have := h.two_lt; omega)] at hm
      exact absurd hm nofun
    · exact hp
  exact pow_modEq_of_modEq h.prime hr hd (Nat.mod_modEq d (p - 1)) x

/-! ## Putting two residues together -/

/-- `a - b` in `w` bits, with `p` added when it borrows. It is `(a - b) mod p` for differences in
  `[-p, p)` only. -/
def subMod (w a b p : Nat) : Nat :=
  if b ≤ a then a - b else (a + 2 ^ w - b + p) % 2 ^ w

/-- One correction by `p` is enough exactly when `b ≤ a + p`: past that the difference wraps
  around at `2 ^ w`, which an odd prime does not divide. -/
theorem add_subMod_modEq_iff {w a b : Nat} (hp : p.Prime) (h2 : 2 < p) (hpw : p < 2 ^ w)
    (hb : b < 2 ^ w) : b + subMod w a b p ≡ a [MOD p] ↔ b ≤ a + p := by
  unfold subMod
  by_cases hba : b ≤ a
  · rw [if_pos hba, Nat.add_sub_cancel' hba]
    exact iff_of_true rfl (by omega)
  rw [if_neg hba]
  by_cases hbp : b ≤ a + p
  · have hv : (a + 2 ^ w - b + p) % 2 ^ w = a + p - b := by
      have : a + 2 ^ w - b + p = (a + p - b) + 2 ^ w := by omega
      rw [this, Nat.add_mod_right, Nat.mod_eq_of_lt (by omega)]
    rw [hv, Nat.add_sub_cancel' hbp]
    exact iff_of_true (Nat.add_mod_right a p) hbp
  · have hv : b + (a + 2 ^ w - b + p) % 2 ^ w = a + (p + 2 ^ w) := by
      rw [Nat.mod_eq_of_lt (by omega)]
      omega
    rw [hv]
    refine iff_of_false ?_ hbp
    intro h
    have hd : p ∣ p + 2 ^ w := by
      have hs := (Nat.modEq_iff_dvd' (Nat.le_add_right a _)).mp h.symm
      rwa [Nat.add_sub_cancel_left] at hs
    have hw : p ∣ 2 ^ w := (Nat.dvd_add_right (dvd_refl p)).mp hd
    have := Nat.le_of_dvd (by decide) (hp.dvd_of_dvd_pow hw)
    omega

theorem garner_modEq_left {q qinv : Nat} (h : q * qinv ≡ 1 [MOD p]) (m diff : Nat) :
    m + diff * qinv % p * q ≡ m + diff [MOD p] := by
  apply Nat.ModEq.add_left
  calc diff * qinv % p * q ≡ diff * qinv * q [MOD p] := (Nat.mod_modEq _ _).mul_right q
    _ = diff * (q * qinv) := by ring
    _ ≡ diff * 1 [MOD p] := h.mul_left diff
    _ = diff := Nat.mul_one diff

theorem garner_modEq_right (m h q : Nat) : m + h * q ≡ m [MOD q] := by
  rw [Nat.ModEq, Nat.add_mul_mod_self_right]

theorem garner_lt {m h q : Nat} (hm : m < q) (hh : h < p) : m + h * q < p * q := by
  calc m + h * q < q + h * q := Nat.add_lt_add_right hm _
    _ = (h + 1) * q := by ring
    _ ≤ p * q := Nat.mul_le_mul_right q hh

/-! ## Computing powers -/

/-- `a ^ e % m` over the `k` low bits of `e`, by squaring. -/
def powModBits (m : Nat) : Nat → Nat → Nat → Nat
  | 0, _, _ => 1 % m
  | k + 1, a, e =>
    if e % 2 = 1 then a * powModBits m k (a * a % m) (e / 2) % m
    else powModBits m k (a * a % m) (e / 2)

/-- `a ^ e % m`. -/
def powMod (m a e : Nat) : Nat := powModBits m (e.log2 + 1) a e

theorem powModBits_eq (m k a e : Nat) (h : e < 2 ^ k) : powModBits m k a e = a ^ e % m := by
  induction k generalizing a e with
  | zero =>
    have he : e = 0 := by simpa using h
    rw [powModBits, he, pow_zero]
  | succ k ih =>
    have hhl : e / 2 < 2 ^ k := by omega
    have hs : (a * a % m) ^ (e / 2) % m = a ^ (2 * (e / 2)) % m := by
      rw [← Nat.pow_mod, ← pow_two, ← pow_mul]
    rw [powModBits, ih _ _ hhl, hs]
    split
    · have he : e = 2 * (e / 2) + 1 := by omega
      rw [Nat.mul_mod_mod, ← pow_succ', ← he]
    · have he : 2 * (e / 2) = e := by omega
      rw [he]

theorem powMod_eq (m a e : Nat) : powMod m a e = a ^ e % m :=
  powModBits_eq m _ a e Nat.lt_log2_self

/-- Lucas's test for `p = q₁⋯qₙ·2^k + 1`: it is prime when some `a` has order `p - 1` modulo `p`,
  that is, when none of the powers `(p - 1) / q` of `a` is 1. -/
theorem prime_of_powers {a k : Nat} (qs : List Nat) (hqs : ∀ q ∈ qs, q.Prime)
    (hp : p = qs.prod * 2 ^ k + 1) (ho : powMod p a (p - 1) = 1)
    (hne : ∀ q ∈ 2 :: qs, powMod p a ((p - 1) / q) ≠ 1) : p.Prime := by
  have hs : 0 < qs.prod * 2 ^ k :=
    Nat.mul_pos (Nat.pos_of_ne_zero (List.prod_ne_zero fun h0 => Nat.not_prime_zero (hqs 0 h0)))
      (Nat.pow_pos (by decide))
  have hlt : 1 < p := by omega
  have hcs : ∀ n, (a : ZMod p) ^ n = 1 ↔ powMod p a n = 1 := by
    intro n
    rw [powMod_eq, ← Nat.cast_pow, ← Nat.cast_one, ZMod.natCast_eq_natCast_iff',
      Nat.mod_eq_of_lt hlt]
  refine lucas_primality p (a : ZMod p) ((hcs _).mpr ho) ?_
  intro q hq hd h
  refine hne q ?_ ((hcs _).mp h)
  rw [hp] at hd
  rcases (Nat.Prime.dvd_mul hq).mp hd with hpr | hw
  · exact List.mem_cons_of_mem 2
      (mem_list_primes_of_dvd_prod hq.prime (fun r hr => (hqs r hr).prime) hpr)
  · rw [(Nat.prime_dvd_prime_iff_eq hq Nat.prime_two).mp (hq.dvd_of_dvd_pow hw)]
    exact List.mem_cons_self

/-! ## Computing inverses -/

/-- Euclid's algorithm on remainders `r₀`, `r₁` with their cofactors `s₀`, `s₁` modulo `m`. -/
def euclid (m : Nat) : Nat → Nat → Nat → Nat → Nat → Nat × Nat
  | 0, r₀, s₀, _, _ => (r₀, s₀)
  | fuel + 1, r₀, s₀, r₁, s₁ =>
    if r₁ = 0 then (r₀, s₀)
    else euclid m fuel r₁ s₁ (r₀ % r₁) ((s₀ + (m - r₀ / r₁ * s₁ % m)) % m)

/-- The inverse of `a` modulo `m`, for an `a` coprime to `m`. -/
def inverseMod (a m : Nat) : Option Nat :=
  let (g, s) := euclid m (m + 1) m 0 (a % m) (1 % m)
  if g = 1 then some s else none

/-- A remainder is the number times its cofactor. -/
def Cofactor (a m r s : Nat) : Prop := r ≡ a * s [MOD m] ∧ s < m

theorem Cofactor.step {a m r₀ s₀ r₁ s₁ : Nat} (h₀ : Cofactor a m r₀ s₀)
    (h₁ : Cofactor a m r₁ s₁) :
    Cofactor a m (r₀ % r₁) ((s₀ + (m - r₀ / r₁ * s₁ % m)) % m) := by
  have hm : 0 < m := Nat.lt_of_le_of_lt (Nat.zero_le _) h₀.2
  refine ⟨?_, Nat.mod_lt _ hm⟩
  set k := r₀ / r₁ with hk
  have hlt : k * s₁ % m < m := Nat.mod_lt _ hm
  -- Adding `k·r₁` to both sides removes the subtraction.
  apply Nat.ModEq.add_right_cancel' (k * r₁)
  have hlf : r₀ % r₁ + k * r₁ = r₀ := by rw [Nat.mul_comm]; exact Nat.mod_add_div r₀ r₁
  have hrg : a * ((s₀ + (m - k * s₁ % m)) % m) + k * r₁ ≡ a * s₀ [MOD m] := by
    calc a * ((s₀ + (m - k * s₁ % m)) % m) + k * r₁
        ≡ a * (s₀ + (m - k * s₁ % m)) + k * (a * s₁) [MOD m] :=
          ((Nat.mod_modEq _ _).mul_left a).add (h₁.1.mul_left k)
      _ = a * (s₀ + (m - k * s₁ % m)) + a * (k * s₁) := by ring
      _ ≡ a * (s₀ + (m - k * s₁ % m)) + a * (k * s₁ % m) [MOD m] :=
          Nat.ModEq.add_left _ ((Nat.mod_modEq _ _).symm.mul_left a)
      _ = a * s₀ + a * m := by
          rw [← Nat.mul_add, ← Nat.mul_add, Nat.add_assoc, Nat.sub_add_cancel hlt.le]
      _ ≡ a * s₀ [MOD m] := Nat.add_mul_mod_self_right _ _ _
  rw [hlf]
  exact h₀.1.trans hrg.symm

/-- Whatever the fuel, the remainder that comes out has its cofactor. -/
theorem euclid_cofactor {a m fuel r₀ s₀ r₁ s₁ : Nat} (h₀ : Cofactor a m r₀ s₀)
    (h₁ : Cofactor a m r₁ s₁) :
    Cofactor a m (euclid m fuel r₀ s₀ r₁ s₁).1 (euclid m fuel r₀ s₀ r₁ s₁).2 := by
  induction fuel generalizing r₀ s₀ r₁ s₁ with
  | zero => exact h₀
  | succ fuel ih =>
    unfold euclid
    split
    · exact h₀
    · exact ih h₁ (h₀.step h₁)

/-- With fuel for every remainder the greatest common divisor comes out. -/
theorem euclid_gcd {m fuel r₀ s₀ r₁ s₁ : Nat} (h : r₁ < fuel) :
    (euclid m fuel r₀ s₀ r₁ s₁).1 = r₀.gcd r₁ := by
  induction fuel generalizing r₀ s₀ r₁ s₁ with
  | zero => omega
  | succ fuel ih =>
    unfold euclid
    split
    · rename_i hr
      rw [hr, Nat.gcd_zero_right]
    · rename_i hr
      have hlt : r₀ % r₁ < r₁ := Nat.mod_lt _ (Nat.pos_of_ne_zero hr)
      rw [ih (by omega), Nat.gcd_comm r₀ r₁, Nat.gcd_rec r₁ r₀, Nat.gcd_comm]

theorem inverseMod_spec {a m x : Nat} (hm : 1 < m) (h : inverseMod a m = some x) :
    x < m ∧ a * x ≡ 1 [MOD m] := by
  have hst : Cofactor a m m 0 :=
    ⟨by exact (Nat.modEq_zero_iff_dvd).mpr (dvd_refl m), by omega⟩
  have hfr : Cofactor a m (a % m) (1 % m) := by
    refine ⟨?_, Nat.mod_lt _ (by omega)⟩
    rw [Nat.mod_eq_of_lt hm, Nat.mul_one]
    exact Nat.mod_modEq a m
  have ho : Cofactor a m (euclid m (m + 1) m 0 (a % m) (1 % m)).1 _ :=
    euclid_cofactor hst hfr
  simp only [inverseMod] at h
  split at h
  · rename_i hg
    cases h
    rw [hg] at ho
    exact ⟨ho.2, ho.1.symm⟩
  · cases h

theorem inverseMod_isSome (hm : 0 < m) (h : a.Coprime m) :
    (inverseMod a m).isSome := by
  have hg : (euclid m (m + 1) m 0 (a % m) (1 % m)).1 = 1 := by
    rw [euclid_gcd (by have := Nat.mod_lt a hm; omega), Nat.gcd_comm, ← Nat.gcd_rec, Nat.gcd_comm]
    exact h
  simp [inverseMod, hg]

end ModArith
