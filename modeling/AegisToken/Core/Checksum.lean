/-
  What the checksum of the slot store detects (configuration.rs `crc32`).
  One bit of the CRC is linear and injective, so the checksums of two strings of one length differ
  by the remainder of their difference, and a difference within 32 bits is, up to shifts, its own
  remainder.
-/
import Mathlib.Data.Nat.Bitwise
import AegisToken.Core.Storage

namespace AegisToken
open ByteCodec

variable {a b : List UInt8}

/-! ## One bit of the CRC -/

theorem low_bit (x : UInt32) : x &&& 1 = 0 ∧ x.toNat % 2 = 0 ∨ x &&& 1 = 1 ∧ x.toNat % 2 = 1 := by
  have h : (x &&& 1).toNat = x.toNat % 2 := (UInt32.toNat_and x 1).trans (Nat.and_one_is_mod _)
  rcases Nat.mod_two_eq_zero_or_one x.toNat with h' | h'
  · exact .inl ⟨UInt32.toNat_inj.mp (h.trans h'), h'⟩
  · exact .inr ⟨UInt32.toNat_inj.mp (h.trans h'), h'⟩

theorem crcBit_xor (x y : UInt32) : crcBit (x ^^^ y) = crcBit x ^^^ crcBit y := by
  have hand : (x ^^^ y) &&& 1 = (x &&& 1) ^^^ (y &&& 1) :=
    UInt32.toNat_inj.mp <| by
      simp only [UInt32.toNat_and, UInt32.toNat_xor, Nat.and_xor_distrib_right]
  have hmask : (0xEDB88320 &&& (0 - ((x &&& 1) ^^^ (y &&& 1))) : UInt32) =
      (0xEDB88320 &&& (0 - (x &&& 1))) ^^^ (0xEDB88320 &&& (0 - (y &&& 1))) := by
    rcases low_bit x with ⟨hx, -⟩ | ⟨hx, -⟩ <;> rcases low_bit y with ⟨hy, -⟩ | ⟨hy, -⟩ <;>
      rw [hx, hy] <;> rfl
  rw [crcBit, crcBit, crcBit, hand, hmask, UInt32.shiftRight_xor]
  ac_rfl

theorem toNat_half (x : UInt32) : (x >>> 1).toNat = x.toNat / 2 := by
  rw [UInt32.toNat_shiftRight]
  exact Nat.shiftRight_eq_div_pow _ 1

theorem iterate_crcBit_xor (n : Nat) (x y : UInt32) :
    crcBit^[n] (x ^^^ y) = crcBit^[n] x ^^^ crcBit^[n] y := by
  induction n generalizing x y with
  | zero => rfl
  | succ n ih => exact (congrArg _ (crcBit_xor x y)).trans (ih _ _)

theorem crcBit_eq_zero {x : UInt32} (h : crcBit x = 0) : x = 0 := by
  have hh := congrArg UInt32.toNat (UInt32.xor_eq_zero_iff.mp h)
  have hx := x.toNat_lt
  rw [toNat_half] at hh
  rcases low_bit x with ⟨hl, hm⟩ | ⟨hl, hm⟩
  · have h0 : x.toNat / 2 = 0 := by rwa [hl] at hh
    exact UInt32.toNat_inj.mp (show x.toNat = 0 by omega)
  · -- The top bit of the polynomial is set and that of half of `x` is not.
    have h1 : x.toNat / 2 = 0xEDB88320 := by rwa [hl] at hh
    omega

theorem crcBit_double {w : Nat} (h : w < 2 ^ 31) : crcBit (.ofNat (2 * w)) = .ofNat w := by
  have hw : (UInt32.ofNat (2 * w)).toNat = 2 * w :=
    UInt32.toNat_ofNat'.trans (Nat.mod_eq_of_lt (by omega))
  rcases low_bit (.ofNat (2 * w)) with ⟨hl, -⟩ | ⟨-, hm⟩
  · refine UInt32.toNat_inj.mp ?_
    rw [crcBit, hl]
    change ((UInt32.ofNat (2 * w)) >>> 1 ^^^ 0).toNat = _
    rw [UInt32.xor_zero, toNat_half, hw, UInt32.toNat_ofNat']
    omega
  · omega

/-! ## Runs -/

/-- The bits of a byte string in the order the CRC takes them. -/
def dataBits (data : List UInt8) : List Bool := data.flatMap fun byte => lowBits 8 byte.toNat

/-- The CRC bit by bit. -/
def crcRun (crc : UInt32) (bits : List Bool) : UInt32 :=
  bits.foldl (fun crc b => crcBit (crc ^^^ b.toUInt32)) crc

theorem crcRun_eq {bits : List Bool} (h : bits.length ≤ 32) (crc : UInt32) :
    crcRun crc bits = crcBit^[bits.length] (crc ^^^ .ofNat (ofBits bits)) := by
  induction bits generalizing crc with
  | nil => exact (UInt32.xor_zero).symm
  | cons b bits ih =>
    have hlt := ofBits_lt bits
    have hpow : 2 ^ bits.length ≤ 2 ^ 31 :=
      Nat.pow_le_pow_right (by decide) (Nat.le_of_succ_le_succ h)
    have hx : b.toNat ^^^ (2 * ofBits bits) = ofBits (b :: bits) := by
      rw [Nat.xor_comm]
      cases b with
      | true => exact Nat.xor_one_of_even (even_two_mul _)
      | false => exact Nat.xor_zero _
    have hb : UInt32.ofNat b.toNat = b.toUInt32 := by cases b <;> rfl
    rw [List.length_cons, Function.iterate_succ_apply, ← hx, UInt32.ofNat_xor, hb,
      ← UInt32.xor_assoc, crcBit_xor, crcBit_double (by omega), ← ih (Nat.le_of_succ_le h)]
    rfl

theorem crcRun_ne_zero {bits : List Bool} (h : true ∉ bits) {crc : UInt32} (hne : crc ≠ 0) :
    crcRun crc bits ≠ 0 := by
  induction bits generalizing crc with
  | nil => exact hne
  | cons b bits ih =>
    rw [List.mem_cons, not_or] at h
    cases b with
    | true => exact absurd rfl h.1
    | false => exact ih h.2 fun h0 => hne (UInt32.xor_zero.symm.trans (crcBit_eq_zero h0))

/-- The remainder of a burst of at most 32 bits is not zero. -/
theorem crcRun_burst {bits : List Bool} (h : true ∈ bits) (s : Nat)
    (hw : ∀ k, bits[k]? = some true → s ≤ k ∧ k < s + 32) : crcRun 0 bits ≠ 0 := by
  induction s generalizing bits with
  | zero =>
    have hr : true ∉ bits.drop 32 := by
      intro hm
      obtain ⟨k, hk⟩ := List.mem_iff_getElem?.mp hm
      have := hw (32 + k) (List.getElem?_drop ▸ hk)
      omega
    rw [← List.take_append_drop 32 bits, List.mem_append, or_iff_left hr] at h
    have hlt := ofBits_lt (bits.take 32)
    have hpow : 2 ^ (bits.take 32).length ≤ 2 ^ 32 :=
      Nat.pow_le_pow_right (by decide) (List.length_take_le 32 bits)
    have hne : UInt32.ofNat (ofBits (bits.take 32)) ≠ 0 := by
      intro h0
      have h0' := congrArg UInt32.toNat h0
      rw [UInt32.toNat_ofNat', Nat.mod_eq_of_lt (by omega)] at h0'
      exact ofBits_eq_zero.mp h0' h
    rw [← List.take_append_drop 32 bits, crcRun, List.foldl_append]
    refine crcRun_ne_zero hr ?_
    rw [← crcRun, crcRun_eq (List.length_take_le 32 bits), UInt32.zero_xor]
    exact Function.Iterate.rec (· ≠ 0) hne (fun _ hx h0 => hx (crcBit_eq_zero h0)) _
  | succ s ih =>
    cases bits with
    | nil => cases h
    | cons b bits =>
      cases b with
      | true => exact absurd (hw 0 rfl).1 (by omega)
      | false =>
        change crcRun 0 bits ≠ 0
        refine ih (by simpa using h) fun k hk => ?_
        have := hw (k + 1) hk
        omega

theorem foldl_eq_crcRun (data : List UInt8) (crc : UInt32) :
    data.foldl (fun crc byte => crcBit^[8] (crc ^^^ byte.toUInt32)) crc =
      crcRun crc (dataBits data) := by
  induction data generalizing crc with
  | nil => rfl
  | cons byte data ih =>
    have hb := crcRun_eq ((length_lowBits 8 byte.toNat).trans_le (by decide)) crc
    rw [length_lowBits, ofBits_lowBits, Nat.mod_eq_of_lt byte.toNat_lt,
      UInt32.ofNat_uInt8ToNat] at hb
    have hr : crcRun crc (dataBits (byte :: data)) =
        crcRun (crcRun crc (lowBits 8 byte.toNat)) (dataBits data) := List.foldl_append
    rw [List.foldl_cons, ih, hr, hb]

theorem crcRun_xor (h : a.length = b.length) (x y : UInt32) :
    crcRun x (dataBits a) ^^^ crcRun y (dataBits b) =
      crcRun (x ^^^ y) (dataBits (List.zipWith (· ^^^ ·) a b)) := by
  rw [← foldl_eq_crcRun, ← foldl_eq_crcRun, ← foldl_eq_crcRun]
  induction a generalizing b x y with
  | nil =>
    rw [List.eq_nil_of_length_eq_zero h.symm]
    rfl
  | cons byte a ih =>
    obtain ⟨byte', b, rfl⟩ := List.exists_cons_of_length_eq_add_one h.symm
    rw [List.foldl_cons, List.foldl_cons, ih (Nat.succ.inj h), ← iterate_crcBit_xor]
    have hx : x ^^^ byte.toUInt32 ^^^ (y ^^^ byte'.toUInt32) =
        x ^^^ y ^^^ (byte ^^^ byte').toUInt32 := by
      rw [UInt8.toUInt32_xor]
      ac_rfl
    rw [hx]
    rfl

/-- The checksums of two strings of one length differ by the remainder of their difference. -/
theorem crc32_xor (h : a.length = b.length) :
    crc32 a ^^^ crc32 b = crcRun 0 (dataBits (List.zipWith (· ^^^ ·) a b)) := by
  rw [crc32, crc32, UInt32.not_xor, UInt32.xor_not, UInt32.not_not, foldl_eq_crcRun,
    foldl_eq_crcRun, crcRun_xor h, UInt32.xor_self]

theorem true_mem_dataBits (h : a.length = b.length) (hne : a ≠ b) :
    true ∈ dataBits (List.zipWith (· ^^^ ·) a b) := by
  induction a generalizing b with
  | nil => exact absurd (List.eq_nil_of_length_eq_zero h.symm).symm hne
  | cons x a ih =>
    obtain ⟨y, b, rfl⟩ := List.exists_cons_of_length_eq_add_one h.symm
    rw [List.zipWith_cons_cons, dataBits, List.flatMap_cons, List.mem_append]
    by_cases hxy : x = y
    · exact .inr (ih (Nat.succ.inj h) fun hab => hne (by rw [hxy, hab]))
    · refine .inl (not_not.mp fun hno => hxy (UInt8.xor_eq_zero_iff.mp (UInt8.toNat_inj.mp ?_)))
      rw [← ofBits_eq_zero, ofBits_lowBits, Nat.mod_eq_of_lt (UInt8.toNat_lt _)] at hno
      exact hno

/-- CRC-32 detects every burst of at most 32 bits, and it is affine. -/
theorem crc32_bursts :
    (∀ a b : List UInt8, a.length = b.length → a ≠ b →
      (∃ s, ∀ k, (dataBits (List.zipWith (· ^^^ ·) a b))[k]? = some true → s ≤ k ∧ k < s + 32) →
      crc32 a ≠ crc32 b) ∧
    ∃ f : List UInt8 → UInt32, ∀ a b, a.length = b.length →
      crc32 a ^^^ crc32 b = f (List.zipWith (· ^^^ ·) a b) := by
  refine ⟨fun a b hl hne ⟨s, hs⟩ h => ?_, fun d => crcRun 0 (dataBits d), fun _ _ => crc32_xor⟩
  have hrun := crc32_xor hl
  rw [h, UInt32.xor_self] at hrun
  exact crcRun_burst (true_mem_dataBits hl hne) s hs hrun.symm

/-- One bit is a burst, and changes both checksums alike. -/
theorem crc32_bursts_bit :
    crc32 [0x01] ≠ crc32 [0x00] ∧ crc32 [0x01] ^^^ crc32 [0x00] = crc32 [0x03] ^^^ crc32 [0x02] := by
  obtain ⟨hburst, f, hf⟩ := crc32_bursts
  refine ⟨hburst [0x01] [0x00] rfl (by decide) ⟨0, fun k hk => ?_⟩, ?_⟩
  · have := (List.getElem?_eq_some_iff.mp hk).1
    simp [dataBits, lowBits] at this
    omega
  · rw [hf [0x01] [0x00] rfl, hf [0x03] [0x02] rfl]
    rfl

end AegisToken
