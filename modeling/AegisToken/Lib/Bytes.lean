/-
  Byte strings and fixed-width integers, for any wire or record format.
  `toLE w n` is `n` in `w` bytes, least significant byte first; `ofLE` reads it back.
  The big-endian forms are the reversed ones. The width is a parameter, so the 16-, 32-
  and 64-bit fields of a format share the lemmas below.
  `FixedBytes n` is an array of exactly `n` bytes and `BoundedBytes n` a vector of at most
  `n` bytes. Both carry their length as a proof.
-/
import Mathlib.Data.Nat.ModEq
import Mathlib.Data.UInt
import Mathlib.Tactic.Ring

namespace ByteCodec

variable {w n : Nat}

/-! ## Little-endian and big-endian integers -/

/-- `n` in `w` bytes, least significant first. Higher bits are dropped. -/
def toLE : Nat → Nat → List UInt8
  | 0, _ => []
  | w + 1, n => UInt8.ofNat n :: toLE w (n / 256)

/-- The value of a byte string, least significant byte first. -/
def ofLE : List UInt8 → Nat
  | [] => 0
  | b :: bs => b.toNat + 256 * ofLE bs

/-- `n` in `w` bytes, most significant first. -/
def toBE (w n : Nat) : List UInt8 := (toLE w n).reverse

/-- The value of a byte string, most significant byte first. -/
def ofBE (bs : List UInt8) : Nat := ofLE bs.reverse

@[simp] theorem length_toLE (w n : Nat) : (toLE w n).length = w := by
  induction w generalizing n with
  | zero => rfl
  | succ w ih => simp [toLE, ih]

@[simp] theorem length_toBE (w n : Nat) : (toBE w n).length = w := by
  simp [toBE]

theorem ofLE_toLE_mod (w n : Nat) : ofLE (toLE w n) = n % 256 ^ w := by
  induction w generalizing n with
  | zero => simp [toLE, ofLE, Nat.mod_one]
  | succ w ih =>
    have hb : (UInt8.ofNat n).toNat = n % 256 := UInt8.toNat_ofNat'
    have hw : 256 ^ (w + 1) = 256 * 256 ^ w := by rw [Nat.pow_succ, Nat.mul_comm]
    rw [toLE, ofLE, ih, hb, hw, Nat.mod_mul]

theorem ofLE_toLE (h : n < 256 ^ w) : ofLE (toLE w n) = n := by
  rw [ofLE_toLE_mod, Nat.mod_eq_of_lt h]

theorem ofBE_toBE_mod (w n : Nat) : ofBE (toBE w n) = n % 256 ^ w := by
  simp only [ofBE, toBE, List.reverse_reverse, ofLE_toLE_mod]

theorem ofBE_toBE (h : n < 256 ^ w) : ofBE (toBE w n) = n := by
  rw [ofBE_toBE_mod, Nat.mod_eq_of_lt h]

variable (bs : List UInt8)

theorem ofLE_lt : ofLE bs < 256 ^ bs.length := by
  induction bs with
  | nil => simp [ofLE]
  | cons b bs ih =>
    have hb := b.toNat_lt
    simp only [ofLE, List.length_cons, Nat.pow_succ]
    omega

theorem ofBE_lt : ofBE bs < 256 ^ bs.length := by
  have h := ofLE_lt bs.reverse
  rwa [List.length_reverse] at h

theorem toLE_ofLE : toLE bs.length (ofLE bs) = bs := by
  induction bs with
  | nil => rfl
  | cons b bs ih =>
    have hb := b.toNat_lt
    have hhd : UInt8.ofNat (b.toNat + 256 * ofLE bs) = b := by
      apply UInt8.toNat_inj.mp
      rw [UInt8.toNat_ofNat']
      omega
    have htl : (b.toNat + 256 * ofLE bs) / 256 = ofLE bs := by omega
    simp only [List.length_cons, ofLE, toLE, hhd, htl, ih]

theorem toBE_ofBE : toBE bs.length (ofBE bs) = bs := by
  have h := toLE_ofLE bs.reverse
  rw [List.length_reverse] at h
  simp only [toBE, ofBE, h, List.reverse_reverse]

theorem ofLE_append (xs ys : List UInt8) :
    ofLE (xs ++ ys) = ofLE xs + 256 ^ xs.length * ofLE ys := by
  induction xs with
  | nil => simp [ofLE]
  | cons x xs ih =>
    rw [List.cons_append, ofLE, ofLE, ih, List.length_cons]
    ring

theorem ofBE_cons (b : UInt8) (bs : List UInt8) :
    ofBE (b :: bs) = ofBE bs + 256 ^ bs.length * b.toNat := by
  unfold ofBE
  rw [List.reverse_cons, ofLE_append, List.length_reverse]
  rfl

theorem ofBE_replicate_append (k : Nat) (bs : List UInt8) :
    ofBE (List.replicate k 0 ++ bs) = ofBE bs := by
  induction k with
  | zero => rfl
  | succ k ih => rw [List.replicate_succ, List.cons_append, ofBE_cons, ih, UInt8.toNat_zero,
      Nat.mul_zero, Nat.add_zero]

theorem toBE_add (k : Nat) (h : n < 256 ^ w) :
    toBE (k + w) n = List.replicate k 0 ++ toBE w n := by
  have hbc := toBE_ofBE (List.replicate k 0 ++ toBE w n)
  rwa [ofBE_replicate_append, ofBE_toBE h, List.length_append, List.length_replicate,
    length_toBE] at hbc

theorem ofBE_concat (b : UInt8) :
    ofBE (bs ++ [b]) = b.toNat + 256 * ofBE bs := by
  unfold ofBE
  rw [List.reverse_append]
  rfl

variable {bs : List UInt8}

/-- The first byte bounds a big-endian number from below. -/
theorem head_mul_le_ofBE (h : bs.length = w + 1) :
    256 ^ w * (bs[0]).toNat ≤ ofBE bs := by
  cases bs with
  | nil => simp at h
  | cons b bs =>
    have hw : bs.length = w := by simpa using h
    rw [ofBE_cons, hw]
    exact Nat.le_add_left _ _

/-- The last byte decides whether a big-endian number is odd. -/
theorem ofBE_mod_two (h : bs.length = w + 1) :
    ofBE bs % 2 = (bs[w]).toNat % 2 := by
  have hsp : bs = bs.take w ++ [bs[w]] := by
    rw [← List.take_succ_eq_append_getElem (by omega), ← h, List.take_length]
  have hv : ofBE bs = (bs[w]).toNat + 256 * ofBE (bs.take w) := by
    conv_lhs => rw [hsp]
    exact ofBE_concat _ _
  omega

theorem toLE_inj {w m n : Nat} (hm : m < 256 ^ w) (hn : n < 256 ^ w)
    (h : toLE w m = toLE w n) : m = n := by
  rw [← ofLE_toLE hm, h, ofLE_toLE hn]

/-! ## Counters -/

/-- A counter of 32 bits that is not at its last value moves by one. -/
theorem toNat_add_one {n : UInt32} (h : n ≠ 2 ^ 32 - 1) : (n + 1).toNat = n.toNat + 1 := by
  have hlt := n.toNat_lt
  have hne : n.toNat ≠ 2 ^ 32 - 1 := fun heq => h (UInt32.toNat_inj.mp heq)
  exact Nat.mod_eq_of_lt (show n.toNat + 1 < 2 ^ 32 by omega)

theorem toNat_sub_one {b : UInt8} (h : b ≠ 0) : (b - 1).toNat + 1 = b.toNat := by
  have hp : 1 ≤ b.toNat := Nat.one_le_iff_ne_zero.mpr fun h0 => h (UInt8.toNat_inj.mp h0)
  have hle : (1 : UInt8) ≤ b := UInt8.le_iff_toNat_le.mpr hp
  rw [UInt8.toNat_sub_of_le _ _ hle]
  exact Nat.sub_add_cancel hp

/-! ## Comparison -/

/-- Compare without an early exit. -/
def ctEq (a b : List UInt8) : Bool :=
  if a.length ≠ b.length then false
  else (a.zip b).foldl (fun acc p => acc ||| (p.1 ^^^ p.2)) 0 == 0

theorem foldl_or_eq_zero (l : List (UInt8 × UInt8)) (acc : UInt8) :
    l.foldl (fun acc p => acc ||| (p.1 ^^^ p.2)) acc = 0 ↔ acc = 0 ∧ ∀ p ∈ l, p.1 = p.2 := by
  induction l generalizing acc with
  | nil => simp
  | cons p l ih => simp [ih, and_assoc]

theorem ctEq_iff {a b : List UInt8} : ctEq a b = true ↔ a = b := by
  unfold ctEq
  by_cases hl : a.length = b.length
  · rw [if_neg (not_not.mpr hl), beq_iff_eq, foldl_or_eq_zero]
    constructor
    · rintro ⟨-, h⟩
      refine List.ext_getElem hl fun i h1 h2 => ?_
      exact h (a[i], b[i]) (List.mem_iff_getElem.mpr ⟨i, by simp; omega, by simp⟩)
    rintro rfl
    refine ⟨rfl, ?_⟩
    intro p hp
    obtain ⟨i, hi, rfl⟩ := List.mem_iff_getElem.mp hp
    simp
  · rw [if_pos hl]
    constructor
    · nofun
    · rintro rfl
      exact absurd rfl hl

/-! ## Byte arrays with a length -/

/-- An array of exactly `n` bytes. -/
abbrev FixedBytes (n : Nat) := { bs : List UInt8 // bs.length = n }

/-- A vector of at most `n` bytes. -/
abbrev BoundedBytes (n : Nat) := { bs : List UInt8 // bs.length ≤ n }

def FixedBytes.zero (n : Nat) : FixedBytes n := ⟨List.replicate n 0, List.length_replicate⟩

def FixedBytes.fill (n : Nat) (b : UInt8) : FixedBytes n :=
  ⟨List.replicate n b, List.length_replicate⟩

/-- `bs` cut or zero-padded on the right to `n` bytes. -/
def FixedBytes.ofList (n : Nat) (bs : List UInt8) : FixedBytes n :=
  ⟨bs.take n ++ List.replicate (n - bs.length) 0, by
    simp only [List.length_append, List.length_take, List.length_replicate]; omega⟩

theorem FixedBytes.val_ofList (h : bs.length = n) :
    (FixedBytes.ofList n bs).val = bs := by
  show bs.take n ++ List.replicate (n - bs.length) 0 = bs
  rw [h, Nat.sub_self, List.take_of_length_le h.le, List.replicate_zero, List.append_nil]

@[simp] theorem FixedBytes.ofList_val (bs : FixedBytes n) :
    FixedBytes.ofList n bs.val = bs :=
  Subtype.ext (FixedBytes.val_ofList bs.property)

def BoundedBytes.empty (n : Nat) : BoundedBytes n := ⟨[], Nat.zero_le n⟩

/-- A slice copied into a bounded vector, when it fits. -/
def BoundedBytes.ofSlice (n : Nat) (bs : List UInt8) : Option (BoundedBytes n) :=
  if h : bs.length ≤ n then some ⟨bs, h⟩ else none

theorem BoundedBytes.ofSlice_eq_some {v : BoundedBytes n} :
    BoundedBytes.ofSlice n bs = some v ↔ v.val = bs := by
  unfold BoundedBytes.ofSlice
  split
  · rw [Option.some.injEq, Subtype.ext_iff, eq_comm]
  rename_i h
  constructor
  · intro hv; cases hv
  · intro hv; exact absurd (hv ▸ v.property) h

/-! ## Bits -/

/-- The `n` low bits of a number, the least significant first. -/
def lowBits : Nat → Nat → List Bool
  | 0, _ => []
  | n + 1, v => decide (v % 2 = 1) :: lowBits n (v / 2)

/-- The number with these bits. -/
def ofBits (bits : List Bool) : Nat := bits.foldr (fun b v => 2 * v + b.toNat) 0

theorem length_lowBits (n v : Nat) : (lowBits n v).length = n := by
  induction n generalizing v with
  | zero => rfl
  | succ n ih => exact congrArg (· + 1) (ih _)

theorem ofBits_lowBits (n v : Nat) : ofBits (lowBits n v) = v % 2 ^ n := by
  induction n generalizing v with
  | zero => exact (Nat.mod_one v).symm
  | succ n ih =>
    have hb : (decide (v % 2 = 1)).toNat = v % 2 := by
      rcases Nat.mod_two_eq_zero_or_one v with h | h <;> rw [h] <;> rfl
    change 2 * ofBits (lowBits n (v / 2)) + _ = _
    rw [ih, hb, Nat.pow_succ', Nat.mod_mul, Nat.add_comm]

theorem ofBits_lt (bits : List Bool) : ofBits bits < 2 ^ bits.length := by
  induction bits with
  | nil => exact Nat.one_pos
  | cons b bits ih =>
    have hb := b.toNat_le
    change 2 * ofBits bits + b.toNat < 2 ^ (bits.length + 1)
    omega

theorem ofBits_eq_zero {bits : List Bool} : ofBits bits = 0 ↔ true ∉ bits := by
  induction bits with
  | nil => exact iff_of_true rfl List.not_mem_nil
  | cons b bits ih =>
    change 2 * ofBits bits + b.toNat = 0 ↔ _
    cases b <;> simp [ih]

theorem ofBits_append (low high : List Bool) :
    ofBits (low ++ high) = ofBits high * 2 ^ low.length + ofBits low := by
  induction low with
  | nil => simp [ofBits]
  | cons b low ih =>
    change 2 * ofBits (low ++ high) + b.toNat = _ + (2 * ofBits low + b.toNat)
    rw [ih, List.length_cons, Nat.pow_succ, ← Nat.mul_assoc]
    omega

/-! ## Results -/

theorem ok_of_bind {ε α β : Type} {x : Except ε α} {f : α → Except ε β} {b : β}
    (h : x >>= f = .ok b) : ∃ a, x = .ok a ∧ f a = .ok b := by
  rcases x with _ | a
  · cases h
  · exact ⟨a, rfl, h⟩

end ByteCodec
