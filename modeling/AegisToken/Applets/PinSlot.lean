/-
  PIN slots of the applets (aegis-applets pin.rs): a hash, a retry counter and a length policy.
  SHA-256 is a parameter of which nothing is assumed. A method that changes the slot returns its
  result and the slot; a slot never reads or writes a store.
-/
import AegisToken.Applets.Apdu

namespace AegisToken.Applets
open ByteCodec

def pinHashLen : Nat := 32

/-- Encoded size of a slot: version, format, retries, flags, hash. -/
def pinStateLen : Nat := 4 + pinHashLen

def pinStateVersion : UInt8 := 1

/-- Hash construction used by a slot. -/
inductive PinHashFormat where
  | sha256
deriving DecidableEq, Repr

def PinHashFormat.code : PinHashFormat → UInt8
  | .sha256 => 1

def PinHashFormat.fromCode (code : UInt8) : Option PinHashFormat :=
  if code = 1 then some .sha256 else none

/-- Length and retry policy of a slot. -/
structure PinPolicy where
  minLen : Nat
  maxLen : Nat
  maxAttempts : UInt8
  format : PinHashFormat
deriving DecidableEq, Repr

/-- A PIN hash; the PIN itself is never kept. -/
abbrev PinHash := FixedBytes pinHashLen

/-- The comparator of the crate: no early exit. -/
def constantTimeEq (a b : List UInt8) : Bool := ctEq a b

section
variable (sha256 : List UInt8 → FixedBytes 32)

def PinHash.of (pin : List UInt8) : PinHashFormat → PinHash
  | .sha256 => sha256 pin

def PinHash.verify (hash : PinHash) (pin : List UInt8) (format : PinHashFormat) : Bool :=
  constantTimeEq hash.val (PinHash.of sha256 pin format).val

theorem PinHash.verify_iff {hash : PinHash} {pin : List UInt8} {format : PinHashFormat} :
    PinHash.verify sha256 hash pin format = true ↔ hash = PinHash.of sha256 pin format := by
  unfold PinHash.verify constantTimeEq
  rw [ctEq_iff, Subtype.ext_iff]

end

/-- One PIN slot. -/
structure PinSlot where
  policy : PinPolicy
  hash : Option PinHash
  retriesRemaining : UInt8
deriving DecidableEq

namespace PinSlot

/-- An unset slot with full retries. -/
def new (policy : PinPolicy) : PinSlot := ⟨policy, none, policy.maxAttempts⟩

def isBlocked (slot : PinSlot) : Bool := slot.hash.isSome ∧ slot.retriesRemaining = 0

def checkLength (slot : PinSlot) (pin : List UInt8) : Except Sw Unit :=
  if pin.length < slot.policy.minLen ∨ slot.policy.maxLen < pin.length then .error .wrongLength
  else .ok ()

section
variable (sha256 : List UInt8 → FixedBytes 32)

/-- Install a PIN without verifying the current one. -/
def set (slot : PinSlot) (pin : List UInt8) : Except Sw Unit × PinSlot :=
  match slot.checkLength pin with
  | .error sw => (.error sw, slot)
  | .ok () => (.ok (), { slot with
      hash := some (PinHash.of sha256 pin slot.policy.format)
      retriesRemaining := slot.policy.maxAttempts })

/-- Verify a candidate PIN; a wrong one costs an attempt. -/
def verify (slot : PinSlot) (pin : List UInt8) : Except Sw Unit × PinSlot :=
  match slot.hash with
  | none => (.error .conditionsNotSatisfied, slot)
  | some hash =>
    if slot.retriesRemaining = 0 then (.error .authenticationBlocked, slot)
    else if PinHash.verify sha256 hash pin slot.policy.format then (.ok (), slot)
    else
      let retries := slot.retriesRemaining - 1
      (.error (.retriesLeft retries), { slot with retriesRemaining := retries })

def change (slot : PinSlot) (current new : List UInt8) : Except Sw Unit × PinSlot :=
  match slot.verify sha256 current with
  | (.error sw, slot) => (.error sw, slot)
  | (.ok (), slot) => slot.set sha256 new

/-- Find where the current PIN ends in `current || new`: the first admissible split whose first
  half verifies. When there is none, one attempt is consumed. The caller has checked that the body
  is at least twice the least PIN length. -/
def resolveChange (slot : PinSlot) (body : List UInt8) : Except Sw (Option Nat) × PinSlot :=
  match slot.hash with
  | none => (.error .conditionsNotSatisfied, slot)
  | some hash =>
    if slot.retriesRemaining = 0 then (.error .authenticationBlocked, slot)
    else
      let low := max slot.policy.minLen (body.length - slot.policy.maxLen)
      let high := min slot.policy.maxLen (body.length - slot.policy.minLen)
      match (List.range' low (high + 1 - low)).find? fun split =>
        PinHash.verify sha256 hash (body.take split) slot.policy.format with
      | some split => (.ok (some split), slot)
      | none => (.ok none, { slot with retriesRemaining := slot.retriesRemaining - 1 })

def unblock (slot : PinSlot) (new : List UInt8) : Except Sw Unit × PinSlot := slot.set sha256 new

end

def encode (slot : PinSlot) : FixedBytes pinStateLen :=
  ⟨[pinStateVersion, slot.policy.format.code, slot.retriesRemaining,
      if slot.hash.isSome then 1 else 0] ++ (slot.hash.getD (FixedBytes.zero _)).val, by
    rw [List.length_append, (slot.hash.getD (FixedBytes.zero _)).property]
    rfl⟩

/-- Decode a slot; unknown versions and formats and too many retries are rejected. -/
def decode (policy : PinPolicy) (buf : List UInt8) : Except Sw PinSlot :=
  if buf.length ≠ pinStateLen then .error .noPreciseDiagnosis
  else if buf[0]? ≠ some pinStateVersion then .error .noPreciseDiagnosis
  else if (buf[1]?.bind PinHashFormat.fromCode) ≠ some policy.format then
    .error .noPreciseDiagnosis
  else
    let retriesRemaining := buf[2]?.getD 0
    if policy.maxAttempts < retriesRemaining then .error .noPreciseDiagnosis
    else
      let hash :=
        if buf[3]?.getD 0 &&& 0x01 ≠ 0 then some (FixedBytes.ofList pinHashLen (buf.drop 4))
        else none
      .ok { policy, hash, retriesRemaining }

/-! ## What the methods do -/

section
variable {sha256 : List UInt8 → FixedBytes 32} {slot slot' : PinSlot} {pin : List UInt8}
  {result : Except Sw Unit} {new : List UInt8}

/-- The slot with a new PIN and all its attempts. -/
def installed (sha256 : List UInt8 → FixedBytes 32) (slot : PinSlot) (pin : List UInt8) : PinSlot :=
  { slot with
    hash := some (PinHash.of sha256 pin slot.policy.format)
    retriesRemaining := slot.policy.maxAttempts }

/-- The slot after a wrong presentation. -/
def attempted (slot : PinSlot) : PinSlot :=
  { slot with retriesRemaining := slot.retriesRemaining - 1 }

theorem set_of_length (h1 : slot.policy.minLen ≤ pin.length)
    (h2 : pin.length ≤ slot.policy.maxLen) :
    slot.set sha256 pin = (.ok (), slot.installed sha256 pin) := by
  unfold set checkLength
  rw [if_neg (by omega)]
  rfl

theorem attempted_toNat (h : slot.retriesRemaining ≠ 0) :
    slot.attempted.retriesRemaining.toNat + 1 = slot.retriesRemaining.toNat := toNat_sub_one h

theorem attempted_lt (h : slot.retriesRemaining ≠ 0) :
    slot.attempted.retriesRemaining < slot.retriesRemaining := by
  have := attempted_toNat h
  exact UInt8.lt_iff_toNat_lt.mpr (by omega)

/-- The slot has a PIN and attempts left, so a candidate is compared. -/
def Compares (slot : PinSlot) : Prop := slot.hash.isSome ∧ slot.retriesRemaining ≠ 0

/-- The slot compares and the candidate is its PIN. -/
def Accepts (sha256 : List UInt8 → FixedBytes 32) (slot : PinSlot) (pin : List UInt8) : Prop :=
  slot.hash = some (PinHash.of sha256 pin slot.policy.format) ∧ slot.retriesRemaining ≠ 0

instance (slot : PinSlot) : Decidable slot.Compares := inferInstanceAs (Decidable (_ ∧ _))

instance (sha256 : List UInt8 → FixedBytes 32) (slot : PinSlot) (pin : List UInt8) :
    Decidable (slot.Accepts sha256 pin) := inferInstanceAs (Decidable (_ ∧ _))

theorem Accepts.compares (h : slot.Accepts sha256 pin) : slot.Compares := ⟨by rw [h.1]; rfl, h.2⟩

/-- A verification succeeds exactly with the PIN of a slot that compares, costs an attempt with
  another candidate, and is refused when nothing is compared. -/
theorem verify_cases (h : slot.verify sha256 pin = (result, slot')) :
    (slot.Accepts sha256 pin ∧ result = .ok () ∧ slot' = slot) ∨
    (slot.Compares ∧ ¬slot.Accepts sha256 pin ∧
      result = .error (.retriesLeft (slot.retriesRemaining - 1)) ∧ slot' = slot.attempted) ∨
    (¬slot.Compares ∧ ∃ sw, result = .error sw ∧ sw.isRetryIndicator = false ∧ slot' = slot) := by
  unfold verify at h
  split at h
  · rename_i hno
    cases h
    refine .inr (.inr ⟨fun hc => ?_, _, rfl, by decide, rfl⟩)
    rw [Compares, hno] at hc
    cases hc.1
  · rename_i hash hhs
    split at h
    · rename_i hr
      cases h
      exact .inr (.inr ⟨fun hc => hc.2 hr, _, rfl, by decide, rfl⟩)
    rename_i hr
    have hi : slot.Accepts sha256 pin ↔ PinHash.verify sha256 hash pin slot.policy.format := by
      rw [PinHash.verify_iff, Accepts, hhs, Option.some_inj]
      exact and_iff_left hr
    split at h
    · rename_i hv
      cases h
      exact .inl ⟨hi.mpr hv, rfl, rfl⟩
    · rename_i hv
      cases h
      exact .inr (.inl ⟨⟨by rw [hhs]; rfl, hr⟩, fun ha => hv (hi.mp ha), rfl, rfl⟩)

/-- A change installs the new PIN, or ends as the verification of the current one does; a new PIN
  of a wrong length changes nothing. -/
theorem change_cases (h : slot.change sha256 pin new = (result, slot')) :
    (slot.Accepts sha256 pin ∧ result = .ok () ∧ slot' = slot.installed sha256 new) ∨
    (slot.Compares ∧ ¬slot.Accepts sha256 pin ∧
      result = .error (.retriesLeft (slot.retriesRemaining - 1)) ∧ slot' = slot.attempted) ∨
    ((slot.Compares → slot.Accepts sha256 pin) ∧ ∃ sw, result = .error sw ∧ slot' = slot) := by
  unfold change at h
  rcases hv : slot.verify sha256 pin with ⟨verified, slot₁⟩
  rw [hv] at h
  obtain ⟨ha, rfl, rfl⟩ | ⟨hc, ha, rfl, rfl⟩ | ⟨hc, sw, rfl, -, rfl⟩ := verify_cases hv
  · simp only [set] at h
    split at h
    · cases h
      exact .inr (.inr ⟨fun _ => ha, _, rfl, rfl⟩)
    · cases h
      exact .inl ⟨ha, rfl, rfl⟩
  · cases h
    exact .inr (.inl ⟨hc, ha, rfl, rfl⟩)
  · cases h
    exact .inr (.inr ⟨fun h => absurd h hc, sw, rfl, rfl⟩)

theorem verify_error_ne {sw : Sw} (h : slot.verify sha256 pin = (.error sw, slot')) :
    sw ≠ .ok := by
  unfold verify at h
  split at h
  · cases h
    decide
  split at h
  · cases h
    decide
  split at h
  · cases h
  · cases h
    exact Sw.retriesLeft_ne_ok _

theorem change_error_ne {sw : Sw}
    (h : slot.change sha256 pin new = (.error sw, slot')) : sw ≠ .ok := by
  unfold change at h
  split at h
  · rename_i hv
    cases h
    exact verify_error_ne hv
  unfold set checkLength at h
  split at h
  · rename_i hl
    split at hl
    · cases hl
      cases h
      decide
    · cases hl
  · cases h

theorem change_of_accepts (ha : slot.Accepts sha256 pin)
    (hmn : slot.policy.minLen ≤ new.length) (hm : new.length ≤ slot.policy.maxLen) :
    slot.change sha256 pin new = (.ok (), slot.installed sha256 new) := by
  rcases hv : slot.verify sha256 pin with ⟨result, slot₁⟩
  obtain ⟨-, rfl, rfl⟩ | ⟨-, hn, -⟩ | ⟨hn, -⟩ := verify_cases hv
  · rw [change, hv]
    exact set_of_length hmn hm
  · exact absurd ha hn
  · exact absurd ha.compares hn

/-- The first halves of `current || new` that can be the current PIN. -/
def currentHalves (slot : PinSlot) (body : List UInt8) : List (List UInt8) :=
  let low := max slot.policy.minLen (body.length - slot.policy.maxLen)
  let high := min slot.policy.maxLen (body.length - slot.policy.minLen)
  (List.range' low (high + 1 - low)).map body.take

/-- Resolving a change finds a half that the slot accepts, and leaves a new PIN of a length that
  the policy allows; or it costs an attempt; or nothing is compared. -/
theorem resolveChange_cases {body : List UInt8} {found : Except Sw (Option Nat)}
    (h : slot.resolveChange sha256 body = (found, slot')) :
    (∃ split, found = .ok (some split) ∧ slot' = slot ∧ slot.Accepts sha256 (body.take split) ∧
      body.take split ∈ slot.currentHalves body ∧
      slot.policy.minLen ≤ (body.drop split).length ∧
      (body.drop split).length ≤ slot.policy.maxLen) ∨
    (slot.Compares ∧ (∀ ha ∈ slot.currentHalves body, ¬slot.Accepts sha256 ha) ∧
      found = .ok none ∧ slot' = slot.attempted) ∨
    (¬slot.Compares ∧ ∃ sw, found = .error sw ∧ sw ≠ .ok ∧ slot' = slot) := by
  unfold resolveChange at h
  split at h
  · rename_i hno
    cases h
    refine .inr (.inr ⟨fun hc => ?_, _, rfl, nofun, rfl⟩)
    rw [Compares, hno] at hc
    cases hc.1
  rename_i hash hhs
  split at h
  · rename_i hr
    cases h
    exact .inr (.inr ⟨fun hc => hc.2 hr, _, rfl, nofun, rfl⟩)
  rename_i hr
  have hi : ∀ ha, slot.Accepts sha256 ha ↔ PinHash.verify sha256 hash ha slot.policy.format := by
    intro ha
    rw [PinHash.verify_iff, Accepts, hhs, Option.some_inj]
    exact and_iff_left hr
  dsimp only at h
  split at h
  · rename_i split hfn
    cases h
    have hv := List.find?_some hfn
    have hm := List.mem_of_find?_eq_some hfn
    have hrn := List.mem_range'_1.mp hm
    refine .inl ⟨split, rfl, rfl, (hi _).mpr hv, List.mem_map_of_mem hm, ?_, ?_⟩ <;>
    · rw [List.length_drop]
      omega
  · rename_i hfn
    cases h
    refine .inr (.inl ⟨⟨by rw [hhs]; rfl, hr⟩, fun ha hhl => ?_, rfl, rfl⟩)
    obtain ⟨split, hm, rfl⟩ := List.mem_map.mp hhl
    rw [hi]
    exact List.find?_eq_none.mp hfn split hm

end

/-! ## The encoding -/

theorem decode_encode {slot : PinSlot}
    (h : slot.retriesRemaining ≤ slot.policy.maxAttempts) :
    decode slot.policy slot.encode.val = .ok slot := by
  obtain ⟨policy, hash, retries⟩ := slot
  have hl : (encode ⟨policy, hash, retries⟩).val.length = pinStateLen := (encode _).property
  unfold decode
  rw [if_neg (not_not.mpr hl)]
  have hf : PinHashFormat.fromCode policy.format.code = some policy.format := by
    rfl
  cases hash with
  | none | some hash => simp [encode, hf, UInt8.not_lt.mpr h]

theorem encode_set (slot : PinSlot) (retries : UInt8) :
    slot.encode.val.set 2 retries = { slot with retriesRemaining := retries }.encode.val := rfl

theorem decode_bounds {policy : PinPolicy} {buf : List UInt8} {slot : PinSlot}
    (h : decode policy buf = .ok slot) :
    slot.policy = policy ∧ slot.retriesRemaining ≤ policy.maxAttempts := by
  unfold decode at h
  iterate 3
    split at h
    · cases h
  dsimp only at h
  split at h
  · cases h
  · rename_i hm
    cases h
    exact ⟨rfl, UInt8.not_lt.mp hm⟩

end PinSlot

/-! ## The session floor -/

/-- Lower a counter to the floor, through the encoding of the slot. -/
def clampToFloor (slot : PinSlot) (floor : UInt8) : PinSlot :=
  if slot.retriesRemaining ≤ floor then slot
  else
    match PinSlot.decode slot.policy (slot.encode.val.set 2 floor) with
    | .ok clamped => clamped
    | .error _ => slot

/-- Within the policy, the counter becomes the smaller of the two. -/
theorem clampToFloor_eq {slot : PinSlot} {floor : UInt8} (h : floor ≤ slot.policy.maxAttempts) :
    clampToFloor slot floor = { slot with retriesRemaining := min slot.retriesRemaining floor } := by
  change _ = { slot with
    retriesRemaining := if slot.retriesRemaining ≤ floor then slot.retriesRemaining else floor }
  unfold clampToFloor
  split
  · rfl
  let lowered : PinSlot := { slot with retriesRemaining := floor }
  have hd : PinSlot.decode slot.policy lowered.encode.val = .ok lowered :=
    PinSlot.decode_encode h
  rw [PinSlot.encode_set]
  simp only [lowered] at hd
  simp only [hd]

theorem toNat_min (a b : UInt8) : (min a b).toNat = min a.toNat b.toNat := by
  change (if a ≤ b then a else b).toNat = if a.toNat ≤ b.toNat then a.toNat else b.toNat
  simp only [UInt8.le_iff_toNat_le]
  split <;> rfl

/-! ## Values of the primitives in the example runs -/

/-- SHA-256 of `"12345678"`. -/
def eightDigitsHash : FixedBytes 32 :=
  ⟨toBE 32 0xef797c8118f02dfb649607dd5d3f8c7623048c9c063d532cc95c5ed7a898a64f, rfl⟩

/-- The P-256 key `1`, and the two halves of its signature over the digest `1`. -/
def pointOne : FixedBytes 65 :=
  ⟨0x04 :: (toBE 32 0x6b17d1f2e12c4247f8bce6e563a440f277037d812deb33a0f4a13945d898c296 ++
    toBE 32 0x4fe342e2fe1a7f9b8ee7eb4a7c0f9e162bce33576b315ececbb6406837bf51f5), rfl⟩

def signatureR : List UInt8 :=
  toBE 32 0x4b5c41b83db4cdef7604f3c9cc213cf2dc614962ece259ae18f20472c7b8b73d

def signatureS : List UInt8 :=
  toBE 32 0x821dfbae0eee5c57777665eca707fc0d3fb95c8b682213037e98474f00694b50

end AegisToken.Applets
