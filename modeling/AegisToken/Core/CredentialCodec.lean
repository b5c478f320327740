/-
  The size of the credential database (aegis-core credential_store.rs `encode_db`).
  With an encoder that writes shortest heads, a credential takes at most 215 bytes and a database of
  eight credentials at most 1771. So `encode_db` never runs out of its buffer of 2048 bytes, the
  sealed record fits a slot, and `decode_db` gives the database back: `encodeDb_round_trip`.
-/
import Mathlib.Algebra.Order.BigOperators.Group.List
import AegisToken.Core.CredentialStore

namespace AegisToken
open ByteCodec Wire

variable {C : Cbor}

/-! ## Items of bounded size -/

theorem length_slice_le (hC : C.Minimal) {n : Nat} (b : BoundedBytes n) (h : n < 2 ^ 64) :
    (C.bytes.encode (slice b h)).length ≤ headLen n + n := by
  rw [hC.bytes]
  exact Nat.add_le_add (headLen_mono b.property) b.property

theorem length_arraySlice (hC : C.Minimal) {n : Nat} (b : FixedBytes n) (h : n < 2 ^ 64) :
    (C.bytes.encode (arraySlice b h)).length = headLen n + n := by
  have hl : (arraySlice b h).val.length = n := b.property
  rw [hC.bytes, hl]

theorem length_text_le (hC : C.Minimal) {n : Nat} (t : FixedString n) (h : n < 2 ^ 64) :
    (C.str.encode (t.text h)).length ≤ headLen n + n := by
  rw [hC.str]
  exact Nat.add_le_add (headLen_mono t.property.1) t.property.1

theorem length_u32_le (hC : C.Minimal) (v : UInt32) : (C.u32.encode v).length ≤ 5 := by
  rw [hC.u32]
  exact headLen_mono (Nat.le_pred_of_lt v.toNat_lt)

theorem length_u64_le (hC : C.Minimal) (v : UInt64) : (C.u64.encode v).length ≤ 9 := by
  rw [hC.u64]
  exact headLen_mono (Nat.le_pred_of_lt v.toNat_lt)

theorem length_u8_le (hC : C.Minimal) (v : UInt8) : (C.u8.encode v).length ≤ 2 := by
  rw [hC.u8]
  exact headLen_mono (Nat.le_pred_of_lt v.toNat_lt)

theorem length_key (hC : C.Minimal) (k : UInt8) (h : k.toNat < 24) :
    (C.u8.encode k).length = 1 := by
  rw [hC.u8]
  exact if_pos h

/-! ## Credentials and databases -/

/-- The largest encoded credential: a map header, seven keys, and the seven values. -/
def maxCredentialBytes : Nat := 215

def maxDatabaseBytes : Nat := 1771

theorem Credential.length_encode_le (hC : C.Minimal) (c : Credential) :
    (c.encode C).length ≤ maxCredentialBytes := by
  have hh : (C.map.encode (some 7)).length = 1 := hC.map 7
  have hid : _ ≤ 2 + 32 := length_slice_le hC c.id (by decide)
  have hrp : _ ≤ 2 + 64 := length_text_le hC c.rpId (by decide)
  have hu : _ ≤ 2 + 64 := length_slice_le hC c.userId (by decide)
  have hp : _ = 2 + 32 := length_arraySlice hC c.privateKey (by decide)
  have hcn := length_u32_le hC c.signCount
  have ha : (C.i64.encode c.algorithm.code).length = 1 := by
    rw [hC.i64]
    cases c.algorithm <;> rfl
  simp only [Credential.encode, Credential.encodeEntries, List.length_append, hh,
    length_key hC 0 (by decide), length_key hC 1 (by decide), length_key hC 2 (by decide),
    length_key hC 3 (by decide), length_key hC 4 (by decide), length_key hC 5 (by decide),
    length_key hC 6 (by decide), hC.bool, ha, maxCredentialBytes]
  omega

theorem Database.length_encodePin_le (hC : C.Minimal) (pin : Option (FixedBytes 32)) :
    (encodePin C pin).length ≤ 34 := by
  cases pin with
  | none =>
    change (C.null.encode ()).length ≤ 34
    rw [hC.null]
    decide
  | some hash => exact Nat.le_of_eq (length_arraySlice hC hash (by decide))

theorem Database.length_credentials_le (hC : C.Minimal) (cache : Cache) :
    (cache.val.flatMap (Credential.encode C)).length ≤ maxCredentials * maxCredentialBytes := by
  have hs : (cache.val.map fun c => (c.encode C).length).sum ≤
      (cache.val.map fun c => (c.encode C).length).length * maxCredentialBytes := by
    refine List.sum_le_card_nsmul _ _ fun n hn => ?_
    obtain ⟨c, -, rfl⟩ := List.mem_map.mp hn
    exact c.length_encode_le hC
  rw [List.length_map] at hs
  rw [List.length_flatMap]
  exact Nat.le_trans hs (Nat.mul_le_mul_right _ cache.property)

theorem Database.length_bytes_le (hC : C.Minimal) (db : Database) :
    (db.bytes C).length ≤ maxDatabaseBytes := by
  have hh : (C.map.encode (some 4)).length = 1 := hC.map 4
  have hc := length_u64_le hC db.counter
  have hcn : (C.array.encode (some (UInt64.ofNat db.cache.val.length))).length ≤ 1 := by
    have hle : db.cache.val.length ≤ 8 := db.cache.property
    rw [hC.array, UInt64.toNat_ofNat', Nat.mod_eq_of_lt (by omega)]
    exact headLen_mono hle
  have hcr : _ ≤ 8 * 215 := length_credentials_le hC db.cache
  have hp := length_encodePin_le hC db.pinHash
  have hr := length_u8_le hC db.pinRetries
  simp only [bytes, encodeEntries, List.length_append, hh, length_key hC 0 (by decide),
    length_key hC 1 (by decide), length_key hC 2 (by decide), length_key hC 3 (by decide),
    maxDatabaseBytes]
  omega

theorem Database.fits_of_minimal (hC : C.Minimal) (db : Database) : db.Fits C :=
  Nat.le_trans (db.length_bytes_le hC) (by decide)

/-- A database of any credentials is encoded into its buffer, its sealed record fits a slot, and it
  is decoded to itself. -/
theorem encodeDb_round_trip (s : SealedCredentialStore) (hC : s.cbor.Minimal) (db : Database) :
    ∃ plain blob, db.encodeDb s.cbor = .ok plain ∧ plain.length ≤ maxSealedPlain ∧
      s.aead.sealInto (SealedCredentialStore.nonce db.counter) plain
        (maxPayloadBytes - nonceLen) = .ok blob ∧
      (SealedCredentialStore.nonce db.counter ++ blob).length ≤ maxPayloadBytes ∧
      Database.decodeDb s.cbor plain = .ok db := by
  have hfit := db.fits_of_minimal hC
  have hroom : (db.bytes s.cbor).length + tagLen ≤ maxPayloadBytes - nonceLen :=
    Nat.le_trans (Nat.add_le_add_right hfit tagLen) (by decide)
  exact ⟨db.bytes s.cbor, _, if_pos hfit, hfit, Aead.sealInto_eq hroom,
    SealedCredentialStore.record_fits hfit, Database.decodeDb_bytes s.cbor db⟩

def largestCredential (algorithm : CoseAlg) : Credential where
  id := ⟨List.replicate 32 0xFF, by decide⟩
  rpId := ⟨List.replicate 64 0x61, by decide⟩
  userId := ⟨List.replicate 64 0xFF, by decide⟩
  privateKey := ⟨List.replicate 32 0xFF, by decide⟩
  algorithm
  signCount := 0xFFFFFFFF
  discoverable := true

def largestDatabase : Database where
  cache := ⟨List.replicate 8 (largestCredential .eddsa), by decide⟩
  counter := 0xFFFFFFFFFFFFFFFF
  pinHash := some ⟨List.replicate 32 0xFF, by decide⟩
  pinRetries := 0xFF

theorem encodeDb_round_trip_largest :
    (largestDatabase.bytes Cbor.heads).length = maxDatabaseBytes ∧
    ∃ plain blob, largestDatabase.encodeDb Cbor.heads = .ok plain ∧
      plain.length ≤ maxSealedPlain ∧
      Aead.plain.sealInto (SealedCredentialStore.nonce largestDatabase.counter) plain
        (maxPayloadBytes - nonceLen) = .ok blob ∧
      (SealedCredentialStore.nonce largestDatabase.counter ++ blob).length ≤ maxPayloadBytes ∧
      Database.decodeDb Cbor.heads plain = .ok largestDatabase :=
  ⟨by decide +kernel,
    encodeDb_round_trip ⟨sectorPair 0, Aead.plain, Cbor.heads⟩ Cbor.heads_minimal largestDatabase⟩

end AegisToken
