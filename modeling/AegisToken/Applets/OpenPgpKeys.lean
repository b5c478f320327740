/-
  Numbers and keys in OpenPGP messages: which encodings of an RSA ciphertext the card reads
  (`rsaCipherBlock_iff`), and that the packets hashed as fingerprints can be read, but for those of
  Ed25519 keys (`fingerprint_packet_iff`).
-/
import AegisToken.Applets.OpenPgpImage

namespace AegisToken.Applets.OpenPgp
open ByteCodec

/-! ## Ciphertexts -/

/-- The minimal OpenPGP MPI of a number. -/
def mpi (n : Nat) : List UInt8 := toBE 2 (bits n) ++ toBE ((bits n + 7) / 8) n

theorem bits_le_iff {n k : Nat} : bits n ≤ k ↔ n < 2 ^ k := by
  unfold bits
  split
  · rename_i h
    rw [h]
    exact iff_of_true (Nat.zero_le k) (Nat.pow_pos (by decide))
  · exact Nat.log2_lt ‹_›

theorem bits_pos {n : Nat} (h : n ≠ 0) : 0 < bits n := by
  rw [bits, if_neg h]
  exact Nat.succ_pos _

/-- A ciphertext is taken from each of its encodings, except from an MPI of 254 octets: that is as
  long as a block and is taken for one. -/
theorem rsaCipherBlock_iff {n : Nat} (hpos : 0 < n) (hn : n < 2 ^ 2048)
    {block : FixedBytes rsa2048Bytes} (hblock : ofBE block.val = n) :
    rsaCipherBlock block.val = some block ∧
    (∀ lead ∈ [(0x00 : UInt8), 0x02], rsaCipherBlock (lead :: block.val) = some block) ∧
    (rsaCipherBlock (mpi n) = some block ↔ ¬(2 ^ 2024 ≤ n ∧ n < 2 ^ 2032)) := by
  have hbytes : rsa2048Bytes = 256 := rfl
  have hlen := block.property
  refine ⟨?_, ?_, ?_⟩
  · rw [rsaCipherBlock, if_pos hlen, FixedBytes.ofList_val]
  · intro lead hlead
    rw [rsaCipherBlock, List.length_cons, hlen, if_neg nofun,
      if_pos ⟨rfl, by simpa using hlead⟩, List.drop_one, List.tail_cons, FixedBytes.ofList_val]
  have hmax := bits_le_iff.mpr hn
  have hmin := bits_pos hpos.ne'
  rw [← Nat.not_lt, ← bits_le_iff, ← bits_le_iff]
  generalize ho : (bits n + 7) / 8 = o
  have hmpi : mpi n = toBE 2 (bits n) ++ toBE o n := by rw [mpi, ho]
  have hlen : (mpi n).length = 2 + o := by
    rw [hmpi, List.length_append, length_toBE, length_toBE]
  have hfits : n < 256 ^ o := by
    rw [← two_pow_eight_mul]
    exact bits_le_iff.mp (by omega)
  have hwide : block.val = List.replicate (rsa2048Bytes - o) 0 ++ toBE o n := by
    have hback := toBE_ofBE block.val
    rw [← toBE_add _ hfits, ← hback, block.property, hblock]
    congr 1
    omega
  rw [rsaCipherBlock, hlen]
  by_cases hsize : o = 254
  · rw [if_pos (by omega)]
    refine iff_of_false (fun h => ?_) (by omega)
    have hval := congrArg Subtype.val (Option.some.inj h)
    rw [FixedBytes.val_ofList (by omega), hwide, hmpi, hsize] at hval
    have hzero := congrArg ofBE (List.append_inj hval (length_toBE _ _)).1
    rw [ofBE_toBE (by omega)] at hzero
    exact hmin.ne' hzero
  · have hhead : ¬(2 + o = rsa2048Bytes + 1 ∧
        ((mpi n).headD 0 = 0x00 ∨ (mpi n).headD 0 = 0x02)) := by
      rintro ⟨h, hlead⟩
      rw [show (mpi n).headD 0 = UInt8.ofNat (bits n / 256) from rfl,
        show bits n / 256 = 7 by omega] at hlead
      exact absurd hlead nofun
    have hbits : ofBE ((mpi n).take 2) = bits n := by
      rw [hmpi, List.take_left' (length_toBE _ _), ofBE_toBE (by omega)]
    have hdrop : (mpi n).drop 2 = toBE o n := by rw [hmpi, List.drop_left' (length_toBE _ _)]
    dsimp only
    rw [if_neg (by omega), if_neg hhead, if_pos (by omega), hbits, hdrop, length_toBE,
      if_pos ⟨hmax, ho⟩, ← hwide, FixedBytes.ofList_val]
    exact iff_of_true rfl (by omega)

/-- The ciphertext 1 is read from its MPI. -/
theorem rsaCipherBlock_iff_one :
    rsaCipherBlock (mpi 1) = some (toBeBytes rsa2048Bytes 1) := by
  have hpow : ∀ {k : Nat}, k ≠ 0 → 1 < 2 ^ k := Nat.one_lt_two_pow
  have hone : 1 < 2 ^ 2048 := hpow nofun
  refine (rsaCipherBlock_iff Nat.one_pos hone (ofBE_modulusBytes hone)).2.2.mpr fun h => ?_
  exact absurd (hpow (by decide)) (Nat.not_lt.mpr h.1)

/-- An MPI of 254 octets comes out as it is, with its bit count in front. -/
theorem mpi_taken_for_block :
    rsaCipherBlock (mpi (2 ^ 2024)) ≠ some (toBeBytes rsa2048Bytes (2 ^ 2024)) ∧
      rsaCipherBlock (mpi (2 ^ 2024)) = some (FixedBytes.ofList _ (mpi (2 ^ 2024))) := by
  decide +kernel

/-! ## Key packets -/

/-- A public key: an RSA modulus and exponent, or a point on a curve. -/
inductive PublicKey where
  | rsa (n e : Nat)
  | curve (oid point : List UInt8)
deriving DecidableEq

/-- A well-formed MPI in front of other bytes: as many octets as the bit count asks for, the first
  one not zero. -/
def readMpi (bytes : List UInt8) : Option (List UInt8 × List UInt8) :=
  let octets := (bytes.drop 2).take ((ofBE (bytes.take 2) + 7) / 8)
  if octets.length ≠ (ofBE (bytes.take 2) + 7) / 8 ∨ octets.headD 0 = 0 then none
  else some (octets, (bytes.drop 2).drop octets.length)

/-- A point. On Ed25519 and X25519 it has the prefix `40`. -/
def readPoint (oid bytes : List UInt8) : Option PublicKey := do
  let (octets, _) ← readMpi bytes
  if oid = oidP256 then some (.curve oid octets)
  else if octets.headD 0 = 0x40 then some (.curve oid octets.tail)
  else none

def readKey : List UInt8 → Option PublicKey
  | 0x01 :: rest => do
    let (n, rest) ← readMpi rest
    let (e, _) ← readMpi rest
    some (.rsa (ofBE n) (ofBE e))
  | _ :: size :: rest => readPoint (rest.take size.toNat) (rest.drop size.toNat)
  | _ => none

/-- The public key in a packet of version 4 with creation time zero. -/
def readPacket (body : List UInt8) : Option PublicKey :=
  if body.take 5 = [0x04, 0, 0, 0, 0] then readKey (body.drop 5) else none

def publicKey {σ : Type} (K : PgpCrypto) (c : OpenPgp σ) (slot : Fin 3) : Option PublicKey :=
  let algo := (c.keys slot).effectiveAlgo slot
  if algo = keyAlgoRsa2048 then
    (c.keys slot).rsaKey.map fun key => .rsa (ofBE key.n.val) key.e.toNat
  else (c.slotPublic K slot).map (.curve (curveOid algo))

variable {σ : Type} {K : PgpCrypto} {octets : List UInt8}

theorem readMpi_eq (h : octets.length < 8192) (hb : octets.headD 0 ≠ 0) (rest : List UInt8) :
    readMpi (toBE 2 (mpiBits octets) ++ octets ++ rest) = some (octets, rest) := by
  cases octets with
  | nil => exact absurd rfl hb
  | cons b bytes =>
    have hm : bits b.toNat ≤ 8 := bits_le_iff.mpr b.toNat_lt
    have hn : 0 < bits b.toNat := bits_pos fun h0 => hb (UInt8.toNat_inj.mp h0)
    have ht : mpiBits (b :: bytes) = bytes.length * 8 + bits b.toNat := if_neg hb
    rw [List.length_cons] at h
    have ho : (mpiBits (b :: bytes) + 7) / 8 = (b :: bytes).length := by
      rw [ht, List.length_cons]
      omega
    unfold readMpi
    rw [List.append_assoc, List.take_left' (length_toBE _ _), List.drop_left' (length_toBE _ _),
      ofBE_toBE (by omega), ho, List.take_left]
    exact (if_neg (not_or.mpr ⟨not_not.mpr rfl, hb⟩)).trans (by rw [List.drop_left])

theorem readMpi_length {bytes rest : List UInt8} (h : readMpi bytes = some (octets, rest)) :
    octets.length ≤ bytes.length - 2 := by
  unfold readMpi at h
  dsimp only at h
  split_ifs at h
  cases h
  rw [List.length_take, List.length_drop]
  exact Nat.min_le_right _ _

theorem readKey_rsa {n e : List UInt8} (hn : n.headD 0 ≠ 0) (hnl : n.length < 8192)
    (he : e.headD 0 ≠ 0) (hel : e.length < 8192) :
    readKey (0x01 :: (toBE 2 (mpiBits n) ++ n ++ (toBE 2 (mpiBits e) ++ e))) =
      some (.rsa (ofBE n) (ofBE e)) := by
  have h := readMpi_eq hel he []
  rw [List.append_nil] at h
  rw [readKey, readMpi_eq hnl hn]
  simp only [Option.bind_eq_bind, Option.bind_some, h]

theorem readPacket_curve {algo size : UInt8} {oid : List UInt8} (ha : algo ≠ 1)
    (hs : oid.length = size.toNat) (rest : List UInt8) :
    readPacket ([0x04, 0, 0, 0, 0, algo, size] ++ (oid ++ rest)) = readPoint oid rest := by
  change readKey (algo :: size :: (oid ++ rest)) = _
  rw [readKey, List.take_left' hs, List.drop_left' hs]
  exact ha

/-- The octets of a number other than zero start with one other than zero. -/
theorem trimZeros_eq {bytes : List UInt8} (h : ofBE bytes ≠ 0) : (trimZeros bytes).headD 0 ≠ 0 ∧
    ofBE (trimZeros bytes) = ofBE bytes ∧ (trimZeros bytes).length ≤ bytes.length := by
  have hd : ∃ b rest, bytes.dropWhile (· = 0) = b :: rest ∧ b ≠ 0 ∧
      ofBE (b :: rest) = ofBE bytes ∧ rest.length < bytes.length := by
    induction bytes with
    | nil => exact absurd rfl h
    | cons b bytes ih =>
      by_cases hb : b = 0
      · have hz : ofBE (b :: bytes) = ofBE bytes := by rw [ofBE_cons, hb]; simp
        rw [hz] at h ⊢
        obtain ⟨b', rest, ht, hb', ho, hl⟩ := ih h
        exact ⟨b', rest, by simpa [hb] using ht, hb', ho, Nat.lt_succ_of_lt hl⟩
      · exact ⟨b, bytes, by simp [hb], hb, rfl, Nat.lt_succ_self _⟩
  obtain ⟨b, rest, ht, hr⟩ := hd
  simp only [trimZeros, ht]
  exact hr

theorem rsaKey_pos {k : KeySlot} {key : Rsa2048PrivateKey} (h : k.rsaKey = some key) :
    ofBE key.n.val ≠ 0 ∧ key.e.toNat ≠ 0 := by
  unfold KeySlot.rsaKey Rsa2048PrivateKey.fromBlob at h
  dsimp only at h
  split_ifs at h with h1 h2 h3 h4 h5
  cases h
  rw [Option.isNone_iff_eq_none, oddNew] at h4
  refine ⟨fun h0 => h4 (if_neg (by rw [h0]; decide)), fun h0 => h3 (.inl ?_)⟩
  rw [UInt32.lt_iff_toNat_lt, h0]
  decide

/-- The octets of the MPI of a point. -/
def pointOctets (algo : UInt8) (point : List UInt8) : List UInt8 :=
  if algo = keyAlgoEcdhX25519 then 0x40 :: point else point

theorem readPoint_p256 {point : FixedBytes 65} (h : point.val.headD 0 = 0x04) (rest : List UInt8) :
    readPoint oidP256 (toBE 2 (mpiBits point.val) ++ point.val ++ rest) =
      some (.curve oidP256 point.val) := by
  rw [readPoint, readMpi_eq (by rw [point.property]; decide) (by rw [h]; decide)]
  rfl

theorem readPoint_x25519 (point : FixedBytes 32) (rest : List UInt8) :
    readPoint oidX25519 (toBE 2 (mpiBits (0x40 :: point.val)) ++ 0x40 :: point.val ++ rest) =
      some (.curve oidX25519 point.val) := by
  have hl : (0x40 :: point.val).length < 8192 := by
    rw [List.length_cons, point.property]
    decide
  rw [readPoint, readMpi_eq hl (show (0x40 : UInt8) ≠ 0 by decide)]
  rfl

/-- Without a prefix the octets are one too few. -/
theorem readPoint_ed25519 (point : FixedBytes 32) :
    readPoint oidEd25519 (toBE 2 (mpiBits point.val) ++ point.val) ≠
      some (.curve oidEd25519 point.val) := by
  intro h
  obtain ⟨⟨octets, _⟩, hm, h⟩ := Option.bind_eq_some_iff.mp h
  dsimp only at h
  rw [if_neg nofun] at h
  split_ifs at h
  injection h with h
  injection h with _ h
  have hl := readMpi_length hm
  have ht := congrArg List.length h
  rw [List.length_append, length_toBE, point.property] at hl
  rw [List.length_tail, point.property] at ht
  omega

section
variable {c : OpenPgp σ} {slot : Fin 3} (hp : (c.keys slot).present = true)
include hp

theorem fingerprint_rsa (ha : (c.keys slot).effectiveAlgo slot = keyAlgoRsa2048)
    {k : Rsa2048PrivateKey} (hk : (c.keys slot).rsaKey = some k) :
    ∃ body, (∀ sha1, c.fingerprint { K with sha1 } slot = some (sha1 (fingerprintInput body))) ∧
      readPacket body = some (.rsa (ofBE k.n.val) k.e.toNat) := by
  obtain ⟨hn, he⟩ := rsaKey_pos hk
  have he4 : ofBE (toBE 4 k.e.toNat) = k.e.toNat := ofBE_toBE k.e.toNat_lt
  obtain ⟨hna, hno, hnl⟩ := trimZeros_eq hn
  obtain ⟨hea, heo, hel⟩ := trimZeros_eq (he4 ▸ he)
  rw [k.n.property] at hnl
  rw [length_toBE] at hel
  rw [← hno, ← he4, ← heo]
  refine ⟨_, fun sha1 => by rw [fingerprint, hp, ha, rsaFingerprint, hk]; rfl, ?_⟩
  rw [List.append_assoc]
  exact readKey_rsa hna (hnl.trans_lt (by decide)) hea (hel.trans_lt (by decide))

theorem fingerprint_curve {algo : UInt8} (ha : (c.keys slot).effectiveAlgo slot = algo)
    (hr : algo ≠ keyAlgoRsa2048) {point : List UInt8} (hpt : c.slotPublic K slot = some point) :
    ∃ body rest,
      (∀ sha1, c.fingerprint { K with sha1 } slot = some (sha1 (fingerprintInput body))) ∧
      readPacket body = readPoint (curveOid algo)
        (toBE 2 (mpiBits (pointOctets algo point)) ++ pointOctets algo point ++ rest) ∧
      (algo = keyAlgoEddsa → rest = []) := by
  have hfp := fun sha1 => (show c.slotPublic { K with sha1 } slot = some point from hpt)
  have hid : (if algo = keyAlgoEcdhP256 ∨ algo = keyAlgoEcdhX25519 then algoEcdh
      else if algo = keyAlgoEddsa then algoEddsa else algoEcdsa) ≠ 1 := by
    split_ifs <;> decide
  have hoid : (curveOid algo).length = (UInt8.ofNat (curveOid algo).length).toNat := by
    unfold curveOid
    split_ifs <;> decide
  unfold fingerprint
  simp only [hp, Bool.not_true, Bool.false_eq_true, if_false, ha, if_neg hr, hfp,
    Option.bind_eq_bind, Option.bind_some]
  refine ⟨_, ?rest, fun sha1 => rfl, ?_, ?_⟩
  rotate_left
  · rw [List.append_assoc, List.append_assoc, List.append_assoc, readPacket_curve hid hoid,
      ← List.append_assoc]
    rfl
  · rintro rfl
    rfl

end

/-- The byte string that a fingerprint hashes is a key packet from which the public key is read
  back, exactly if the key is not one of Ed25519. -/
theorem fingerprint_packet_iff {c : OpenPgp σ} {slot : Fin 3} {key : PublicKey}
    (hK : ∀ scalar point, K.p256Public scalar = some point → point.val.headD 0 = 0x04)
    (hp : (c.keys slot).present = true) (hkey : publicKey K c slot = some key) :
    ∃ body, (∀ sha1, c.fingerprint { K with sha1 } slot = some (sha1 (fingerprintInput body))) ∧
      (readPacket body = some key ↔ (c.keys slot).effectiveAlgo slot ≠ keyAlgoEddsa) := by
  unfold publicKey at hkey
  generalize ha : (c.keys slot).effectiveAlgo slot = algo at *
  dsimp only at hkey
  by_cases hr : algo = keyAlgoRsa2048
  · rw [if_pos hr] at hkey
    obtain ⟨k, hk, rfl⟩ := Option.map_eq_some_iff.mp hkey
    obtain ⟨body, hh, hread⟩ := fingerprint_rsa (K := K) hp (ha.trans hr) hk
    exact ⟨body, hh, iff_of_true hread (by rw [hr]; decide)⟩
  rw [if_neg hr] at hkey
  obtain ⟨point, hpt, rfl⟩ := Option.map_eq_some_iff.mp hkey
  obtain ⟨body, rest, hh, hread, hrest⟩ := fingerprint_curve hp ha hr hpt
  refine ⟨body, hh, ?_⟩
  rw [hread]
  unfold slotPublic at hpt
  simp only [ha, if_neg hr] at hpt
  by_cases he : algo = keyAlgoEddsa
  · subst he
    cases hpt
    rw [hrest rfl, List.append_nil]
    exact iff_of_false (readPoint_ed25519 _) (not_not.mpr rfl)
  rw [if_neg he] at hpt
  refine iff_of_true ?_ he
  by_cases hx : algo = keyAlgoEcdhX25519
  · subst hx
    cases hpt
    exact readPoint_x25519 _ rest
  · rw [if_neg hx] at hpt
    obtain ⟨p, hpub, rfl⟩ := Option.map_eq_some_iff.mp hpt
    rw [pointOctets, if_neg hx, curveOid, if_neg he, if_neg hx]
    exact readPoint_p256 (hK _ _ hpub) rest

/-- A card with the scalar `1` in every slot. -/
def cardOne (algo : UInt8) : OpenPgp (Option (List UInt8)) :=
  { new none with keys := fun _ => curveKey algo scalarOne }

theorem fingerprint_packet_iff_p256 : ∃ body,
    (∀ sha1, (cardOne keyAlgoEcdsaP256).fingerprint { exampleCrypto with sha1 } 0 =
      some (sha1 (fingerprintInput body))) ∧
    readPacket body = some (.curve oidP256 pointOne.val) := by
  have hK : ∀ scalar point, exampleCrypto.p256Public scalar = some point →
      point.val.headD 0 = 0x04 := by
    intro scalar point h
    simp only [exampleCrypto] at h
    split_ifs at h
    cases h
    rfl
  have hkey : publicKey exampleCrypto (cardOne keyAlgoEcdsaP256) 0 =
      some (.curve oidP256 pointOne.val) := by
    decide +kernel
  obtain ⟨body, hh, hiff⟩ := fingerprint_packet_iff hK rfl hkey
  exact ⟨body, hh, hiff.mpr nofun⟩

/-- The packet of a key of Ed25519 has no prefix, and no key is read from it. -/
theorem ed25519_packet_unread : ∃ body,
    (∀ sha1, (cardOne keyAlgoEddsa).fingerprint { exampleCrypto with sha1 } 0 =
      some (sha1 (fingerprintInput body))) ∧ readPacket body = none := by
  have hpt : (cardOne keyAlgoEddsa).slotPublic exampleCrypto 0 = some edPointOne.val := by
    decide +kernel
  obtain ⟨body, rest, hh, hread, hrest⟩ := fingerprint_curve rfl rfl (by decide) hpt
  refine ⟨body, hh, ?_⟩
  rw [hread, hrest rfl]
  decide +kernel

end AegisToken.Applets.OpenPgp
