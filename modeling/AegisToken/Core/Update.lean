/-
  Firmware packages and chunked updates (aegis-core update.rs).
  A package is verified in one call (`verifyPackage`), or written in chunks to a staging area and
  read back (`UpdateSession`). SHA-256 and ECDSA are the parameter `C`; a hasher is the bytes it was
  fed. The staging area is any storage that reads back what was written (`StagingArea`).
  `update_session_verifies`: the chunked run gives what the one call gives for the whole package,
  however the image is cut, and a session that finishes has received such an image.
-/
import AegisToken.Core.Storage
import AegisToken.Lib.Runs

namespace AegisToken.Update
open ByteCodec

variable {bytes : List UInt8}

/-! ## Packages -/

def magic : List UInt8 := [0x41, 0x47, 0x46, 0x55]
def formatVersion : Nat := 1
/-- Number of header bytes covered by the signature, and the offset of the signature. -/
def signedHeaderLen : Nat := 51
def headerLen : Nat := 115
def signatureLen : Nat := 64

structure FirmwareVersion where
  major : UInt8
  minor : UInt8
  patch : UInt8
deriving DecidableEq

structure PackageHeader where
  rollback : UInt32
  version : FirmwareVersion
  imageLen : UInt32
  imageSha256 : FixedBytes 32
  signature : FixedBytes signatureLen

/-- `bytes[start..start + n]`. -/
def field (bytes : List UInt8) (start n : Nat) : List UInt8 := (bytes.drop start).take n

theorem length_field {start n : Nat} (h : start + n ≤ bytes.length) :
    (field bytes start n).length = n := by
  unfold field
  rw [List.length_take, List.length_drop]
  omega

theorem field_append (rest : List UInt8) {start n : Nat} (h : start + n ≤ bytes.length) :
    field (bytes ++ rest) start n = field bytes start n := by
  unfold field
  rw [List.drop_append_of_le_length (by omega),
    List.take_append_of_le_length (by rw [List.length_drop]; omega)]

namespace PackageHeader

def imageLenOf (bytes : List UInt8) : UInt32 := UInt32.ofNat (ofLE (field bytes 15 4))

/-- Parse and structurally validate a header. -/
def parse (bytes : List UInt8) : Except CoreError PackageHeader :=
  if h : bytes.length < headerLen then .error .firmwareError
  else if field bytes 0 4 ≠ magic then .error .firmwareError
  else if ofLE (field bytes 4 2) ≠ formatVersion then .error .firmwareError
  else if ofLE (field bytes 6 2) ≠ headerLen then .error .firmwareError
  else
    have hlen : 115 ≤ bytes.length := Nat.le_of_not_lt h
    .ok {
      rollback := UInt32.ofNat (ofLE (field bytes 8 4))
      version := ⟨bytes[12], bytes[13], bytes[14]⟩
      imageLen := imageLenOf bytes
      imageSha256 := ⟨field bytes 19 32, length_field (by omega)⟩
      signature := ⟨field bytes signedHeaderLen signatureLen,
        length_field (by unfold signedHeaderLen signatureLen; omega)⟩ }

end PackageHeader

/-- A package that passed verification. -/
structure VerifiedImage where
  version : FirmwareVersion
  rollback : UInt32
  imageLen : UInt32
deriving DecidableEq

/-- SHA-256 and ECDSA over P-256 (the `sha2` and `p256` crates). -/
structure UpdateCrypto where
  VerifyingKey : Type
  Signature : Type
  sha256 : List UInt8 → FixedBytes 32
  fromSec1Bytes : List UInt8 → Option VerifyingKey
  fromSlice : FixedBytes signatureLen → Option Signature
  verifyPrehash : VerifyingKey → FixedBytes 32 → Signature → Bool

variable (C : UpdateCrypto)

def verifySignature (keySec1 : List UInt8) (prehash : FixedBytes 32)
    (signature : FixedBytes signatureLen) : Bool :=
  match C.fromSec1Bytes keySec1, C.fromSlice signature with
  | some key, some signature => C.verifyPrehash key prehash signature
  | _, _ => false

/-- The checks that both ways to verify end with, on the digests of the image and of the signed
  header and image. -/
def PackageHeader.accept (header : PackageHeader) (image prehash : FixedBytes 32)
    (keySec1 : List UInt8) (minRollback : UInt32) : Except CoreError VerifiedImage :=
  if image ≠ header.imageSha256 then .error .firmwareError
  else if header.rollback < minRollback then .error .firmwareError
  else if !verifySignature C keySec1 prehash header.signature then .error .firmwareError
  else .ok ⟨header.version, header.rollback, header.imageLen⟩

/-- Verify a complete package against the vendor key and rollback floor. -/
def verifyPackage (package vendorKeySec1 : List UInt8) (minRollback : UInt32) :
    Except CoreError VerifiedImage := do
  let header ← PackageHeader.parse package
  if package.length < headerLen + header.imageLen.toNat then .error .firmwareError
  else
    let image := field package headerLen header.imageLen.toNat
    header.accept C (C.sha256 image) (C.sha256 (package.take signedHeaderLen ++ image))
      vendorKeySec1 minRollback

/-! ## Sessions -/

/-- `Storage`, as functions on the state of the storage. A read fills a buffer. -/
structure Storage (σ : Type) where
  read : σ → UInt32 → (n : Nat) → Except CoreError (FixedBytes n) × σ
  write : σ → UInt32 → List UInt8 → Except CoreError Unit × σ
  erase : σ → UInt32 → UInt32 → Except CoreError Unit × σ

structure UpdateSession where
  header : PackageHeader
  signedPrefix : List UInt8
  keySec1 : BoundedBytes 65
  minRollback : UInt32
  base : UInt32
  eraseSize : UInt32
  received : UInt32

variable {σ : Type} (S : Storage σ)

/-- The length to erase: the image length, rounded up to `eraseSize`. -/
def eraseLen (imageLen eraseSize : UInt32) : UInt32 :=
  UInt32.ofNat ((imageLen.toNat + eraseSize.toNat - 1) / eraseSize.toNat) * eraseSize

namespace UpdateSession

/-- Validate a header and prepare the staging region. -/
def begin (s : σ) (headerBytes vendorKeySec1 : List UInt8) (minRollback base eraseSize : UInt32) :
    Except CoreError UpdateSession × σ :=
  if h : vendorKeySec1.length > 65 ∨ eraseSize = 0 then (.error .firmwareError, s)
  else
    match PackageHeader.parse headerBytes with
    | .error error => (.error error, s)
    | .ok header =>
      if header.rollback < minRollback then (.error .firmwareError, s)
      else if (C.fromSec1Bytes vendorKeySec1).isNone then (.error .firmwareError, s)
      else
        match S.erase s base (eraseLen header.imageLen eraseSize) with
        | (.error error, s) => (.error error, s)
        | (.ok (), s) => (.ok
            { header
              signedPrefix := headerBytes.take signedHeaderLen
              keySec1 := ⟨vendorKeySec1, Nat.le_of_not_lt fun hlt => h (.inl hlt)⟩
              minRollback
              base
              eraseSize
              received := 0 }, s)

/-- Append a chunk of image data to the staging region. -/
def write (session : UpdateSession) (s : σ) (chunk : List UInt8) :
    Except CoreError UpdateSession × σ :=
  let added := UInt32.ofNat chunk.length
  if session.received.toNat + added.toNat ≥ 2 ^ 32 then (.error .firmwareError, s)
  else if session.received + added > session.header.imageLen then (.error .firmwareError, s)
  else
    match S.write s (session.base + session.received) chunk with
    | (.error error, s) => (.error error, s)
    | (.ok (), s) => (.ok { session with received := session.received + added }, s)

/-- The loop that reads the image back in blocks of 256 bytes, into both hashers. -/
def readBack (base : UInt32) (imageLen offset : Nat) (image signed : List UInt8) (s : σ) :
    Except CoreError (List UInt8 × List UInt8) × σ :=
  if offset < imageLen then
    let length := min (imageLen - offset) 256
    match S.read s (base + UInt32.ofNat offset) length with
    | (.error error, s) => (.error error, s)
    | (.ok block, s) =>
      readBack base imageLen (offset + length) (image ++ block.val) (signed ++ block.val) s
  else (.ok (image, signed), s)
termination_by imageLen - offset

/-- Read the staged image back, verifying integrity and signature. -/
def finish (session : UpdateSession) (s : σ) : Except CoreError VerifiedImage × σ :=
  if session.received ≠ session.header.imageLen then (.error .firmwareError, s)
  else
    match readBack S session.base session.header.imageLen.toNat 0 [] session.signedPrefix s with
    | (.error error, s) => (.error error, s)
    | (.ok (image, signed), s) =>
      (session.header.accept C (C.sha256 image) (C.sha256 signed) session.keySec1.val
        session.minRollback, s)

/-- One call of `write` by a caller that goes on after an error, and the bytes accepted so far. -/
def attempt (x : UpdateSession × σ × List UInt8) (chunk : List UInt8) :
    UpdateSession × σ × List UInt8 :=
  match x.1.write S x.2.1 chunk with
  | (.ok session, s) => (session, s, x.2.2 ++ chunk)
  | (.error _, s) => (x.1, s, x.2.2)

/-- Write the chunks up to the first error. -/
def writeAll (session : UpdateSession) (s : σ) : List (List UInt8) →
    Except CoreError UpdateSession × σ
  | [] => (.ok session, s)
  | chunk :: chunks =>
    match session.write S s chunk with
    | (.error error, s) => (.error error, s)
    | (.ok session, s) => writeAll session s chunks

/-- A whole update: begin, write of each chunk, finish. -/
def update (s : σ) (headerBytes vendorKeySec1 : List UInt8) (minRollback base eraseSize : UInt32)
    (chunks : List (List UInt8)) : Except CoreError VerifiedImage × σ :=
  match begin C S s headerBytes vendorKeySec1 minRollback base eraseSize with
  | (.error error, s) => (.error error, s)
  | (.ok session, s) =>
    match session.writeAll S s chunks with
    | (.error error, s) => (.error error, s)
    | (.ok session, s) => session.finish C S s

end UpdateSession

/-! ## A storage that reads back what was written -/

/-- `Staged s bytes`: since the area was erased, `bytes` were appended at `base`. An operation may
  fail; then what was appended before is still there. Lengths are 32-bit, so an area holds fewer
  than `2 ^ 32` bytes. -/
structure StagingArea (S : Storage σ) (base size : UInt32) where
  Staged : σ → List UInt8 → Prop
  length_lt : ∀ {s bytes}, Staged s bytes → bytes.length < 2 ^ 32
  erased : ∀ s, (S.erase s base size).1 = .ok () → Staged (S.erase s base size).2 []
  written : ∀ {s bytes} chunk, Staged s bytes →
    Staged (S.write s (base + UInt32.ofNat bytes.length) chunk).2
      (if (S.write s (base + UInt32.ofNat bytes.length) chunk).1 = .ok () then bytes ++ chunk
        else bytes)
  kept : ∀ {s bytes} offset n, Staged s bytes → offset + n ≤ bytes.length →
    Staged (S.read s (base + UInt32.ofNat offset) n).2 bytes
  read : ∀ {s bytes} offset n block, Staged s bytes → offset + n ≤ bytes.length →
    (S.read s (base + UInt32.ofNat offset) n).1 = .ok block → block.val = field bytes offset n

/-- No operation within the area fails. -/
structure StagingArea.Works {S : Storage σ} {base size : UInt32} (A : StagingArea S base size) :
    Prop where
  erase : ∀ s, (S.erase s base size).1 = .ok ()
  write : ∀ {s bytes} chunk, A.Staged s bytes → bytes.length + chunk.length ≤ size.toNat →
    (S.write s (base + UInt32.ofNat bytes.length) chunk).1 = .ok ()
  read : ∀ {s bytes} offset n, A.Staged s bytes → offset + n ≤ bytes.length →
    ∃ block, (S.read s (base + UInt32.ofNat offset) n).1 = .ok block

namespace UpdateSession

variable {C : UpdateCrypto} {S : Storage σ} {base size : UInt32} {A : StagingArea S base size}

theorem field_append_drop (offset n : Nat) :
    field bytes offset n ++ bytes.drop (offset + n) = bytes.drop offset := by
  unfold field
  rw [← List.drop_drop, List.take_append_drop]

/-- The loop reads the staged bytes, or an operation failed. -/
theorem readBack_staged {imageLen : Nat} (offset : Nat) (image signed : List UInt8) {s : σ}
    (hs : A.Staged s bytes) (hl : bytes.length = imageLen) :
    (readBack S base imageLen offset image signed s).1 =
        .ok (image ++ bytes.drop offset, signed ++ bytes.drop offset) ∨
      (¬A.Works ∧ ∃ error, (readBack S base imageLen offset image signed s).1 = .error error) := by
  fun_induction readBack S base imageLen offset image signed s with
  | case1 offset image signed s hlt length error s' hrd =>
    refine .inr ⟨fun hwr => ?_, error, rfl⟩
    obtain ⟨block, hbl⟩ := hwr.read offset length hs (by omega)
    rw [hrd] at hbl
    cases hbl
  | case2 offset image signed s hlt length block s' hrd ih =>
    have hft : offset + length ≤ bytes.length := by omega
    have hkp : A.Staged s' bytes := by
      have h := A.kept offset length hs hft
      rwa [hrd] at h
    have hbl : block.val = field bytes offset length :=
      A.read offset length block hs hft (by rw [hrd])
    have h := ih hkp
    rw [List.append_assoc, List.append_assoc, hbl, field_append_drop] at h
    rw [hbl]
    exact h
  | case3 offset image signed s hge =>
    rw [List.drop_eq_nil_of_le (by omega), List.append_nil, List.append_nil]
    exact .inl rfl

/-- The session has received `bytes`, and they are staged. -/
structure Receiving (A : StagingArea S base size) (session : UpdateSession) (s : σ)
    (bytes : List UInt8) : Prop where
  base_eq : session.base = base
  received : session.received = UInt32.ofNat bytes.length
  staged : A.Staged s bytes
  within : bytes.length ≤ session.header.imageLen.toNat
  area : session.header.imageLen.toNat ≤ size.toNat

theorem Receiving.received_toNat {session : UpdateSession} {s : σ}
    (h : Receiving A session s bytes) : session.received.toNat = bytes.length := by
  rw [h.received, UInt32.toNat_ofNat_of_lt' (A.length_lt h.staged)]

/-- A chunk is appended, or nothing changes; in a working area it is refused only where the image
  would become too long. -/
theorem write_spec {session : UpdateSession} {s : σ} (h : Receiving A session s bytes)
    (chunk : List UInt8) :
    (∃ s', session.write S s chunk =
        (.ok { session with received := UInt32.ofNat (bytes ++ chunk).length }, s') ∧
      Receiving A { session with received := UInt32.ofNat (bytes ++ chunk).length } s'
        (bytes ++ chunk)) ∨
    (∃ error s', session.write S s chunk = (.error error, s') ∧ Receiving A session s' bytes ∧
      (A.Works → session.header.imageLen.toNat < bytes.length + chunk.length)) := by
  have hr := h.received_toNat
  have hig := session.header.imageLen.toNat_lt
  have had : (UInt32.ofNat chunk.length).toNat = chunk.length % 2 ^ 32 := UInt32.toNat_ofNat
  unfold write
  dsimp only
  split
  · exact .inr ⟨_, s, rfl, h, fun _ => by omega⟩
  have he : (session.received + UInt32.ofNat chunk.length).toNat =
      bytes.length + chunk.length % 2 ^ 32 := by
    rw [UInt32.toNat_add, hr, had, Nat.mod_eq_of_lt (by omega)]
  split
  · rename_i hln
    rw [gt_iff_lt, UInt32.lt_iff_toNat_lt] at hln
    exact .inr ⟨_, s, rfl, h, fun _ => by omega⟩
  rename_i hsh
  rw [gt_iff_lt, UInt32.lt_iff_toNat_lt] at hsh
  have har : session.base + session.received = base + UInt32.ofNat bytes.length := by
    rw [h.base_eq, h.received]
  rw [har]
  have hwr := A.written chunk h.staged
  have hwk := fun hw : A.Works => hw.write chunk h.staged
  generalize S.write s (base + UInt32.ofNat bytes.length) chunk = result at hwr hwk ⊢
  obtain ⟨error | ⟨⟩, s'⟩ := result
  · refine .inr ⟨error, s', rfl, { h with staged := hwr }, fun hw => ?_⟩
    have hln : ¬bytes.length + chunk.length ≤ size.toNat := fun hle => by cases hwk hw hle
    have := h.area
    omega
  have hs : A.Staged s' (bytes ++ chunk) := hwr
  have hlt := A.length_lt hs
  rw [List.length_append] at hlt
  refine .inl ⟨s', ?_, ?_⟩
  · rw [List.length_append, UInt32.ofNat_add, h.received]
  refine ⟨h.base_eq, rfl, hs, ?_, h.area⟩
  rw [List.length_append]
  dsimp only
  omega

end UpdateSession

/-! ## One call on the whole package -/

theorem PackageHeader.parse_append {h : List UInt8} (hl : h.length = headerLen)
    (image : List UInt8) : PackageHeader.parse (h ++ image) = PackageHeader.parse h := by
  have h115 : h.length = 115 := hl
  have hs : signedHeaderLen + signatureLen ≤ h.length := h115.ge
  have ha : ¬(h ++ image).length < headerLen := by
    rw [List.length_append]
    omega
  unfold PackageHeader.parse PackageHeader.imageLenOf
  rw [dif_neg ha, dif_neg hl.not_lt]
  simp (disch := omega) only [field_append, List.getElem_append_left]

variable {header : PackageHeader}

theorem PackageHeader.parse_imageLen {h : List UInt8}
    (hpr : PackageHeader.parse h = .ok header) :
    header.imageLen = PackageHeader.imageLenOf h := by
  unfold PackageHeader.parse at hpr
  repeat' split at hpr
  all_goals cases hpr
  rfl

theorem verifyPackage_append {C : UpdateCrypto} {h : List UInt8} (hl : h.length = headerLen)
    (hpr : PackageHeader.parse h = .ok header) {image : List UInt8}
    (hig : image.length = header.imageLen.toNat) (key : List UInt8) (minRollback : UInt32) :
    verifyPackage C (h ++ image) key minRollback =
      header.accept C (C.sha256 image) (C.sha256 (h.take signedHeaderLen ++ image)) key
        minRollback := by
  have hln : ¬(h ++ image).length < headerLen + header.imageLen.toNat := by
    rw [List.length_append, hl, hig]
    exact Nat.lt_irrefl _
  have hfl : field (h ++ image) headerLen header.imageLen.toNat = image := by
    unfold field
    rw [← hl, List.drop_left, ← hig, List.take_length]
  have htk : (h ++ image).take signedHeaderLen = h.take signedHeaderLen :=
    List.take_append_of_le_length (by rw [hl]; decide)
  unfold verifyPackage
  rw [PackageHeader.parse_append hl, hpr]
  change (if (h ++ image).length < headerLen + header.imageLen.toNat then _ else _) = _
  rw [if_neg hln, hfl, htk]

/-- Where the header does not parse there is nothing to verify. -/
theorem verifyPackage_error {C : UpdateCrypto} {h : List UInt8} (hl : h.length = headerLen)
    {error : CoreError} (hpr : PackageHeader.parse h = .error error) (image key : List UInt8)
    (minRollback : UInt32) : verifyPackage C (h ++ image) key minRollback = .error error := by
  unfold verifyPackage
  rw [PackageHeader.parse_append hl, hpr]
  rfl

theorem PackageHeader.accept_eq_ok {C : UpdateCrypto} {image prehash : FixedBytes 32}
    {key : List UInt8} {minRollback : UInt32} {v : VerifiedImage}
    (h : header.accept C image prehash key minRollback = .ok v) :
    ¬header.rollback < minRollback ∧ (C.fromSec1Bytes key).isSome = true := by
  unfold PackageHeader.accept verifySignature at h
  split at h
  · cases h
  split at h
  · cases h
  rename_i hr
  refine ⟨hr, ?_⟩
  rcases hk : C.fromSec1Bytes key with _ | k
  · rw [hk] at h
    cases h
  · rfl

/-! ## The chunked run -/

namespace UpdateSession

def roundedLen (imageLen eraseSize : UInt32) : Nat :=
  (imageLen.toNat + eraseSize.toNat - 1) / eraseSize.toNat * eraseSize.toNat

theorem eraseLen_toNat {imageLen eraseSize : UInt32} (hft : roundedLen imageLen eraseSize < 2 ^ 32)
    (hsz : eraseSize ≠ 0) : (eraseLen imageLen eraseSize).toNat = roundedLen imageLen eraseSize := by
  have hp : 0 < eraseSize.toNat := Nat.pos_of_ne_zero fun h => hsz (UInt32.toNat_inj.mp h)
  have hb : (imageLen.toNat + eraseSize.toNat - 1) / eraseSize.toNat < 2 ^ 32 :=
    (Nat.le_mul_of_pos_right _ hp).trans_lt hft
  unfold eraseLen
  rw [UInt32.toNat_mul, UInt32.toNat_ofNat_of_lt' hb]
  exact Nat.mod_eq_of_lt hft

theorem le_roundedLen (imageLen : UInt32) {eraseSize : UInt32} (hsz : eraseSize ≠ 0) :
    imageLen.toNat ≤ roundedLen imageLen eraseSize := by
  have hp : 0 < eraseSize.toNat := Nat.pos_of_ne_zero fun h => hsz (UInt32.toNat_inj.mp h)
  have hlt := Nat.lt_div_mul_add (a := imageLen.toNat + eraseSize.toNat - 1) hp
  unfold roundedLen
  omega

/-- The session was opened with a header, a key and a rollback floor. -/
structure Opened (h key : List UInt8) (minRollback : UInt32) (session : UpdateSession) : Prop where
  header : PackageHeader.parse h = .ok session.header
  signedPrefix : session.signedPrefix = h.take signedHeaderLen
  key : session.keySec1.val = key
  floor : session.minRollback = minRollback

variable {σ : Type} {C : UpdateCrypto} {S : Storage σ} {h key : List UInt8}
  {minRollback base eraseSize : UInt32}

/-- A session is opened on an empty area, or no package with this header verifies, or an operation
  failed. -/
theorem begin_spec (minRollback : UInt32)
    (A : StagingArea S base (eraseLen (PackageHeader.imageLenOf h) eraseSize))
    (hl : h.length = headerLen) (hk : key.length ≤ 65) (hsz : eraseSize ≠ 0)
    (hft : roundedLen (PackageHeader.imageLenOf h) eraseSize < 2 ^ 32) (s : σ) :
    (∃ session s', begin C S s h key minRollback base eraseSize = (.ok session, s') ∧
      Opened h key minRollback session ∧ Receiving A session s' []) ∨
    (∃ error s', begin C S s h key minRollback base eraseSize = (.error error, s') ∧
      (A.Works → ∀ image v, image.length = (PackageHeader.imageLenOf h).toNat →
        verifyPackage C (h ++ image) key minRollback ≠ .ok v)) := by
  have hn : ¬(key.length > 65 ∨ eraseSize = 0) := by
    rintro (hln | hzr)
    · exact absurd hk hln.not_ge
    · exact hsz hzr
  unfold begin
  rw [dif_neg hn]
  rcases hpr : PackageHeader.parse h with error | header
  · refine .inr ⟨error, s, rfl, fun _ image v _ hv => ?_⟩
    cases (verifyPackage_error hl hpr image key minRollback).symm.trans hv
  have hi := PackageHeader.parse_imageLen hpr
  -- What `accept` demands of the header and the key is checked here already.
  have ha : ∀ image v, image.length = (PackageHeader.imageLenOf h).toNat →
      verifyPackage C (h ++ image) key minRollback = .ok v →
      ¬header.rollback < minRollback ∧ (C.fromSec1Bytes key).isSome = true := by
    intro image v hig hv
    rw [verifyPackage_append hl hpr (hi ▸ hig)] at hv
    exact PackageHeader.accept_eq_ok hv
  dsimp only
  split
  · rename_i hr
    exact .inr ⟨_, s, rfl, fun _ image v hig hv => (ha image v hig hv).1 hr⟩
  split
  · rename_i hno
    refine .inr ⟨_, s, rfl, fun _ image v hig hv => ?_⟩
    have hsm := (ha image v hig hv).2
    rw [Option.isNone_iff_eq_none.mp hno] at hsm
    cases hsm
  · rw [hi]
    have he := A.erased s
    have hwr := fun hw : A.Works => hw.erase s
    generalize S.erase s base (eraseLen (PackageHeader.imageLenOf h) eraseSize) = result
      at he hwr ⊢
    obtain ⟨error | ⟨⟩, s'⟩ := result
    · exact .inr ⟨error, s', rfl, fun hw => by cases hwr hw⟩
    refine .inl ⟨_, s', rfl, ⟨hpr, rfl, rfl, rfl⟩, ⟨rfl, rfl, he rfl, ?_, ?_⟩⟩
    · exact Nat.zero_le _
    · rw [eraseLen_toNat hft hsz, hi]
      exact le_roundedLen _ hsz

variable {size : UInt32} {A : StagingArea S base size} {session : UpdateSession} {s : σ}
  {bytes : List UInt8}

theorem Opened.receive (hon : Opened h key minRollback session) (received : UInt32) :
    Opened h key minRollback { session with received } :=
  ⟨hon.header, hon.signedPrefix, hon.key, hon.floor⟩

/-- What a session that finishes has verified; in a working area it finishes where the package
  verifies. -/
theorem finish_spec (hl : h.length = headerLen) (hon : Opened h key minRollback session)
    (hr : Receiving A session s bytes) :
    (∀ v, (session.finish C S s).1 = .ok v → bytes.length = (PackageHeader.imageLenOf h).toNat ∧
        verifyPackage C (h ++ bytes) key minRollback = .ok v) ∧
    (A.Works → bytes.length = (PackageHeader.imageLenOf h).toNat →
      (session.finish C S s).1 = verifyPackage C (h ++ bytes) key minRollback) := by
  rw [← PackageHeader.parse_imageLen hon.header]
  unfold finish
  by_cases ha : session.received = session.header.imageLen
  · have hbt : bytes.length = session.header.imageLen.toNat := by
      rw [← hr.received_toNat, ha]
    rw [if_neg (not_ne_iff.mpr ha), hr.base_eq, hon.signedPrefix, hon.key, hon.floor,
      verifyPackage_append hl hon.header hbt]
    have hbc := readBack_staged 0 [] (h.take signedHeaderLen) hr.staged hbt
    generalize readBack S base session.header.imageLen.toNat 0 [] (h.take signedHeaderLen) s =
      result at hbc ⊢
    obtain ⟨result, s'⟩ := result
    rcases hbc with hok | ⟨hfl, error, heo⟩
    · cases hok
      exact ⟨fun v hv => ⟨hbt, hv⟩, fun _ _ => rfl⟩
    · cases heo
      exact ⟨nofun, fun hw => absurd hw hfl⟩
  · rw [if_pos ha]
    refine ⟨nofun, fun _ hbt => absurd ?_ ha⟩
    rw [← UInt32.toNat_inj, hr.received_toNat, hbt]

/-- In a working area chunks are written as long as they fit the image. -/
theorem writeAll_spec (hwk : A.Works) (chunks : List (List UInt8))
    (hon : Opened h key minRollback session) (hr : Receiving A session s bytes)
    (hft : bytes.length + chunks.flatten.length ≤ (PackageHeader.imageLenOf h).toNat) :
    ∃ session' s', session.writeAll S s chunks = (.ok session', s') ∧
      Opened h key minRollback session' ∧ Receiving A session' s' (bytes ++ chunks.flatten) := by
  induction chunks generalizing session s bytes with
  | nil => exact ⟨session, s, rfl, hon, by rwa [List.flatten_nil, List.append_nil]⟩
  | cons chunk chunks ih =>
    rw [List.flatten_cons, List.length_append] at hft
    rcases write_spec hr chunk with ⟨s', hwr, hr'⟩ | ⟨error, s', hwr, _, hln⟩
    · obtain ⟨session'', s'', ha, hon', hr''⟩ := ih (hon.receive _) hr'
        (by rw [List.length_append]; omega)
      refine ⟨session'', s'', ?_, hon', by rwa [List.flatten_cons, ← List.append_assoc]⟩
      unfold writeAll
      rw [hwr]
      exact ha
    · have := hln hwk
      rw [PackageHeader.parse_imageLen hon.header] at this
      omega

/-- A caller that goes on after errors: the accepted bytes are the staged ones. -/
theorem attempts_receiving (hon : Opened h key minRollback session)
    (hr : Receiving A session s bytes) (chunks : List (List UInt8)) :
    Opened h key minRollback (Runs.run (attempt S) (session, s, bytes) chunks).1 ∧
      Receiving A (Runs.run (attempt S) (session, s, bytes) chunks).1
        (Runs.run (attempt S) (session, s, bytes) chunks).2.1
        (Runs.run (attempt S) (session, s, bytes) chunks).2.2 := by
  refine Runs.keep (I := fun x : UpdateSession × σ × List UInt8 =>
    Opened h key minRollback x.1 ∧ Receiving A x.1 x.2.1 x.2.2) ?_ ⟨hon, hr⟩ chunks
  rintro ⟨session, s, bytes⟩ chunk ⟨hon, hr⟩
  unfold attempt
  rcases write_spec hr chunk with ⟨s', hwr, hr'⟩ | ⟨error, s', hwr, hr', _⟩
  · rw [hwr]
    exact ⟨hon.receive _, hr'⟩
  · rw [hwr]
    exact ⟨hon, hr'⟩

end UpdateSession

open UpdateSession in
theorem update_session_verifies {σ : Type} (C : UpdateCrypto) (S : Storage σ) {h key : List UInt8}
    {minRollback base eraseSize : UInt32} (hlen : h.length = headerLen) (hkey : key.length ≤ 65)
    (hsize : eraseSize ≠ 0)
    (hfits : base.toNat + roundedLen (PackageHeader.imageLenOf h) eraseSize < 2 ^ 32)
    (A : StagingArea S base (eraseLen (PackageHeader.imageLenOf h) eraseSize)) (s : σ) :
    (A.Works → ∀ chunks v, chunks.flatten.length = (PackageHeader.imageLenOf h).toNat →
      ((update C S s h key minRollback base eraseSize chunks).1 = .ok v ↔
        verifyPackage C (h ++ chunks.flatten) key minRollback = .ok v)) ∧
    (∀ session s₀ chunks v, begin C S s h key minRollback base eraseSize = (.ok session, s₀) →
      let x := Runs.run (attempt S) (session, s₀, []) chunks
      (x.1.finish C S x.2.1).1 = .ok v →
        x.2.2.length = (PackageHeader.imageLenOf h).toNat ∧
          verifyPackage C (h ++ x.2.2) key minRollback = .ok v) := by
  have hbegin := begin_spec (C := C) minRollback A hlen hkey hsize (by omega) s
  constructor
  · intro hworks chunks v himage
    unfold update
    rcases hbegin with ⟨session, s', hok, hopen, hr⟩ | ⟨error, s', herror, hnone⟩
    · obtain ⟨session', s'', hall, hopen', hr'⟩ := writeAll_spec hworks chunks hopen hr
        (by rw [List.length_nil, himage]; omega)
      rw [List.nil_append] at hr'
      rw [hok]
      dsimp only
      rw [hall]
      dsimp only
      rw [(finish_spec hlen hopen' hr').2 hworks himage]
    · rw [herror]
      exact ⟨nofun, fun hv => absurd hv (hnone hworks _ v himage)⟩
  · intro session s₀ chunks v hok x hfinish
    rcases hbegin with ⟨session', s', hok', hopen, hr⟩ | ⟨error, s', herror, _⟩
    · cases hok.symm.trans hok'
      obtain ⟨hopen', hr'⟩ := attempts_receiving hopen hr chunks
      exact (finish_spec hlen hopen' hr').1 v hfinish
    · cases hok.symm.trans herror

/-! ### A storage in RAM

  32 KiB of bytes, as the tests of the update use. -/

abbrev Ram := FixedBytes 32768

/-- Put `bytes` at `start`, where they fit. -/
def Ram.put (s : Ram) (start : Nat) (bytes : List UInt8) : Except CoreError Unit × Ram :=
  if h : start + bytes.length > 32768 then (.error .storageError, s)
  else (.ok (), ⟨s.val.take start ++ bytes ++ s.val.drop (start + bytes.length), by
    rw [List.length_append, List.length_append, List.length_take, List.length_drop, s.property]
    omega⟩)

def ramStorage : Storage Ram where
  read s offset n :=
    if h : offset.toNat + n > 32768 then (.error .storageError, s)
    else (.ok ⟨field s.val offset.toNat n, length_field (by rw [s.property]; omega)⟩, s)
  write s offset data := s.put offset.toNat data
  erase s offset len := s.put offset.toNat (List.replicate len.toNat 0xFF)

/-- The bytes are in the storage at `base`. -/
def Ram.Holds (s : Ram) (base : Nat) (bytes : List UInt8) : Prop :=
  ∃ before after, s.val = before ++ bytes ++ after ∧ before.length = base

theorem Ram.Holds.le {s : Ram} {base : Nat} (h : s.Holds base bytes) :
    base + bytes.length ≤ 32768 := by
  obtain ⟨before, after, heq, hbs⟩ := h
  have hl := congrArg List.length heq
  rw [List.length_append, List.length_append] at hl
  omega

theorem Ram.Holds.address {s : Ram} {base : UInt32} (h : s.Holds base.toNat bytes) (offset : Nat)
    (ho : offset ≤ bytes.length) :
    (base + UInt32.ofNat offset).toNat = base.toNat + offset := by
  have hle := h.le
  rw [UInt32.toNat_add, UInt32.toNat_ofNat_of_lt' (show offset < 2 ^ 32 by omega)]
  exact Nat.mod_eq_of_lt (by omega)

theorem Ram.Holds.put {s : Ram} {base : Nat} (h : s.Holds base bytes) (chunk : List UInt8) :
    (s.put (base + bytes.length) chunk).2.Holds base
      (if (s.put (base + bytes.length) chunk).1 = .ok () then bytes ++ chunk else bytes) := by
  unfold Ram.put
  split
  · exact h
  obtain ⟨before, after, heq, hbs⟩ := h
  refine ⟨before, after.drop chunk.length, ?_, hbs⟩
  have hst : base + bytes.length = (before ++ bytes).length := by
    rw [List.length_append, hbs]
  dsimp only
  rw [if_pos rfl, heq, hst, List.take_left, ← List.drop_drop, List.drop_left]
  simp only [List.append_assoc]

theorem Ram.Holds.field {s : Ram} {base : Nat} (h : s.Holds base bytes) {offset n : Nat}
    (hft : offset + n ≤ bytes.length) :
    Update.field s.val (base + offset) n = Update.field bytes offset n := by
  obtain ⟨before, after, heq, rfl⟩ := h
  rw [← field_append after hft, heq, List.append_assoc]
  unfold Update.field
  rw [← List.drop_drop, List.drop_left]

/-- A part of the RAM reads back what was written. -/
def ramArea (base size : UInt32) : StagingArea ramStorage base size where
  Staged s bytes := s.Holds base.toNat bytes
  length_lt h := by
    have := h.le
    omega
  erased s h := by
    -- The erased area begins at `base`, so `base` is in range.
    have hbase : base.toNat ≤ 32768 := by
      by_contra hlt
      have hput : ramStorage.erase s base size = (.error .storageError, s) :=
        dif_pos (show base.toNat + _ > 32768 by omega)
      rw [hput] at h
      cases h
    generalize (ramStorage.erase s base size).2 = s'
    refine ⟨s'.val.take base.toNat, s'.val.drop base.toNat, ?_, ?_⟩
    · rw [List.append_nil, List.take_append_drop]
    · rw [List.length_take, s'.property, Nat.min_eq_left hbase]
  written {s bytes} chunk h := by
    have haddress := h.address bytes.length le_rfl
    show ((s.put _ chunk).2).Holds _ (if (s.put _ chunk).1 = _ then _ else _)
    rw [haddress]
    exact h.put chunk
  kept {s bytes} offset n h _ := by
    show ((if hlt : _ then _ else _ : Except CoreError (FixedBytes n) × Ram).2).Holds _ _
    split <;> exact h
  read {s bytes} offset n block h hfits hread := by
    have haddress := h.address offset (by omega)
    have hle := h.le
    have hok : ramStorage.read s (base + UInt32.ofNat offset) n =
        (.ok ⟨field s.val (base + UInt32.ofNat offset).toNat n,
          length_field (by rw [haddress, s.property]; omega)⟩, s) :=
      dif_neg (by rw [haddress]; omega)
    rw [hok] at hread
    rw [← Except.ok.inj hread]
    dsimp only
    rw [haddress]
    exact h.field hfits

theorem ramArea_works {base size : UInt32} (hsz : base.toNat + size.toNat ≤ 32768) :
    (ramArea base size).Works where
  erase s := by
    have hp : ramStorage.erase s base size = (.ok (), _) :=
      dif_neg (by rw [List.length_replicate]; omega)
    rw [hp]
  write {s bytes} chunk h hft := by
    have had := Ram.Holds.address h bytes.length le_rfl
    have hp : ramStorage.write s (base + UInt32.ofNat bytes.length) chunk = (.ok (), _) :=
      dif_neg (by rw [had]; omega)
    rw [hp]
  read {s bytes} offset n h hft := by
    have had := Ram.Holds.address h offset (by omega)
    have hle := Ram.Holds.le h
    have hok : ramStorage.read s (base + UInt32.ofNat offset) n = (.ok _, s) :=
      dif_neg (by rw [had]; omega)
    rw [hok]
    exact ⟨_, rfl⟩

/-! ### A signed package

  The image `firmware image` with version 1.2.3 and rollback counter 5, signed with the key of the
  tests. -/

def exampleImage : List UInt8 :=
  [0x66, 0x69, 0x72, 0x6D, 0x77, 0x61, 0x72, 0x65, 0x20, 0x69, 0x6D, 0x61, 0x67, 0x65]

def exampleSignature : FixedBytes signatureLen :=
  ⟨toBE 32 0xa9432d445d5a609607e37966542d0935c03f2c0126f6df5755343f2638542969 ++
    toBE 32 0x4dba1c0361d8ef4c392a23044c77f17a629ef34fb58662ceb83d9750531fc166, by decide⟩

def exampleSigned : List UInt8 :=
  magic ++ [0x01, 0x00, 0x73, 0x00, 0x05, 0x00, 0x00, 0x00, 0x01, 0x02, 0x03, 0x0E, 0x00, 0x00,
    0x00] ++ toBE 32 0x1df2f3853d10a305aa52d36fd4a03f5721d7ce7daef6f7e5e8d51074d31361f1

def exampleKey : List UInt8 :=
  0x04 :: (toBE 32 0x3ad3861a95621392516bb593ef05583ed2e5866f5cb6260a3017237fd89b90af ++
    toBE 32 0xd0961c7e37075a6791a39c61f56295b02b6d26567b615e60aa41ee1c8e83388d)

def examplePrehash : FixedBytes 32 :=
  ⟨toBE 32 0xf8ffbc39018fb73887fc2960a4cdd29e1b50423dfc5d48bf18161afcc3f09e75, by decide⟩

/-- The digests and the signature of the package. -/
def exampleCrypto : UpdateCrypto where
  VerifyingKey := Unit
  Signature := FixedBytes signatureLen
  sha256 data :=
    if data = exampleImage then
      ⟨toBE 32 0x1df2f3853d10a305aa52d36fd4a03f5721d7ce7daef6f7e5e8d51074d31361f1, length_toBE ..⟩
    else if data = exampleSigned ++ exampleImage then examplePrehash
    else FixedBytes.zero 32
  fromSec1Bytes key := if key = exampleKey then some () else none
  fromSlice signature := some signature
  verifyPrehash _ prehash signature := prehash = examplePrehash ∧ signature = exampleSignature

/-- The image in two chunks, staged at 4096. -/
theorem update_session_verifies_two_chunks :
    (UpdateSession.update exampleCrypto ramStorage (FixedBytes.zero 32768)
      (exampleSigned ++ exampleSignature.val) exampleKey 3 4096 4096
      [exampleImage.take 8, exampleImage.drop 8]).1 = .ok ⟨⟨1, 2, 3⟩, 5, 14⟩ :=
  ((update_session_verifies exampleCrypto ramStorage (by decide) (by decide) (by decide)
    (by decide) (ramArea 4096 _) (FixedBytes.zero 32768)).1 (ramArea_works (by decide)) _ _
    (by decide)).mpr (by decide +kernel)

end AegisToken.Update
