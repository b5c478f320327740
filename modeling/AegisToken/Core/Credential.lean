/-
  Credentials and the credential database (aegis-core authenticator.rs `Credential`,
  credential_store.rs `encode_db` and `decode_db`).
  The encodings are sequences of calls of the `minicbor` crate, which is the parameter `C`.
  `decodeDb_bytes`: an encoded database decodes to itself.
-/
import AegisToken.Core.Storage
import AegisToken.Lib.Cbor

namespace AegisToken
open ByteCodec Wire

/-- COSE algorithms a credential is created with: ES256 (-7) and EdDSA (-8). -/
inductive CoseAlg where
  | es256
  | eddsa
deriving DecidableEq, Repr

/-- The COSE number of an algorithm. -/
def CoseAlg.code : CoseAlg → I64
  | .es256 => ⟨-7, by decide⟩
  | .eddsa => ⟨-8, by decide⟩

def CoseAlg.ofCode (z : I64) : Option CoseAlg :=
  if z.val = -7 then some .es256 else if z.val = -8 then some .eddsa else none

theorem CoseAlg.ofCode_code (a : CoseAlg) : CoseAlg.ofCode a.code = some a := by
  cases a <;> rfl

/-- A text of at most `n` bytes (configuration.rs `FixedString`), by its UTF-8 bytes. -/
abbrev FixedString (n : Nat) := { bs : List UInt8 // bs.length ≤ n ∧ isUtf8 bs = true }

def FixedString.empty (n : Nat) : FixedString n := ⟨[], Nat.zero_le n, rfl⟩

/-- A stored credential. -/
structure Credential where
  id : BoundedBytes 32
  rpId : FixedString 64
  userId : BoundedBytes 64
  privateKey : FixedBytes 32
  algorithm : CoseAlg
  signCount : UInt32
  discoverable : Bool
deriving DecidableEq

def slice {n : Nat} (b : BoundedBytes n) (h : n < 2 ^ 64) : Slice :=
  ⟨b.val, Nat.lt_of_le_of_lt b.property h⟩

def arraySlice {n : Nat} (b : FixedBytes n) (h : n < 2 ^ 64) : Slice :=
  ⟨b.val, by rw [b.property]; exact h⟩

def FixedString.text {n : Nat} (s : FixedString n) (h : n < 2 ^ 64) : Text :=
  ⟨⟨s.val, Nat.lt_of_le_of_lt s.property.1 h⟩, s.property.2⟩

/-- Bytes for a field of `n`. -/
def bounded {ε : Type} (e : ε) (n : Nat) (bs : List UInt8) : Parser ε (BoundedBytes n) :=
  if h : bs.length ≤ n then pure ⟨bs, h⟩ else reject e

namespace Credential

/-- The seven entries of an encoded credential. -/
def encodeEntries (C : Cbor) (c : Credential) : List UInt8 :=
  C.u8.encode 0 ++ (C.bytes.encode (slice c.id (by decide)) ++
  (C.u8.encode 1 ++ (C.str.encode (c.rpId.text (by decide)) ++
  (C.u8.encode 2 ++ (C.bytes.encode (slice c.userId (by decide)) ++
  (C.u8.encode 3 ++ (C.bytes.encode (arraySlice c.privateKey (by decide)) ++
  (C.u8.encode 4 ++ (C.u32.encode c.signCount ++
  (C.u8.encode 5 ++ (C.bool.encode c.discoverable ++
  (C.u8.encode 6 ++ C.i64.encode c.algorithm.code))))))))))))

def encode (C : Cbor) (c : Credential) : List UInt8 :=
  C.map.encode (some 7) ++ encodeEntries C c

/-- A credential while it is decoded: its algorithm is checked at the end. -/
structure Draft where
  id : BoundedBytes 32
  rpId : FixedString 64
  userId : BoundedBytes 64
  privateKey : FixedBytes 32
  algorithm : I64
  signCount : UInt32
  discoverable : Bool

/-- The values a decoded credential starts from. -/
def Draft.initial : Draft where
  id := BoundedBytes.empty 32
  rpId := FixedString.empty 64
  userId := BoundedBytes.empty 64
  privateKey := FixedBytes.zero 32
  algorithm := CoseAlg.es256.code
  signCount := 0
  discoverable := false

def fixedString (n : Nat) (s : Text) : Parser CoreError (FixedString n) :=
  if h : s.val.val.length ≤ n then pure ⟨s.val.val, h, s.property⟩ else reject .storageError

/-- The value of one entry of an encoded credential. -/
def decodeField (C : Cbor) (d : Draft) (key : UInt8) : Parser CoreError Draft :=
  match key.toNat with
  | 0 => C.bytes.parse .storageError >>= fun bs => bounded .storageError 32 bs.val >>= fun id =>
      pure { d with id }
  | 1 => C.str.parse .storageError >>= fun s =>
      fixedString 64 s >>= fun rpId => pure { d with rpId }
  | 2 => C.bytes.parse .storageError >>= fun bs =>
      bounded .storageError 64 bs.val >>= fun userId => pure { d with userId }
  | 3 => C.bytes.parse .storageError >>= fun bs =>
      if h : bs.val.length = 32 then pure { d with privateKey := ⟨bs.val, h⟩ }
      else reject .storageError
  | 4 => C.u32.parse .storageError >>= fun signCount => pure { d with signCount }
  | 5 => C.bool.parse .storageError >>= fun discoverable => pure { d with discoverable }
  | 6 => C.i64.parse .storageError >>= fun algorithm => pure { d with algorithm }
  | _ => orErr C.skip .storageError >>= fun _ => pure d

def Draft.finish (d : Draft) : Parser CoreError Credential :=
  match CoseAlg.ofCode d.algorithm with
  | some algorithm =>
    pure { id := d.id, rpId := d.rpId, userId := d.userId, privateKey := d.privateKey, algorithm,
           signCount := d.signCount, discoverable := d.discoverable }
  | none => reject .storageError

def decode (C : Cbor) : Parser CoreError Credential :=
  C.map.parse .storageError >>= fun length =>
    match length with
    | none => reject .storageError
    | some length =>
      turns (keyed C.u8 .storageError (decodeField C)) length.toNat Draft.initial >>= Draft.finish

theorem bounded_slice {n : Nat} (b : BoundedBytes n) (h : n < 2 ^ 64) :
    bounded CoreError.storageError n (slice b h).val = pure b :=
  dif_pos b.property

theorem fixedString_text {n : Nat} (s : FixedString n) (h : n < 2 ^ 64) :
    fixedString n (s.text h) = pure s :=
  dif_pos s.property.1

theorem turns_encodeEntries (C : Cbor) (c : Credential) (r : List UInt8) :
    turns (keyed C.u8 .storageError (decodeField C)) 7 Draft.initial (encodeEntries C c ++ r) =
      .ok (⟨c.id, c.rpId, c.userId, c.privateKey, c.algorithm.code, c.signCount,
        c.discoverable⟩, r) := by
  simp only [encodeEntries, List.append_assoc]
  refine (turns_keyed_codec C.bytes (by rfl) (by rw [bounded_slice]; rfl) _).trans ?_
  refine (turns_keyed_codec C.str (by rfl) (by rw [fixedString_text]; rfl) _).trans ?_
  refine (turns_keyed_codec C.bytes (by rfl) (by rw [bounded_slice]; rfl) _).trans ?_
  refine (turns_keyed_codec C.bytes (by rfl) (dif_pos c.privateKey.property) _).trans ?_
  refine (turns_keyed_codec C.u32 (by rfl) (by rfl) _).trans ?_
  refine (turns_keyed_codec C.bool (by rfl) (by rfl) _).trans ?_
  refine (turns_keyed_codec C.i64 (by rfl) (by rfl) _).trans ?_
  rfl

theorem decode_encode (C : Cbor) (c : Credential) (r : List UInt8) :
    decode C (c.encode C ++ r) = .ok (c, r) := by
  rw [encode, List.append_assoc, decode, Codec.parse_bind_encode]
  show (turns _ 7 Draft.initial >>= Draft.finish) _ = _
  rw [bind_ok (turns_encodeEntries C c r), Draft.finish, CoseAlg.ofCode_code]
  rfl

end Credential

/-! ## The database -/

def maxCredentials : Nat := 8

def maxSealedPlain : Nat := 2048

/-- PIN retry budget when a PIN is set. -/
def defaultPinRetries : UInt8 := 8

/-- A vector of at most `maxCredentials` credentials. -/
abbrev Cache := { l : List Credential // l.length ≤ maxCredentials }

def Cache.empty : Cache := ⟨[], Nat.zero_le _⟩

def Cache.push (cache : Cache) (c : Credential) : Option Cache :=
  if h : cache.val.length < maxCredentials then
    some ⟨cache.val ++ [c], by rw [List.length_append]; exact h⟩
  else none

/-- The decrypted database contents. -/
structure Database where
  cache : Cache
  counter : UInt64
  pinHash : Option (FixedBytes 32)
  pinRetries : UInt8
deriving DecidableEq

namespace Database

/-- A database without entries. -/
def initial : Database where
  cache := Cache.empty
  counter := 0
  pinHash := none
  pinRetries := defaultPinRetries

/-- The PIN hash, or null. -/
def encodePin (C : Cbor) : Option (FixedBytes 32) → List UInt8
  | some hash => C.bytes.encode (arraySlice hash (by decide))
  | none => C.null.encode ()

/-- The four entries of an encoded database. -/
def encodeEntries (C : Cbor) (db : Database) : List UInt8 :=
  C.u8.encode 0 ++ (C.u64.encode db.counter ++
  (C.u8.encode 1 ++ ((C.array.encode (some (UInt64.ofNat db.cache.val.length)) ++
    db.cache.val.flatMap (Credential.encode C)) ++
  (C.u8.encode 2 ++ (encodePin C db.pinHash ++
  (C.u8.encode 3 ++ C.u8.encode db.pinRetries))))))

/-- The encoded database. -/
def bytes (C : Cbor) (db : Database) : List UInt8 := C.map.encode (some 4) ++ encodeEntries C db

def Fits (C : Cbor) (db : Database) : Prop := (db.bytes C).length ≤ maxSealedPlain

instance (C : Cbor) (db : Database) : Decidable (db.Fits C) := inferInstanceAs (Decidable (_ ≤ _))

/-- `encode_db` into a buffer of `maxSealedPlain` bytes. -/
def encodeDb (C : Cbor) (db : Database) : Except CoreError (List UInt8) :=
  if db.Fits C then .ok (db.bytes C) else .error .storageError

/-- One credential of the array. -/
def decodeCredential (C : Cbor) (db : Database) : Parser CoreError Database :=
  Credential.decode C >>= fun credential =>
    match db.cache.push credential with
    | some cache => pure { db with cache }
    | none => reject .storageError

/-- The value of one entry of an encoded database. A PIN hash of another length is ignored. -/
def decodeField (C : Cbor) (db : Database) (key : UInt8) : Parser CoreError Database :=
  match key.toNat with
  | 0 => C.u64.parse .storageError >>= fun counter => pure { db with counter }
  | 1 => C.array.parse .storageError >>= fun count =>
      match count with
      | none => reject .storageError
      | some count => turns (decodeCredential C) count.toNat db
  | 2 => peek C.datatype .storageError >>= fun kind =>
      if kind = .null then
        C.null.parse .storageError >>= fun _ => pure { db with pinHash := none }
      else
        C.bytes.parse .storageError >>= fun bs =>
          if h : bs.val.length = 32 then pure { db with pinHash := some ⟨bs.val, h⟩ } else pure db
  | 3 => C.u8.parse .storageError >>= fun pinRetries => pure { db with pinRetries }
  | _ => orErr C.skip .storageError >>= fun _ => pure db

/-- The parser of `decode_db`. -/
def parseDb (C : Cbor) : Parser CoreError Database :=
  C.map.parse .storageError >>= fun entries =>
    match entries with
    | none => reject .storageError
    | some entries => turns (keyed C.u8 .storageError (decodeField C)) entries.toNat initial

/-- `decode_db`. Bytes after the map are not looked at. -/
def decodeDb (C : Cbor) (plain : List UInt8) : Except CoreError Database :=
  (parseDb C plain).map Prod.fst

/-! ### Round trip -/

variable (C : Cbor) (db : Database)

theorem decodeCredential_encode (c : Credential) {cache : Cache} (h : db.cache.push c = some cache)
    (r : List UInt8) : decodeCredential C db (c.encode C ++ r) = .ok ({ db with cache }, r) := by
  rw [decodeCredential, bind_ok (Credential.decode_encode C c r), h]
  rfl

theorem turns_decodeCredential (cs : List Credential)
    (h : (db.cache.val ++ cs).length ≤ maxCredentials) (r : List UInt8) :
    turns (decodeCredential C) cs.length db (cs.flatMap (Credential.encode C) ++ r) =
      .ok ({ db with cache := ⟨db.cache.val ++ cs, h⟩ }, r) := by
  induction cs generalizing db with
  | nil =>
    have : (⟨db.cache.val ++ [], h⟩ : Cache) = db.cache := Subtype.ext (List.append_nil _)
    rw [this]
    rfl
  | cons c cs ih =>
    have hrm : db.cache.val.length < maxCredentials := by
      rw [List.length_append, List.length_cons] at h
      omega
    rw [List.flatMap_cons, List.append_assoc, List.length_cons,
      turns_succ (decodeCredential_encode C db c (dif_pos hrm) _), ih]
    · simp only [List.append_assoc, List.singleton_append]
    · simpa using h

theorem decodeField_array (cache : Cache) (h : db.cache = Cache.empty) (r : List UInt8) :
    decodeField C db 1 ((C.array.encode (some (UInt64.ofNat cache.val.length)) ++
      cache.val.flatMap (Credential.encode C)) ++ r) = .ok ({ db with cache }, r) := by
  have hcn : (UInt64.ofNat cache.val.length).toNat = cache.val.length := by
    have hle : cache.val.length ≤ 8 := cache.property
    rw [UInt64.toNat_ofNat']
    omega
  have hl : (db.cache.val ++ cache.val).length ≤ maxCredentials := by
    rw [h]
    exact cache.property
  have hch : (⟨db.cache.val ++ cache.val, hl⟩ : Cache) = cache :=
    Subtype.ext (show db.cache.val ++ cache.val = cache.val by rw [h]; rfl)
  show (C.array.parse CoreError.storageError >>= _) _ = _
  rw [List.append_assoc, Codec.parse_bind_encode]
  show turns (decodeCredential C) (UInt64.ofNat cache.val.length).toNat db _ = _
  rw [hcn, turns_decodeCredential C db cache.val hl, hch]

theorem decodeField_pin (pin : Option (FixedBytes 32)) (r : List UInt8) :
    decodeField C db 2 (encodePin C pin ++ r) = .ok ({ db with pinHash := pin }, r) := by
  rcases pin with _ | hash
  · refine (peek_bind (C.datatype_null r) _).trans ?_
    exact Codec.parse_bind_encode _ _ _ _ _
  refine (peek_bind (C.datatype_bytes _ r) _).trans ?_
  refine (Codec.parse_bind_encode _ _ _ _ _).trans ?_
  rw [dif_pos (show (arraySlice hash (by decide)).val.length = 32 from hash.property)]
  rfl

theorem turns_encodeEntries (r : List UInt8) :
    turns (keyed C.u8 .storageError (decodeField C)) 4 initial (encodeEntries C db ++ r) =
      .ok (db, r) := by
  rw [encodeEntries]
  simp only [List.append_assoc (C.u8.encode _), List.append_assoc (C.u64.encode _),
    List.append_assoc (encodePin C _), List.append_assoc (_ ++ List.flatMap _ _)]
  refine (turns_keyed_codec C.u64 (by rfl) (by rfl) _).trans ?_
  refine (turns_keyed (decodeField_array C _ db.cache (by rfl)) _).trans ?_
  refine (turns_keyed (decodeField_pin C _ db.pinHash) _).trans ?_
  refine (turns_keyed_codec C.u8 (by rfl) (by rfl) _).trans ?_
  rfl

theorem decodeDb_bytes : decodeDb C (db.bytes C) = .ok db := by
  have htr := turns_encodeEntries C db []
  rw [List.append_nil] at htr
  rw [decodeDb, bytes, parseDb, Codec.parse_bind_encode]
  show (turns _ 4 initial (encodeEntries C db)).map Prod.fst = _
  rw [htr]
  rfl

end Database

end AegisToken
