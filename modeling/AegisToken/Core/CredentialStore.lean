/-
  The encrypted, persistent credential store (aegis-core credential_store.rs).
  The database is held in memory and written as one sealed record by `flush`, which raises the
  counter first and takes the nonce from it. An operation returns the database in memory and the
  program on the flash: the change in memory stands also when the program fails.
  `openDb` reads both slots and takes the record with the highest counter.
-/
import AegisToken.Core.Credential
import AegisToken.Core.Secret

namespace AegisToken
open ByteCodec FlashProg Wire

/-! ## The vector of credentials -/

namespace Cache

def position (cache : Cache) (credentialId : List UInt8) : Option Nat :=
  cache.val.findIdx? fun c => c.id.val = credentialId

def modify (cache : Cache) (index : Nat) (change : Credential → Credential) : Cache :=
  ⟨cache.val.modify index change, by rw [List.length_modify]; exact cache.property⟩

/-- Remove the credential at a position; the last one takes its place. -/
def swapRemove (cache : Cache) (index : Nat) : Cache :=
  match cache.val.getLast? with
  | none => cache
  | some last =>
    ⟨(cache.val.set index last).dropLast, by
      have := cache.property
      rw [List.length_dropLast, List.length_set]
      omega⟩

def get (cache : Cache) (credentialId : List UInt8) : Option Credential :=
  cache.val.find? fun c => c.id.val = credentialId

def saturatingSucc (count : UInt32) : UInt32 := if count = 0xFFFFFFFF then count else count + 1

def raise (cache : Cache) (credentialId : List UInt8) : Option (UInt32 × Cache) :=
  match cache.position credentialId, cache.get credentialId with
  | some index, some credential =>
    let count := saturatingSucc credential.signCount
    some (count, cache.modify index fun c => { c with signCount := count })
  | _, _ => none

end Cache

/-! ## The store -/

/-- A credential store on a region, under a root key. -/
structure SealedCredentialStore where
  storage : SecretStorage
  aead : Aead
  cbor : Cbor

namespace SealedCredentialStore

/-- What the scan of the slots has found. -/
structure Scan where
  selected : Option (Nat × Database)
  sawBlob : Bool
  newestAuthFailedSequence : Option Nat

/-- A record that does not authenticate or decode. -/
def Scan.failed (acc : Scan) (sequence : Nat) : Scan :=
  { acc with
    newestAuthFailedSequence :=
      match acc.newestAuthFailedSequence with
      | none => some sequence
      | some failed => some (if sequence > failed then sequence else failed) }

/-- A record that decodes: it is selected when its counter is the highest so far. -/
def Scan.candidate (acc : Scan) (sequence : Nat) (db : Database) : Scan :=
  match acc.selected with
  | none => { acc with selected := some (sequence, db) }
  | some (_, best) =>
    if db.counter > best.counter then { acc with selected := some (sequence, db) } else acc

def openRecord (s : SealedCredentialStore) (blob : List UInt8) : Except CoreError Database :=
  if blob.length < nonceLen + tagLen then .error .storageError
  else do
    let plain ← s.aead.openSealed (blob.take nonceLen) (blob.drop nonceLen) maxSealedPlain
    Database.decodeDb s.cbor plain

def scanSlot (s : SealedCredentialStore) (f : Flash) (acc : Scan) (index : Nat) :
    Except CoreError Scan := do
  match ← s.storage.loadSlot f index maxPayloadBytes with
  | none => return acc
  | some (sequence, blob) =>
    let acc := { acc with sawBlob := true }
    match s.openRecord blob with
    | .ok db => return acc.candidate sequence db
    | .error _ => return acc.failed sequence

/-- The scan fails closed: a record newer than the selected one did not open. -/
def Scan.stale (acc : Scan) : Bool :=
  acc.sawBlob &&
    match acc.newestAuthFailedSequence with
    | none => false
    | some failed =>
      match acc.selected with
      | none => true
      | some (selected, _) => decide (failed > selected)

/-- What the scan gives: the selected database, or an empty one on blank flash. -/
def Scan.finish (acc : Scan) : Except CoreError Database :=
  if acc.stale then .error .storageError
  else
    match acc.selected with
    | some (_, db) => .ok db
    | none => .ok Database.initial

def openDb (s : SealedCredentialStore) (f : Flash) : Except CoreError Database :=
  (List.range slotCount).foldlM (s.scanSlot f) ⟨none, false, none⟩ >>= Scan.finish

def nonce (counter : UInt64) : List UInt8 := toLE 8 counter.toNat ++ [0, 0, 0, 0]

/-- The part of `flush` after the counter was raised: encode, seal and store. -/
def writeDb (s : SealedCredentialStore) (db : Database) : Prog SealCall CoreError Unit :=
  match db.encodeDb s.cbor with
  | .error e => Prog.fail e
  | .ok plain => do
    let blob ← sealing s.aead (nonce db.counter) plain (maxPayloadBytes - nonceLen)
    let _ ← s.storage.store (nonce db.counter ++ blob)
    return ()

/-- Write the database under the next counter. -/
def flush (s : SealedCredentialStore) (db : Database) : Database × Prog SealCall CoreError Unit :=
  let db := { db with counter := db.counter + 1 }
  (db, s.writeDb db)

/-! ## Operations -/

/-- Set the PIN hash and reset the retry budget. -/
def setPin (s : SealedCredentialStore) (db : Database) (hash : FixedBytes 32) :
    Database × Prog SealCall CoreError Unit :=
  s.flush { db with pinHash := some hash, pinRetries := defaultPinRetries }

def clearPin (s : SealedCredentialStore) (db : Database) : Database × Prog SealCall CoreError Unit :=
  s.flush { db with pinHash := none, pinRetries := defaultPinRetries }

def setPinRetries (s : SealedCredentialStore) (db : Database) (retries : UInt8) :
    Database × Prog SealCall CoreError Unit :=
  s.flush { db with pinRetries := retries }

/-- Factory reset: remove all credentials and the PIN. -/
def reset (s : SealedCredentialStore) (db : Database) : Database × Prog SealCall CoreError Unit :=
  s.flush { db with cache := Cache.empty, pinHash := none, pinRetries := defaultPinRetries }

def insert (s : SealedCredentialStore) (db : Database) (credential : Credential) :
    Database × Prog SealCall CoreError Unit :=
  match db.cache.position credential.id.val with
  | some index => s.flush { db with cache := db.cache.modify index fun _ => credential }
  | none =>
    match db.cache.push credential with
    | some cache => s.flush { db with cache }
    | none => (db, Prog.fail .storageError)

/-- Increment and return the signature counter of a credential. The source's `None` is a program
  that fails. -/
def nextSignCount (s : SealedCredentialStore) (db : Database) (credentialId : List UInt8) :
    Database × Prog SealCall CoreError UInt32 :=
  match db.cache.raise credentialId with
  | some (count, cache) =>
    let (db, write) := s.flush { db with cache }
    (db, write >>= fun _ => pure count)
  | none => (db, Prog.fail .invalidCommand)

def remove (s : SealedCredentialStore) (db : Database) (credentialId : List UInt8) :
    Database × Prog SealCall CoreError Unit :=
  match db.cache.position credentialId with
  | some index => s.flush { db with cache := db.cache.swapRemove index }
  | none => s.flush db

/-- Remove all credentials. The source drops an error of the flush. -/
def clear (s : SealedCredentialStore) (db : Database) : Database × Prog SealCall CoreError Unit :=
  s.flush { db with cache := Cache.empty }

/-- The operations that write. -/
inductive CredentialOp where
  | setPin (hash : FixedBytes 32)
  | clearPin
  | setPinRetries (retries : UInt8)
  | reset
  | insert (credential : Credential)
  | nextSignCount (credentialId : List UInt8)
  | remove (credentialId : List UInt8)
  | clear

/-- An operation by its name, without what it returns. -/
def run (s : SealedCredentialStore) (db : Database) :
    CredentialOp → Database × Prog SealCall CoreError Unit
  | .setPin hash => s.setPin db hash
  | .clearPin => s.clearPin db
  | .setPinRetries retries => s.setPinRetries db retries
  | .reset => s.reset db
  | .insert credential => s.insert db credential
  | .nextSignCount credentialId =>
    ((s.nextSignCount db credentialId).1,
      (s.nextSignCount db credentialId).2 >>= fun _ => pure ())
  | .remove credentialId => s.remove db credentialId
  | .clear => s.clear db

variable (s : SealedCredentialStore)

/-- Every operation is refused, or it is a flush of a database under the old counter. -/
theorem run_flushes (db : Database) (op : CredentialOp) :
    ((s.run db op).1 = db ∧ ∀ f, (s.run db op).2.ops f = [] ∧
        ∃ e, (s.run db op).2.result f = .error e) ∨
      ∃ db' : Database, db'.counter = db.counter ∧ (s.run db op).1 = (s.flush db').1 ∧
        ∀ f, (s.run db op).2.ops f = (s.flush db').2.ops f ∧
          (s.run db op).2.result f = (s.flush db').2.result f := by
  have hfl : ∀ db' : Database, db'.counter = db.counter → ∃ db'' : Database,
      db''.counter = db.counter ∧ (s.flush db').1 = (s.flush db'').1 ∧
        ∀ f, (s.flush db').2.ops f = (s.flush db'').2.ops f ∧
          (s.flush db').2.result f = (s.flush db'').2.result f :=
    fun db' h => ⟨db', h, rfl, fun _ => ⟨rfl, rfl⟩⟩
  cases op with
  | setPin hash | clearPin | setPinRetries retries | reset | clear => exact .inr (hfl _ rfl)
  | insert credential =>
    simp only [run, insert]
    split
    · exact .inr (hfl _ rfl)
    · split
      · exact .inr (hfl _ rfl)
      · exact .inl ⟨rfl, fun _ => ⟨rfl, _, rfl⟩⟩
  | nextSignCount credentialId =>
    simp only [run, nextSignCount]
    split
    · next count cache hrs =>
      refine .inr ⟨{ db with cache }, rfl, rfl, fun f => ⟨?_, ?_⟩⟩
      · rw [bind_assoc]
        exact Prog.ops_forget _ f
      rw [bind_assoc]
      rcases hr : (s.flush { db with cache }).2.result f with e | ⟨⟩
      · exact Prog.result_bind_error hr
      · exact Prog.result_bind_ok hr
    · exact .inl ⟨rfl, fun _ => ⟨rfl, _, rfl⟩⟩
  | remove credentialId =>
    simp only [run, remove]
    split <;> exact .inr (hfl _ rfl)

/-- Every operation is refused, or it writes a database under the next counter. -/
theorem run_cases (db : Database) (op : CredentialOp) :
    ((s.run db op).1 = db ∧ ∀ f, (s.run db op).2.ops f = []) ∨
      ((s.run db op).1.counter = db.counter + 1 ∧
        ∀ f, (s.run db op).2.ops f = (s.writeDb (s.run db op).1).ops f) := by
  rcases s.run_flushes db op with ⟨hdb, hr⟩ | ⟨db', hc, hdb, hpr⟩
  · exact .inl ⟨hdb, fun f => (hr f).1⟩
  refine .inr ⟨?_, fun f => ?_⟩
  · rw [hdb, ← hc]
    rfl
  · rw [hdb, (hpr f).1]
    rfl

/-! ## Records -/

def record (s : SealedCredentialStore) (db : Database) : List UInt8 :=
  nonce db.counter ++ s.aead.encrypt (nonce db.counter) (db.bytes s.cbor)

@[simp] theorem length_nonce (counter : UInt64) : (nonce counter).length = nonceLen := by
  simp [nonce, nonceLen]

theorem length_record (db : Database) :
    (s.record db).length = nonceLen + ((db.bytes s.cbor).length + tagLen) := by
  rw [record, List.length_append, length_nonce, s.aead.length_encrypt]

variable {s : SealedCredentialStore} {db : Database}

theorem record_fits (h : db.Fits s.cbor) :
    (s.record db).length ≤ maxPayloadBytes := by
  simp only [Database.Fits, maxSealedPlain] at h
  simp only [length_record, nonceLen, tagLen, maxPayloadBytes]
  omega

theorem openRecord_record (h : db.Fits s.cbor) :
    s.openRecord (s.record db) = .ok db := by
  have hl := s.length_record db
  have htk : (s.record db).take nonceLen = nonce db.counter :=
    List.take_left' (length_nonce _)
  have hdr : (s.record db).drop nonceLen =
      s.aead.encrypt (nonce db.counter) (db.bytes s.cbor) := List.drop_left' (length_nonce _)
  rw [openRecord, if_neg (by omega), htk, hdr, Aead.openSealed_encrypt h]
  exact Database.decodeDb_bytes s.cbor db

theorem writeDb_eq (h : db.Fits s.cbor) :
    s.writeDb db = storeSealed s.aead s.storage (nonce db.counter) (db.bytes s.cbor) := by
  rw [writeDb, Database.encodeDb, if_pos h]
  refine sealing_store_eq s.aead s.storage ?_
  simp only [Database.Fits, maxSealedPlain] at h
  simp only [nonceLen, tagLen, maxPayloadBytes]
  omega

theorem writeDb_of_not_fits (h : ¬ db.Fits s.cbor) :
    s.writeDb db = Prog.fail .storageError := by
  rw [writeDb, Database.encodeDb, if_neg h]

theorem flush_result (s : SealedCredentialStore) (db : Database) (f : Flash) :
    (s.flush db).2.result f =
      if (s.flush db).1.Fits s.cbor then .ok () else .error .storageError := by
  show (s.writeDb (s.flush db).1).result f = _
  split
  · next hf =>
    rw [writeDb_eq hf]
    exact storeSealed_result (record_fits hf) f
  · next hf =>
    rw [writeDb_of_not_fits hf]
    rfl

theorem counter_succ_ne (counter : UInt64) : counter + 1 ≠ counter := by
  intro h
  have hsc := congrArg UInt64.toNat h
  simp at hsc
  omega

variable {f : Flash}

/-- An operation returns exactly where it writes a database that fits under the next counter. -/
theorem run_result_iff {op : CredentialOp} :
    (s.run db op).2.result f = .ok () ↔
      (s.run db op).1.counter = db.counter + 1 ∧ (s.run db op).1.Fits s.cbor := by
  rcases s.run_flushes db op with ⟨hdb, hr⟩ | ⟨db', hc, hdb, hpr⟩
  · obtain ⟨-, e, hs⟩ := hr f
    rw [hdb, hs]
    exact ⟨nofun, fun h => absurd h.1.symm (counter_succ_ne db.counter)⟩
  have hnx : (s.flush db').1.counter = db.counter + 1 := by
    rw [← hc]
    rfl
  rw [(hpr f).2, flush_result, hdb]
  split
  · next hf => exact ⟨fun _ => ⟨hnx, hf⟩, fun _ => rfl⟩
  · next hf => exact ⟨nofun, fun h => absurd h.2 hf⟩

/-- An operation that returns has written the database under the next counter. -/
theorem run_result {op : CredentialOp} (hok : (s.run db op).2.result f = .ok ()) :
    (s.run db op).1.counter = db.counter + 1 ∧ (s.run db op).1.Fits s.cbor :=
  run_result_iff.mp hok

/-! ## The register of databases -/

/-- The region holds the records of a register of databases that fit. -/
structure Holds (s : SealedCredentialStore) (f : Flash) (r : TwoSlot.Reg Database) : Prop where
  view : s.storage.view f = TwoSlot.map s.record r
  fits : ∀ db, TwoSlot.Mem r db → db.Fits s.cbor

theorem Holds.blank (s : SealedCredentialStore) :
    s.Holds FlashProg.blank TwoSlot.Reg.empty where
  view := s.storage.view_blank
  fits db hdb := absurd hdb (TwoSlot.not_mem_empty db)

variable {r : TwoSlot.Reg Database}

theorem Holds.writeDb (h : s.Holds f r) (hf : db.Fits s.cbor) :
    s.Holds ((s.writeDb db).after f) (TwoSlot.put seqModulus r db) where
  view := by
    have hr : nonce db.counter ++ s.aead.encrypt (nonce db.counter) (db.bytes s.cbor) =
        s.record db := rfl
    rw [writeDb_eq hf, storeSealed_after, hr, s.storage.view_after f (record_fits hf), h.view,
      TwoSlot.put_map]
  fits x hx := by
    rcases (TwoSlot.Torn.landed : TwoSlot.Torn seqModulus r db _).mem hx with rfl | hx
    · exact hf
    · exact h.fits x hx

theorem Holds.writeDb_crash (h : s.Holds f r) (hf : db.Fits s.cbor) {n : Nat}
    (hc : s.storage.TornRejected ((s.writeDb db).crash n f) (s.storage.next f).2
      (s.storage.next f).1 (s.record db)) :
    ∃ r', TwoSlot.Torn seqModulus r db r' ∧ s.Holds ((s.writeDb db).crash n f) r' := by
  have hcr : (s.writeDb db).crash n f =
      (s.storage.store (s.record db) : Prog SealCall CoreError Nat).crash n f := by
    rw [writeDb_eq hf, storeSealed_crash]
    rfl
  rw [hcr] at hc ⊢
  have htr := s.storage.view_crash f n (record_fits hf) hc
  rw [h.view] at htr
  obtain ⟨r', hvw, hr'⟩ := htr.of_map
  refine ⟨r', hr', hvw, fun x hx => ?_⟩
  rcases hr'.mem hx with rfl | hx
  · exact hf
  · exact h.fits x hx

theorem Holds.scanSlot (h : s.Holds f r) (acc : Scan) (i : Fin 2) :
    s.scanSlot f acc i.val = .ok (match r i with
      | none => acc
      | some (sequence, db) => Scan.candidate { acc with sawBlob := true } sequence db) := by
  have hsl : s.storage.loadSlot f i.val maxPayloadBytes = .ok (s.storage.view f i) :=
    if_neg (by simp only [slotCount]; omega)
  rw [SealedCredentialStore.scanSlot, hsl, h.view]
  rcases hi : r i with _ | ⟨sequence, db⟩
  · simp only [TwoSlot.map, hi]
    rfl
  have hon := openRecord_record (h.fits db ⟨i, sequence, hi⟩)
  simp only [TwoSlot.map, hi, Option.map_some, Prod.map_apply, id_eq]
  show (match s.openRecord (s.record db) with
    | .ok db => _
    | .error _ => _) = _
  rw [hon]
  rfl

/-- Opening takes the database with the highest counter. -/
theorem Holds.openDb (h : s.Holds f r) :
    (s.openDb f = .ok Database.initial ∧ ∀ db, ¬ TwoSlot.Mem r db) ∨
      ∃ db, s.openDb f = .ok db ∧ TwoSlot.Mem r db ∧
        ∀ db', TwoSlot.Mem r db' → db'.counter ≤ db.counter := by
  have hfl : s.openDb f = (s.scanSlot f ⟨none, false, none⟩ (0 : Fin 2).val >>= fun acc =>
      s.scanSlot f acc (1 : Fin 2).val >>= Scan.finish) := by
    show (List.foldlM _ _ [0, 1] >>= _) = _
    rw [List.foldlM_cons, bind_assoc]
    simp only [List.foldlM_cons, List.foldlM_nil, bind_pure]
    rfl
  have hm : ∀ db, TwoSlot.Mem r db ↔ (∃ t, r 0 = some (t, db)) ∨ ∃ t, r 1 = some (t, db) :=
    fun db => Fin.exists_fin_two
  simp only [hfl, h.scanSlot, hm]
  rcases h0 : r 0 with _ | ⟨a, x⟩
  · rcases h1 : r 1 with _ | ⟨b, y⟩
    · exact .inl ⟨rfl, by simp⟩
    refine .inr ⟨y, rfl, .inr ⟨b, rfl⟩, ?_⟩
    rintro db' (⟨t, ht⟩ | ⟨t, ht⟩)
    · cases ht
    · cases ht
      exact Nat.le_refl _
  · rcases h1 : r 1 with _ | ⟨b, y⟩
    · refine .inr ⟨x, rfl, .inl ⟨a, rfl⟩, ?_⟩
      rintro db' (⟨t, ht⟩ | ⟨t, ht⟩)
      · cases ht
        exact Nat.le_refl _
      · cases ht
    · by_cases hlt : y.counter > x.counter
      · refine .inr ⟨y, ?_, .inr ⟨b, rfl⟩, ?_⟩
        · show (Scan.candidate ⟨some (a, x), true, none⟩ b y).finish = _
          simp only [Scan.candidate, if_pos hlt]
          rfl
        rintro db' (⟨t, ht⟩ | ⟨t, ht⟩)
        · cases ht
          exact UInt64.le_of_lt hlt
        · cases ht
          exact Nat.le_refl _
      · refine .inr ⟨x, ?_, .inl ⟨a, rfl⟩, ?_⟩
        · show (Scan.candidate ⟨some (a, x), true, none⟩ b y).finish = _
          simp only [Scan.candidate, if_neg hlt]
          rfl
        rintro db' (⟨t, ht⟩ | ⟨t, ht⟩)
        · cases ht
          exact Nat.le_refl _
        · cases ht
          exact UInt64.not_lt.mp hlt

end SealedCredentialStore

end AegisToken
