/-
  The applets' sealed stores (aegis-applets sealed.rs) and their place on the device.
  `SealedPivStore` is a metadata cell, which holds six small records in one map, and ten object
  cells. `SealedOathStore` and `SealedOpenPgpStore` are sealed blobs of two and four data shards.
  The applets see `true` and `false`; here `false` is a program that fails.
  `SealedStores` is the twenty regions the firmware hands out, with one root key: the applet
  stores take 0 to 18 and the FIDO credential store the one after them.
-/
import AegisToken.Core.CredentialStore
import AegisToken.Applets.Sealed

namespace AegisToken
open ByteCodec FlashProg

/-! ## The metadata map -/

def maxRecordBytes : Nat := 1536

def recordPin : UInt16 := 1
def recordPuk : UInt16 := 2
def recordMgmtKey : UInt16 := 3
def recordKeyBase : UInt16 := 10
def recordObjectBase : UInt16 := 30

/-- PIV records packed into the metadata cell. -/
def metaRecords : List UInt16 :=
  [recordPin, recordPuk, recordMgmtKey, recordKeyBase, recordKeyBase + 1, recordKeyBase + 2]

def metaBodyMax : Nat := metaRecords.length * (2 + maxRecordBytes)

/-- A record of the map, when it is there. -/
abbrev MapEntry := Option (BoundedBytes maxRecordBytes)

/-- The six small records in fixed order. -/
abbrev VecMap := { entries : List MapEntry // entries.length = metaRecords.length }

namespace VecMap

def empty : VecMap := ⟨List.replicate metaRecords.length none, List.length_replicate⟩

def set (map : VecMap) (position : Nat) (entry : MapEntry) : VecMap :=
  ⟨map.val.set position entry, by rw [List.length_set]; exact map.property⟩

/-- One record: a presence byte, a length and the value. -/
def encodeEntry : MapEntry → List UInt8
  | some data => 1 :: toLE 2 data.val.length ++ data.val
  | none => [0]

/-- The map as bytes, when they fit the metadata buffer. -/
def encode (map : VecMap) : Option (List UInt8) :=
  let bytes := map.val.flatMap encodeEntry
  if bytes.length ≤ metaBodyMax then some bytes else none

/-- One record off the front. -/
def decodeEntry : List UInt8 → Option (MapEntry × List UInt8)
  | [] => none
  | present :: rest =>
    if present = 0 then some (none, rest)
    else if present ≠ 1 then none
    else if rest.length < 2 then none
    else
      let len := ofLE (rest.take 2)
      let rest := rest.drop 2
      if len > maxRecordBytes then none
      else if rest.length < len then none
      else (BoundedBytes.ofSlice maxRecordBytes (rest.take len)).map fun data =>
        (some data, rest.drop len)

/-- `n` records off the front. -/
def decodeEntries : Nat → List UInt8 → Option (List MapEntry × List UInt8)
  | 0, rest => some ([], rest)
  | n + 1, rest => do
    let (entry, rest) ← decodeEntry rest
    let (entries, rest) ← decodeEntries n rest
    return (entry :: entries, rest)

/-- The map of a body, which has no bytes after it. -/
def decode (body : List UInt8) : Option VecMap := do
  let (entries, rest) ← decodeEntries metaRecords.length body
  if h : entries.length = metaRecords.length then
    if rest = [] then return ⟨entries, h⟩ else none
  else none

end VecMap

/-! ## The PIV store -/

def pivObjectStores : Nat := 10

instance neZero_cells : NeZero (1 + pivObjectStores) := ⟨by decide⟩

/-- A metadata cell and one cell for each data object. -/
structure SealedPivStore where
  aead : Aead
  metadata : SecretStorage
  objects : Fin pivObjectStores → SecretStorage

namespace SealedPivStore

/-- The cell with shard id `j`: the metadata cell is 0 and object `i` is `1 + i`. -/
def cell (s : SealedPivStore) (j : Fin (1 + pivObjectStores)) : SealedCell where
  storage := if h : j.val = 0 then s.metadata else s.objects ⟨j.val - 1, by omega⟩
  aead := s.aead
  applet := pivAppletTag
  shard := j.val

/-- The position of a record in the metadata map. -/
def metaEntry (record : UInt16) : Option Nat := metaRecords.findIdx? (· = record)

/-- The object cell of a record. -/
def objectCell (record : UInt16) : Option (Fin (1 + pivObjectStores)) :=
  let index := (record - recordObjectBase).toNat
  if h : index < pivObjectStores then some ⟨1 + index, by omega⟩ else none

/-- Check on opening: every cell opens. -/
def checkOpen (s : SealedPivStore) (f : Flash) : Except CoreError Unit :=
  (List.finRange (1 + pivObjectStores)).forM fun j => (s.cell j).checkOpen f

def loadMeta (s : SealedPivStore) (f : Flash) : Except CoreError (Option VecMap) := do
  match ← (s.cell 0).load f metaBodyMax with
  | none => return none
  | some body =>
    match VecMap.decode body with
    | some map => return some map
    | none => .error .storageError

def storeMeta (s : SealedPivStore) (map : VecMap) : Prog SealCall CoreError Unit :=
  match map.encode with
  | some body => (s.cell 0).store body
  | none => Prog.fail .storageError

/-- Change one record of the metadata map. -/
def updateMeta (s : SealedPivStore) (position : Nat) (entry : MapEntry) :
    Prog SealCall CoreError Unit := do
  let map ← Prog.look s.loadMeta
  s.storeMeta ((map.getD VecMap.empty).set position entry)

def write (s : SealedPivStore) (record : UInt16) (data : List UInt8) :
    Prog SealCall CoreError Unit :=
  match BoundedBytes.ofSlice maxRecordBytes data with
  | none => Prog.fail .storageError
  | some data =>
    match metaEntry record with
    | some position => s.updateMeta position (some data)
    | none =>
      match objectCell record with
      | some j => (s.cell j).store data.val
      | none => Prog.fail .storageError

def erase (s : SealedPivStore) (record : UInt16) : Prog SealCall CoreError Unit :=
  match metaEntry record with
  | some position => s.updateMeta position none
  | none =>
    match objectCell record with
    | some j => (s.cell j).erase
    | none => Prog.fail .storageError

/-- Read a record into a buffer of `outLen` bytes. -/
def read (s : SealedPivStore) (f : Flash) (record : UInt16) (outLen : Nat) :
    Option (List UInt8) :=
  match metaEntry record with
  | some position => do
    let map ← (← (s.loadMeta f).toOption)
    let data ← (← map.val[position]?)
    if outLen < data.val.length then none else return data.val
  | none =>
    if record < recordObjectBase then none
    else do
      let j ← objectCell record
      let data ← (← ((s.cell j).load f maxRecordBytes).toOption)
      if outLen < data.length then none else return data

/-- The cell a record is written to. -/
def cellOf (record : UInt16) : Option (Fin (1 + pivObjectStores)) :=
  match metaEntry record with
  | some _ => some 0
  | none => objectCell record

/-- What a program of the PIV store does to the flash: nothing, or one write of the cell `j`. -/
def WritesCell (s : SealedPivStore) (j : Option (Fin (1 + pivObjectStores)))
    (x : Prog SealCall CoreError Unit) : Prop :=
  ∀ f, x.ops f = [] ∨
    ∃ i present body, j = some i ∧ x.ops f = ((s.cell i).put present body).ops f

variable (s : SealedPivStore)

theorem writesCell_fail (j : Option (Fin (1 + pivObjectStores)))
    (e : CoreError) : s.WritesCell j (Prog.fail e) := fun _ => .inl rfl

theorem writesCell_store (j : Fin (1 + pivObjectStores)) (data : List UInt8) :
    s.WritesCell (some j) ((s.cell j).store data) := by
  unfold SealedCell.store
  split
  · exact s.writesCell_fail _ _
  · exact fun f => .inr ⟨j, true, data, rfl, rfl⟩

theorem writesCell_updateMeta (position : Nat) (entry : MapEntry) :
    s.WritesCell (some 0) (s.updateMeta position entry) := by
  intro f
  rcases hm : s.loadMeta f with e | map
  · have hlk : (Prog.look s.loadMeta : Prog SealCall CoreError _).result f = .error e := hm
    rw [updateMeta, Prog.ops_bind_error hlk]
    exact .inl rfl
  have hlk : (Prog.look s.loadMeta : Prog SealCall CoreError _).result f = .ok map := hm
  rw [updateMeta, Prog.ops_bind_ok hlk, storeMeta]
  split
  · exact s.writesCell_store 0 _ f
  · exact .inl rfl

theorem writesCell_write (record : UInt16) (data : List UInt8) :
    s.WritesCell (cellOf record) (s.write record data) := by
  unfold write cellOf
  rcases BoundedBytes.ofSlice maxRecordBytes data with _ | data
  · exact s.writesCell_fail _ _
  rcases metaEntry record with _ | position
  · rcases objectCell record with _ | j
    · exact s.writesCell_fail _ _
    · exact s.writesCell_store j data.val
  · exact s.writesCell_updateMeta position (some data)

theorem writesCell_erase (record : UInt16) :
    s.WritesCell (cellOf record) (s.erase record) := by
  unfold erase cellOf
  rcases metaEntry record with _ | position
  · rcases objectCell record with _ | j
    · exact s.writesCell_fail _ _
    · exact fun f => .inr ⟨j, false, [], rfl, rfl⟩
  · exact s.writesCell_updateMeta position none

end SealedPivStore

/-! ## The OATH and OpenPGP stores -/

def oathShards : Nat := 2

def openPgpShards : Nat := 4

/-- OATH: a blank store reads as an empty state, and an error as none. -/
def SealedOathStore.load (b : SealedBlob oathShards) (f : Flash) (outLen : Nat) :
    Option (List UInt8) :=
  match b.load f outLen with
  | .ok none => some []
  | .ok (some data) => some data
  | .error _ => none

/-- OpenPGP: a blank store and an error both read as none. -/
def SealedOpenPgpStore.load (b : SealedBlob openPgpShards) (f : Flash) (outLen : Nat) :
    Option (List UInt8) :=
  match b.load f outLen with
  | .ok state => state
  | .error _ => none

/-- `save` of the OATH and OpenPGP stores. -/
def saveState {S : Nat} (b : SealedBlob S) (data : List UInt8) : Prog SealCall CoreError Unit :=
  b.save data

/-- `clear` of the OATH and OpenPGP stores: save nothing. -/
def clearState {S : Nat} (b : SealedBlob S) : Prog SealCall CoreError Unit := b.save []

/-! ## The stores of a device -/

def pivMetaStore : Nat := 0
def pivObjectStoreBase : Nat := 1
def oathDataStoreBase : Nat := 11
def oathCommitStore : Nat := 13
def openPgpDataStoreBase : Nat := 14
def openPgpCommitStore : Nat := 18

/-- Applet-store indices taken by all sealed applet stores. -/
def appletStoreCount : Nat := 19

/-- The credential store comes after the applet stores. -/
def fidoCredStore : Nat := appletStoreCount

/-- The regions of all sealed stores, under one root key. No two regions share a byte. -/
structure SealedStores where
  aead : Aead
  cbor : Wire.Cbor
  region : Fin (appletStoreCount + 1) → SecretStorage
  apart : ∀ i j, i ≠ j → SlotStore.Apart (region i) (region j)

namespace SealedStores

def piv (d : SealedStores) : SealedPivStore where
  aead := d.aead
  metadata := d.region ⟨pivMetaStore, by decide⟩
  objects i := d.region ⟨pivObjectStoreBase + i.val, by
    have : i.val < 10 := i.isLt
    simp only [pivObjectStoreBase, appletStoreCount]
    omega⟩

/-- A sealed blob with its data shards from region `base` on. -/
def blob (d : SealedStores) (applet S base commit : Nat) (hbase : base + S ≤ commit)
    (hcommit : commit < appletStoreCount) : SealedBlob S where
  aead := d.aead
  applet := applet
  data i := d.region ⟨base + i.val, by omega⟩
  commit := d.region ⟨commit, by omega⟩
  data_apart i j hij := d.apart _ _ (by simp only [ne_eq, Fin.mk.injEq]; omega)
  commit_apart i := d.apart _ _ (by simp only [ne_eq, Fin.mk.injEq]; omega)

def oath (d : SealedStores) : SealedBlob oathShards :=
  d.blob oathAppletTag oathShards oathDataStoreBase oathCommitStore (by decide) (by decide)

def openPgp (d : SealedStores) : SealedBlob openPgpShards :=
  d.blob openPgpAppletTag openPgpShards openPgpDataStoreBase openPgpCommitStore (by decide)
    (by decide)

def fido (d : SealedStores) : SealedCredentialStore where
  storage := d.region ⟨fidoCredStore, by decide⟩
  aead := d.aead
  cbor := d.cbor

end SealedStores

end AegisToken
