/-
  Sealed applet persistence (aegis-applets sealed.rs), as programs on the flash.
  `SealedCell` is one record `[generation][present][body]`; `SealedPivStore` is a metadata cell and
  ten object cells; `SealedBlob S` is a blob over `S` data cells and a commit cell, which
  `SealedOathStore` and `SealedOpenPgpStore` instantiate.
  Buffers are modelled by their lengths where the code compares them; `openCell` and `openShard`
  return the plaintext after the generation, which the code leaves in the caller's buffer.
  A store's key and layout do not change, so its operations take the flash as their only state.
  The regions of one store share no byte: that is a field of the store.
-/
import AegisToken.Core.Secret

namespace AegisToken
open ByteCodec FlashProg

/-- Length of the generation on every sealed payload. -/
def genLen : Nat := 8

def presentLen : Nat := 1

/-- Length of the total length on commit cells. -/
def commitLen : Nat := 4

def shardBodyMax : Nat := maxPayloadBytes - nonceLen - tagLen - genLen

/-- Generations are `u64`. -/
def genModulus : Nat := 2 ^ 64

def pivAppletTag : Nat := 1
def oathAppletTag : Nat := 2
def openPgpAppletTag : Nat := 3

/-- The GCM nonce of a generation in the domain of an applet and a shard. -/
def nonce (generation applet shard : Nat) : List UInt8 :=
  toLE 8 generation ++ toLE 2 applet ++ toLE 2 shard

/-! ## Records -/

/-- Seal `[generation][present][body]` as `[nonce][ciphertext][tag]` into `cap` bytes. -/
def sealCell (A : Aead) (applet shard generation : Nat) (present : Bool) (body : List UInt8)
    (cap : Nat) : Prog SealCall CoreError (List UInt8) :=
  if cap < nonceLen + genLen + presentLen + body.length + tagLen then Prog.fail .storageError
  else do
    let n := nonce generation applet shard
    let plain := toLE 8 generation ++ [if present then 1 else 0] ++ body
    let blob ← sealing A n plain (cap - nonceLen)
    return n ++ blob

/-- Open `[nonce][generation][body][tag]` into `cap` bytes: the generation and the body, which has
  at least `least` bytes. The nonce must be the one of our own domain. -/
def openRecord (least : Nat) (A : Aead) (applet shard : Nat) (blob : List UInt8) (cap : Nat) :
    Except CoreError (Nat × List UInt8) :=
  if blob.length < nonceLen + genLen + least + tagLen ∨ cap < genLen + least then
    .error .storageError
  else
    A.openSealed (blob.take nonceLen) (blob.drop nonceLen) cap >>= fun plain =>
      if plain.length < genLen + least then .error .storageError
      else if blob.take nonceLen ≠ nonce (ofLE (plain.take genLen)) applet shard then
        .error .storageError
      else .ok (ofLE (plain.take genLen), plain.drop genLen)

/-- Open a sealed cell: its generation, and its flag and body. -/
def openCell : Aead → Nat → Nat → List UInt8 → Nat → Except CoreError (Nat × List UInt8) :=
  openRecord presentLen

/-- Open a data or commit shard: its generation and its body. -/
def openShard : Aead → Nat → Nat → List UInt8 → Nat → Except CoreError (Nat × List UInt8) :=
  openRecord 0

/-- Visit the valid record of each slot in turn. -/
def foldSlots {α : Type} (storage : SecretStorage) (f : Flash)
    (visit : α → List UInt8 → Except CoreError α) (a : α) : Except CoreError α :=
  (List.range slotCount).foldlM
    (fun a slot => do
      match ← storage.loadSlot f slot maxPayloadBytes with
      | some (_, blob) => visit a blob
      | none => return a)
    a

/-- The first slot of `slots` whose valid record is picked. -/
def findSlot {α : Type} (storage : SecretStorage) (f : Flash)
    (pick : List UInt8 → Except CoreError (Option α)) : List Nat → Except CoreError (Option α)
  | [] => .ok none
  | slot :: slots => do
    match ← storage.loadSlot f slot maxPayloadBytes with
    | some (_, blob) =>
      match ← pick blob with
      | some a => return some a
      | none => findSlot storage f pick slots
    | none => findSlot storage f pick slots

/-! ## Cells -/

/-- One sealed record: `[generation][present][body]` under AES-256-GCM. -/
structure SealedCell where
  storage : SecretStorage
  aead : Aead
  applet : Nat
  shard : Nat

namespace SealedCell

/-- The plaintext buffers of a cell. -/
def plainCap : Nat := genLen + presentLen + shardBodyMax

def checkOpen (c : SealedCell) (f : Flash) : Except CoreError Unit :=
  match c.storage.load f with
  | some (_, blob) => do
    let _ ← openCell c.aead c.applet c.shard blob plainCap
    return ()
  | none => .ok ()

/-- Fresh generation for the next write: above every generation observed in either slot. -/
def freshGen (c : SealedCell) (f : Flash) : Except CoreError Nat := do
  let generation ← foldSlots c.storage f
    (fun generation blob => do
      let (slotGen, _) ← openCell c.aead c.applet c.shard blob plainCap
      return max generation slotGen)
    0
  return (generation + 1) % genModulus

/-- The record body, when it fits `outLen` bytes. -/
def load (c : SealedCell) (f : Flash) (outLen : Nat) : Except CoreError (Option (List UInt8)) :=
  match c.storage.load f with
  | none => .ok none
  | some (_, blob) => do
    let (_, flagged) ← openCell c.aead c.applet c.shard blob plainCap
    match flagged with
    | [] => return none
    | flag :: body =>
      if flag = 0 then return none
      else if outLen < body.length then return none
      else return some body

/-- Seal a record under a fresh generation and store it. -/
def put (c : SealedCell) (present : Bool) (body : List UInt8) : Prog SealCall CoreError Unit := do
  let generation ← Prog.look c.freshGen
  let blob ← sealCell c.aead c.applet c.shard generation present body maxPayloadBytes
  let _ ← c.storage.store blob
  return ()

def store (c : SealedCell) (data : List UInt8) : Prog SealCall CoreError Unit :=
  if data.length > shardBodyMax then Prog.fail .storageError
  else c.put true data

/-- Atomically erase the record via tombstone. -/
def erase (c : SealedCell) : Prog SealCall CoreError Unit := c.put false []

end SealedCell

/-! ## Blobs -/

/-- A whole applet blob over `S` data cells and one commit cell, in separate regions. -/
structure SealedBlob (S : Nat) where
  aead : Aead
  applet : Nat
  data : Fin S → SecretStorage
  commit : SecretStorage
  data_apart : ∀ i j, i ≠ j → SlotStore.Apart (data i) (data j)
  commit_apart : ∀ i, SlotStore.Apart (data i) commit

namespace SealedBlob

variable {S : Nat}

/-- The cell with shard id `j`: a data cell, or the commit cell from `S` on. -/
def cell (b : SealedBlob S) (j : Nat) : SecretStorage :=
  if h : j < S then b.data ⟨j, h⟩ else b.commit

/-- Check on opening: the newest commit record must open and have the right length. -/
def checkOpen (b : SealedBlob S) (f : Flash) : Except CoreError Unit :=
  match b.commit.load f with
  | some (_, blob) => do
    let (_, body) ← openShard b.aead b.applet S blob maxPayloadBytes
    if body.length ≠ commitLen then .error .storageError else .ok ()
  | none => .ok ()

/-- Open a data-shard blob, returning its generation. -/
def blobGen (b : SealedBlob S) (shard : Nat) (blob : List UInt8) : Except CoreError Nat := do
  let (generation, _) ← openShard b.aead b.applet shard blob maxPayloadBytes
  return generation

/-- Open a commit blob, returning its generation. -/
def commitGen (b : SealedBlob S) (blob : List UInt8) : Except CoreError Nat := do
  let (generation, body) ← openShard b.aead b.applet S blob maxPayloadBytes
  if body.length ≠ commitLen then .error .storageError else .ok generation

/-- Highest generation observed anywhere, plus one. -/
def freshGen (b : SealedBlob S) (f : Flash) : Except CoreError Nat := do
  let generation ← (List.range S).foldlM
    (fun generation index => foldSlots (b.cell index) f
      (fun generation blob => return max generation (← b.blobGen index blob)) generation)
    0
  let generation ← foldSlots b.commit f
    (fun generation blob => return max generation (← b.commitGen blob)) generation
  return (generation + 1) % genModulus

/-- The part of `data` that goes to data shard `index`. -/
def chunk (data : List UInt8) (index : Nat) : List UInt8 :=
  let start := index * shardBodyMax
  let stop := min (start + shardBodyMax) data.length
  if start < data.length then (data.drop start).take (stop - start) else []

/-- Seal `[generation][body]` for shard `shard` and store it. -/
def writeShard (b : SealedBlob S) (shard generation : Nat) (body : List UInt8) :
    Prog SealCall CoreError Unit := do
  let n := nonce generation b.applet shard
  let blob ← sealing b.aead n (toLE 8 generation ++ body) (maxPayloadBytes - nonceLen)
  let _ ← (b.cell shard).store (n ++ blob)
  return ()

/-- Persist `data`: every data shard in turn, then the commit record. -/
def save (b : SealedBlob S) (data : List UInt8) : Prog SealCall CoreError Unit :=
  if data.length > S * shardBodyMax then Prog.fail .storageError
  else do
    let generation ← Prog.look b.freshGen
    (List.range S).forM fun index => b.writeShard index generation (chunk data index)
    b.writeShard S generation (toLE 4 data.length)

/-- The total length in generation `generation`'s commit record. -/
def commitTotal (b : SealedBlob S) (f : Flash) (generation : Nat) :
    Except CoreError (Option Nat) :=
  findSlot b.commit f
    (fun blob => do
      let (slotGen, body) ← openShard b.aead b.applet S blob maxPayloadBytes
      if slotGen = generation ∧ body.length = commitLen then return some (ofLE body)
      else return none)
    (List.range slotCount)

/-- The body of generation `generation` in data shard `index`. -/
def shardBody (b : SealedBlob S) (f : Flash) (generation index : Nat) :
    Except CoreError (Option (List UInt8)) :=
  findSlot (b.cell index) f
    (fun blob => do
      let (slotGen, body) ← openShard b.aead b.applet index blob maxPayloadBytes
      if slotGen = generation then return some body else return none)
    (List.range slotCount)

/-- Append the bodies of the shards `indices` to `out`, up to `total` bytes. -/
def gather (b : SealedBlob S) (f : Flash) (generation total : Nat) :
    List Nat → List UInt8 → Except CoreError (Option (List UInt8))
  | [], out => .ok (some out)
  | index :: indices, out => do
    match ← b.shardBody f generation index with
    | none => return none
    | some body =>
      b.gather f generation total indices (out ++ body.take (min body.length (total - out.length)))

/-- Assemble `generation` from every data shard into a buffer of `outLen` bytes. -/
def assemble (b : SealedBlob S) (f : Flash) (generation outLen : Nat) :
    Except CoreError (Option (List UInt8)) := do
  match ← b.commitTotal f generation with
  | none => .error .storageError
  | some total =>
    if total > S * shardBodyMax ∨ outLen < total then .error .storageError
    else
      match ← b.gather f generation total (List.range S) [] with
      | none => return none
      | some out => if out.length < total then return none else return some out

/-- The generations of the commit records, newest first. -/
def candidates (b : SealedBlob S) (f : Flash) : Except CoreError (List Nat) := do
  let found ← foldSlots b.commit f
    (fun found blob => do
      let (generation, body) ← openShard b.aead b.applet S blob maxPayloadBytes
      if body.length = commitLen then return found ++ [generation] else return found)
    []
  match found with
  | [a, c] => if c > a then return [c, a] else return [a, c]
  | _ => return found

/-- The first candidate that assembles; none of them is an error. -/
def firstComplete (b : SealedBlob S) (f : Flash) (outLen : Nat) :
    List Nat → Except CoreError (List UInt8)
  | [] => .error .storageError
  | candidate :: rest => do
    match ← b.assemble f candidate outLen with
    | some out => return out
    | none => b.firstComplete f outLen rest

/-- Load the newest complete generation into a buffer of `outLen` bytes. -/
def load (b : SealedBlob S) (f : Flash) (outLen : Nat) :
    Except CoreError (Option (List UInt8)) := do
  let found ← b.candidates f
  if found = [] then return none
  else
    let out ← b.firstComplete f outLen found
    return some out

end SealedBlob

end AegisToken
