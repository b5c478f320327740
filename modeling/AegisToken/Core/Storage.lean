/-
  The slot store of aegis-core (storage.rs) and its checksum (configuration.rs `crc32`).
  A store is two slots of `slotSize` bytes from `base` on. A record is a header of 16 bytes
  (magic, sequence number, version, length, CRC-32) and a payload of at most 2304 bytes.
  `store` erases the inactive slot, writes the header and then the payload: three flash
  operations, each of which the power can fail in.
  Flash reads do not fail in the model. A flash write that fails is a cut (`Lib.Flash`).
  Sequence numbers are 32-bit and wrap; offsets are within the 32-bit address space, which the
  store carries as a proof.
-/
import Mathlib.Logic.Function.Iterate
import AegisToken.Lib.Bytes
import AegisToken.Lib.Flash
import AegisToken.Lib.TwoSlot

namespace AegisToken
open ByteCodec FlashProg

/-- Error categories of the core (error.rs). -/
inductive CoreError where
  | invalidCommand
  | unsupportedCommand
  | invalidCapability
  | invalidConfiguration
  | invalidState
  | unauthorized
  | storageError
  | cryptoError
  | firmwareError
  | protocolError
deriving DecidableEq, Repr

/-! ## The checksum -/

/-- One bit of the reflected CRC-32; the mask is the wrapping negation of the low bit. -/
def crcBit (crc : UInt32) : UInt32 := (crc >>> 1) ^^^ (0xEDB88320 &&& (0 - (crc &&& 1)))

/-- CRC-32 (IEEE 802.3, reflected) over `data`. -/
def crc32 (data : List UInt8) : UInt32 :=
  ~~~(data.foldl (fun crc byte => crcBit^[8] (crc ^^^ byte.toUInt32)) 0xFFFFFFFF)

example : crc32 [0x31, 0x32, 0x33, 0x34, 0x35, 0x36, 0x37, 0x38, 0x39] = 0xCBF43926 := by
  decide +kernel

/-! ## Slots -/

def slotMagic : List UInt8 := [0x41, 0x47, 0x53, 0x4C]

/-- Record header length: magic (4), sequence (4), version (2), length (2), CRC-32 (4). -/
def slotHeaderLen : Nat := 16

def recordVersion : Nat := 1

def maxPayloadBytes : Nat := 2304

def slotCount : Nat := 2

/-- Sequence numbers are `u32`. -/
def seqModulus : Nat := 2 ^ 32

/-- A two-slot, sequence-numbered atomic record store. Both slots have room for a whole record
  and lie within the 32-bit address space. -/
structure SlotStore where
  base : Nat
  slotSize : Nat
  room : slotHeaderLen + maxPayloadBytes ≤ slotSize
  fits : base + slotCount * slotSize ≤ 2 ^ 32

namespace SlotStore

def slotOffset (s : SlotStore) (index : Nat) : Nat := s.base + index * s.slotSize

/-- The record in slot `index`, read into a buffer of `cap` bytes: its sequence number and its
  payload, or nothing when the header or the checksum does not fit. -/
def readSlot (s : SlotStore) (f : Flash) (index cap : Nat) : Option (Nat × List UInt8) :=
  let offset := s.slotOffset index
  let header := read f offset slotHeaderLen
  if header.take 4 ≠ slotMagic then none
  else if ofLE ((header.drop 8).take 2) ≠ recordVersion then none
  else
    let sequence := ofLE ((header.drop 4).take 4)
    let length := ofLE ((header.drop 10).take 2)
    let expectedCrc := ofLE ((header.drop 12).take 4)
    if length > cap ∨ length > maxPayloadBytes then none
    else
      let payload := read f (offset + slotHeaderLen) length
      if (crc32 payload).toNat ≠ expectedCrc then none
      else some (sequence, payload)

/-- The newest valid record's sequence number and slot. -/
def scan (s : SlotStore) (f : Flash) : Option (Nat × Nat) :=
  (List.range slotCount).foldl
    (fun best index =>
      match s.readSlot f index maxPayloadBytes with
      | some (sequence, _) =>
        match best with
        | none => some (sequence, index)
        | some (bestSequence, _) =>
          if sequence > bestSequence then some (sequence, index) else best
      | none => best)
    none

def loadSlot (s : SlotStore) (f : Flash) (index cap : Nat) :
    Except CoreError (Option (Nat × List UInt8)) :=
  if index ≥ slotCount then .error .storageError
  else .ok (s.readSlot f index cap)

/-- Load the newest valid record. The caller's buffer holds `maxPayloadBytes`. -/
def load (s : SlotStore) (f : Flash) : Option (Nat × List UInt8) :=
  (List.range slotCount).foldl
    (fun best index =>
      match s.readSlot f index maxPayloadBytes with
      | some (sequence, payload) =>
        match best with
        | none => some (sequence, payload)
        | some (bestSequence, _) =>
          if sequence > bestSequence then some (sequence, payload) else best
      | none => best)
    none

/-- The sequence number and the slot of the next record. -/
def next (s : SlotStore) (f : Flash) : Nat × Nat :=
  match s.scan f with
  | some (sequence, index) => ((sequence + 1) % seqModulus, 1 - index)
  | none => (1, 0)

def header (sequence : Nat) (payload : List UInt8) : List UInt8 :=
  slotMagic ++ toLE 4 sequence ++ toLE 2 recordVersion ++ toLE 2 payload.length ++
    toLE 4 (crc32 payload).toNat

/-- Atomically store a new record and return its sequence number. -/
def store {ν : Type} (s : SlotStore) (payload : List UInt8) : Prog ν CoreError Nat := do
  if payload.length > maxPayloadBytes then
    Prog.fail .storageError
  else
    let (nextSequence, inactive) ← Prog.look fun f => .ok (s.next f)
    let offset := s.slotOffset inactive
    Prog.issue (.erase offset s.slotSize)
    Prog.issue (.write offset (header nextSequence payload))
    Prog.issue (.write (offset + slotHeaderLen) payload)
    return nextSequence

end SlotStore

instance neZero_sectors : NeZero 1024 := ⟨by decide⟩

/-- The store on the `k`-th pair of 4096-byte erase sectors. -/
def sectorPair (k : Fin 1024) : SlotStore where
  base := k.val * 8192
  slotSize := 4096
  room := by decide
  fits := by have := k.isLt; simp only [slotCount]; omega

/-- The store of an opaque sealed blob: a slot store under another name. -/
abbrev SecretStorage := SlotStore

end AegisToken
