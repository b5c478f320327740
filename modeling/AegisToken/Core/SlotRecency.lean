/-
  Which record of the slot store counts as the newest.
  A record's sequence number is 32 bits wide and compared as it stands, and the checksum covers the
  payload only. Two things follow. After a record with the number `2 ^ 32 - 1` the next one gets 0
  and is not loaded (`load_store_iff`). And an erase that is interrupted in the sequence number of
  the older record can raise it above the newest one: the older record is loaded then, and only
  then (`load_tornErase_iff`).
-/
import AegisToken.Core.PowerFail

namespace AegisToken.SlotStore
open ByteCodec FlashProg TwoSlot

/-! ## The last number -/

variable {payload : List UInt8} (s : SlotStore) {sequence : Nat} {f : Flash}

theorem readSlot_seq_lt {index cap sequence : Nat}
    (h : s.readSlot f index cap = some (sequence, payload)) : sequence < seqModulus := by
  rw [readSlot_eq] at h
  split_ifs at h
  cases h
  have hlt := ofLE_lt (read f (s.slotOffset index + 4) 4)
  rw [length_read] at hlt
  exact hlt

theorem load_seq_lt (h : s.load f = some (sequence, payload)) : sequence < seqModulus := by
  rw [load_eq] at h
  obtain ⟨i, -, hi⟩ := newest_of_load h
  exact s.readSlot_seq_lt hi

/-- A store that returns is read back, unless the newest record has the last sequence number and
  another payload. -/
theorem load_store_iff (s : SlotStore) (f : Flash) {payload : List UInt8} {sequence : Nat}
    (hok : (s.store payload : Prog Empty CoreError Nat).result f = .ok sequence) :
    (s.load ((s.store payload : Prog Empty CoreError Nat).after f)).map Prod.snd = some payload ↔
      ∀ newest old, s.load f = some (newest, old) → newest = 2 ^ 32 - 1 → old = payload := by
  have hp : payload.length ≤ maxPayloadBytes := by
    by_contra hlong
    rw [store, if_pos (by omega)] at hok
    cases hok
  have hseq := fun n old (h : s.load f = some (n, old)) => s.load_seq_lt h
  rw [load_eq, view_after s f hp]
  rw [load_eq] at hseq ⊢
  generalize s.view f = r at hseq ⊢
  rcases hload : TwoSlot.load r with _ | ⟨n, old⟩
  · have hempty : SeqLe 0 r := by
      intro i m x hx
      rw [load_eq_none.mp hload i] at hx
      cases hx
    rw [load_put payload hempty (by decide)]
    exact ⟨fun _ _ _ h => (by cases h), fun _ => rfl⟩
  · have hlt : n < 2 ^ 32 := hseq n old hload
    by_cases hlast : n = 2 ^ 32 - 1
    · have hnext : nextSeq seqModulus r < n := by
        rw [nextSeq, hload, hlast]
        exact (by decide : (2 ^ 32 - 1 + 1) % seqModulus < 2 ^ 32 - 1)
      rw [load_put_of_lt payload hload hnext]
      constructor
      · intro h newest old' hsome _
        cases hsome
        exact Option.some.inj h
      · intro h
        rw [Option.map_some, h n old rfl hlast]
    · rw [load_put payload (seq_le_of_load hload) (by unfold seqModulus; omega)]
      refine ⟨fun _ newest old' hsome hn => ?_, fun _ => rfl⟩
      cases hsome
      exact absurd hn hlast

/-- A store whose newest record has the number `2 ^ 32 - 1`. -/
def lastNumber : Flash :=
  apply blank ([.write 0 (header (2 ^ 32 - 1) [0x2A]), .write 16 [0x2A]] : List (Op Empty))

theorem load_store_iff_lastNumber :
    ((sectorPair 0).load (((sectorPair 0).store [0x2A] : Prog Empty CoreError Nat).after
      lastNumber)).map Prod.snd = some [0x2A] := by
  have hok : ((sectorPair 0).store [0x2A] : Prog Empty CoreError Nat).result lastNumber = .ok 0 := by
    decide +kernel
  refine (load_store_iff (sectorPair 0) lastNumber hok).mpr ?_
  intro newest old hload _
  have hold : (sectorPair 0).load lastNumber = some (2 ^ 32 - 1, [0x2A]) := by decide +kernel
  cases hold.symm.trans hload
  rfl

/-- The store returns and the record before it is loaded. -/
theorem store_after_last_number_is_lost :
    ((sectorPair 0).store [0x17] : Prog Empty CoreError Nat).result lastNumber = .ok 0 ∧
      (sectorPair 0).load (((sectorPair 0).store [0x17] : Prog Empty CoreError Nat).after
        lastNumber) = some (2 ^ 32 - 1, [0x2A]) := by
  decide +kernel

/-! ## A torn erase -/

/-- The flash after an erase of a slot that reached only some of its bytes. -/
def tornErase (s : SlotStore) (f : Flash) (index : Nat) (erased : Nat → Bool) : Flash := fun a =>
  if s.slotOffset index ≤ a ∧ a < s.slotOffset index + s.slotSize ∧
      erased (a - s.slotOffset index) then 0xFF
  else f a

def sequenceField (s : SlotStore) (f : Flash) (index : Nat) : Nat :=
  ofLE (read f (s.slotOffset index + 4) 4)

/-- What the header of a slot says about the length. -/
def lengthField (s : SlotStore) (f : Flash) (index : Nat) : Nat :=
  ofLE (read f (s.slotOffset index + 10) 2)

/-- The checksum rejects every payload but one. -/
def AlteredRejected (s : SlotStore) (f : Flash) (index : Nat) (payload : List UInt8) : Prop :=
  s.lengthField f index ≤ maxPayloadBytes →
    read f (s.slotOffset index + 16) (s.lengthField f index) ≠ payload →
    (crc32 (read f (s.slotOffset index + 16) (s.lengthField f index))).toNat ≠
      ofLE (read f (s.slotOffset index + 12) 4)

instance (s : SlotStore) (f : Flash) (index : Nat) (payload : List UInt8) :
    Decidable (s.AlteredRejected f index payload) := inferInstanceAs (Decidable (_ → _ → _))

/-- All of a slot but its sequence number is the same: the rest of the header and the payload. -/
structure SameButSequence (s : SlotStore) (f f' : Flash) (index : Nat) (payload : List UInt8) :
    Prop where
  magic : read f' (s.slotOffset index) 4 = read f (s.slotOffset index) 4
  version : read f' (s.slotOffset index + 8) 2 = read f (s.slotOffset index + 8) 2
  length : read f' (s.slotOffset index + 10) 2 = read f (s.slotOffset index + 10) 2
  checksum : read f' (s.slotOffset index + 12) 4 = read f (s.slotOffset index + 12) 4
  payload : read f' (s.slotOffset index + 16) payload.length =
    read f (s.slotOffset index + 16) payload.length

theorem read_of_ofLE {f g : Flash} {a b n : Nat} (h : ofLE (read f a n) = ofLE (read g b n)) :
    read f a n = read g b n := by
  have hf := toLE_ofLE (read f a n)
  have hg := toLE_ofLE (read g b n)
  rw [length_read] at hf hg
  rw [← hf, h, hg]

theorem readSlot_eq_some {index sequence : Nat} :
    s.readSlot f index maxPayloadBytes = some (sequence, payload) ↔
      read f (s.slotOffset index) 4 = slotMagic ∧
      ofLE (read f (s.slotOffset index + 8) 2) = recordVersion ∧
      s.lengthField f index ≤ maxPayloadBytes ∧
      (crc32 (read f (s.slotOffset index + 16) (s.lengthField f index))).toNat =
        ofLE (read f (s.slotOffset index + 12) 4) ∧
      s.sequenceField f index = sequence ∧
      read f (s.slotOffset index + 16) (s.lengthField f index) = payload := by
  change (if _ then none else if _ then none else if s.lengthField f index > _ ∨
    s.lengthField f index > _ then none else if _ then none else
      some (s.sequenceField f index, _)) = _ ↔ _
  split_ifs with hmg hvr hl hs
  · exact ⟨nofun, fun h => absurd h.1 hmg⟩
  · exact ⟨nofun, fun h => absurd h.2.1 hvr⟩
  · exact ⟨nofun, fun h => absurd h.2.2.1 (by omega)⟩
  · exact ⟨nofun, fun h => absurd h.2.2.2.1 hs⟩
  rw [not_not] at hmg hvr hs
  constructor
  · intro h
    cases h
    exact ⟨hmg, hvr, by omega, hs, rfl, rfl⟩
  · rintro ⟨-, -, -, -, rfl, rfl⟩
    rfl

/-- A slot whose bytes were changed still holds a record only where all but the sequence number
  stayed the same. -/
theorem readSlot_of_altered {f f' : Flash} {index sequence : Nat}
    (h : s.readSlot f index maxPayloadBytes = some (sequence, payload))
    (hc : s.AlteredRejected f' index payload) (sequence' : Nat) (payload' : List UInt8) :
    s.readSlot f' index maxPayloadBytes = some (sequence', payload') ↔
      s.SameButSequence f f' index payload ∧ s.sequenceField f' index = sequence' ∧
        payload' = payload := by
  obtain ⟨hmg, hvr, hln, hm, -, hp⟩ := s.readSlot_eq_some.mp h
  have hl : payload.length = s.lengthField f index := by rw [← hp, length_read]
  rw [readSlot_eq_some]
  constructor
  · rintro ⟨hmg', hvr', hln', hm', hs', hp'⟩
    have hsm : read f' (s.slotOffset index + 16) (s.lengthField f' index) = payload := by
      by_contra hne
      exact hc hln' hne hm'
    have hl' : s.lengthField f' index = s.lengthField f index := by
      rw [← hl, ← hsm, length_read]
    refine ⟨⟨hmg'.trans hmg.symm, read_of_ofLE (hvr'.trans hvr.symm),
      read_of_ofLE hl', read_of_ofLE ?_, ?_⟩, hs', hp'.symm.trans hsm⟩
    · rw [← hm', ← hm, hsm, hp]
    · rw [hl, hp, ← hl', hsm]
  · rintro ⟨hsm, hs', rfl⟩
    have hl' : s.lengthField f' index = s.lengthField f index := by
      rw [lengthField, hsm.length, lengthField]
    have hrd : read f' (s.slotOffset index + 16) (s.lengthField f index) = payload' := by
      rw [← hl, hsm.payload, hl, hp]
    rw [hl', hrd, hsm.magic, hsm.version, hsm.checksum]
    refine ⟨hmg, hvr, hln, ?_, hs', rfl⟩
    rw [← hm, hp]

theorem view_tornErase_of_ne (f : Flash) {i j : Fin 2} (hij : i ≠ j)
    (erased : Nat → Bool) : s.view (s.tornErase f i.val erased) j = s.view f j := by
  refine s.readSlot_congr fun k hk => if_neg ?_
  unfold slotOffset
  fin_cases i <;> fin_cases j <;> simp only [Nat.zero_mul, Nat.one_mul] <;> first
    | exact absurd rfl hij
    | omega

/-- After an erase of one slot that was interrupted anywhere, the record of the other one is loaded
  exactly if the erased record was hit outside its sequence number, or that number did not pass
  the other. -/
theorem load_tornErase_iff (s : SlotStore) (f : Flash) {i j : Fin 2} (hij : i ≠ j) {a b : Nat}
    {p q : List UInt8} (hold : s.readSlot f i.val maxPayloadBytes = some (a, p))
    (hnew : s.readSlot f j.val maxPayloadBytes = some (b, q)) (erased : Nat → Bool)
    (hcrc : s.AlteredRejected (s.tornErase f i.val erased) i.val p) :
    s.load (s.tornErase f i.val erased) = some (b, q) ↔
      (s.SameButSequence f (s.tornErase f i.val erased) i.val p →
        let sequence := s.sequenceField (s.tornErase f i.val erased) i.val
        sequence < b ∨ (sequence = b ∧ (i = 1 ∨ p = q))) := by
  have hother : s.view (s.tornErase f i.val erased) j = some (b, q) :=
    (s.view_tornErase_of_ne f hij erased).trans hnew
  rw [load_eq, load_eq_iff hij hother]
  have hslot := s.readSlot_of_altered hold hcrc
  constructor
  · intro h hsame
    exact h _ p ((hslot _ p).mpr ⟨hsame, rfl, rfl⟩)
  · intro h a' y hy
    obtain ⟨hsame, rfl, rfl⟩ := (hslot a' y).mp hy
    exact h hsame

def twoRecords : Flash :=
  apply blank ([.write 0 (header 1 [0x2A]), .write 16 [0x2A], .write 4096 (header 2 [0x17]),
    .write 4112 [0x17]] : List (Op Empty))

/-- The erase reached a byte of the magic. -/
theorem load_tornErase_iff_magic :
    (sectorPair 0).load ((sectorPair 0).tornErase twoRecords 0 (· = 2)) = some (2, [0x17]) := by
  have hold : (sectorPair 0).readSlot twoRecords 0 maxPayloadBytes = some (1, [0x2A]) := by
    decide +kernel
  refine (load_tornErase_iff (sectorPair 0) twoRecords (i := 0) (j := 1) nofun hold
    (by decide +kernel) (· = 2) (by decide +kernel)).mpr fun hsame => ?_
  exact absurd hsame.magic (by decide +kernel)

/-- The erase reached the top byte of the older sequence number: the older record is loaded. -/
theorem torn_sequence_loads_older_record :
    (sectorPair 0).readSlot twoRecords 0 maxPayloadBytes = some (1, [0x2A]) ∧
    (sectorPair 0).readSlot twoRecords 1 maxPayloadBytes = some (2, [0x17]) ∧
    (sectorPair 0).AlteredRejected ((sectorPair 0).tornErase twoRecords 0 (· = 7)) 0 [0x2A] ∧
    (sectorPair 0).load twoRecords = some (2, [0x17]) ∧
    (sectorPair 0).load ((sectorPair 0).tornErase twoRecords 0 (· = 7)) =
      some (0xFF000001, [0x2A]) := by
  decide +kernel

end AegisToken.SlotStore
