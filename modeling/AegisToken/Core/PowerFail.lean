import AegisToken.Lib.Runs
import AegisToken.Core.Storage

/-
  Power-fail safety of the slot store: `SlotStore.store` refines a write of the two-slot register
  (`Lib.TwoSlot`) at every byte the power can fail at.
  `view` is the register a flash holds. `view_crash`: a cut store leaves its slot as it was,
  unreadable, or with the whole new record, and never touches the other slot.
  The one assumption is on CRC-32 (`TornRejected`): a slot that carries the new record's first
  twelve header bytes over a payload other than the intended one is not matched by the checksum
  bytes in its header. Everything else that rejects a torn record is proved: the magic while the
  erase is under way, then the version, then the length.
-/

namespace AegisToken
open ByteCodec FlashProg TwoSlot

namespace SlotStore

variable {ν : Type}

/-! ## Reading a slot -/

theorem read_slice (f : Flash) (off : Nat) {len k n : Nat} (h : k + n ≤ len) :
    ((read f off len).drop k).take n = read f (off + k) n := by
  apply List.ext_getElem
  · simp only [List.length_take, List.length_drop, length_read]
    omega
  · intro i h1 h2
    simp only [List.getElem_take, List.getElem_drop, getElem_read, Nat.add_assoc]

variable (s : SlotStore)

/-- `readSlot` with each header field read from its own address. -/
theorem readSlot_eq (f : Flash) (index cap : Nat) :
    s.readSlot f index cap = if read f (s.slotOffset index) 4 ≠ slotMagic then none
      else if ofLE (read f (s.slotOffset index + 8) 2) ≠ recordVersion then none
      else if ofLE (read f (s.slotOffset index + 10) 2) > cap ∨
          ofLE (read f (s.slotOffset index + 10) 2) > maxPayloadBytes then none
      else if (crc32 (read f (s.slotOffset index + 16)
          (ofLE (read f (s.slotOffset index + 10) 2)))).toNat ≠
          ofLE (read f (s.slotOffset index + 12) 4) then none
      else some (ofLE (read f (s.slotOffset index + 4) 4),
        read f (s.slotOffset index + 16) (ofLE (read f (s.slotOffset index + 10) 2))) := by
  have hm := read_slice f (s.slotOffset index) (by decide : 0 + 4 ≤ 16)
  rw [List.drop_zero, Nat.add_zero] at hm
  simp only [readSlot, slotHeaderLen, hm,
    read_slice f (s.slotOffset index) (by decide : 4 + 4 ≤ 16),
    read_slice f (s.slotOffset index) (by decide : 8 + 2 ≤ 16),
    read_slice f (s.slotOffset index) (by decide : 10 + 2 ≤ 16),
    read_slice f (s.slotOffset index) (by decide : 12 + 4 ≤ 16)]

variable {index cap : Nat}

theorem readSlot_congr {f g : Flash}
    (h : ∀ i, i < s.slotSize → f (s.slotOffset index + i) = g (s.slotOffset index + i)) :
    s.readSlot f index cap = s.readSlot g index cap := by
  have hrm := s.room
  simp only [slotHeaderLen, maxPayloadBytes] at hrm
  have hrd : ∀ k n, k + n ≤ s.slotSize →
      read f (s.slotOffset index + k) n = read g (s.slotOffset index + k) n := by
    intro k n hkn
    apply read_congr
    intro a ha1 ha2
    obtain ⟨i, rfl⟩ : ∃ i, a = s.slotOffset index + i := ⟨a - s.slotOffset index, by omega⟩
    exact h i (by omega)
  have h0 := hrd 0 4 (by omega)
  rw [Nat.add_zero] at h0
  rw [readSlot_eq, readSlot_eq, h0, hrd 8 2 (by omega), hrd 10 2 (by omega),
    hrd 12 4 (by omega), hrd 4 4 (by omega)]
  by_cases hl : ofLE (read g (s.slotOffset index + 10) 2) > maxPayloadBytes
  · rw [if_pos (Or.inr hl), if_pos (Or.inr hl)]
  · simp only [maxPayloadBytes] at hl
    rw [hrd 16 _ (by omega)]

variable {f : Flash}

/-- A slot whose first byte is erased is empty. -/
theorem readSlot_of_first_erased
    (h : f (s.slotOffset index) = 0xFF) : s.readSlot f index cap = none := by
  rw [readSlot_eq, if_pos]
  intro hm
  have hb : (read f (s.slotOffset index) 4)[0]? = slotMagic[0]? := by rw [hm]
  simp [slotMagic, FlashProg.read, h] at hb

private theorem ofLE_two (b c : UInt8) : ofLE [b, c] = b.toNat + 256 * c.toNat := by
  simp [ofLE]

private theorem read_two (f : Flash) (off : Nat) : read f off 2 = [f off, f (off + 1)] := rfl

/-- A slot whose version field is still erased in its upper byte is empty. -/
theorem readSlot_of_version_erased
    (h : f (s.slotOffset index + 9) = 0xFF) : s.readSlot f index cap = none := by
  rw [readSlot_eq]
  by_cases hm : read f (s.slotOffset index) 4 = slotMagic
  · have hv : ofLE (read f (s.slotOffset index + 8) 2) ≠ recordVersion := by
      rw [read_two, ofLE_two, h, recordVersion]
      have : (0xFF : UInt8).toNat = 255 := rfl
      omega
    rw [if_neg (not_not.mpr hm), if_pos hv]
  · rw [if_pos hm]

/-- A slot whose length field is still erased in its upper byte is empty: the length it shows
  exceeds every payload. -/
theorem readSlot_of_length_erased
    (h : f (s.slotOffset index + 11) = 0xFF) : s.readSlot f index cap = none := by
  have hl : ofLE (read f (s.slotOffset index + 10) 2) > maxPayloadBytes := by
    rw [read_two, ofLE_two, h, maxPayloadBytes]
    have : (0xFF : UInt8).toNat = 255 := rfl
    omega
  rw [readSlot_eq]
  by_cases hm : read f (s.slotOffset index) 4 = slotMagic
  · by_cases hv : ofLE (read f (s.slotOffset index + 8) 2) = recordVersion
    · rw [if_neg (not_not.mpr hm), if_neg (not_not.mpr hv), if_pos (Or.inr hl)]
    · rw [if_neg (not_not.mpr hm), if_pos hv]
  · rw [if_pos hm]

/-! ## The header -/

@[simp] theorem length_header (sequence : Nat) (payload : List UInt8) :
    (header sequence payload).length = slotHeaderLen := by
  simp [header, slotMagic, slotHeaderLen]

theorem header_take (sequence : Nat) (payload : List UInt8) :
    (header sequence payload).take 12 =
      slotMagic ++ toLE 4 sequence ++ toLE 2 recordVersion ++ toLE 2 payload.length := by
  rw [header, List.take_append_of_le_length (by simp [slotMagic])]
  exact List.take_of_length_le (by simp [slotMagic])

theorem header_drop (sequence : Nat) (payload : List UInt8) :
    (header sequence payload).drop 12 = toLE 4 (crc32 payload).toNat := by
  exact List.drop_left' (by simp [slotMagic])

variable {payload : List UInt8}

/-- What a slot shows once the first twelve bytes of a header stand in it. -/
theorem readSlot_of_header {index sequence : Nat}
    (hq : sequence < seqModulus) (hp : payload.length ≤ maxPayloadBytes)
    (h : read f (s.slotOffset index) 12 = (header sequence payload).take 12) :
    s.readSlot f index maxPayloadBytes =
      if (crc32 (read f (s.slotOffset index + 16) payload.length)).toNat ≠
          ofLE (read f (s.slotOffset index + 12) 4) then none
      else some (sequence, read f (s.slotOffset index + 16) payload.length) := by
  rw [header_take, List.append_assoc, List.append_assoc] at h
  have field : ∀ (k n : Nat) (bs : List UInt8), k + n ≤ 12 →
      ((slotMagic ++ (toLE 4 sequence ++ (toLE 2 recordVersion ++
        toLE 2 payload.length))).drop k).take n = bs → read f (s.slotOffset index + k) n = bs := by
    intro k n bs hkn hbs
    rw [← read_slice f (s.slotOffset index) hkn, h, hbs]
  have hm := field 0 4 slotMagic (by decide) (by simp [slotMagic])
  have hs := field 4 4 (toLE 4 sequence) (by decide) (by simp [slotMagic])
  have hv := field 8 2 (toLE 2 recordVersion) (by decide) (by simp [slotMagic, toLE])
  have hl := field 10 2 (toLE 2 payload.length) (by decide) (by simp [slotMagic, toLE])
  have hn : ofLE (toLE 2 payload.length) = payload.length := by
    apply ofLE_toLE
    simp only [maxPayloadBytes] at hp
    omega
  have hq' : ofLE (toLE 4 sequence) = sequence := ofLE_toLE (by simpa [seqModulus] using hq)
  rw [Nat.add_zero] at hm
  rw [readSlot_eq, if_neg (not_not.mpr hm), hv, if_neg (not_not.mpr (ofLE_toLE (by decide))), hl,
    hn, if_neg (by omega), hs, hq']

/-! ## The trace of a store -/

theorem store_ops (f : Flash) (hp : payload.length ≤ maxPayloadBytes) :
    (s.store payload : Prog ν CoreError Nat).ops f = [.erase (s.slotOffset (s.next f).2) s.slotSize,
       .write (s.slotOffset (s.next f).2) (header (s.next f).1 payload),
       .write (s.slotOffset (s.next f).2 + slotHeaderLen) payload] := by
  simp only [store]
  rw [if_neg (by omega)]
  rfl

theorem store_result (f : Flash) (hp : payload.length ≤ maxPayloadBytes) :
    (s.store payload : Prog ν CoreError Nat).result f = .ok (s.next f).1 := by
  simp only [store]
  rw [if_neg (by omega)]
  rfl

theorem store_size (f : Flash) (hp : payload.length ≤ maxPayloadBytes) :
    size ((s.store payload : Prog ν CoreError Nat).ops f) =
      s.slotSize + (slotHeaderLen + payload.length) := by
  rw [store_ops s f hp]
  simp [Op.size]

/-- While the erase is under way the slot is erased up to the byte the power failed at. -/
theorem crash_erasing (f : Flash) {n i : Nat}
    (hp : payload.length ≤ maxPayloadBytes) (hn : n < s.slotSize) :
    (s.store payload : Prog ν CoreError Nat).crash n f (s.slotOffset (s.next f).2 + i) =
      if i < n then 0xFF else f (s.slotOffset (s.next f).2 + i) := by
  rw [Prog.crash, store_ops s f hp, cut, if_neg (by simpa [Op.size] using hn)]
  simp only [Op.take, apply_cons, apply_nil, Op.run]
  by_cases hi : i < n
  · rw [if_pos (by omega), if_pos hi]
  · rw [if_neg (by omega), if_neg hi]

/-- Once the slot is erased it holds a prefix of header and payload. -/
theorem crash_writing (f : Flash) {n i : Nat}
    (hp : payload.length ≤ maxPayloadBytes) (hn : s.slotSize ≤ n) (hi : i < s.slotSize) :
    (s.store payload : Prog ν CoreError Nat).crash n f (s.slotOffset (s.next f).2 + i) =
      ((header (s.next f).1 payload ++ payload).take (n - s.slotSize)).getD i 0xFF := by
  generalize ho : s.slotOffset (s.next f).2 = o
  generalize hh : header (s.next f).1 payload = hdr
  generalize hj : n - s.slotSize = j
  have hl : hdr.length = 16 := by rw [← hh]; exact length_header _ _
  -- a write that was not reached is a write of no bytes
  have hc : (s.store payload : Prog ν CoreError Nat).crash n f =
      apply f ([.erase o s.slotSize, .write o (hdr.take j), .write (o + 16) (payload.take (j - 16))]
        : List (Op ν)) := by
    rw [Prog.crash, store_ops s f hp, ho, hh, cut, if_pos (by simpa [Op.size] using hn)]
    simp only [Op.size, hj, slotHeaderLen, cut, hl]
    by_cases h16 : 16 ≤ j
    · rw [if_pos h16, List.take_of_length_le (by omega : hdr.length ≤ j)]
      by_cases hpl : payload.length ≤ j - 16
      · rw [if_pos hpl, List.take_of_length_le hpl]
      · rw [if_neg hpl]
        simp only [Op.take]
    · rw [if_neg h16, show j - 16 = 0 by omega]
      simp only [Op.take, apply_cons, apply_nil, List.take_zero, Op.run]
      funext a
      split <;> simp
  rw [hc, List.take_append]
  simp only [apply_cons, apply_nil, Op.run]
  rw [if_pos (by omega : o ≤ o + i ∧ o + i < o + s.slotSize), if_pos (by omega : o ≤ o + i),
    Nat.add_sub_cancel_left]
  by_cases h16 : i < 16
  · rw [if_neg (by omega)]
    simp only [List.getD_eq_getElem?_getD]
    by_cases hij : i < j
    · rw [List.getElem?_append_left (by simp only [List.length_take]; omega)]
    · rw [List.getElem?_eq_none (by simp only [List.length_take]; omega),
        List.getElem?_eq_none (by simp only [List.length_append, List.length_take]; omega)]
  · have htk : (hdr.take j).length ≤ i := by simp only [List.length_take]; omega
    rw [if_pos (by omega), show o + i - (o + 16) = i - 16 by omega]
    simp only [List.getD_eq_getElem?_getD]
    rw [List.getElem?_eq_none htk, Option.getD_none, List.getElem?_append_right htk,
      List.length_take, hl]
    by_cases hj16 : 16 ≤ j
    · rw [show min j 16 = 16 by omega]
    · rw [show j - 16 = 0 by omega]
      simp

/-! ## The register a flash holds -/

/-- The register of the valid records in the two slots. -/
def view (s : SlotStore) (f : Flash) : Reg (List UInt8) :=
  fun i => s.readSlot f i.val maxPayloadBytes

theorem scan_eq (f : Flash) :
    s.scan f = (newest (s.view f)).bind fun i => (s.view f i).map fun x => (x.1, i.val) := by
  have h0 : s.view f 0 = s.readSlot f 0 maxPayloadBytes := rfl
  have h1 : s.view f 1 = s.readSlot f 1 maxPayloadBytes := rfl
  simp only [scan, slotCount, List.range_succ, List.range_zero, List.nil_append, List.foldl_append,
    List.foldl_cons, List.foldl_nil, newest, h0, h1]
  rcases hx : s.readSlot f 0 maxPayloadBytes with _ | ⟨a, x⟩ <;>
    rcases hy : s.readSlot f 1 maxPayloadBytes with _ | ⟨b, y⟩
  · rfl
  · simp [h1, hy]
  · simp [h0, hx]
  · by_cases hab : a < b <;> simp [hab, h0, h1, hx, hy]

theorem load_eq (f : Flash) : s.load f = TwoSlot.load (s.view f) := by
  have h0 : s.view f 0 = s.readSlot f 0 maxPayloadBytes := rfl
  have h1 : s.view f 1 = s.readSlot f 1 maxPayloadBytes := rfl
  simp only [load, slotCount, List.range_succ, List.range_zero, List.nil_append, List.foldl_append,
    List.foldl_cons, List.foldl_nil, TwoSlot.load, newest, h0, h1]
  rcases hx : s.readSlot f 0 maxPayloadBytes with _ | ⟨a, x⟩ <;>
    rcases hy : s.readSlot f 1 maxPayloadBytes with _ | ⟨b, y⟩
  · rfl
  · simp [h1, hy]
  · simp [h0, hx]
  · by_cases hab : a < b <;> simp [hab, h0, h1, hx, hy]

/-- `store` picks the register's target slot and next number. -/
theorem next_eq (f : Flash) :
    s.next f = (nextSeq seqModulus (s.view f), (target (s.view f)).val) := by
  rw [next, scan_eq, nextSeq, target]
  rcases hn : newest (s.view f) with _ | i
  · rw [TwoSlot.load, hn]
    rfl
  obtain ⟨x, hx, hl⟩ := load_of_newest hn
  rw [hl]
  simp only [Option.bind_some, hx, Option.map_some]
  fin_cases i <;> rfl

theorem next_lt (f : Flash) : (s.next f).1 < seqModulus := by
  rw [next]
  split
  · exact Nat.mod_lt _ (by decide)
  · decide

/-! ## Frames -/

theorem store_within (f : Flash) (payload : List UInt8) :
    ∀ op ∈ (s.store payload : Prog ν CoreError Nat).ops f,
      op.Within (s.slotOffset (s.next f).2) (s.slotOffset (s.next f).2 + s.slotSize) := by
  have hrm := s.room
  by_cases hp : payload.length ≤ maxPayloadBytes
  · rw [store_ops s f hp]
    intro op hop
    simp only [slotHeaderLen, maxPayloadBytes] at hrm hp
    simp only [List.mem_cons, List.not_mem_nil, or_false] at hop
    rcases hop with rfl | rfl | rfl <;>
      simp only [Op.Within, length_header, slotHeaderLen] <;> omega
  · intro op hop
    have hn : (s.store payload : Prog ν CoreError Nat).ops f = [] := by
      rw [store, if_pos (by omega)]
      rfl
    rw [hn] at hop
    cases hop

theorem slot_within (i : Fin 2) :
    s.base ≤ s.slotOffset i.val ∧
      s.slotOffset i.val + s.slotSize ≤ s.base + slotCount * s.slotSize := by
  unfold slotOffset slotCount
  fin_cases i
  · simp only [Nat.zero_mul]
    omega
  · simp only [Nat.one_mul]
    omega

theorem view_congr {f g : Flash}
    (h : ∀ a, s.base ≤ a → a < s.base + slotCount * s.slotSize → f a = g a) :
    s.view f = s.view g := by
  funext i
  have hi := s.slot_within i
  exact s.readSlot_congr fun k hk => h _ (by omega) (by omega)

def Apart (s t : SlotStore) : Prop :=
  s.base + slotCount * s.slotSize ≤ t.base ∨ t.base + slotCount * t.slotSize ≤ s.base

instance (s t : SlotStore) : Decidable (Apart s t) := inferInstanceAs (Decidable (_ ∨ _))

variable {s t : SlotStore}

theorem Apart.symm (h : Apart s t) : Apart t s := Or.symm h

/-- A store leaves every other region alone, however far it gets. -/
theorem view_crash_of_apart (h : Apart s t) (f : Flash) (payload : List UInt8)
    (n : Nat) : t.view ((s.store payload : Prog ν CoreError Nat).crash n f) = t.view f := by
  have hs := s.slot_within (target (s.view f))
  have ht : (s.next f).2 = (target (s.view f)).val := by rw [next_eq]
  rw [← ht] at hs
  refine t.view_congr fun a ha1 ha2 => ?_
  exact apply_frame (cut_within n (s.store_within f payload)) (by unfold Apart at h; omega)

theorem view_after_of_apart (h : Apart s t) (f : Flash) (payload : List UInt8) :
    t.view ((s.store payload : Prog ν CoreError Nat).after f) = t.view f := by
  rw [← Prog.crash_of_size_le (Nat.le_refl _)]
  exact view_crash_of_apart h f payload _

/-! ## A store that is cut -/

/-- The checksum rejects a torn record: when the slot carries the record's header up to the
  checksum and its payload bytes are not the intended ones, their CRC-32 is not the one in the
  header. -/
def TornRejected (s : SlotStore) (f : Flash) (index sequence : Nat) (payload : List UInt8) :
    Prop :=
  read f (s.slotOffset index) 12 = (header sequence payload).take 12 →
    read f (s.slotOffset index + slotHeaderLen) payload.length ≠ payload →
    (crc32 (read f (s.slotOffset index + slotHeaderLen) payload.length)).toNat ≠
      ofLE (read f (s.slotOffset index + 12) 4)

instance (s : SlotStore) (f : Flash) (index sequence : Nat) (payload : List UInt8) :
    Decidable (s.TornRejected f index sequence payload) :=
  inferInstanceAs (Decidable (_ → _ → _))

variable (s)

/-- The slot a store does not write to keeps its record. -/
theorem readSlot_crash_other (f : Flash) (payload : List UInt8) (n : Nat) {i : Fin 2}
    (hi : i ≠ target (s.view f)) :
    s.view ((s.store payload : Prog ν CoreError Nat).crash n f) i = s.view f i := by
  have ht : (s.next f).2 = (target (s.view f)).val := by rw [next_eq]
  refine s.readSlot_congr fun k hk => ?_
  refine apply_frame (cut_within n (s.store_within f payload)) ?_
  rw [ht]
  generalize target (s.view f) = t at hi
  unfold slotOffset
  fin_cases i <;> fin_cases t <;> simp only [Nat.zero_mul, Nat.one_mul] <;> first
    | exact absurd rfl hi
    | omega

/-- The twelve bytes before the checksum, once they are written. -/
theorem read_header_of_crash (f : Flash) {n : Nat}
    (hp : payload.length ≤ maxPayloadBytes) (hn : s.slotSize + 12 ≤ n) :
    read ((s.store payload : Prog ν CoreError Nat).crash n f) (s.slotOffset (s.next f).2) 12 =
      (header (s.next f).1 payload).take 12 := by
  have hrm := s.room
  simp only [slotHeaderLen, maxPayloadBytes] at hrm
  have hl := length_header (s.next f).1 payload
  simp only [slotHeaderLen] at hl
  refine List.ext_getElem (by simp [slotHeaderLen]) fun i h1 h2 => ?_
  simp only [length_read] at h1
  rw [getElem_read, s.crash_writing f hp (by omega) (by omega), List.getD_eq_getElem?_getD,
    List.getElem?_take_of_lt (by omega), List.getElem?_append_left (by omega),
    List.getElem?_eq_getElem (by omega), Option.getD_some, List.getElem_take]

/-- The register once the whole record stands in the target slot. -/
theorem view_eq_put {f f' : Flash} (hoh : ∀ i, i ≠ target (s.view f) → s.view f' i = s.view f i)
    (hsl : s.readSlot f' (s.next f).2 maxPayloadBytes = some ((s.next f).1, payload)) :
    s.view f' = put seqModulus (s.view f) payload := by
  rw [next_eq] at hsl
  funext i
  by_cases hi : i = target (s.view f)
  · subst hi
    rw [put_target]
    exact hsl
  · rw [put_of_ne hi, hoh i hi]

/-- A cut store refines a cut write of the register. -/
theorem view_crash (f : Flash) (n : Nat) (hp : payload.length ≤ maxPayloadBytes)
    (hc : s.TornRejected ((s.store payload : Prog ν CoreError Nat).crash n f) (s.next f).2
      (s.next f).1 payload) :
    Torn seqModulus (s.view f) payload
      (s.view ((s.store payload : Prog ν CoreError Nat).crash n f)) := by
  generalize hf' : (s.store payload : Prog ν CoreError Nat).crash n f = f' at hc ⊢
  have hrm := s.room
  simp only [slotHeaderLen, maxPayloadBytes] at hrm
  have ht : (s.next f).2 = (target (s.view f)).val := by rw [next_eq]
  have hoh : ∀ i, i ≠ target (s.view f) → s.view f' i = s.view f i := by
    intro i hi
    rw [← hf']
    exact s.readSlot_crash_other f payload n hi
  -- the register is known once the target slot is
  have hwp : s.readSlot f' (s.next f).2 maxPayloadBytes = none →
      Torn seqModulus (s.view f) payload (s.view f') := by
    intro h
    have hv : s.view f' = wipe (s.view f) := by
      funext i
      by_cases hi : i = target (s.view f)
      · subst hi
        rw [wipe_target, view, ← ht, h]
      · rw [wipe_of_ne hi, hoh i hi]
    rw [hv]
    exact .wiped
  by_cases hes : n < s.slotSize
  · by_cases h0 : n = 0
    · have hv : s.view f' = s.view f := by
        funext i
        by_cases hi : i = target (s.view f)
        · subst hi
          rw [view, view, ← ht]
          refine s.readSlot_congr fun k hk => ?_
          rw [← hf', s.crash_erasing f hp hes, if_neg (by omega)]
        · exact hoh i hi
      rw [hv]
      exact .kept
    · refine hwp (s.readSlot_of_first_erased ?_)
      have := s.crash_erasing (ν := ν) f (i := 0) hp hes
      rw [hf', if_pos (by omega)] at this
      exact this
  · have hbt : ∀ i, i < s.slotSize → f' (s.slotOffset (s.next f).2 + i) =
        ((header (s.next f).1 payload ++ payload).take (n - s.slotSize)).getD i 0xFF := by
      intro i hi
      rw [← hf']
      exact s.crash_writing f hp (by omega) hi
    have hbl : ∀ i, i < s.slotSize → n - s.slotSize ≤ i →
        f' (s.slotOffset (s.next f).2 + i) = 0xFF := by
      intro i hi hni
      rw [hbt i hi, List.getD_eq_getElem?_getD,
        List.getElem?_eq_none (by simp only [List.length_take]; omega), Option.getD_none]
    by_cases h10 : n - s.slotSize < 10
    · exact hwp (s.readSlot_of_version_erased (hbl 9 (by omega) (by omega)))
    by_cases h12 : n - s.slotSize < 12
    · exact hwp (s.readSlot_of_length_erased (hbl 11 (by omega) (by omega)))
    have hhd : read f' (s.slotOffset (s.next f).2) 12 = (header (s.next f).1 payload).take 12 := by
      rw [← hf']
      exact s.read_header_of_crash f hp (by omega)
    have hsl := s.readSlot_of_header (s.next_lt f) hp hhd
    by_cases hs : (crc32 (read f' (s.slotOffset (s.next f).2 + 16) payload.length)).toNat =
        ofLE (read f' (s.slotOffset (s.next f).2 + 12) 4)
    · have hpa : read f' (s.slotOffset (s.next f).2 + 16) payload.length = payload := by
        by_contra hne
        exact hc hhd hne hs
      rw [if_neg (not_not.mpr hs), hpa] at hsl
      rw [s.view_eq_put hoh hsl]
      exact .landed
    · rw [if_pos hs] at hsl
      exact hwp hsl

/-- A whole store leaves the record in its slot. -/
theorem read_record_of_after (f : Flash) (hp : payload.length ≤ maxPayloadBytes) :
    read ((s.store payload : Prog ν CoreError Nat).after f) (s.slotOffset (s.next f).2)
        (header (s.next f).1 payload ++ payload).length =
      header (s.next f).1 payload ++ payload := by
  have hrm := s.room
  simp only [slotHeaderLen, maxPayloadBytes] at hrm hp
  have hl := length_header (s.next f).1 payload
  simp only [slotHeaderLen] at hl
  rw [read_eq_iff]
  intro i hi
  rw [List.length_append] at hi
  rw [← Prog.crash_of_size_le (Nat.le_refl _), s.store_size f hp, slotHeaderLen,
    s.crash_writing f hp (by omega) (by omega), List.take_of_length_le
      (by rw [List.length_append]; omega), List.getD_eq_getElem?_getD,
    List.getElem?_eq_getElem (by omega), Option.getD_some]

/-- A whole store refines a whole write of the register. -/
theorem view_after (f : Flash) (hp : payload.length ≤ maxPayloadBytes) :
    s.view ((s.store payload : Prog ν CoreError Nat).after f) =
      put seqModulus (s.view f) payload := by
  have hl := length_header (s.next f).1 payload
  simp only [slotHeaderLen] at hl
  have hr := s.read_record_of_after (ν := ν) f hp
  rw [List.length_append, hl] at hr
  have hoh : ∀ i, i ≠ target (s.view f) →
      s.view ((s.store payload : Prog ν CoreError Nat).after f) i = s.view f i := by
    intro i hi
    rw [← Prog.crash_of_size_le (Nat.le_refl _)]
    exact s.readSlot_crash_other f payload _ hi
  generalize (s.store payload : Prog ν CoreError Nat).after f = f' at hr hoh ⊢
  have hsl : ∀ k n, k + n ≤ 16 + payload.length → read f' (s.slotOffset (s.next f).2 + k) n =
        ((header (s.next f).1 payload ++ payload).drop k).take n := by
    intro k n hkn
    rw [← read_slice f' _ hkn, hr]
  have hhd : read f' (s.slotOffset (s.next f).2) 12 = (header (s.next f).1 payload).take 12 := by
    have h := hsl 0 12 (by omega)
    exact h
  have hs : ofLE (read f' (s.slotOffset (s.next f).2 + 12) 4) = (crc32 payload).toNat := by
    rw [hsl 12 4 (by omega), List.drop_append_of_le_length (by omega), header_drop,
      List.take_left' (length_toLE 4 _), ofLE_toLE (crc32 payload).toNat_lt]
  have hpa : read f' (s.slotOffset (s.next f).2 + 16) payload.length = payload := by
    rw [hsl 16 _ (by omega), List.drop_left' hl, List.take_length]
  have hst := s.readSlot_of_header (s.next_lt f) hp hhd
  rw [hpa, hs, if_neg (not_not.mpr rfl)] at hst
  exact s.view_eq_put hoh hst

/-! ## Runs of stores -/

/-- A store call of a run: it returned, or the power failed after `n` bytes. -/
inductive StoreEvent where
  | stored (payload : BoundedBytes maxPayloadBytes)
  | cut (payload : BoundedBytes maxPayloadBytes) (n : Nat)

def runEvent (s : SlotStore) (f : Flash) : StoreEvent → Flash
  | .stored p => (s.store p.val : Prog Empty CoreError Nat).after f
  | .cut p n => (s.store p.val : Prog Empty CoreError Nat).crash n f

/-- CRC-32 rejects what a cut store call leaves behind. -/
def EventRejected (s : SlotStore) (f : Flash) : StoreEvent → Prop
  | .stored _ => True
  | .cut p n => s.TornRejected (s.runEvent f (.cut p n)) (s.next f).2 (s.next f).1 p.val

instance (s : SlotStore) (f : Flash) : (e : StoreEvent) → Decidable (s.EventRejected f e)
  | .stored _ => inferInstanceAs (Decidable True)
  | .cut p n => inferInstanceAs (Decidable (s.TornRejected (s.runEvent f (.cut p n)) _ _ p.val))

def StoreEvent.write : StoreEvent → Write (List UInt8)
  | .stored p => .done p.val
  | .cut p _ => .torn p.val

/-- A run of store calls refines a run of the two-slot register. -/
theorem view_run {ws : List (Write (List UInt8))} {es : List StoreEvent}
    (hf : Run seqModulus ws (s.view f)) (hc : Runs.Every s.runEvent s.EventRejected f es) :
    Run seqModulus (ws ++ es.map StoreEvent.write) (s.view (Runs.run s.runEvent f es)) := by
  induction es generalizing ws f with
  | nil => simpa using hf
  | cons e es ih =>
    rw [List.map_cons, show ws ++ e.write :: es.map StoreEvent.write =
      (ws ++ [e.write]) ++ es.map StoreEvent.write by simp]
    rcases e with p | ⟨p, n⟩
    · refine ih ?_ hc.2
      rw [runEvent, s.view_after f p.property]
      exact hf.done p.val
    · exact ih (hf.torn p.val (s.view_crash f n p.property hc.1)) hc.2

theorem view_blank : s.view blank = Reg.empty := by
  funext i
  exact s.readSlot_of_first_erased rfl

/-- Power-fail safety. After any sequence of whole and cut stores on blank flash, `load` returns
  the payload of the last whole store or of a later cut one, and nothing only while no store was
  whole. -/
theorem load_admissible (s : SlotStore) (es : List StoreEvent) (hlen : es.length < 2 ^ 32 - 1)
    (hcrc : Runs.Every s.runEvent s.EventRejected blank es) :
    Admissible (es.map StoreEvent.write)
      ((s.load (Runs.run s.runEvent blank es)).map Prod.snd) := by
  have hnil : Run seqModulus [] (s.view blank) := by
    exact .nil
  rw [load_eq]
  refine (s.view_run hnil hcrc).admissible ?_
  rw [List.nil_append, List.length_map]
  exact Nat.lt_of_lt_of_le hlen (by decide)

/-- One store that returned, then one whose power failed after its first payload byte. -/
def tornPayloadRun : List StoreEvent :=
  [.stored ⟨[0x2A], by decide⟩, .cut ⟨[0x17, 0x18], by decide⟩ 4113]

/-- The run ends with the first record to be loaded. -/
theorem load_admissible_tornPayloadRun :
    Admissible (tornPayloadRun.map StoreEvent.write)
        (((sectorPair 0).load (Runs.run (sectorPair 0).runEvent blank tornPayloadRun)).map
          Prod.snd) ∧
      (sectorPair 0).load (Runs.run (sectorPair 0).runEvent blank tornPayloadRun) =
        some (1, [0x2A]) :=
  ⟨load_admissible (sectorPair 0) tornPayloadRun (by decide) (by decide +kernel),
    by decide +kernel⟩

end SlotStore

end AegisToken
