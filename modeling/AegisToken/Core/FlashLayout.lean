import AegisToken.Core.PowerFail

/-
  Where the applet stores lie in the flash: `FlashLayout` (aegis-core hardware_profile.rs), the
  windows of `RegionStorage` (board-generic-rp2350 flash.rs) and the slot store on such a window,
  opened as the firmware's `ccid_task` opens it.
  A read is recorded in the trace as a `ReadSpan`, so that a trace has every byte that is read,
  written or erased, at its absolute address. Offsets are `u32` and wrap, except in the window,
  which refuses an address that does not fit.
  The window starts at the applet region and the store's base, `appletStoreOffset`, is again
  counted from the start of the flash. The region's offset is added twice, so a store stays in its
  own two slots only when that offset is zero (`appletStores_isolated`).
-/

namespace AegisToken
open ByteCodec FlashProg

def u32 (n : Nat) : Nat := n % 2 ^ 32

theorem u32_of_lt {n : Nat} (h : n < 2 ^ 32) : u32 n = n := Nat.mod_eq_of_lt h

theorem slot_mul_le {slot : Nat} (h : slot < slotCount) (size : Nat) : slot * size ≤ size :=
  (Nat.mul_le_mul_right size (Nat.le_of_lt_succ h)).trans_eq (Nat.one_mul size)

/-! ## The layout -/

/-- Physical layout of the regions the firmware stores to. -/
structure FlashLayout where
  configOffset : Nat
  slotSize : Nat
  appletOffset : Nat
  appletSize : Nat
  stagingOffset : Nat

namespace FlashLayout

/-- The layout used across the supported boards. -/
def standard : FlashLayout where
  configOffset := 0x100000
  slotSize := 4096
  appletOffset := 0x110000
  appletSize := 0x30000
  stagingOffset := 0x140000

def appletStoreCount (l : FlashLayout) : Nat := l.appletSize / u32 (l.slotSize * 2)

def appletStoreOffset (l : FlashLayout) (index : Nat) : Nat :=
  u32 (l.appletOffset + u32 (u32 (index * l.slotSize) * 2))

/-- The configuration slots, the applet region and a staging region of some length lie in the
  32-bit address space and share no byte. -/
structure Separate (l : FlashLayout) (stagingLen : Nat) : Prop where
  config : l.configOffset + 2 * l.slotSize ≤ 2 ^ 32
  applet : l.appletOffset + l.appletSize ≤ 2 ^ 32
  staging : l.stagingOffset + stagingLen ≤ 2 ^ 32
  configApplet : ∀ a, l.configOffset ≤ a → a < l.configOffset + 2 * l.slotSize →
    l.appletOffset ≤ a → l.appletOffset + l.appletSize ≤ a
  stagingApplet : ∀ a, l.stagingOffset ≤ a → a < l.stagingOffset + stagingLen →
    l.appletOffset ≤ a → l.appletOffset + l.appletSize ≤ a
  stagingConfig : ∀ a, l.stagingOffset ≤ a → a < l.stagingOffset + stagingLen →
    l.configOffset ≤ a → l.configOffset + 2 * l.slotSize ≤ a

end FlashLayout

/-! ## Windows -/

/-- A read of `len` bytes at the absolute address `off`. -/
structure ReadSpan where
  off : Nat
  len : Nat
deriving DecidableEq

/-- A program on the flash that records what it reads. -/
abbrev FlashIo := Prog ReadSpan CoreError

/-- The operation reads, writes or erases the byte at `a`. -/
def Touches (a : Nat) : Op ReadSpan → Prop
  | .note r => r.off ≤ a ∧ a < r.off + r.len
  | .erase off len => off ≤ a ∧ a < off + len
  | .write off data => off ≤ a ∧ a < off + data.length

instance (a : Nat) : (op : Op ReadSpan) → Decidable (Touches a op)
  | .note _ => inferInstanceAs (Decidable (_ ∧ _))
  | .erase _ _ => inferInstanceAs (Decidable (_ ∧ _))
  | .write _ _ => inferInstanceAs (Decidable (_ ∧ _))

/-- The operation touches bytes of `[lo, hi)` only. -/
def Confined (lo hi : Nat) (op : Op ReadSpan) : Prop := ∀ a, Touches a op → lo ≤ a ∧ a < hi

/-- A base-offset window into the shared flash. -/
structure RegionStorage where
  base : Nat

namespace RegionStorage

def address (w : RegionStorage) (offset : Nat) : Except CoreError Nat :=
  if w.base + offset < 2 ^ 32 then .ok (w.base + offset) else .error .storageError

def read (w : RegionStorage) (offset len : Nat) : FlashIo (List UInt8) := do
  let base ← Prog.look fun _ => w.address offset
  Prog.issue (.note ⟨base, len⟩)
  Prog.look fun f => .ok (FlashProg.read f base len)

def write (w : RegionStorage) (offset : Nat) (data : List UInt8) : FlashIo Unit := do
  let base ← Prog.look fun _ => w.address offset
  Prog.issue (.write base data)

/-- The driver takes the first address and the one after the last, a `u32`. -/
def erase (w : RegionStorage) (offset len : Nat) : FlashIo Unit := do
  let base ← Prog.look fun _ => w.address offset
  Prog.issue (.erase base (u32 (base + len) - base))

end RegionStorage

/-! ## The slot store on a window -/

/-- `SlotStore<RegionStorage>`. -/
structure RegionSlots where
  storage : RegionStorage
  base : Nat
  slotSize : Nat

namespace RegionSlots

def slotOffset (s : RegionSlots) (index : Nat) : Nat := u32 (s.base + u32 (index * s.slotSize))

def readSlot (s : RegionSlots) (index cap : Nat) : FlashIo (Option (Nat × List UInt8)) := do
  let offset := s.slotOffset index
  let header ← s.storage.read offset slotHeaderLen
  if header.take 4 ≠ slotMagic then return none
  else if ofLE ((header.drop 8).take 2) ≠ recordVersion then return none
  else
    let sequence := ofLE ((header.drop 4).take 4)
    let length := ofLE ((header.drop 10).take 2)
    let expectedCrc := ofLE ((header.drop 12).take 4)
    if length > cap ∨ length > maxPayloadBytes then return none
    else
      let payload ← s.storage.read (u32 (offset + slotHeaderLen)) length
      if (crc32 payload).toNat ≠ expectedCrc then return none
      else return some (sequence, payload)

def scan (s : RegionSlots) : FlashIo (Option (Nat × Nat)) :=
  (List.range slotCount).foldlM
    (fun best index => do
      match ← s.readSlot index maxPayloadBytes with
      | some (sequence, _) =>
        match best with
        | none => return some (sequence, index)
        | some (bestSequence, _) =>
          if sequence > bestSequence then return some (sequence, index) else return best
      | none => return best)
    none

def loadSlot (s : RegionSlots) (index cap : Nat) : FlashIo (Option (Nat × List UInt8)) :=
  if index ≥ slotCount then Prog.fail .storageError else s.readSlot index cap

def load (s : RegionSlots) : FlashIo (Option (Nat × List UInt8)) :=
  (List.range slotCount).foldlM
    (fun best index => do
      match ← s.readSlot index maxPayloadBytes with
      | some (sequence, payload) =>
        match best with
        | none => return some (sequence, payload)
        | some (bestSequence, _) =>
          if sequence > bestSequence then return some (sequence, payload) else return best
      | none => return best)
    none

def store (s : RegionSlots) (payload : List UInt8) : FlashIo Nat := do
  if payload.length > maxPayloadBytes then
    Prog.fail .storageError
  else
    let best ← s.scan
    let (nextSequence, inactive) := match best with
      | some (sequence, index) => (u32 (sequence + 1), 1 - index)
      | none => (1, 0)
    let offset := s.slotOffset inactive
    s.storage.erase offset s.slotSize
    s.storage.write offset (SlotStore.header nextSequence payload)
    s.storage.write (u32 (offset + slotHeaderLen)) payload
    return nextSequence

/-- The calls of a slot store. -/
inductive Call where
  | load
  | loadSlot (index cap : Nat)
  | store (payload : List UInt8)

def callOps (s : RegionSlots) (f : Flash) : Call → List (Op ReadSpan)
  | .load => s.load.ops f
  | .loadSlot index cap => (s.loadSlot index cap).ops f
  | .store payload => (s.store payload).ops f

end RegionSlots

namespace FlashLayout

def appletStore (l : FlashLayout) (index : Nat) : RegionSlots where
  storage := ⟨l.appletOffset⟩
  base := l.appletStoreOffset index
  slotSize := l.slotSize

/-- Every byte that store `index` reads, writes or erases is one of its own two slots. -/
def StoreConfined (l : FlashLayout) (index : Nat) : Prop :=
  ∀ call f, ∀ op ∈ (l.appletStore index).callOps f call,
    Confined (l.appletOffset + 2 * index * l.slotSize)
      (l.appletOffset + 2 * (index + 1) * l.slotSize) op

end FlashLayout

/-! ## What the calls touch -/

namespace RegionStorage

/-- The window refuses an address that does not fit, or goes on with it. -/
theorem bind_address {α : Type} (w : RegionStorage) (offset : Nat) (k : Nat → FlashIo α) :
    ((Prog.look fun _ => w.address offset) >>= k) =
      if w.base + offset < 2 ^ 32 then k (w.base + offset) else Prog.fail .storageError := by
  unfold address
  split <;> rfl

variable {w : RegionStorage} {offset len : Nat} {Q : Op ReadSpan → Prop}

theorem read_ops (h : w.base + offset < 2 ^ 32) (len : Nat) (f : Flash) :
    (w.read offset len).ops f = [.note ⟨w.base + offset, len⟩] := by
  rw [read, bind_address, if_pos h]
  rfl

theorem read_result (h : w.base + offset < 2 ^ 32) (len : Nat) (f : Flash) :
    (w.read offset len).result f = .ok (FlashProg.read f (w.base + offset) len) := by
  rw [read, bind_address, if_pos h]
  rfl

theorem read_fails (h : 2 ^ 32 ≤ w.base + offset) (len : Nat) (f : Flash) :
    (w.read offset len).ops f = [] ∧ (w.read offset len).result f = .error .storageError := by
  rw [read, bind_address, if_neg (by omega)]
  exact ⟨rfl, rfl⟩

theorem erase_ops (h : w.base + offset < 2 ^ 32) (len : Nat) (f : Flash) :
    (w.erase offset len).ops f =
      [.erase (w.base + offset) (u32 (w.base + offset + len) - (w.base + offset))] := by
  rw [erase, bind_address, if_pos h]
  rfl

theorem all_read (h : Q (.note ⟨w.base + offset, len⟩)) : Prog.All Q (w.read offset len) := by
  rw [read, bind_address]
  split
  · exact (Prog.All.issue h).bind fun _ => .look _
  · exact .fail _

theorem all_write {data : List UInt8} (h : Q (.write (w.base + offset) data)) :
    Prog.All Q (w.write offset data) := by
  rw [write, bind_address]
  split
  · exact .issue h
  · exact .fail _

theorem all_erase
    (h : Q (.erase (w.base + offset) (u32 (w.base + offset + len) - (w.base + offset)))) :
    Prog.All Q (w.erase offset len) := by
  rw [erase, bind_address]
  split
  · exact .issue h
  · exact .fail _

end RegionStorage

namespace RegionSlots

variable {s : RegionSlots} {Q : Op ReadSpan → Prop}

/-- What every operation of a slot's reads meets. -/
theorem all_readSlot {index cap : Nat}
    (hh : Q (.note ⟨s.storage.base + s.slotOffset index, slotHeaderLen⟩))
    (hp : ∀ length, length ≤ maxPayloadBytes →
      Q (.note ⟨s.storage.base + u32 (s.slotOffset index + slotHeaderLen), length⟩)) :
    Prog.All Q (s.readSlot index cap) := by
  refine (RegionStorage.all_read hh).bind fun header => ?_
  split
  · exact .pure _
  split
  · exact .pure _
  simp only
  split
  · exact .pure _
  next hl =>
  refine (RegionStorage.all_read (hp _ (by omega))).bind fun payload => ?_
  split <;> exact .pure _

/-- What every operation of both slots' reads meets, a scan and a load meet. -/
theorem all_scan_load
    (h : ∀ index, index < slotCount → Prog.All Q (s.readSlot index maxPayloadBytes)) :
    Prog.All Q s.scan ∧ Prog.All Q s.load := by
  constructor
  all_goals
    refine Prog.All.foldlM (fun index hin best => ?_) none
    refine (h index (List.mem_range.mp hin)).bind fun record => ?_
    rcases record with _ | ⟨sequence, payload⟩
    · exact .pure _
    rcases best with _ | ⟨bestSequence, bestSlot⟩
    · exact .pure _
    · simp only
      split <;> exact .pure _

def inactive : Option (Nat × Nat) → Nat
  | some (_, index) => 1 - index
  | none => 0

theorem inactive_lt (best : Option (Nat × Nat)) : inactive best < slotCount := by
  rcases best with _ | ⟨sequence, index⟩
  · exact Nat.zero_lt_two
  · show 1 - index < 2
    omega

/-- The operations of a store: those of its scan, then an erase and two writes in the slot it
  picks. -/
theorem all_store {payload : List UInt8} (hsc : Prog.All Q s.scan)
    (hes : ∀ index, index < slotCount → Q (.erase (s.storage.base + s.slotOffset index)
      (u32 (s.storage.base + s.slotOffset index + s.slotSize) -
        (s.storage.base + s.slotOffset index))))
    (hh : ∀ index, index < slotCount → ∀ sequence,
      Q (.write (s.storage.base + s.slotOffset index) (SlotStore.header sequence payload)))
    (hp : payload.length ≤ maxPayloadBytes → ∀ index, index < slotCount →
      Q (.write (s.storage.base + u32 (s.slotOffset index + slotHeaderLen)) payload)) :
    Prog.All Q (s.store payload) := by
  unfold store
  split
  · exact .fail _
  next hl =>
  refine hsc.bind fun best => ?_
  have hsl := inactive_lt best
  rcases best with _ | ⟨sequence, index⟩
  all_goals
    refine (RegionStorage.all_erase (hes _ hsl)).bind fun _ => ?_
    refine (RegionStorage.all_write (hh _ hsl _)).bind fun _ => ?_
    exact (RegionStorage.all_write (hp (by omega) _ hsl)).bind fun _ => .pure _

/-- When the first slot is out of the address space no call touches anything. -/
theorem callOps_of_overflow (h : ∀ index, index < slotCount →
      2 ^ 32 ≤ s.storage.base + s.slotOffset index) (f : Flash) (call : Call) :
    s.callOps f call = [] := by
  have hrd : ∀ index cap, index < slotCount → (s.readSlot index cap).ops f = [] ∧
      (s.readSlot index cap).result f = .error .storageError := by
    intro index cap hin
    obtain ⟨ho, hr⟩ := RegionStorage.read_fails (h index hin) slotHeaderLen f
    unfold readSlot
    rw [Prog.ops_bind_error hr, Prog.result_bind_error hr]
    exact ⟨ho, rfl⟩
  have hfr := hrd 0 maxPayloadBytes (by decide)
  have hsc : s.scan.ops f = [] ∧ s.scan.result f = .error .storageError := by
    unfold scan
    rw [show List.range slotCount = [0, 1] from rfl, List.foldlM_cons, bind_assoc,
      Prog.ops_bind_error hfr.2, Prog.result_bind_error hfr.2]
    exact ⟨hfr.1, rfl⟩
  cases call with
  | load =>
    show s.load.ops f = []
    unfold load
    rw [show List.range slotCount = [0, 1] from rfl, List.foldlM_cons, bind_assoc,
      Prog.ops_bind_error hfr.2]
    exact hfr.1
  | loadSlot index cap =>
    show (s.loadSlot index cap).ops f = []
    unfold loadSlot
    split
    · rfl
    · exact (hrd index cap (by omega)).1
  | store payload =>
    show (s.store payload).ops f = []
    unfold store
    split
    · rfl
    · rw [Prog.ops_bind_error hsc.2]
      exact hsc.1

/-- A window whose slots are in the address space and have room for a record behaves as the slot
  store at its absolute base. -/
structure Refines (s : RegionSlots) (t : SlotStore) : Prop where
  base : t.base = s.storage.base + s.base
  slotSize : t.slotSize = s.slotSize

section Refinement
variable {t : SlotStore} {index : Nat}

theorem Refines.slotOffset (h : s.Refines t) (hin : index < slotCount) :
    s.slotOffset index = s.base + index * s.slotSize ∧
      s.storage.base + s.slotOffset index = t.slotOffset index ∧
      s.storage.base + s.slotOffset index + s.slotSize ≤ 2 ^ 32 := by
  have hft := t.fits
  have hrm := t.room
  rw [h.base, h.slotSize] at hft
  rw [h.slotSize] at hrm
  simp only [slotCount, slotHeaderLen, maxPayloadBytes] at hft hrm
  have hm := slot_mul_le hin s.slotSize
  have ho : s.slotOffset index = s.base + index * s.slotSize := by
    rw [RegionSlots.slotOffset, u32_of_lt (n := index * s.slotSize) (by omega),
      u32_of_lt (by omega)]
  refine ⟨ho, ?_, by omega⟩
  rw [SlotStore.slotOffset, h.base, h.slotSize]
  omega

theorem Refines.header (h : s.Refines t) (hin : index < slotCount) :
    s.storage.base + s.slotOffset index < 2 ^ 32 ∧
      u32 (s.slotOffset index + slotHeaderLen) = s.slotOffset index + slotHeaderLen ∧
      s.storage.base + (s.slotOffset index + slotHeaderLen) < 2 ^ 32 := by
  obtain ⟨-, -, hle⟩ := h.slotOffset hin
  have hrm := t.room
  rw [h.slotSize] at hrm
  simp only [slotHeaderLen, maxPayloadBytes] at hrm ⊢
  exact ⟨by omega, u32_of_lt (by omega), by omega⟩

theorem readSlot_after (s : RegionSlots) (index cap : Nat) (f : Flash) :
    (s.readSlot index cap).after f = f :=
  Prog.All.after (all_readSlot ⟨_, rfl⟩ fun _ _ => ⟨_, rfl⟩) f

theorem Refines.readSlot (h : s.Refines t) (hin : index < slotCount) (cap : Nat) (f : Flash) :
    (s.readSlot index cap).result f = .ok (t.readSlot f index cap) := by
  obtain ⟨-, ho, -⟩ := h.slotOffset hin
  obtain ⟨hlt, hu32, hlt'⟩ := h.header hin
  have hqt : (s.storage.read (s.slotOffset index) slotHeaderLen).after f = f :=
    Prog.All.after (RegionStorage.all_read ⟨_, rfl⟩) f
  unfold RegionSlots.readSlot SlotStore.readSlot
  simp only
  rw [Prog.result_bind_ok (RegionStorage.read_result hlt slotHeaderLen f), hqt, ho]
  split
  · rfl
  split
  · rfl
  split
  · rfl
  rw [hu32, Prog.result_bind_ok (RegionStorage.read_result hlt' _ f), ← Nat.add_assoc, ho]
  split <;> rfl

theorem Refines.scan (h : s.Refines t) (f : Flash) : s.scan.result f = .ok (t.scan f) := by
  have hrd0 := h.readSlot (by decide : 0 < slotCount) maxPayloadBytes f
  have hrd1 := h.readSlot (by decide : 1 < slotCount) maxPayloadBytes f
  have hqt0 := s.readSlot_after 0 maxPayloadBytes f
  unfold RegionSlots.scan SlotStore.scan
  rw [show List.range slotCount = [0, 1] from rfl, List.foldlM_cons, bind_assoc,
    Prog.result_bind_ok hrd0, hqt0]
  simp only [List.foldl_cons, List.foldl_nil, List.foldlM_cons, List.foldlM_nil, bind_pure]
  rcases t.readSlot f 0 maxPayloadBytes with _ | ⟨sequence, payload⟩
  · rw [pure_bind, Prog.result_bind_ok hrd1]
    rcases t.readSlot f 1 maxPayloadBytes with _ | ⟨sequence', payload'⟩ <;> rfl
  rw [pure_bind, Prog.result_bind_ok hrd1]
  rcases t.readSlot f 1 maxPayloadBytes with _ | ⟨sequence', payload'⟩
  · rfl
  · simp only
    split <;> rfl

/-- A store that has a record in its first slot only erases the second one. -/
theorem Refines.erases (h : s.Refines t) {f : Flash} {sequence : Nat}
    (hsc : t.scan f = some (sequence, 0)) :
    .erase (s.storage.base + s.slotOffset 1)
        (u32 (s.storage.base + s.slotOffset 1 + s.slotSize) - (s.storage.base + s.slotOffset 1)) ∈
      (s.store []).ops f := by
  obtain ⟨hlt, -, -⟩ := h.header (by decide : 1 < slotCount)
  have hrs := h.scan f
  rw [hsc] at hrs
  unfold store
  rw [if_neg nofun, Prog.ops_bind_ok hrs]
  refine List.mem_append_right _ (Prog.mem_ops_bind ?_)
  rw [RegionStorage.erase_ops hlt]
  exact List.mem_singleton_self _

end Refinement

end RegionSlots

/-! ## Confinement -/

namespace FlashLayout

variable {l : FlashLayout} {stagingLen index : Nat}

/-- The slots of a store of the region lie in the region, and its base does not wrap. -/
theorem Separate.store (h : l.Separate stagingLen) (hin : index < l.appletStoreCount) :
    0 < l.slotSize ∧ 2 * index * l.slotSize + 2 * l.slotSize ≤ l.appletSize ∧
      l.appletStoreOffset index = l.appletOffset + 2 * index * l.slotSize := by
  have hc := h.config
  have ha := h.applet
  have hsz : u32 (l.slotSize * 2) = l.slotSize * 2 ∧ 0 < l.slotSize := by
    by_cases ht : l.slotSize * 2 < 2 ^ 32
    · refine ⟨u32_of_lt ht, Nat.pos_of_ne_zero fun hzr => ?_⟩
      rw [appletStoreCount, u32_of_lt ht, hzr, Nat.div_zero] at hin
      cases hin
    · have heq : l.slotSize * 2 = 2 ^ 32 := by omega
      rw [appletStoreCount, heq, u32, Nat.mod_self, Nat.div_zero] at hin
      cases hin
  have hr : 2 * index * l.slotSize + 2 * l.slotSize ≤ l.appletSize := by
    rw [appletStoreCount, hsz.1] at hin
    have hle := (Nat.le_div_iff_mul_le (by omega)).mp (Nat.succ_le_of_lt hin)
    calc 2 * index * l.slotSize + 2 * l.slotSize = (index + 1) * (l.slotSize * 2) := by ring
      _ ≤ l.appletSize := hle
  refine ⟨hsz.2, hr, ?_⟩
  have hpr : 2 * index * l.slotSize = index * l.slotSize * 2 := by ring
  rw [appletStoreOffset, hpr]
  rw [u32_of_lt (n := index * l.slotSize) (by omega), u32_of_lt (n := index * l.slotSize * 2)
    (by omega), u32_of_lt (by omega)]

theorem upper_eq (l : FlashLayout) (index : Nat) :
    l.appletOffset + 2 * (index + 1) * l.slotSize =
      l.appletOffset + 2 * index * l.slotSize + 2 * l.slotSize := by
  rw [Nat.mul_add, Nat.add_mul, Nat.add_assoc]

/-- The window and the base together add the offset of the region twice. -/
theorem Separate.slotOffset (h : l.Separate stagingLen) (hin : index < l.appletStoreCount)
    {slot : Nat} (hsl : slot < slotCount) :
    (l.appletStore index).slotOffset slot =
      l.appletOffset + 2 * index * l.slotSize + slot * l.slotSize := by
  obtain ⟨hp, hr, hbs⟩ := h.store hin
  have ha := h.applet
  have hsl' := slot_mul_le hsl l.slotSize
  show u32 (l.appletStoreOffset index + u32 (slot * l.slotSize)) = _
  rw [hbs, u32_of_lt (n := slot * l.slotSize) (by omega), u32_of_lt (by omega)]

/-- With the region at offset zero and room for a record, a store keeps to its slots. -/
theorem Separate.confined (h : l.Separate stagingLen) (hin : index < l.appletStoreCount)
    (hzr : l.appletOffset = 0) (hrm : slotHeaderLen + maxPayloadBytes ≤ l.slotSize) :
    l.StoreConfined index := by
  obtain ⟨hs, hr, -⟩ := h.store hin
  have hap := h.applet
  set s := l.appletStore index
  simp only [slotHeaderLen, maxPayloadBytes] at hrm
  have ho : ∀ slot, slot < slotCount → 2 * index * l.slotSize ≤ s.slotOffset slot ∧
      s.slotOffset slot + l.slotSize ≤ 2 * index * l.slotSize + 2 * l.slotSize := by
    intro slot hsl
    rw [h.slotOffset hin hsl]
    have hsl' := slot_mul_le hsl l.slotSize
    omega
  have hbs : s.storage.base = 0 := hzr
  have hsz : s.slotSize = l.slotSize := rfl
  intro call f op hop
  rw [upper_eq, hzr]
  have hrd : ∀ slot cap, slot < slotCount → Prog.All
      (Confined (0 + 2 * index * l.slotSize) (0 + 2 * index * l.slotSize + 2 * l.slotSize))
      (s.readSlot slot cap) := by
    intro slot cap hsl
    have := ho slot hsl
    refine RegionSlots.all_readSlot ?_ ?_
    · intro a ha
      simp only [Touches, hbs, slotHeaderLen] at ha
      omega
    intro length hl a ha
    simp only [maxPayloadBytes] at hl
    simp only [Touches, hbs, slotHeaderLen] at ha
    rw [u32_of_lt (by omega)] at ha
    omega
  cases call with
  | load => exact (RegionSlots.all_scan_load fun slot hsl => hrd slot _ hsl).2 f op hop
  | loadSlot slot cap =>
    simp only [RegionSlots.callOps, RegionSlots.loadSlot] at hop
    split at hop
    · cases hop
    · exact hrd slot cap (by omega) f op hop
  | store payload =>
    refine RegionSlots.all_store (RegionSlots.all_scan_load fun slot hsl => hrd slot _ hsl).1
      ?_ ?_ ?_ f op hop
    · intro slot hsl a ha
      have := ho slot hsl
      simp only [Touches, hbs, hsz] at ha
      have hle : u32 (0 + s.slotOffset slot + l.slotSize) ≤ 0 + s.slotOffset slot + l.slotSize :=
        Nat.mod_le _ _
      omega
    · intro slot hsl sequence a ha
      have := ho slot hsl
      simp only [Touches, hbs, SlotStore.length_header, slotHeaderLen] at ha
      omega
    · intro hp slot hsl a ha
      have := ho slot hsl
      simp only [maxPayloadBytes] at hp
      simp only [Touches, hbs, slotHeaderLen] at ha
      rw [u32_of_lt (by omega)] at ha
      omega

/-- A header that announces a payload of the greatest length. -/
def longHeader : List UInt8 :=
  slotMagic ++ toLE 4 1 ++ toLE 2 recordVersion ++ toLE 2 maxPayloadBytes ++ toLE 4 0

def withHeader (off : Nat) : Flash := (Op.write off longHeader : Op Unit).run blank

theorem read_withHeader (off : Nat) : read (withHeader off) off slotHeaderLen = longHeader := by
  rw [show slotHeaderLen = longHeader.length from rfl, read_eq_iff]
  intro i hi
  simp [withHeader, Op.run, hi]

/-- The header of a slot is read whatever the flash holds. -/
theorem header_read (s : RegionSlots) (slot : Nat)
    (hh : s.storage.base + s.slotOffset slot < 2 ^ 32) (cap : Nat) (f : Flash) :
    .note ⟨s.storage.base + s.slotOffset slot, slotHeaderLen⟩ ∈ (s.readSlot slot cap).ops f := by
  refine Prog.mem_ops_bind ?_
  rw [RegionStorage.read_ops hh]
  exact List.mem_singleton_self _

/-- A slot with that header is read to the end of the payload. -/
theorem longHeader_read (s : RegionSlots) (slot : Nat)
    (hh : s.storage.base + s.slotOffset slot < 2 ^ 32)
    (hp : s.storage.base + u32 (s.slotOffset slot + slotHeaderLen) < 2 ^ 32) :
    .note ⟨s.storage.base + u32 (s.slotOffset slot + slotHeaderLen), maxPayloadBytes⟩ ∈
      (s.readSlot slot maxPayloadBytes).ops (withHeader (s.storage.base + s.slotOffset slot)) := by
  have hr := RegionStorage.read_result hh slotHeaderLen
    (withHeader (s.storage.base + s.slotOffset slot))
  rw [read_withHeader] at hr
  have hmg : longHeader.take 4 = slotMagic := by decide
  have hvr : ofLE ((longHeader.drop 8).take 2) = recordVersion := by decide
  have hl : ofLE ((longHeader.drop 10).take 2) = maxPayloadBytes := by decide
  unfold RegionSlots.readSlot
  rw [Prog.ops_bind_ok hr, if_neg (not_not.mpr hmg), if_neg (not_not.mpr hvr), hl, if_neg (by simp)]
  refine List.mem_append_right _ (Prog.mem_ops_bind ?_)
  rw [RegionStorage.read_ops hp]
  exact List.mem_singleton_self _

section
variable (h : l.Separate stagingLen) (hin : index < l.appletStoreCount)
include h hin

theorem Separate.slot_base {slot : Nat} (hsl : slot < slotCount) :
    (l.appletStore index).storage.base + (l.appletStore index).slotOffset slot =
      2 * l.appletOffset + 2 * index * l.slotSize + slot * l.slotSize := by
  rw [h.slotOffset hin hsl]
  change l.appletOffset + _ = _
  omega

theorem Separate.storeConfined_of_overflow
    (hov : 2 ^ 32 ≤ 2 * l.appletOffset + 2 * index * l.slotSize) : l.StoreConfined index := by
  intro call f op hop
  rw [RegionSlots.callOps_of_overflow fun slot hsl => by rw [h.slot_base hin hsl]; omega] at hop
  cases hop

variable (hcn : l.StoreConfined index)
include hcn

/-- The header of a slot in the address space is read inside the store. -/
theorem Separate.header_le {slot : Nat} (hsl : slot < slotCount)
    (hlt : 2 * l.appletOffset + 2 * index * l.slotSize + slot * l.slotSize < 2 ^ 32) :
    l.appletOffset + slot * l.slotSize + 16 ≤ 2 * l.slotSize := by
  have hb := h.slot_base hin hsl
  have hop := header_read _ slot (hb.trans_lt hlt) 0 blank
  rw [← show RegionSlots.loadSlot _ slot 0 = _ from if_neg (Nat.not_le.mpr hsl)] at hop
  have hc := (hcn (.loadSlot slot 0) _ _ hop _ ⟨Nat.le_add_right _ 15, Nat.lt_succ_self _⟩).2
  rw [upper_eq] at hc
  dsimp only at hc
  omega

variable (hft : 2 * l.appletOffset + 2 * index * l.slotSize + 2 * l.slotSize < 2 ^ 32)
include hft

/-- So is the longest payload of slot 1. -/
theorem Separate.payload_le : l.appletOffset + 2320 ≤ l.slotSize := by
  have hsl : 1 < slotCount := by decide
  have hs := h.header_le hin hcn hsl (by omega)
  have hb := h.slot_base hin hsl
  have hu32 : u32 ((l.appletStore index).slotOffset 1 + slotHeaderLen) = _ :=
    u32_of_lt (by rw [slotHeaderLen]; omega)
  have hp := (hcn (.loadSlot 1 maxPayloadBytes) _ _
    (longHeader_read _ 1 (by omega) (by rw [hu32, slotHeaderLen]; omega)) _
    ⟨Nat.le_add_right _ 2303, Nat.lt_succ_self _⟩).2
  rw [upper_eq] at hp
  dsimp only at hp
  rw [hu32, slotHeaderLen] at hp
  omega

/-- And when slot 0 holds the only record, slot 1 is erased to its end. -/
theorem Separate.offset_eq_zero : l.appletOffset = 0 := by
  have hrm := h.payload_le hin hcn hft
  obtain ⟨-, -, hst⟩ := h.store hin
  have hb := h.slot_base hin (by decide : 1 < slotCount)
  let t : SlotStore :=
    { base := l.appletOffset + l.appletStoreOffset index
      slotSize := l.slotSize
      room := by simp only [slotHeaderLen, maxPayloadBytes]; omega
      fits := by simp only [slotCount]; omega }
  have hr : (l.appletStore index).Refines t := ⟨rfl, rfl⟩
  have hsc : t.scan ((t.store [] : FlashIo Nat).after blank) = some (1, 0) := by
    rw [SlotStore.scan_eq, SlotStore.view_after t blank (by decide), SlotStore.view_blank]
    rfl
  have hsz : (l.appletStore index).slotSize = l.slotSize := rfl
  have hes := hcn (.store []) _ _ (hr.erases hsc)
    (2 * l.appletOffset + 2 * index * l.slotSize + 1 * l.slotSize + (l.slotSize - 1)) (by
      rw [hb, hsz, u32_of_lt (by omega)]
      exact ⟨by omega, by omega⟩)
  rw [upper_eq] at hes
  omega

end

/-- A store keeps to its two slots, whatever the flash holds and whatever is called, exactly when
  no access of it is in the address space, or the applet region starts at offset zero and its
  slots have room for a record. -/
theorem Separate.storeConfined_iff (h : l.Separate stagingLen)
    (hin : index < l.appletStoreCount) :
    l.StoreConfined index ↔ 2 ^ 32 ≤ 2 * l.appletOffset + 2 * index * l.slotSize ∨
      l.appletOffset = 0 ∧ slotHeaderLen + maxPayloadBytes ≤ l.slotSize := by
  constructor
  swap
  · rintro (hov | ⟨hzr, hrm⟩)
    · exact h.storeConfined_of_overflow hin hov
    · exact h.confined hin hzr hrm
  intro hcn
  by_cases hov : 2 ^ 32 ≤ 2 * l.appletOffset + 2 * index * l.slotSize
  · exact .inl hov
  -- the region starts below two slots, so the configuration slots lie behind it and nothing wraps
  have hfr := h.header_le hin hcn (by decide : 0 < slotCount) (by omega)
  obtain ⟨-, hg, -⟩ := h.store hin
  have hc := h.config
  have hab : l.appletOffset + l.appletSize ≤ l.configOffset := by
    by_contra hbl
    have hm := h.configApplet (max l.configOffset l.appletOffset) (Nat.le_max_left _ _)
      (by omega) (Nat.le_max_right _ _)
    omega
  have hft : 2 * l.appletOffset + 2 * index * l.slotSize + 2 * l.slotSize < 2 ^ 32 := by omega
  exact .inr ⟨h.offset_eq_zero hin hcn hft,
    (Nat.le_add_left 2320 _).trans (h.payload_le hin hcn hft)⟩

/-- The call touches the byte at `a`. -/
def StoreTouches (l : FlashLayout) (index a : Nat) : Prop :=
  ∃ call f, ∃ op ∈ (l.appletStore index).callOps f call, Touches a op

theorem StoreConfined.touches (h : l.StoreConfined index) {a : Nat} (ha : l.StoreTouches index a) :
    l.appletOffset + 2 * index * l.slotSize ≤ a ∧
      a < l.appletOffset + 2 * index * l.slotSize + 2 * l.slotSize := by
  obtain ⟨call, f, op, hop, ht⟩ := ha
  rw [← upper_eq]
  exact h call f op hop a ht

/-- A store keeps to its own two slots if and only if nothing of it is in the address space, or
  the applet region starts at offset zero and its slots have room for a record. Stores that keep to
  their slots share no byte, and touch neither the configuration nor the staging region. -/
theorem appletStores_isolated (l : FlashLayout) (stagingLen : Nat) (h : l.Separate stagingLen)
    (index : Nat) (hindex : index < l.appletStoreCount) :
    (l.StoreConfined index ↔ 2 ^ 32 ≤ 2 * l.appletOffset + 2 * index * l.slotSize ∨
      l.appletOffset = 0 ∧ slotHeaderLen + maxPayloadBytes ≤ l.slotSize) ∧
    (l.StoreConfined index → ∀ a, l.StoreTouches index a →
      ¬ (l.configOffset ≤ a ∧ a < l.configOffset + 2 * l.slotSize) ∧
      ¬ (l.stagingOffset ≤ a ∧ a < l.stagingOffset + stagingLen) ∧
      ∀ other, other ≠ index → l.StoreConfined other → ¬ l.StoreTouches other a) := by
  refine ⟨h.storeConfined_iff hindex, fun hconf a ha => ?_⟩
  obtain ⟨-, hregion, -⟩ := h.store hindex
  have hbounds := hconf.touches ha
  refine ⟨?_, ?_, ?_⟩
  · rintro ⟨hlo, hhi⟩
    have := h.configApplet a hlo hhi (by omega)
    omega
  · rintro ⟨hlo, hhi⟩
    have := h.stagingApplet a hlo hhi (by omega)
    omega
  · intro other hne hother ha'
    have hbounds' := hother.touches ha'
    rcases Nat.lt_or_gt_of_ne hne with hlt | hgt
    · have hmul : (2 * other + 2) * l.slotSize ≤ 2 * index * l.slotSize :=
        Nat.mul_le_mul_right _ (by omega)
      rw [Nat.add_mul] at hmul
      omega
    have hmul : (2 * index + 2) * l.slotSize ≤ 2 * other * l.slotSize :=
      Nat.mul_le_mul_right _ (by omega)
    rw [Nat.add_mul] at hmul
    omega

theorem standard_separate : standard.Separate 0xC0000 where
  config := by decide
  applet := by decide
  staging := by decide
  configApplet := by simp only [standard]; omega
  stagingApplet := by simp only [standard]; omega
  stagingConfig := by simp only [standard]; omega

/-- On the layout of the boards no store keeps to its slots. -/
theorem appletStores_isolated_standard :
    standard.appletStoreCount = 24 ∧ ¬ standard.StoreConfined 3 := by
  refine ⟨by decide, fun hconf => ?_⟩
  have hcond := (appletStores_isolated standard 0xC0000 standard_separate 3 (by decide)).1.mp hconf
  revert hcond
  decide

/-- The first read of store 0 on the layout of the boards is at twice the offset of the applet
  region, behind the start of the staging region. -/
theorem first_store_reads_outside :
    ∃ op ∈ (standard.appletStore 0).callOps blank .load, Touches 0x220000 op ∧
      ¬ Confined (standard.appletOffset + 2 * 0 * standard.slotSize)
        (standard.appletOffset + 2 * (0 + 1) * standard.slotSize) op ∧
      standard.stagingOffset ≤ 0x220000 := by
  refine ⟨.note ⟨0x220000, 16⟩, ?_, by decide, fun hconf => ?_, by decide⟩
  · have hmem : Op.note ⟨0x220000, 16⟩ ∈
        ((standard.appletStore 0).readSlot 0 maxPayloadBytes).ops blank :=
      header_read (standard.appletStore 0) 0 (by decide) maxPayloadBytes blank
    show _ ∈ (standard.appletStore 0).load.ops blank
    unfold RegionSlots.load
    rw [show List.range slotCount = [0, 1] from rfl, List.foldlM_cons, bind_assoc]
    exact Prog.mem_ops_bind hmem
  · have hbounds := hconf 0x220000 (by decide)
    revert hbounds
    decide

end FlashLayout

end AegisToken
