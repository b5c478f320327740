/-
  What a sealed cell holds.
  `Holds c f n r` says that after `n` writes the cell's region shows the register `r` of sealed
  records, all of which open. `contents r` is the body a cell with that register gives out. A write
  is one write of the register if its body leaves room for the presence flag, which
  `shardBodyMax` does not count; a longer one is refused (`Holds.put`, `Holds.put_long`).
  After `2 ^ 32 - 1` writes the sequence numbers are used up and the contents stay as they are.
-/
import AegisToken.Applets.SealedRecords

namespace AegisToken
open ByteCodec FlashProg TwoSlot

namespace SealedCell

variable {c : SealedCell} {f : Flash} {n : Nat} {r : Reg (Nat × List UInt8)} (present : Bool)

/-! ## The register of a cell -/

/-- A record that opens: its generation is a `u64`, and its flag and body fit a slot. -/
def Opens (x : Nat × List UInt8) : Prop :=
  x.1 < genModulus ∧ presentLen ≤ x.2.length ∧ x.2.length ≤ shardBodyMax

/-- The cell after `n` writes. -/
structure Holds (c : SealedCell) (f : Flash) (n : Nat) (r : Reg (Nat × List UInt8)) : Prop where
  view : c.storage.view f = map (sealedRecord c.aead c.applet c.shard) r
  opens : ∀ x, Mem r x → Opens x
  counted : Counted seqModulus n r

def bodyOf : List UInt8 → Option (List UInt8)
  | [] => none
  | flag :: body => if flag = 0 then none else some body

/-- What a cell gives out. -/
def contents (r : Reg (Nat × List UInt8)) : Option (List UInt8) :=
  ((TwoSlot.load r).map Prod.snd).bind fun x => bodyOf x.2

@[simp] theorem bodyOf_flagged (body : List UInt8) :
    bodyOf (flagged present body) = if present then some body else none := by
  cases present <;> rfl

theorem holds_blank (c : SealedCell) : c.Holds blank 0 Reg.empty where
  view := c.storage.view_blank
  opens x hx := absurd hx (not_mem_empty x)
  counted := Counted.empty _

theorem contents_empty : contents Reg.empty = none := by
  rfl

variable (h : c.Holds f n r)

include h in
/-- The cell's region is all that counts. -/
theorem Holds.congr {f' : Flash}
    (hvw : c.storage.view f' = c.storage.view f) : c.Holds f' n r where
  view := hvw.trans h.view
  opens := h.opens
  counted := h.counted

theorem Opens.openCell {x : Nat × List UInt8} (h : Opens x) (A : Aead) (applet shard : Nat) :
    openCell A applet shard (sealedRecord A applet shard x) plainCap = .ok x :=
  openCell_sealedRecord A applet shard h.1 h.2.1 h.2.2

include h in
theorem Holds.load_storage :
    c.storage.load f =
      (TwoSlot.load r).map (Prod.map id (sealedRecord c.aead c.applet c.shard)) := by
  rw [SlotStore.load_eq, h.view, load_map]

include h in
theorem Holds.checkOpen : c.checkOpen f = .ok () := by
  rw [SealedCell.checkOpen, h.load_storage]
  rcases hl : TwoSlot.load r with _ | ⟨s, x⟩
  · rfl
  · have hon := (h.opens x (mem_of_load hl)).openCell c.aead c.applet c.shard
    simp only [Option.map_some, Prod.map_apply, hon]
    rfl

include h in
/-- A load gives the contents, if the buffer takes them. -/
theorem Holds.load (outLen : Nat) :
    c.load f outLen = .ok ((contents r).filter fun body => body.length ≤ outLen) := by
  rw [SealedCell.load, h.load_storage, contents]
  rcases hl : TwoSlot.load r with _ | ⟨s, g, bytes⟩
  · rfl
  have hx := h.opens _ (mem_of_load hl)
  have hon := hx.openCell c.aead c.applet c.shard
  simp only [Option.map_some, Prod.map_apply, hon]
  rcases bytes with _ | ⟨flag, body⟩
  · exact absurd hx.2.1 (Nat.not_succ_le_zero 0)
  show (if flag = 0 then _ else if outLen < body.length then _ else _) = _
  by_cases hfl : flag = 0
  · rw [if_pos hfl, Option.bind_some, bodyOf, if_pos hfl]
    rfl
  rw [if_neg hfl, Option.bind_some, bodyOf, if_neg hfl, Option.filter_some]
  by_cases hn : outLen < body.length
  · rw [if_pos hn, if_neg (by simpa using hn)]
    rfl
  · rw [if_neg hn, if_pos (by simpa using hn)]
    rfl

/-! ## Writes -/

include h in
theorem Holds.freshGen : ∃ g, c.freshGen f = .ok g ∧ g < genModulus := by
  have hg : ∀ x, Mem r x → c.recordGen (sealedRecord c.aead c.applet c.shard x) = .ok x.1 := by
    intro x hx
    rw [recordGen, (h.opens x hx).openCell]
    rfl
  obtain ⟨m, hm, -, -, -⟩ := foldSlots_max h.view hg (Nat.zero_le genModulus)
    fun x hx => Nat.le_of_lt (h.opens x hx).1
  refine ⟨(m + 1) % genModulus, ?_, Nat.mod_lt _ (by decide)⟩
  rw [c.freshGen_eq, hm]
  rfl

variable {body : List UInt8}

include h in
/-- A write whose body leaves room for the flag is one write of the register. -/
theorem Holds.put (hbd : body.length < shardBodyMax) :
    (c.put present body).result f = .ok () ∧ ∃ g, c.Holds ((c.put present body).after f) (n + 1)
        (TwoSlot.put seqModulus r (g, flagged present body)) := by
  obtain ⟨g, hg, hlt⟩ := h.freshGen
  have hr := c.put_of_fits hg present hbd
  have hon : Opens (g, flagged present body) :=
    ⟨hlt, by simp [flagged, presentLen], hbd⟩
  have hf := sealedRecord_fits c.aead c.applet c.shard hon.2.2
  refine ⟨?_, g, ?_, ?_, h.counted.put _ (by decide)⟩
  · rw [Prog.result, hr]
    exact storeSealed_result hf f
  · rw [Prog.after, Prog.ops, hr]
    show c.storage.view ((storeSealed _ _ _ _).after f) = _
    rw [storeSealed_after]
    exact (c.storage.view_after f hf).trans (h.view ▸ put_map seqModulus _ r _)
  · intro x hx
    rcases (Torn.landed : Torn seqModulus r (g, flagged present body) _).mem hx with rfl | hx
    · exact hon
    · exact h.opens x hx

include h in
theorem Holds.put_long (hbd : shardBodyMax ≤ body.length) :
    (c.put present body).result f = .error .storageError ∧ (c.put present body).after f = f := by
  obtain ⟨g, hg, -⟩ := h.freshGen
  have hr := c.put_of_long hg present hbd
  constructor
  · rw [Prog.result, hr]
  · rw [Prog.after, Prog.ops, hr]
    rfl

include h in
/-- The contents after a write: what was written, as long as sequence numbers last. -/
theorem Holds.contents_put (g : Nat) (present : Bool) (body : List UInt8) :
    contents (TwoSlot.put seqModulus r (g, flagged present body)) =
      if n + 1 < seqModulus then (if present then some body else none) else contents r := by
  by_cases hn : n + 1 < seqModulus
  · rw [if_pos hn, contents, h.counted.load_put _ hn]
    exact bodyOf_flagged present body
  · rw [if_neg hn, contents, h.counted.load_put_stuck _ (by decide) (Nat.le_of_not_lt hn)]
    rfl

/-! ## Runs of calls -/

/-- A call that changes a cell. -/
inductive CellCall where
  | store (body : List UInt8)
  | erase
deriving DecidableEq

def call (c : SealedCell) : CellCall → Prog SealCall CoreError Unit
  | .store body => c.store body
  | .erase => c.erase

/-- The calls that write a record. -/
def CellCall.accepted : CellCall → Bool
  | .store body => body.length < shardBodyMax
  | .erase => true

/-- The flash after calls on a blank one. -/
def reached (c : SealedCell) (calls : List CellCall) : Flash :=
  Runs.run (fun f e => (c.call e).after f) blank calls

theorem store_of_fits (c : SealedCell) (hbd : body.length < shardBodyMax) :
    c.store body = c.put true body := by
  rw [SealedCell.store, if_neg (by omega)]

include h in
/-- A body of `shardBodyMax` bytes passes the check on its length and is refused all the same. -/
theorem Holds.store_long (hbd : shardBodyMax ≤ body.length) :
    (c.store body).result f = .error .storageError ∧ (c.store body).after f = f := by
  rw [SealedCell.store]
  by_cases hln : body.length > shardBodyMax
  · rw [if_pos hln]
    exact ⟨rfl, rfl⟩
  · rw [if_neg hln]
    exact h.put_long true hbd

include h in
theorem Holds.call (e : CellCall) :
    ∃ r', c.Holds ((c.call e).after f) (n + [e].countP CellCall.accepted) r' := by
  cases e with
  | store body =>
    rw [SealedCell.call, List.countP_singleton, CellCall.accepted]
    by_cases hbd : body.length < shardBodyMax
    · obtain ⟨-, g, hp⟩ := h.put true hbd
      rw [c.store_of_fits hbd, decide_eq_true hbd]
      exact ⟨_, hp⟩
    · rw [(h.store_long (Nat.le_of_not_lt hbd)).2, decide_eq_false hbd]
      exact ⟨r, h⟩
  | erase =>
    have hrm : ([] : List UInt8).length < shardBodyMax := by decide
    obtain ⟨-, g, hp⟩ := h.put false hrm
    exact ⟨_, hp⟩

/-- Every run of calls from blank flash leaves a cell whose records open, with one number for each
  call that was accepted. -/
theorem reached_holds (c : SealedCell) (calls : List CellCall) :
    ∃ r, c.Holds (c.reached calls) (calls.countP CellCall.accepted) r := by
  induction calls using List.reverseRecOn with
  | nil => exact ⟨_, c.holds_blank⟩
  | append_singleton calls e ih =>
    obtain ⟨r, hr⟩ := ih
    rw [reached, Runs.run_append, List.countP_append]
    exact hr.call e

/-! ## Round trips -/

include h in
theorem Holds.load_put (hbd : body.length < shardBodyMax)
    {outLen : Nat} (ho : body.length ≤ outLen) :
    c.load ((c.put present body).after f) outLen =
      if n + 1 < seqModulus then .ok (if present then some body else none)
      else c.load f outLen := by
  obtain ⟨-, g, hp⟩ := h.put present hbd
  rw [hp.load, h.contents_put]
  by_cases hn : n + 1 < seqModulus
  · rw [if_pos hn, if_pos hn]
    cases present
    · rfl
    · rw [if_pos rfl, Option.filter_some, if_pos (by simpa using ho)]
  · rw [if_neg hn, if_neg hn, h.load]

/-- The cell of another domain over the same region and key. -/
def retag (c : SealedCell) (applet shard : Nat) : SealedCell :=
  { c with applet := applet, shard := shard }

/-- A record of another domain does not open. -/
theorem Holds.retag_error (h : c.Holds f (n + 1) r) {applet shard : Nat}
    (htg : c.applet % 2 ^ 16 ≠ applet % 2 ^ 16 ∨ c.shard % 2 ^ 16 ≠ shard % 2 ^ 16) :
    (c.retag applet shard).checkOpen f = .error .storageError ∧
      ∀ outLen, (c.retag applet shard).load f outLen = .error .storageError := by
  have hcn : (TwoSlot.load r).map Prod.fst = some (min (n + 1) (seqModulus - 1)) := h.counted
  rcases hl : TwoSlot.load r with _ | ⟨s, x⟩
  · rw [hl] at hcn
    cases hcn
  obtain ⟨hg, hfl, hf⟩ := h.opens x (mem_of_load hl)
  have hon : openCell c.aead applet shard (sealedRecord c.aead c.applet c.shard x) plainCap =
      .error .storageError := by
    rw [openCell, openRecord_sealedRecord_eq c.aead c.applet c.shard applet shard hg hfl
      (by simp only [plainCap]; omega), if_pos (nonce_ne x.1 htg)]
  have hld := h.load_storage
  rw [hl, Option.map_some, Prod.map_apply] at hld
  constructor
  · rw [SealedCell.checkOpen, retag, hld]
    simp only [hon]
    rfl
  intro outLen
  rw [SealedCell.load, retag, hld]
  simp only [hon]
  rfl

/-- A cell takes a body, reopens and gives it back exactly if the body leaves room for the presence
  flag and sequence numbers are left, or the cell held that body already. An erased cell is empty
  under the same condition, and a cell of another domain never opens what was stored. -/
theorem store_load_iff (c : SealedCell) (calls : List CellCall) (body : List UInt8) (outLen : Nat)
    (hout : body.length ≤ outLen) :
    let f := c.reached calls
    let stored := (c.store body).after f
    let numbersLeft := calls.countP CellCall.accepted + 1 < 2 ^ 32
    ((c.store body).result f = .ok () ∧ c.checkOpen stored = .ok () ∧
        c.load stored outLen = .ok (some body) ↔
      body.length < shardBodyMax ∧ (numbersLeft ∨ c.load f outLen = .ok (some body))) ∧
    (c.erase.result f = .ok () ∧ c.load (c.erase.after f) outLen = .ok none ↔
      numbersLeft ∨ c.load f outLen = .ok none) ∧
    (body.length < shardBodyMax → ∀ applet shard,
      c.applet % 2 ^ 16 ≠ applet % 2 ^ 16 ∨ c.shard % 2 ^ 16 ≠ shard % 2 ^ 16 →
      (c.retag applet shard).checkOpen stored = .error .storageError ∧
        (c.retag applet shard).load stored outLen = .error .storageError) := by
  intro f stored numbersLeft
  obtain ⟨r, h⟩ := c.reached_holds calls
  refine ⟨?_, ?_, ?_⟩
  · by_cases hbody : body.length < shardBodyMax
    · have hput := h.put true hbody
      obtain ⟨g, hafter⟩ := hput.2
      have hload := h.load_put true hbody hout
      have hstored : stored = (c.put true body).after f := by
        rw [← c.store_of_fits hbody]
      rw [hstored, hload, if_pos rfl, ite_eq_left_iff, ← or_iff_not_imp_left,
        c.store_of_fits hbody]
      exact ⟨fun hall => ⟨hbody, hall.2.2⟩, fun hall => ⟨hput.1, hafter.checkOpen, hall.2⟩⟩
    · refine ⟨fun hall => ?_, fun hall => absurd hall.1 hbody⟩
      cases hall.1.symm.trans (h.store_long (Nat.le_of_not_lt hbody)).1
  · have hroom : ([] : List UInt8).length < shardBodyMax := by decide
    have hload : c.load (c.erase.after f) outLen = _ :=
      h.load_put false hroom (Nat.zero_le outLen)
    rw [hload, if_neg Bool.false_ne_true, ite_eq_left_iff, ← or_iff_not_imp_left]
    exact ⟨fun hall => hall.2, fun hall => ⟨(h.put false hroom).1, hall⟩⟩
  · intro hbody applet shard htags
    obtain ⟨-, g, hafter⟩ := h.put true hbody
    have hretag := hafter.retag_error htags
    rw [← c.store_of_fits hbody] at hretag
    exact ⟨hretag.1, hretag.2 outLen⟩

/-- The PIV metadata cell in the first two sectors, under the stand-in cipher. -/
def exampleCell : SealedCell := ⟨sectorPair 0, Aead.plain, pivAppletTag, 0⟩

theorem store_load_iff_third_call :
    let f := exampleCell.reached [.store [1, 2], .erase]
    (exampleCell.store [7]).result f = .ok () ∧
      exampleCell.checkOpen ((exampleCell.store [7]).after f) = .ok () ∧
      exampleCell.load ((exampleCell.store [7]).after f) 1 = .ok (some [7]) :=
  (store_load_iff exampleCell [.store [1, 2], .erase] [7] 1 (by decide)).1.mpr
    ⟨by decide, .inl (by decide)⟩

/-- A blank cell refuses a body of `shardBodyMax` bytes. -/
theorem largest_body_refused :
    (List.replicate 2268 (0 : UInt8)).length = shardBodyMax ∧
      (exampleCell.store (List.replicate 2268 0)).result blank = .error .storageError := by
  have hlength : (List.replicate 2268 (0 : UInt8)).length = shardBodyMax := List.length_replicate
  exact ⟨hlength, (exampleCell.holds_blank.store_long (Nat.le_of_eq hlength.symm)).1⟩

end SealedCell

end AegisToken
