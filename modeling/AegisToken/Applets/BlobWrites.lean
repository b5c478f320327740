import Mathlib.Algebra.BigOperators.Group.Finset.Basic
import Mathlib.Algebra.Order.BigOperators.Group.Finset
import Mathlib.Order.Interval.Finset.Nat
import AegisToken.Lib.Sharded
import AegisToken.Applets.SealedRecords

/-
  What `SealedBlob::save` does to the flash, whole or cut at any byte.
  A flash refines a bank of registers (`Lib.Sharded`) when each cell's region holds the sealed
  records of its register. A save that is cut anywhere refines a cut save of the bank
  (`save_crash`). On a bank whose records can all be opened (`Readable`), the next generation is
  above every generation in it.
-/

namespace AegisToken
open ByteCodec FlashProg TwoSlot

namespace SealedBlob

variable {S : Nat} (b : SealedBlob S) {body data : List UInt8} {f : Flash}
  {R : Sharded.Bank (List UInt8)} {g : Nat}

/-! ## Regions -/

theorem cell_commit : b.cell S = b.commit := by
  simp [cell]

theorem cell_apart {i j : Nat} (hi : i ≤ S) (hj : j ≤ S) (hij : i ≠ j) :
    SlotStore.Apart (b.cell i) (b.cell j) := by
  unfold cell
  by_cases hi' : i < S
  · by_cases hj' : j < S
    · rw [dif_pos hi', dif_pos hj']
      exact b.data_apart _ _ (by simpa using hij)
    · rw [dif_pos hi', dif_neg hj']
      exact b.commit_apart _
  · by_cases hj' : j < S
    · rw [dif_neg hi', dif_pos hj']
      exact (b.commit_apart _).symm
    · omega

/-- The regions lie side by side in the 32-bit address space, so a blob's length is a `u32`. -/
theorem capacity_lt (b : SealedBlob S) : S * shardBodyMax < 2 ^ 32 := by
  have hrm : ∀ i, 2320 ≤ (b.data i).slotSize := fun i => (b.data i).room
  have hft : ∀ i, (b.data i).base + 2 * (b.data i).slotSize ≤ 2 ^ 32 := fun i => (b.data i).fits
  have hds : ∀ i ∈ (Finset.univ : Finset (Fin S)), ∀ j ∈ (Finset.univ : Finset (Fin S)), i ≠ j →
      Disjoint (Finset.Ico (b.data i).base ((b.data i).base + 4640))
        (Finset.Ico (b.data j).base ((b.data j).base + 4640)) := by
    intro i _ j _ hij
    rw [Finset.disjoint_left]
    intro a ha hb
    simp only [Finset.mem_Ico] at ha hb
    have h1 := hrm i
    have h2 := hrm j
    have hap := b.data_apart i j hij
    simp only [SlotStore.Apart, slotCount] at hap
    omega
  have hs : (Finset.univ : Finset (Fin S)).biUnion
      (fun i => Finset.Ico (b.data i).base ((b.data i).base + 4640)) ⊆ Finset.range (2 ^ 32) := by
    intro a ha
    simp only [Finset.mem_biUnion, Finset.mem_univ, true_and, Finset.mem_Ico] at ha
    obtain ⟨i, ha⟩ := ha
    have h1 := hrm i
    have h2 := hft i
    rw [Finset.mem_range]
    omega
  have hcr := Finset.card_le_card hs
  rw [Finset.card_biUnion hds, Finset.sum_const_nat (m := 4640) (fun i _ => by simp),
    Finset.card_univ, Fintype.card_fin, Finset.card_range] at hcr
  simp only [shardBodyMax, maxPayloadBytes, nonceLen, tagLen, genLen]
  omega

/-! ## Parts -/

/-- What register `j` holds of a blob: its chunk, or its length in the commit record. -/
def part (data : List UInt8) (j : Nat) : List UInt8 :=
  if j < S then chunk data j else toLE 4 data.length

theorem chunk_eq (data : List UInt8) (j : Nat) :
    chunk data j = (data.drop (j * shardBodyMax)).take shardBodyMax := by
  unfold chunk
  dsimp only
  split
  · by_cases hfl : j * shardBodyMax + shardBodyMax ≤ data.length
    · rw [Nat.min_eq_left hfl, Nat.add_sub_cancel_left]
    · rw [Nat.min_eq_right (by omega), List.take_of_length_le (by rw [List.length_drop]),
        List.take_of_length_le (by rw [List.length_drop]; omega)]
  · rw [List.drop_of_length_le (by omega), List.take_nil]

theorem length_part (data : List UInt8) (j : Nat) :
    (part (S := S) data j).length ≤ shardBodyMax := by
  unfold part
  split
  · rw [chunk_eq, List.length_take]
    omega
  · rw [length_toLE]
    decide

/-! ## The trace of a save -/

/-- The record of a generation in cell `j`. -/
def record (b : SealedBlob S) (j : Nat) : Nat × List UInt8 → List UInt8 :=
  sealedRecord b.aead b.applet j

theorem record_fits (j g : Nat)
    (h : body.length ≤ shardBodyMax) : (b.record j (g, body)).length ≤ maxPayloadBytes :=
  sealedRecord_fits b.aead b.applet j h

theorem writeShard_eq (j g : Nat) (h : body.length ≤ shardBodyMax) :
    b.writeShard j g body =
      storeSealed b.aead (b.cell j) (nonce g b.applet j) (toLE 8 g ++ body) := by
  refine sealing_store_eq b.aead (b.cell j) ?_
  rw [List.length_append, length_toLE]
  simp only [shardBodyMax, maxPayloadBytes, nonceLen, tagLen, genLen] at h ⊢
  omega

theorem writeShard_result (j g : Nat)
    (h : body.length ≤ shardBodyMax) (f : Flash) : (b.writeShard j g body).result f = .ok () := by
  rw [writeShard_eq b j g h]
  exact storeSealed_result (b.record_fits j g h) f

theorem writeShard_crash (j g : Nat) (h : body.length ≤ shardBodyMax) (n : Nat) (f : Flash) :
    (b.writeShard j g body).crash n f =
      ((b.cell j).store (b.record j (g, body)) : Prog SealCall CoreError Nat).crash n f := by
  rw [writeShard_eq b j g h]
  exact storeSealed_crash _ _ _ _ f n

theorem writeShard_after (j g : Nat) (h : body.length ≤ shardBodyMax) (f : Flash) :
    (b.writeShard j g body).after f =
      ((b.cell j).store (b.record j (g, body)) : Prog SealCall CoreError Nat).after f := by
  rw [writeShard_eq b j g h]
  exact storeSealed_after _ _ _ _ f

/-- The writes of a save, from the freshly picked generation on. -/
def writes (b : SealedBlob S) (g : Nat) (data : List UInt8) (js : List Nat) :
    Prog SealCall CoreError Unit :=
  js.forM fun j => b.writeShard j g (part (S := S) data j)

theorem writes_cons (g : Nat) (data : List UInt8) (j : Nat) (js : List Nat) :
    b.writes g data (j :: js) =
      b.writeShard j g (part (S := S) data j) >>= fun _ => b.writes g data js := rfl

theorem save_eq (h : data.length ≤ S * shardBodyMax) :
    b.save data = Prog.look b.freshGen >>= fun g => b.writes g data (List.range' 0 (S + 1)) := by
  have hcn : ∀ (g : Nat) (js : List Nat), (∀ j ∈ js, j < S) →
      (js.forM fun j => b.writeShard j g (chunk data j)) = b.writes g data js := by
    intro g js hjs
    induction js with
    | nil => rfl
    | cons j js ih =>
      show (b.writeShard j g (chunk data j) >>= fun _ => _) = _
      rw [writes_cons, part, if_pos (hjs j List.mem_cons_self), ih fun i hi => hjs i (List.mem_cons_of_mem j hi)]
  rw [save, if_neg (by omega)]
  refine bind_congr fun g => ?_
  rw [hcn g _ fun j hj => List.mem_range.mp hj, ← List.range_eq_range', List.range_succ, writes,
    writes, List.forM_eq_forM, List.forM_append]
  refine bind_congr fun _ => ?_
  rw [List.forM_cons, List.forM_nil, part, if_neg (Nat.lt_irrefl S), bind_pure_unit]

/-! ## Refinement -/

/-- The flash holds the records of a bank of registers. -/
def Refines (b : SealedBlob S) (f : Flash) (R : Sharded.Bank (List UInt8)) : Prop :=
  ∀ j ≤ S, (b.cell j).view f = map (b.record j) (R j)

/-- CRC-32 rejects whatever the save has left torn in `f'`; `f` is the flash it started on. -/
def TornRejected (b : SealedBlob S) (f f' : Flash) (g : Nat) (data : List UInt8) : Prop :=
  ∀ j ≤ S, (b.cell j).TornRejected f' ((b.cell j).next f).2 ((b.cell j).next f).1
    (b.record j (g, part (S := S) data j))

theorem next_congr {s : SlotStore} {f f' : Flash} (h : s.view f' = s.view f) :
    s.next f' = s.next f := by
  rw [SlotStore.next_eq, SlotStore.next_eq, h]

theorem Refines.write {b : SealedBlob S} (h : b.Refines f R) {k g : Nat} (hk : k ≤ S)
    (hbd : body.length ≤ shardBodyMax) :
    b.Refines ((b.writeShard k g body).after f)
      (Function.update R k (put seqModulus (R k) (g, body))) := by
  intro j hj
  rw [writeShard_after b k g hbd]
  by_cases hjk : j = k
  · subst hjk
    rw [SlotStore.view_after _ f (b.record_fits j g hbd), h j hj, Function.update_self]
    exact put_map seqModulus (b.record j) (R j) (g, body)
  · rw [SlotStore.view_after_of_apart (b.cell_apart hk hj (Ne.symm hjk)), h j hj,
      Function.update_of_ne hjk]

theorem Refines.write_crash {b : SealedBlob S} (h : b.Refines f R) {k g n : Nat} (hk : k ≤ S)
    (hbd : body.length ≤ shardBodyMax)
    (hc : (b.cell k).TornRejected ((b.writeShard k g body).crash n f) ((b.cell k).next f).2
      ((b.cell k).next f).1 (b.record k (g, body))) :
    ∃ q, Torn seqModulus (R k) (g, body) q ∧
      b.Refines ((b.writeShard k g body).crash n f) (Function.update R k q) := by
  rw [writeShard_crash b k g hbd] at hc ⊢
  have ht := SlotStore.view_crash _ f n (b.record_fits k g hbd) hc
  rw [h k hk] at ht
  obtain ⟨q, hq, hqt⟩ := ht.of_map
  refine ⟨q, hqt, fun j hj => ?_⟩
  by_cases hjk : j = k
  · subst hjk
    rw [Function.update_self]
    exact hq
  · rw [SlotStore.view_crash_of_apart (b.cell_apart hk hj (Ne.symm hjk)), h j hj,
      Function.update_of_ne hjk]

/-- The writes from cell `k` on, cut anywhere: cells before some `k'` are written, `k'` is cut and
  the rest is as it was. -/
theorem writes_crash (g : Nat) (data : List UInt8) (n : Nat) (m k : Nat) (hkm : k + m = S + 1)
    (h : b.Refines f R)
    (hc : ∀ j, k ≤ j → j ≤ S →
      (b.cell j).TornRejected ((b.writes g data (List.range' k m)).crash n f)
        ((b.cell j).next f).2 ((b.cell j).next f).1 (b.record j (g, part (S := S) data j))) :
    ∃ k' R', b.Refines ((b.writes g data (List.range' k m)).crash n f) R' ∧ k ≤ k' ∧
      (∀ j, j < k → R' j = R j) ∧
      (∀ j, k ≤ j → j < k' → R' j = put seqModulus (R j) (g, part (S := S) data j)) ∧
      (k' ≤ S → Torn seqModulus (R k') (g, part (S := S) data k') (R' k')) ∧
      (∀ j, k' < j → j ≤ S → R' j = R j) ∧
      (size ((b.writes g data (List.range' k m)).ops f) ≤ n → k' = S + 1) ∧
      (0 < m → size ((b.writeShard k g (part (S := S) data k)).ops f) ≤ n → k < k') := by
  induction m generalizing k f R n with
  | zero =>
    refine ⟨k, R, ?_, Nat.le_refl k, fun _ _ => rfl, fun j h1 h2 => by omega,
      fun hk => by omega, fun _ _ _ => rfl, fun _ => by omega, fun h0 => by omega⟩
    simpa [writes, Prog.crash] using h
  | succ m ih =>
    have hbd := length_part (S := S) data k
    have hk : k ≤ S := by omega
    have hrs := b.writeShard_result k g hbd f
    rw [List.range'_succ, writes_cons] at hc ⊢
    rcases Nat.lt_or_ge n (size ((b.writeShard k g (part data k)).ops f)) with hn | hn
    · -- the power fails in this cell
      rw [Prog.crash_bind_of_lt hn] at hc ⊢
      obtain ⟨q, hq, hr⟩ := h.write_crash hk hbd (hc k (Nat.le_refl k) hk)
      refine ⟨k, _, hr, Nat.le_refl k, fun j hj => Function.update_of_ne (by omega) _ _,
        fun j h1 h2 => by omega, fun _ => ?_,
        fun j h1 _ => Function.update_of_ne (by omega) _ _, fun hs => ?_, fun _ hs => by omega⟩
      · rw [Function.update_self]
        exact hq
      · rw [Prog.ops_bind_ok hrs, size_append] at hs
        omega
    · -- this cell is written; go on with the next one
      rw [Prog.crash_bind_of_le hrs hn] at hc ⊢
      have hnx : ∀ j, k + 1 ≤ j → j ≤ S → (b.cell j).next
          ((b.writeShard k g (part (S := S) data k)).after f) = (b.cell j).next f := by
        intro j hj1 hj2
        refine next_congr ?_
        rw [writeShard_after b k g hbd]
        exact SlotStore.view_after_of_apart (b.cell_apart hk hj2 (by omega)) f _
      obtain ⟨k', R', hr, hkk, hl, hp, htr, hhg, ha, -⟩ :=
        ih (n - size ((b.writeShard k g (part data k)).ops f)) (k + 1) (by omega)
          (h.write hk hbd) (fun j hj1 hj2 => by
            rw [hnx j hj1 hj2]
            exact hc j (by omega) hj2)
      refine ⟨k', R', hr, by omega, fun j hj => ?_, fun j h1 h2 => ?_, fun hS => ?_,
        fun j h1 h2 => ?_, fun hs => ?_, fun _ _ => by omega⟩
      · rw [hl j (by omega), Function.update_of_ne (by omega)]
      · by_cases hjk : j = k
        · subst hjk
          rw [hl j (by omega), Function.update_self]
        · rw [hp j (by omega) h2, Function.update_of_ne hjk]
      · have ht := htr hS
        rwa [Function.update_of_ne (by omega)] at ht
      · rw [hhg j h1 h2, Function.update_of_ne (by omega)]
      · rw [Prog.ops_bind_ok hrs, size_append] at hs
        exact ha (by omega)

theorem writes_after (g : Nat) (data : List UInt8) (m k : Nat) (hkm : k + m = S + 1)
    (h : b.Refines f R) :
    (b.writes g data (List.range' k m)).result f = .ok () ∧
      ∃ R', b.Refines ((b.writes g data (List.range' k m)).after f) R' ∧ (∀ j, j < k → R' j = R j) ∧
        (∀ j, k ≤ j → j ≤ S → R' j = put seqModulus (R j) (g, part (S := S) data j)) := by
  induction m generalizing k f R with
  | zero => exact ⟨rfl, R, h, fun _ _ => rfl, fun j h1 h2 => by omega⟩
  | succ m ih =>
    have hbd := length_part (S := S) data k
    have hr := b.writeShard_result k g hbd f
    obtain ⟨hok, R', hf, hl, hp⟩ := ih (k + 1) (by omega) (h.write (k := k) (by omega) hbd)
    rw [List.range'_succ, writes_cons, Prog.result_bind_ok hr, Prog.after_bind_ok hr]
    refine ⟨hok, R', hf, fun j hj => ?_, fun j h1 h2 => ?_⟩
    · rw [hl j (by omega), Function.update_of_ne (by omega)]
    by_cases hjk : j = k
    · subst hjk
      rw [hl j (by omega), Function.update_self]
    · rw [hp j (by omega) h2, Function.update_of_ne hjk]

theorem save_ops (hdt : data.length ≤ S * shardBodyMax) (hg : b.freshGen f = .ok g) :
    (b.save data).ops f = (b.writes g data (List.range' 0 (S + 1))).ops f := by
  have hlk : (Prog.look b.freshGen : Prog SealCall CoreError Nat).result f = .ok g := hg
  rw [save_eq b hdt, Prog.ops_bind_ok hlk]
  rfl

/-- A save that is cut refines a cut save of the bank. -/
theorem save_crash {g n : Nat} (h : b.Refines f R) (hdt : data.length ≤ S * shardBodyMax)
    (hg : b.freshGen f = .ok g) (hc : b.TornRejected f ((b.save data).crash n f) g data) :
    ∃ k R', b.Refines ((b.save data).crash n f) R' ∧
      Sharded.SavedTo seqModulus S g (part (S := S) data) k R R' ∧
      (size ((b.save data).ops f) ≤ n → k = S + 1) ∧
      (size ((b.writeShard 0 g (part (S := S) data 0)).ops f) ≤ n → 0 < k) := by
  have ho := b.save_ops hdt hg
  have hcr : (b.save data).crash n f = (b.writes g data (List.range' 0 (S + 1))).crash n f := by
    rw [Prog.crash, ho, Prog.crash]
  rw [hcr] at hc
  obtain ⟨k, R', hr, -, -, hp, htr, hhg, ha, hfr⟩ :=
    b.writes_crash g data n (S + 1) 0 (by omega) h (fun j _ hj => hc j hj)
  rw [hcr, ho]
  exact ⟨k, R', hr, ⟨fun j hj => hp j (Nat.zero_le j) hj, htr, hhg⟩, ha, hfr (Nat.succ_pos S)⟩

/-- A save that returns refines a whole save of the bank. -/
theorem save_after (h : b.Refines f R) (hdt : data.length ≤ S * shardBodyMax)
    (hg : b.freshGen f = .ok g) :
    (b.save data).result f = .ok () ∧ ∃ R', b.Refines ((b.save data).after f) R' ∧
      Sharded.SavedTo seqModulus S g (part (S := S) data) (S + 1) R R' := by
  obtain ⟨hok, R', hr, -, hp⟩ := b.writes_after g data (S + 1) 0 (by omega) h
  have hlk : (Prog.look b.freshGen : Prog SealCall CoreError Nat).result f = .ok g := hg
  rw [save_eq b hdt, Prog.result_bind_ok hlk, Prog.after_bind_ok hlk]
  exact ⟨hok, R', hr, fun j hj => hp j (Nat.zero_le j) (by omega), fun hS => by omega,
    fun j h1 h2 => by omega⟩

/-- The calls of `seal` in the writes of a save. -/
theorem writes_notes (g : Nat) (data : List UInt8) (js : List Nat) (f : Flash) :
    notes ((b.writes g data js).ops f) =
      js.map fun j => ⟨nonce g b.applet j, toLE 8 g ++ part (S := S) data j⟩ := by
  induction js generalizing f with
  | nil => rfl
  | cons j js ih =>
    have hbd := length_part (S := S) data j
    rw [writes_cons, Prog.ops_bind_ok (b.writeShard_result j g hbd f), notes_append, ih,
      writeShard_eq b j g hbd, storeSealed_notes (b.record_fits j g hbd)]
    rfl

theorem writes_avoids (g : Nat) (data : List UInt8) {js : List Nat}
    {t : SecretStorage} (hjs : ∀ j ∈ js, SlotStore.Apart (b.cell j) t) (f : Flash) {a : Nat}
    (ha : t.base ≤ a) (ha' : a < t.base + slotCount * t.slotSize) :
    ∀ op ∈ (b.writes g data js).ops f, op.Avoids a := by
  induction js generalizing f with
  | nil =>
    intro op hop
    cases hop
  | cons j js ih =>
    have hbd := length_part (S := S) data j
    intro op hop
    rw [writes_cons, Prog.ops_bind_ok (b.writeShard_result j g hbd f)] at hop
    rcases List.mem_append.mp hop with hop | hop
    · rw [writeShard_eq b j g hbd] at hop
      exact storeSealed_avoids b.aead (hjs j List.mem_cons_self) _ _ f ha ha' op hop
    · exact ih (fun i hi => hjs i (List.mem_cons_of_mem j hi)) _ op hop

/-- The first four operations of a save are its first shard's. -/
theorem save_ops_take (hdt : data.length ≤ S * shardBodyMax) (hg : b.freshGen f = .ok g) :
    ((b.save data).ops f).take 4 = (b.writeShard 0 g (part (S := S) data 0)).ops f := by
  have hbd := length_part (S := S) data 0
  rw [save_ops b hdt hg, List.range'_succ, writes_cons, Prog.ops_bind_ok (b.writeShard_result 0 g hbd f)]
  refine List.take_left' ?_
  rw [writeShard_eq b 0 g hbd]
  exact storeSealed_length_ops (b.record_fits 0 g hbd) f

/-- CRC-32 rejects what a save of `data` that is cut after `n` bytes leaves torn. -/
def CutRejected (b : SealedBlob S) (f : Flash) (data : List UInt8) (n : Nat) : Prop :=
  match b.freshGen f with
  | .ok g => b.TornRejected f ((b.save data).crash n f) g data
  | .error _ => True

instance (b : SealedBlob S) (f f' : Flash) (g : Nat) (data : List UInt8) :
    Decidable (b.TornRejected f f' g data) :=
  inferInstanceAs (Decidable (∀ j, j ≤ S → _))

instance (b : SealedBlob S) (f : Flash) (data : List UInt8) (n : Nat) :
    Decidable (b.CutRejected f data n) :=
  match h : b.freshGen f with
  | .ok g => decidable_of_iff (b.TornRejected f ((b.save data).crash n f) g data)
      (by simp only [CutRejected, h])
  | .error _ => .isTrue (by simp only [CutRejected, h])

/-! ## Generations -/

/-- The flash holds a bank of records that open, of generations up to `n`. -/
structure Readable (b : SealedBlob S) (f : Flash) (n : Nat) (R : Sharded.Bank (List UInt8)) :
    Prop where
  refines : b.Refines f R
  le : ∀ j ≤ S, ∀ x, Mem (R j) x → x.1 ≤ n
  fits : ∀ j ≤ S, ∀ x, Mem (R j) x → x.2.length ≤ shardBodyMax
  length_commit : ∀ x, Mem (R S) x → x.2.length = commitLen
  lt : n < genModulus

section Readable
variable {b : SealedBlob S} {n : Nat} {x : Nat × List UInt8}

theorem Readable.openShard_mem (h : b.Readable f n R) {j : Nat} (hj : j ≤ S) (hx : Mem (R j) x) :
    openShard b.aead b.applet j (b.record j x) maxPayloadBytes = .ok x :=
  openShard_sealedRecord b.aead b.applet j (Nat.lt_of_le_of_lt (h.le j hj x hx) h.lt)
    (h.fits j hj x hx)

theorem Readable.blobGen_mem (h : b.Readable f n R) {j : Nat} (hj : j ≤ S)
    (hx : Mem (R j) x) : b.blobGen j (b.record j x) = .ok x.1 := by
  rw [blobGen, h.openShard_mem hj hx]
  rfl

theorem Readable.commitGen_mem (h : b.Readable f n R)
    (hx : Mem (R S) x) : b.commitGen (b.record S x) = .ok x.1 := by
  rw [commitGen, h.openShard_mem (Nat.le_refl S) hx]
  show (if x.2.length ≠ commitLen then _ else _) = _
  rw [if_neg (not_not.mpr (h.length_commit x hx))]

theorem Readable.commit_view (h : b.Readable f n R) :
    b.commit.view f = map (b.record S) (R S) := by
  have hvw := h.refines S (Nat.le_refl S)
  rwa [cell_commit] at hvw

/-- The next generation is above every generation in the bank. -/
theorem Readable.freshGen (h : b.Readable f n R) (hn : n + 1 < genModulus) :
    ∃ g, b.freshGen f = .ok g ∧ 0 < g ∧ (∀ j ≤ S, ∀ x, Mem (R j) x → x.1 < g) ∧ g ≤ n + 1 := by
  -- the loop over the data shards, from any value on
  have loop : ∀ (js : List Nat) (a : Nat), (∀ j ∈ js, j < S) → a ≤ n → ∃ m,
      js.foldlM (fun generation index => foldSlots (b.cell index) f
        (fun generation blob => return max generation (← b.blobGen index blob)) generation) a =
          .ok m ∧ a ≤ m ∧ m ≤ n ∧ ∀ j ∈ js, ∀ x, Mem (R j) x → x.1 ≤ m := by
    intro js
    induction js with
    | nil => intro a _ ha; exact ⟨a, rfl, Nat.le_refl a, ha, by simp⟩
    | cons j js ih =>
      intro a hjs ha
      have hj : j ≤ S := Nat.le_of_lt (hjs j List.mem_cons_self)
      obtain ⟨m0, h0, ham, hmn, hx0⟩ :=
        foldSlots_max (h.refines j hj) (fun x hx => h.blobGen_mem hj hx) ha (h.le j hj)
      obtain ⟨m, hm, h0m, hmn', hx⟩ := ih m0 (fun i hi => hjs i (List.mem_cons_of_mem j hi)) hmn
      refine ⟨m, ?_, by omega, hmn', fun i hi x hme => ?_⟩
      · rw [List.foldlM_cons, h0]
        exact hm
      · rcases List.mem_cons.mp hi with rfl | hi
        · exact Nat.le_trans (hx0 x hme) h0m
        · exact hx i hi x hme
  obtain ⟨m, hm, -, hmn, hx⟩ := loop (List.range S) 0 (fun j hj => List.mem_range.mp hj)
    (Nat.zero_le n)
  obtain ⟨m', hm', hmm', hmn', hx'⟩ := foldSlots_max h.commit_view
    (fun x hx => h.commitGen_mem hx) hmn (h.le S (Nat.le_refl S))
  refine ⟨m' + 1, ?_, Nat.succ_pos m', fun j hj x hme => Nat.lt_succ_of_le ?_, by omega⟩
  · rw [SealedBlob.freshGen, hm]
    show (foldSlots b.commit f _ m >>= _) = _
    rw [hm']
    show Except.ok ((m' + 1) % genModulus) = _
    rw [Nat.mod_eq_of_lt (by omega)]
  · rcases Nat.lt_or_ge j S with hjS | hjS
    · exact Nat.le_trans (hx j (List.mem_range.mpr hjS) x hme) hmm'
    · rw [show j = S by omega] at hme
      exact hx' x hme

theorem Readable.checkOpen (h : b.Readable f n R) : b.checkOpen f = .ok () := by
  rw [SealedBlob.checkOpen, SlotStore.load_eq, h.commit_view, load_map]
  rcases hl : TwoSlot.load (R S) with _ | ⟨s, x⟩
  · rfl
  have hx : Mem (R S) x := mem_of_load hl
  simp only [Option.map_some, Prod.map_apply, id_eq]
  rw [h.openShard_mem (Nat.le_refl S) hx]
  show (if x.2.length ≠ commitLen then _ else _) = _
  rw [if_neg (not_not.mpr (h.length_commit x hx))]

end Readable

end SealedBlob

end AegisToken
