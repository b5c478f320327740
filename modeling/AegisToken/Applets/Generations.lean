import AegisToken.Applets.BlobWrites
import AegisToken.Applets.SealedStores

/-
  Generations of the sealed stores.
  A store is marked `m` when every record in its regions opens, none has a generation above `m`,
  and generation `m` itself can be read in the region its writes start with. The next write of a
  marked store is sealed under generation `m + 1` (under the next counter in memory, for the
  credential store), and once its first record is whole the store is marked with it, however the
  write ends. What a write leaves torn before that is not marked: its generation is picked again.
-/

namespace AegisToken
open ByteCodec FlashProg TwoSlot

/-! ## One sealed record -/

/-- One sealed record that is whole is all there is of its write. -/
theorem storeSealed_cut {A : Aead} {storage : SecretStorage} {nonce plaintext : List UInt8}
    (h : (nonce ++ A.encrypt nonce plaintext).length ≤ maxPayloadBytes) {f : Flash} {n : Nat}
    (hn : size (((storeSealed A storage nonce plaintext).ops f).take 4) ≤ n) :
    cut n ((storeSealed A storage nonce plaintext).ops f) =
      (storeSealed A storage nonce plaintext).ops f := by
  rw [List.take_of_length_le (Nat.le_of_eq (storeSealed_length_ops h f))] at hn
  exact cut_of_size_le hn

/-- What a write does from flash `f` on, for stores with marks: it seals under generation `g` with
  the nonces `nonces`, and marks the store `g` when it is through, and also when it is cut at a
  byte that `Rejected` allows, once its first record is whole. -/
structure FreshWrite (Marked : Flash → Nat → Prop) (Rejected : Nat → Prop)
    (ops : List (Op SealCall)) (f : Flash) (g : Nat) (nonces : List (List UInt8)) : Prop where
  notes : (notes ops).map SealCall.nonce = nonces
  after : Marked (apply f ops) g
  crash : ∀ n, size (ops.take 4) ≤ n → Rejected n → Marked (apply f (cut n ops)) g

theorem FreshWrite.of_storeSealed {Marked : Flash → Nat → Prop} {A : Aead}
    {storage : SecretStorage} {nonce plaintext : List UInt8} {f : Flash} {g : Nat}
    (Rejected : Nat → Prop)
    (hf : (nonce ++ A.encrypt nonce plaintext).length ≤ maxPayloadBytes)
    (haf : Marked ((storeSealed A storage nonce plaintext).after f) g) :
    FreshWrite Marked Rejected ((storeSealed A storage nonce plaintext).ops f) f g [nonce] where
  notes := by
    rw [storeSealed_notes hf]
    rfl
  after := haf
  crash n hn _ := by
    rw [storeSealed_cut hf hn]
    exact haf

/-! ## Cells -/

namespace SealedCell

/-- The cell's records open and their highest generation is `m`. -/
structure Shows (c : SealedCell) (f : Flash) (m : Nat) (r : Reg (Nat × List UInt8)) : Prop where
  view : c.storage.view f = map (sealedRecord c.aead c.applet c.shard) r
  fits : ∀ x, Mem r x → presentLen ≤ x.2.length ∧ x.2.length ≤ shardBodyMax
  top : Top Prod.fst r m
  lt : m < genModulus

/-- The cell is marked `m`. -/
def Marked (c : SealedCell) (f : Flash) (m : Nat) : Prop := ∃ r, c.Shows f m r

variable {r : Reg (Nat × List UInt8)} {c : SealedCell} {f f' : Flash} {m : Nat}

theorem Shows.openCell_mem (h : c.Shows f m r) {x : Nat × List UInt8} (hx : Mem r x) :
    openCell c.aead c.applet c.shard (sealedRecord c.aead c.applet c.shard x) plainCap = .ok x :=
  openCell_sealedRecord _ _ _ (Nat.lt_of_le_of_lt (h.top.le x hx) h.lt) (h.fits x hx).1
    (h.fits x hx).2

theorem Shows.freshGen (h : c.Shows f m r) (hm : m + 1 < genModulus) :
    c.freshGen f = .ok (m + 1) := by
  have hg : ∀ x, Mem r x → c.recordGen (sealedRecord c.aead c.applet c.shard x) = .ok x.1 := by
    intro x hx
    rw [recordGen, h.openCell_mem hx]
    rfl
  obtain ⟨k, hk, -, hkm, hmx⟩ := foldSlots_max h.view hg (Nat.zero_le m) h.top.le
  have hq : k = m := by
    rcases h.top.mem with hz | ⟨x, hx, hxm⟩
    · omega
    · have := hmx x hx
      omega
  rw [c.freshGen_eq, hk, hq]
  show Except.ok ((m + 1) % genModulus) = _
  rw [Nat.mod_eq_of_lt hm]

/-- A write on a cell seals nothing, or one record under a fresh generation. -/
theorem put_ops (c : SealedCell) (f : Flash) (present : Bool) (body : List UInt8) :
    (c.put present body).ops f = [] ∨
      ∃ (g : Nat) (flagged : List UInt8), c.freshGen f = .ok g ∧ presentLen ≤ flagged.length ∧
        flagged.length ≤ shardBodyMax ∧
        (c.put present body).ops f = (storeSealed c.aead c.storage
          (nonce g c.applet c.shard) (toLE 8 g ++ flagged)).ops f := by
  rcases hg : c.freshGen f with e | g
  · have hlk : (Prog.look c.freshGen : Prog SealCall CoreError Nat).result f = .error e := hg
    rw [SealedCell.put, Prog.ops_bind_error hlk]
    exact .inl rfl
  by_cases hbd : body.length < shardBodyMax
  · refine .inr ⟨g, flagged present body, rfl, ?_, hbd,
      congrArg Prod.fst (c.put_of_fits hg present hbd)⟩
    simp [flagged, presentLen]
  · exact .inl (congrArg Prod.fst (c.put_of_long hg present (Nat.le_of_not_lt hbd)))

theorem put_avoids (c : SealedCell) {t : SecretStorage} (h : SlotStore.Apart c.storage t)
    (present : Bool) (body : List UInt8) (f : Flash) {a : Nat} (ha : t.base ≤ a)
    (ha' : a < t.base + slotCount * t.slotSize) :
    ∀ op ∈ (c.put present body).ops f, op.Avoids a := by
  rcases c.put_ops f present body with hn | ⟨g, flagged, -, -, -, ho⟩
  · rw [hn]
    intro op hop
    cases hop
  · rw [ho]
    exact storeSealed_avoids c.aead h _ _ f ha ha'

/-- A whole record under the next generation marks the cell with it. -/
theorem Shows.after (h : c.Shows f m r) (hm : m + 1 < genModulus) {flagged : List UInt8}
    (hfl : presentLen ≤ flagged.length) (hf : flagged.length ≤ shardBodyMax) :
    c.Marked ((storeSealed c.aead c.storage (nonce (m + 1) c.applet c.shard)
      (toLE 8 (m + 1) ++ flagged)).after f) (m + 1) := by
  refine ⟨TwoSlot.put seqModulus r (m + 1, flagged), ?_, ?_, ?_, hm⟩
  · have hr : nonce (m + 1) c.applet c.shard ++ c.aead.encrypt (nonce (m + 1) c.applet c.shard)
        (toLE 8 (m + 1) ++ flagged) =
        sealedRecord c.aead c.applet c.shard (m + 1, flagged) := rfl
    rw [storeSealed_after, hr, c.storage.view_after f (sealedRecord_fits _ _ _ hf), h.view, put_map]
  · intro x hx
    rcases (Torn.landed : Torn seqModulus r (m + 1, flagged) _).mem hx with rfl | hx
    · exact ⟨hfl, hf⟩
    · exact h.fits x hx
  · exact h.top.put seqModulus (Nat.le_succ m)

theorem Marked.put (h : c.Marked f m) (hm : m + 1 < genModulus) (Rejected : Nat → Prop)
    (present : Bool) (body : List UInt8) :
    (c.put present body).ops f = [] ∨
      FreshWrite c.Marked Rejected ((c.put present body).ops f) f (m + 1)
        [nonce (m + 1) c.applet c.shard] := by
  obtain ⟨r, hr⟩ := h
  rcases c.put_ops f present body with hn | ⟨g, flagged, hg, hfl, hf, ho⟩
  · exact .inl hn
  obtain rfl : m + 1 = g := Except.ok.inj ((hr.freshGen hm).symm.trans hg)
  rw [ho]
  exact .inr (.of_storeSealed Rejected
    (sealedRecord_fits c.aead c.applet c.shard (x := (m + 1, flagged)) hf)
    (hr.after hm hfl hf))

theorem Marked.blank (c : SealedCell) : c.Marked FlashProg.blank 0 :=
  ⟨Reg.empty, c.storage.view_blank, fun x hx => absurd hx (not_mem_empty x), Top.empty _, by decide⟩

theorem Marked.congr (h : c.Marked f m) (hvw : c.storage.view f' = c.storage.view f)
    : c.Marked f' m := by
  obtain ⟨r, hr⟩ := h
  exact ⟨r, hvw.trans hr.view, hr.fits, hr.top, hr.lt⟩

end SealedCell

/-! ## Blobs -/

namespace SealedBlob

variable {S : Nat} {b : SealedBlob S} {f f' : Flash} {m : Nat}

/-- The blob is marked `m`; a save starts with shard 0. -/
def Marked (b : SealedBlob S) (f : Flash) (m : Nat) : Prop :=
  ∃ R, b.Readable f m R ∧ (m = 0 ∨ ∃ body, Mem (R 0) (m, body))

theorem Marked.blank (b : SealedBlob S) : b.Marked FlashProg.blank 0 := by
  refine ⟨fun _ => Reg.empty, ⟨fun j _ => ?_, ?_, ?_, ?_, by decide⟩, .inl rfl⟩
  · rfl
  · exact fun j _ x hx => absurd hx (not_mem_empty x)
  · exact fun j _ x hx => absurd hx (not_mem_empty x)
  · exact fun x hx => absurd hx (not_mem_empty x)

theorem Marked.congr (h : b.Marked f m) (hvw : ∀ j ≤ S, (b.cell j).view f' = (b.cell j).view f)
    : b.Marked f' m := by
  obtain ⟨R, hR, hm⟩ := h
  exact ⟨R, ⟨fun j hj => (hvw j hj).trans (hR.refines j hj), hR.le, hR.fits, hR.length_commit,
    hR.lt⟩, hm⟩

theorem Marked.freshGen (h : b.Marked f m) (hm : m + 1 < genModulus) :
    b.freshGen f = .ok (m + 1) := by
  obtain ⟨R, hR, hmr⟩ := h
  obtain ⟨g, hg, hp, hab, hle⟩ := hR.freshGen hm
  have : g = m + 1 := by
    rcases hmr with hz | ⟨body, hme⟩
    · omega
    · have := hab 0 (Nat.zero_le S) (m, body) hme
      omega
  rw [hg, this]

/-- A save that got past its first shard marks the blob. -/
theorem Marked.of_savedTo {m k : Nat} {R R' : Sharded.Bank (List UInt8)} {data : List UInt8}
    (h : b.Readable f m R) (hm : m + 1 < genModulus) (hr : b.Refines f' R')
    (hsv : Sharded.SavedTo seqModulus S (m + 1) (part (S := S) data) k R R') (hk : 0 < k) :
    b.Marked f' (m + 1) := by
  have hme : ∀ j ≤ S, ∀ x, Mem (R' j) x → x = (m + 1, part data j) ∨ Mem (R j) x :=
    fun j hj x hx => (hsv.torn hj).mem hx
  refine ⟨R', ⟨hr, ?_, ?_, ?_, hm⟩, .inr ⟨part (S := S) data 0, ?_⟩⟩
  · intro j hj x hx
    rcases hme j hj x hx with rfl | hx
    · exact Nat.le_refl _
    · exact Nat.le_succ_of_le (h.le j hj x hx)
  · intro j hj x hx
    rcases hme j hj x hx with rfl | hx
    · exact length_part _ _
    · exact h.fits j hj x hx
  · intro x hx
    rcases hme S (Nat.le_refl S) x hx with rfl | hx
    · simp only [part, if_neg (Nat.lt_irrefl S), length_toLE, commitLen]
    · exact h.length_commit x hx
  · rw [hsv.before 0 hk]
    exact mem_put_self _ _ _

theorem Marked.save (h : b.Marked f m) (hm : m + 1 < genModulus) (data : List UInt8) :
    (b.save data).ops f = [] ∨
      FreshWrite b.Marked (b.CutRejected f data) ((b.save data).ops f) f (m + 1)
        ((List.range (S + 1)).map (nonce (m + 1) b.applet)) := by
  by_cases hdt : data.length ≤ S * shardBodyMax
  · right
    have hg := h.freshGen hm
    obtain ⟨R, hR, hmr⟩ := h
    refine ⟨?_, ?_, fun n hn hc => ?_⟩
    · rw [b.save_ops hdt hg, writes_notes, List.map_map, List.range_eq_range']
      rfl
    · obtain ⟨-, R', hr, hsv⟩ := b.save_after hR.refines hdt hg
      exact .of_savedTo hR hm hr hsv (Nat.succ_pos S)
    rw [b.save_ops_take hdt hg] at hn
    simp only [CutRejected, hg] at hc
    obtain ⟨k, R', hr, hsv, -, hfr⟩ := b.save_crash hR.refines hdt hg hc
    exact .of_savedTo hR hm hr hsv (hfr hn)
  · left
    rw [SealedBlob.save, if_pos (by omega)]
    rfl

theorem save_avoids (b : SealedBlob S) (data : List UInt8) {t : SecretStorage}
    (ht : ∀ j ≤ S, SlotStore.Apart (b.cell j) t) (f : Flash) {a : Nat} (ha : t.base ≤ a)
    (ha' : a < t.base + slotCount * t.slotSize) : ∀ op ∈ (b.save data).ops f, op.Avoids a := by
  intro op hop
  by_cases hdt : data.length ≤ S * shardBodyMax
  · rcases hg : b.freshGen f with e | g
    · have hlk : (Prog.look b.freshGen : Prog SealCall CoreError Nat).result f = .error e := hg
      rw [save_eq b hdt, Prog.ops_bind_error hlk] at hop
      cases hop
    rw [b.save_ops hdt hg] at hop
    refine b.writes_avoids g data (fun j hj => ht j ?_) f ha ha' op hop
    have := (List.mem_range'_1.mp hj).2
    omega
  · rw [SealedBlob.save, if_pos (by omega)] at hop
    cases hop

end SealedBlob

/-! ## The credential store -/

namespace SealedCredentialStore

/-- The store is marked `m`: its records open and `m` is their highest counter. -/
def Marked (s : SealedCredentialStore) (f : Flash) (m : Nat) : Prop :=
  ∃ r, s.Holds f r ∧ Top (fun db : Database => db.counter.toNat) r m

theorem Marked.blank (s : SealedCredentialStore) : s.Marked FlashProg.blank 0 :=
  ⟨Reg.empty, Holds.blank s, Top.empty _⟩

variable {s : SealedCredentialStore} {f f' : Flash} {m : Nat}

theorem Marked.congr (h : s.Marked f m) (hvw : s.storage.view f' = s.storage.view f)
    : s.Marked f' m := by
  obtain ⟨r, hr, ht⟩ := h
  exact ⟨r, ⟨hvw.trans hr.view, hr.fits⟩, ht⟩

theorem Marked.openDb (h : s.Marked f m) :
    ∃ db, s.openDb f = .ok db ∧ db.counter.toNat = m := by
  obtain ⟨r, hr, ht⟩ := h
  rcases hr.openDb with ⟨hon, hno⟩ | ⟨db, hon, hme, hm⟩
  · refine ⟨_, hon, ?_⟩
    rcases ht.mem with hz | ⟨x, hx, -⟩
    · rw [hz]
      rfl
    · exact absurd hx (hno x)
  · refine ⟨db, hon, Nat.le_antisymm (ht.le db hme) ?_⟩
    rcases ht.mem with hz | ⟨x, hx, hxm⟩
    · omega
    · rw [← hxm]
      exact UInt64.le_iff_toNat_le.mp (hm x hx)

/-- A write of a database with a higher counter. -/
theorem Marked.writeDb (h : s.Marked f m) (Rejected : Nat → Prop) {db : Database}
    (hdb : m ≤ db.counter.toNat) :
    (s.writeDb db).ops f = [] ∨
      FreshWrite s.Marked Rejected ((s.writeDb db).ops f) f db.counter.toNat [nonce db.counter] := by
  by_cases hf : db.Fits s.cbor
  · right
    obtain ⟨r, hr, ht⟩ := h
    have haf := hr.writeDb hf
    rw [writeDb_eq hf] at haf ⊢
    exact .of_storeSealed Rejected (record_fits hf) ⟨_, haf, ht.put seqModulus hdb⟩
  · left
    rw [writeDb_of_not_fits hf]
    rfl

theorem writeDb_avoids (s : SealedCredentialStore) {t : SecretStorage}
    (h : SlotStore.Apart s.storage t) (db : Database) (f : Flash) {a : Nat} (ha : t.base ≤ a)
    (ha' : a < t.base + slotCount * t.slotSize) : ∀ op ∈ (s.writeDb db).ops f, op.Avoids a := by
  by_cases hf : db.Fits s.cbor
  · rw [writeDb_eq hf]
    exact storeSealed_avoids s.aead h _ _ f ha ha'
  · rw [writeDb_of_not_fits hf]
    intro op hop
    cases hop

end SealedCredentialStore

end AegisToken
