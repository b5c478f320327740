import AegisToken.Applets.Sealed

/-
  Sealed records and the loops over slots.
  `openShard_sealedRecord` and `openCell_sealedRecord`: a record that was sealed opens to its
  generation and body. A write of a cell stores one sealed record (`put_of_fits`), or nothing when
  the body leaves no room for its flag (`put_of_long`). `foldSlots_max` and `findSlot_of_mem` are
  the two loops of sealed.rs over the slots of a region, on a region that holds the encoded records
  of a two-slot register.
-/

namespace AegisToken
open ByteCodec FlashProg TwoSlot

@[simp] theorem length_nonce (generation applet shard : Nat) :
    (nonce generation applet shard).length = nonceLen := by
  simp [nonce, nonceLen]

/-! ## Records -/

/-- A sealed record `[nonce][generation][body][tag]`; a cell's body starts with its flag. -/
def sealedRecord (A : Aead) (applet shard : Nat) (x : Nat × List UInt8) : List UInt8 :=
  nonce x.1 applet shard ++ A.encrypt (nonce x.1 applet shard) (toLE 8 x.1 ++ x.2)

variable (A : Aead) {x : Nat × List UInt8}

theorem length_sealedRecord (applet shard : Nat) (x : Nat × List UInt8) :
    (sealedRecord A applet shard x).length = nonceLen + (genLen + x.2.length + tagLen) := by
  simp [sealedRecord, A.length_encrypt, genLen]

theorem sealedRecord_fits (applet shard : Nat) (h : x.2.length ≤ shardBodyMax) :
    (sealedRecord A applet shard x).length ≤ maxPayloadBytes := by
  rw [length_sealedRecord]
  simp only [shardBodyMax, maxPayloadBytes, nonceLen, tagLen, genLen] at h ⊢
  omega

/-- A sealed record opened in a domain: it opens to what was sealed if it has the nonce of the
  domain. -/
theorem openRecord_sealedRecord_eq {least cap : Nat} (applet shard applet' shard' : Nat)
    (hg : x.1 < genModulus) (hls : least ≤ x.2.length) (hc : genLen + x.2.length ≤ cap) :
    openRecord least A applet' shard' (sealedRecord A applet shard x) cap =
      if nonce x.1 applet shard ≠ nonce x.1 applet' shard' then .error .storageError
      else .ok x := by
  have hl := length_sealedRecord A applet shard x
  have hn : (toLE 8 x.1).length = genLen := length_toLE 8 x.1
  have hpl : (toLE 8 x.1 ++ x.2).length = genLen + x.2.length := by
    rw [List.length_append, hn]
  have htk : (sealedRecord A applet shard x).take nonceLen = nonce x.1 applet shard :=
    List.take_left' (length_nonce _ _ _)
  have hdr : (sealedRecord A applet shard x).drop nonceLen =
      A.encrypt (nonce x.1 applet shard) (toLE 8 x.1 ++ x.2) :=
    List.drop_left' (length_nonce _ _ _)
  have hrd : ofLE (toLE 8 x.1) = x.1 := ofLE_toLE (by simpa [genModulus] using hg)
  rw [openRecord, if_neg (by omega), htk, hdr, Aead.openSealed_encrypt (by omega)]
  show (if (toLE 8 x.1 ++ x.2).length < genLen + least then _ else _) = _
  rw [if_neg (by omega), List.take_left' hn, List.drop_left' hn, hrd]

theorem openRecord_sealedRecord {least cap : Nat} (applet shard : Nat)
    (hg : x.1 < genModulus) (hls : least ≤ x.2.length) (hc : genLen + x.2.length ≤ cap) :
    openRecord least A applet shard (sealedRecord A applet shard x) cap = .ok x := by
  rw [openRecord_sealedRecord_eq A applet shard applet shard hg hls hc, if_neg (not_not.mpr rfl)]

/-- Nonces of two domains differ: the tags are part of them, as `u16`. -/
theorem nonce_ne (generation : Nat) {applet shard applet' shard' : Nat}
    (h : applet % 2 ^ 16 ≠ applet' % 2 ^ 16 ∨ shard % 2 ^ 16 ≠ shard' % 2 ^ 16) :
    nonce generation applet shard ≠ nonce generation applet' shard' := by
  intro heq
  obtain ⟨hlf, hsh⟩ := List.append_inj heq (by simp)
  obtain ⟨-, ha⟩ := List.append_inj hlf (by simp)
  have hm := congrArg ofLE ha
  have hm' := congrArg ofLE hsh
  rw [ofLE_toLE_mod, ofLE_toLE_mod] at hm hm'
  rcases h with h | h
  · exact h hm
  · exact h hm'

theorem openShard_sealedRecord (applet shard : Nat) (hg : x.1 < genModulus)
    (h : x.2.length ≤ shardBodyMax) :
    openShard A applet shard (sealedRecord A applet shard x) maxPayloadBytes = .ok x := by
  refine openRecord_sealedRecord A applet shard hg (Nat.zero_le _) ?_
  simp only [shardBodyMax, maxPayloadBytes, nonceLen, tagLen, genLen] at h ⊢
  omega

theorem openCell_sealedRecord (applet shard : Nat) (hg : x.1 < genModulus)
    (hfl : presentLen ≤ x.2.length) (h : x.2.length ≤ shardBodyMax) :
    openCell A applet shard (sealedRecord A applet shard x) SealedCell.plainCap = .ok x := by
  refine openRecord_sealedRecord A applet shard hg hfl ?_
  simp only [SealedCell.plainCap]
  omega

/-! ## Loops over the slots of a region -/

section Loops
variable {α β : Type} {storage : SecretStorage} {f : Flash} {enc : β → List UInt8} {r : Reg β}

theorem foldSlots_eq (storage : SecretStorage) (f : Flash)
    (visit : α → List UInt8 → Except CoreError α) (a : α) :
    foldSlots storage f visit a = ((match storage.view f 0 with
        | some (_, blob) => visit a blob
        | none => .ok a) >>= fun a =>
        match storage.view f 1 with
        | some (_, blob) => visit a blob
        | none => .ok a) := by
  have h0 : storage.loadSlot f 0 maxPayloadBytes = .ok (storage.view f 0) := rfl
  have h1 : storage.loadSlot f 1 maxPayloadBytes = .ok (storage.view f 1) := rfl
  show List.foldlM _ a [0, 1] = _
  simp only [List.foldlM_cons, List.foldlM_nil, bind_pure, h0, h1]
  rfl

theorem findSlot_eq (storage : SecretStorage) (f : Flash)
    (pick : List UInt8 → Except CoreError (Option α)) (i : Fin 2) (slots : List Nat) :
    findSlot storage f pick (i.val :: slots) = match storage.view f i with
      | some (_, blob) => pick blob >>= fun o =>
        match o with
        | some a => .ok (some a)
        | none => findSlot storage f pick slots
      | none => findSlot storage f pick slots := by
  have hi : storage.loadSlot f i.val maxPayloadBytes = .ok (storage.view f i) :=
    if_neg (by simp only [slotCount]; omega)
  rw [findSlot, hi]
  rfl

/-- The loop that takes the maximum of the generations of a region's records. -/
theorem foldSlots_max {r : Reg (Nat × β)} {enc : Nat × β → List UInt8}
    {genOf : List UInt8 → Except CoreError Nat} {a N : Nat} (hvw : storage.view f = map enc r)
    (hg : ∀ x, Mem r x → genOf (enc x) = .ok x.1) (ha : a ≤ N) (hN : ∀ x, Mem r x → x.1 ≤ N) :
    ∃ m, foldSlots storage f (fun a blob => return max a (← genOf blob)) a = .ok m ∧
      a ≤ m ∧ m ≤ N ∧ ∀ x, Mem r x → x.1 ≤ m := by
  -- one slot at a time, from the loop's value before it
  have step : ∀ (i : Fin 2) (a : Nat), a ≤ N → ∃ m, (match storage.view f i with
        | some (_, blob) => (do return max a (← genOf blob) : Except CoreError Nat)
        | none => .ok a) = .ok m ∧ a ≤ m ∧ m ≤ N ∧ ∀ s x, r i = some (s, x) → x.1 ≤ m := by
    intro i a ha
    rw [hvw]
    rcases hr : r i with _ | ⟨s, x⟩
    · refine ⟨a, by simp [map, hr], Nat.le_refl a, ha, ?_⟩
      intro s x h
      cases h
    have hx : Mem r x := ⟨i, s, hr⟩
    refine ⟨max a x.1, ?_, Nat.le_max_left _ _, Nat.max_le.mpr ⟨ha, hN x hx⟩, ?_⟩
    · simp only [map, hr, Option.map_some, Prod.map_snd, hg x hx]
      rfl
    · intro s' x' h
      cases h
      exact Nat.le_max_right _ _
  obtain ⟨m0, h0, ha0, hm0, hx0⟩ := step 0 a ha
  obtain ⟨m1, h1, ha1, hm1, hx1⟩ := step 1 m0 hm0
  refine ⟨m1, ?_, Nat.le_trans ha0 ha1, hm1, ?_⟩
  · rw [foldSlots_eq, h0]
    exact h1
  rintro x ⟨i, s, hi⟩
  fin_cases i
  · exact Nat.le_trans (hx0 s x hi) ha1
  · exact hx1 s x hi

/-- The loop that looks for a record, when the records it would pick agree. -/
theorem findSlot_of_mem {pick : List UInt8 → Except CoreError (Option α)} (wanted : β → Prop)
    {a : α} (hvw : storage.view f = map enc r)
    (hpc : ∀ x, Mem r x → wanted x → pick (enc x) = .ok (some a))
    (hsk : ∀ x, Mem r x → ¬ wanted x → pick (enc x) = .ok none) {x : β} (hx : Mem r x)
    (hwn : wanted x) : findSlot storage f pick (List.range slotCount) = .ok (some a) := by
  show findSlot storage f pick [(0 : Fin 2).val, (1 : Fin 2).val] = _
  -- a slot gives the wanted value or is passed over
  have slot : ∀ (i : Fin 2) (slots : List Nat),
      findSlot storage f pick (i.val :: slots) = .ok (some a) ∨
        (findSlot storage f pick (i.val :: slots) = findSlot storage f pick slots ∧
          ∀ s, r i ≠ some (s, x)) := by
    intro i slots
    rw [findSlot_eq, hvw]
    rcases hr : r i with _ | ⟨s, y⟩
    · exact .inr ⟨by simp [map, hr], fun s h => by cases h⟩
    have hy : Mem r y := ⟨i, s, hr⟩
    by_cases hw : wanted y
    · left
      simp only [map, hr, Option.map_some, Prod.map_snd, hpc y hy hw]
      rfl
    right
    refine ⟨?_, fun s' h => ?_⟩
    · simp only [map, hr, Option.map_some, Prod.map_snd, hsk y hy hw]
      rfl
    · cases h
      exact hw hwn
  obtain ⟨i, s, hi⟩ := hx
  rcases slot 0 [(1 : Fin 2).val] with h0 | ⟨h0, hn0⟩
  · exact h0
  rw [h0]
  rcases slot 1 [] with h1 | ⟨-, hn1⟩
  · exact h1
  · fin_cases i
    · exact absurd hi (hn0 s)
    · exact absurd hi (hn1 s)

end Loops

/-! ## Writes of a cell -/

namespace SealedCell

def recordGen (c : SealedCell) (blob : List UInt8) : Except CoreError Nat :=
  (openCell c.aead c.applet c.shard blob plainCap).map Prod.fst

/-- The next generation is one above the highest of the cell's records. -/
theorem freshGen_eq (c : SealedCell) (f : Flash) :
    c.freshGen f = (foldSlots c.storage f
      (fun generation blob => return max generation (← c.recordGen blob)) 0 >>= fun generation =>
        .ok ((generation + 1) % genModulus)) := by
  unfold SealedCell.freshGen
  congr 2
  funext generation blob
  unfold recordGen
  rcases openCell c.aead c.applet c.shard blob plainCap with e | x <;> rfl

/-- The flag and the body of a cell's record. -/
def flagged (present : Bool) (body : List UInt8) : List UInt8 := (if present then 1 else 0) :: body

theorem put_of_fits (c : SealedCell) {f : Flash} {g : Nat} (hg : c.freshGen f = .ok g)
    (present : Bool) {body : List UInt8} (hbd : body.length < shardBodyMax) :
    c.put present body f = storeSealed c.aead c.storage (nonce g c.applet c.shard)
      (toLE 8 g ++ flagged present body) f := by
  have hlk : (Prog.look c.freshGen : Prog SealCall CoreError Nat).result f = .ok g := hg
  have hr : c.put present body f =
      (sealCell c.aead c.applet c.shard g present body maxPayloadBytes >>= fun blob =>
        c.storage.store blob >>= fun _ => pure ()) f :=
    Prod.ext (Prog.ops_bind_ok hlk) (Prog.result_bind_ok hlk)
  have hc : (toLE 8 g ++ flagged present body).length + tagLen ≤ maxPayloadBytes - nonceLen := by
    rw [List.length_append, length_toLE, flagged, List.length_cons]
    simp only [nonceLen, tagLen, genLen, maxPayloadBytes, shardBodyMax] at hbd ⊢
    omega
  have hf : ¬ maxPayloadBytes < nonceLen + genLen + presentLen + body.length + tagLen := by
    simp only [nonceLen, genLen, presentLen, tagLen, maxPayloadBytes, shardBodyMax] at hbd ⊢
    omega
  rw [hr, sealCell, if_neg hf, ← sealing_store_eq c.aead c.storage hc]
  simp only [bind_assoc, pure_bind, List.append_assoc, List.singleton_append, flagged]

/-- A body of `shardBodyMax` bytes or more does not fit beside its flag: nothing is written. -/
theorem put_of_long (c : SealedCell) {f : Flash} {g : Nat} (hg : c.freshGen f = .ok g)
    (present : Bool) {body : List UInt8} (hbd : shardBodyMax ≤ body.length) :
    c.put present body f = ([], .error .storageError) := by
  have hlk : (Prog.look c.freshGen : Prog SealCall CoreError Nat).result f = .ok g := hg
  have hln : maxPayloadBytes < nonceLen + genLen + presentLen + body.length + tagLen := by
    simp only [nonceLen, genLen, presentLen, tagLen, maxPayloadBytes, shardBodyMax] at hbd ⊢
    omega
  refine Prod.ext ((Prog.ops_bind_ok hlk).trans ?_) ((Prog.result_bind_ok hlk).trans ?_)
  · rw [sealCell, if_pos hln]
    rfl
  · rw [sealCell, if_pos hln]
    rfl

end SealedCell

end AegisToken
