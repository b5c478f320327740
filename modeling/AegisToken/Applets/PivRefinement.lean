/-
  The sealed PIV store against `MemoryPivStore`.
  Both stores are read as a map from record ids to values. `Matches s f n content` says that after
  at most `n` writes the cells of the sealed store show `content`: an object cell shows its record,
  and the metadata cell shows its six records packed into one map. The packed map has to fit one
  sealed record: a write that leaves at most `shardBodyMax - 1` bytes is a write of the map, and a
  longer one is refused (`Matches.write`). Over runs from blank flash the two stores give the same
  answers exactly as long as every metadata write fits (`answers_agree_iff`).
-/
import AegisToken.Applets.CellContents
import AegisToken.Applets.NonceFresh
import AegisToken.Applets.PivSteps
import Mathlib.Algebra.Order.BigOperators.Group.List
import Mathlib.Data.Bool.AllAny

namespace AegisToken
open ByteCodec FlashProg TwoSlot

/-! ## The metadata map as bytes -/

/-- The bytes a record takes in the map: a presence byte, and a length and the value if it is
  there. -/
def recordSize : Option (List UInt8) → Nat
  | some data => 3 + data.length
  | none => 1

namespace VecMap

def records (m : VecMap) : List (Option (List UInt8)) := m.val.map (Option.map Subtype.val)

def bytes (m : VecMap) : List UInt8 := m.val.flatMap encodeEntry

theorem encode_eq (m : VecMap) :
    m.encode = if m.bytes.length ≤ metaBodyMax then some m.bytes else none := rfl

theorem records_set (m : VecMap) (position : Nat) (entry : MapEntry) :
    (m.set position entry).records = m.records.set position (entry.map Subtype.val) :=
  List.map_set

theorem length_encodeEntry (entry : MapEntry) :
    (encodeEntry entry).length = recordSize (entry.map Subtype.val) := by
  cases entry with
  | none => rfl
  | some data =>
    simp only [encodeEntry, recordSize, Option.map_some, List.length_append, List.length_cons,
      length_toLE, Nat.add_comm]

theorem length_bytes (m : VecMap) : m.bytes.length = (m.records.map recordSize).sum := by
  rw [bytes, List.length_flatMap, records, List.map_map]
  congr 1
  exact List.map_congr_left fun entry _ => length_encodeEntry entry

theorem decodeEntry_encodeEntry (entry : MapEntry) (rest : List UInt8) :
    decodeEntry (encodeEntry entry ++ rest) = some (entry, rest) := by
  cases entry with
  | none => rfl
  | some data =>
    have hf : data.val.length ≤ 1536 := data.property
    have hl : (toLE 2 data.val.length).length = 2 := length_toLE _ _
    have hrd : ofLE (toLE 2 data.val.length) = data.val.length := ofLE_toLE (by omega)
    have hsl : BoundedBytes.ofSlice maxRecordBytes data.val = some data :=
      BoundedBytes.ofSlice_eq_some.mpr rfl
    show decodeEntry (1 :: (toLE 2 data.val.length ++ data.val ++ rest)) = _
    rw [decodeEntry, List.append_assoc, List.take_left' hl, List.drop_left' hl, hrd,
      if_neg (by decide), if_neg (by decide)]
    rw [if_neg (by rw [List.length_append]; omega)]
    simp only [List.take_left, List.drop_left, hsl]
    rw [if_neg (by omega), if_neg (by rw [List.length_append]; omega)]
    rfl

theorem decodeEntries_flatMap (entries : List MapEntry) (rest : List UInt8) :
    decodeEntries entries.length (entries.flatMap encodeEntry ++ rest) = some (entries, rest) := by
  induction entries with
  | nil => rfl
  | cons entry entries ih =>
    rw [List.length_cons, decodeEntries, List.flatMap_cons, List.append_assoc,
      decodeEntry_encodeEntry]
    show (decodeEntries entries.length _ >>= _) = _
    rw [ih]
    rfl

theorem decode_bytes (m : VecMap) : decode m.bytes = some m := by
  have he := decodeEntries_flatMap m.val []
  rw [List.append_nil, m.property] at he
  rw [decode, bytes, he]
  show (if h : m.val.length = metaRecords.length then _ else _) = _
  rw [dif_pos m.property]
  rfl

end VecMap

/-! ## Records and cells -/

/-- The record ids of the PIV applet: PIN, PUK, management key, three key slots, ten objects. -/
def pivRecords : List UInt16 :=
  metaRecords ++ (List.finRange pivObjectStores).map fun i => recordObjectBase + UInt16.ofNat i.val

/-- A record id of the PIV applet. -/
abbrev PivRecord := { record : UInt16 // record ∈ pivRecords }

/-- The bytes the metadata records take as one map. -/
def metaSize (content : UInt16 → Option (List UInt8)) : Nat :=
  ((metaRecords.map content).map recordSize).sum

namespace SealedPivStore

-- The tables are evaluated over their lists, not over all sixteen-bit numbers.
theorem cellOf_meta : ∀ record ∈ metaRecords, cellOf record = some 0 :=
  List.all_iff_forall_prop.mp (by decide)

/-- A metadata record has its position in the map. -/
theorem metaEntry_eq : ∀ record ∈ metaRecords,
    metaEntry record = some (metaRecords.idxOf record) :=
  List.all_iff_forall_prop.mp (by decide)

/-- The other records have a cell each. -/
theorem objectCell_eq : ∀ record ∈ pivRecords, record ∉ metaRecords →
    metaEntry record = none ∧ ¬ record < recordObjectBase ∧
      ∃ j, objectCell record = some j ∧ cellOf record = some j ∧ j ≠ 0 :=
  List.all_iff_forall_prop.mp (by decide)

theorem cellOf_inj : ∀ record ∈ pivRecords, ∀ other ∈ pivRecords, record ∉ metaRecords →
    cellOf other = cellOf record → other = record := by
  have ha : (pivRecords.all fun record => pivRecords.all fun other =>
      record ∉ metaRecords → cellOf other = cellOf record → other = record) = true := by
    decide
  intro record hr other hoh
  have hw := List.all_eq_true.mp ha record hr
  exact of_decide_eq_true (List.all_eq_true.mp hw other hoh)

/-- A change of one record changes one record of the list. -/
theorem map_update_meta (content : UInt16 → Option (List UInt8)) {record : UInt16}
    (hr : record ∈ metaRecords) (value : Option (List UInt8)) :
    metaRecords.map (Function.update content record value) =
      (metaRecords.map content).set (metaRecords.idxOf record) value := by
  have hnd : metaRecords.Nodup := by decide
  rw [hnd.map_update, if_pos hr]

/-! ## What the cells show -/

/-- The body of the metadata cell packs the records; a cell that was never written has none. -/
def MetaShows (content : UInt16 → Option (List UInt8)) (body : Option (List UInt8)) : Prop :=
  ∃ m : VecMap, m.records = metaRecords.map content ∧ m.bytes.length < shardBodyMax ∧
    (body = some m.bytes ∨ body = none ∧ m = VecMap.empty)

/-- What a cell shows of the records. -/
def CellShows (content : UInt16 → Option (List UInt8)) (j : Fin (1 + pivObjectStores))
    (body : Option (List UInt8)) : Prop :=
  if j = 0 then MetaShows content body
  else ∀ record ∈ pivRecords, cellOf record = some j → body = content record

/-- The cells after at most `n` writes each. -/
structure Matches (s : SealedPivStore) (f : Flash) (n : Nat)
    (content : UInt16 → Option (List UInt8)) : Prop where
  cells : ∀ j, ∃ k r, k ≤ n ∧ (s.cell j).Holds f k r ∧
    CellShows content j (SealedCell.contents r)
  bounded : ∀ record data, content record = some data → data.length ≤ maxRecordBytes

theorem CellShows.congr {content content' : UInt16 → Option (List UInt8)}
    {j : Fin (1 + pivObjectStores)} {body : Option (List UInt8)} (h : CellShows content j body)
    (hsm : ∀ record, cellOf record = some j → content' record = content record) :
    CellShows content' j body := by
  unfold CellShows at h ⊢
  by_cases hj : j = 0
  · rw [if_pos hj] at h ⊢
    obtain ⟨m, hrc, hrs⟩ := h
    refine ⟨m, hrc.trans (List.map_congr_left fun record hr => ?_), hrs⟩
    exact (hsm record (hj ▸ cellOf_meta record hr)).symm
  · rw [if_neg hj] at h ⊢
    intro record hr hcl
    rw [h record hr hcl, hsm record hcl]

theorem matches_blank (s : SealedPivStore) : s.Matches blank 0 fun _ => none where
  cells := by
    intro j
    refine ⟨0, Reg.empty, Nat.le_refl 0, (s.cell j).holds_blank, ?_⟩
    rw [SealedCell.contents_empty, CellShows]
    by_cases hj : j = 0
    · rw [if_pos hj]
      exact ⟨VecMap.empty, by decide, by decide, .inr ⟨rfl, rfl⟩⟩
    · rw [if_neg hj]
      intro record _ _
      rfl
  bounded := nofun

/-! ## Reads -/

section Reads
variable {s : SealedPivStore} {f : Flash} {n : Nat} {content : UInt16 → Option (List UInt8)}

theorem Matches.loadMeta (h : s.Matches f n content) :
    ∃ m : VecMap, m.records = metaRecords.map content ∧ m.bytes.length < shardBodyMax ∧
      (s.loadMeta f = .ok (some m) ∨ s.loadMeta f = .ok none ∧ m = VecMap.empty) := by
  obtain ⟨k, r, -, hr, hsh⟩ := h.cells 0
  obtain ⟨m, hrc, hsz, hbd⟩ := hsh
  have hld := hr.load metaBodyMax
  refine ⟨m, hrc, hsz, ?_⟩
  rcases hbd with hsm | ⟨hno, hm⟩
  · have hf : m.bytes.length ≤ metaBodyMax :=
      Nat.le_trans (Nat.le_of_lt hsz) (by decide)
    rw [hsm, Option.filter_some, if_pos (by simpa using hf)] at hld
    left
    rw [SealedPivStore.loadMeta, hld]
    dsimp only [bind, Except.bind]
    rw [VecMap.decode_bytes]
    rfl
  · rw [hno] at hld
    right
    rw [SealedPivStore.loadMeta, hld]
    exact ⟨rfl, hm⟩

theorem getElem_records {m : VecMap} (hrc : m.records = metaRecords.map content)
    {record : UInt16} (hr : record ∈ metaRecords) :
    ∃ entry : MapEntry, m.val[metaRecords.idxOf record]? = some entry ∧
      entry.map Subtype.val = content record := by
  have hg := congrArg (·[metaRecords.idxOf record]?) hrc
  simp only [VecMap.records, List.getElem?_map, List.getElem?_idxOf hr, Option.map_some] at hg
  exact Option.map_eq_some_iff.mp hg

/-- A read gives the record, if the buffer takes it. -/
theorem Matches.read (h : s.Matches f n content) (record : PivRecord) (outLen : Nat) :
    s.read f record.val outLen = (content record.val).filter fun data => data.length ≤ outLen := by
  by_cases hmt : record.val ∈ metaRecords
  · obtain ⟨m, hrc, -, hld⟩ := h.loadMeta
    obtain ⟨entry, hen, hcn⟩ := getElem_records hrc hmt
    rw [SealedPivStore.read, metaEntry_eq _ hmt, ← hcn]
    rcases hld with hld | ⟨hld, rfl⟩
    · simp only [hld, Except.toOption, Option.bind_eq_bind, Option.bind_some, hen]
      cases entry with
      | none => rfl
      | some data =>
        simp only [Option.bind_some, Option.map_some, Option.filter_some, decide_eq_true_eq]
        by_cases hl : outLen < data.val.length
        · rw [if_pos hl, if_neg (by omega)]
        · rw [if_neg hl, if_pos (by omega)]
          rfl
    · have hno : entry = none := by
        have hm := List.mem_of_getElem? hen
        exact List.eq_of_mem_replicate hm
      simp only [hld, Except.toOption, Option.bind_eq_bind, Option.bind_some, hno]
      rfl
  · obtain ⟨hen, hbs, j, ho, hcl, hj⟩ := objectCell_eq _ record.property hmt
    obtain ⟨k, r, -, hr, hsh⟩ := h.cells j
    rw [CellShows, if_neg hj] at hsh
    have hld := hr.load maxRecordBytes
    rw [hsh record.val record.property hcl] at hld
    simp only [SealedPivStore.read, hen, if_neg hbs, ho, hld, Except.toOption,
      Option.bind_eq_bind, Option.bind_some]
    cases hcn : content record.val with
    | none => rfl
    | some data =>
      have hf := h.bounded _ _ hcn
      simp only [Option.filter_some, decide_eq_true_eq, if_pos hf, Option.bind_some]
      by_cases hl : outLen < data.length
      · rw [if_pos hl, if_neg (by omega)]
      · rw [if_neg hl, if_pos (by omega)]
        rfl

end Reads

/-! ## Writes -/

def CellsApart (s : SealedPivStore) : Prop :=
  ∀ i j, i ≠ j → SlotStore.Apart (s.cell i).storage (s.cell j).storage

/-- A write of a cell changes no other region. -/
theorem view_put_of_apart (c : SealedCell) {t : SecretStorage} (h : SlotStore.Apart c.storage t)
    (present : Bool) (body : List UInt8) (f : Flash) :
    t.view ((c.put present body).after f) = t.view f := by
  rcases c.put_ops f present body with hn | ⟨g, flagged, -, -, -, ho⟩
  · rw [Prog.after, hn, apply_nil]
  rw [Prog.after, ho]
  show t.view ((storeSealed c.aead c.storage _ _).after f) = _
  rw [storeSealed_after]
  exact SlotStore.view_after_of_apart h f _

section Writes
variable {s : SealedPivStore} {f : Flash} {n : Nat}
  {content content' : UInt16 → Option (List UInt8)} {record : UInt16}

/-- One write of a cell that leaves it showing the new records, which differ in this cell only. -/
theorem Matches.put (hs : s.CellsApart) (h : s.Matches f n content) (hn : n + 1 < seqModulus)
    (j : Fin (1 + pivObjectStores)) (present : Bool) {body : List UInt8}
    (hbo : body.length < shardBodyMax)
    (ho : ∀ record, cellOf record ≠ some j → content' record = content record)
    (hsh : CellShows content' j (if present then some body else none))
    (hbd : ∀ record data, content' record = some data → data.length ≤ maxRecordBytes) :
    ((s.cell j).put present body).result f = .ok () ∧
      s.Matches (((s.cell j).put present body).after f) (n + 1) content' := by
  obtain ⟨k, r, hk, hr, -⟩ := h.cells j
  obtain ⟨hok, g, hp⟩ := hr.put present hbo
  refine ⟨hok, ?_, hbd⟩
  intro i
  by_cases hi : i = j
  · subst hi
    refine ⟨k + 1, _, Nat.succ_le_succ hk, hp, ?_⟩
    rw [hr.contents_put, if_pos (by omega)]
    exact hsh
  obtain ⟨k', r', hk', hr', hsh'⟩ := h.cells i
  have hvw := view_put_of_apart (s.cell j) (hs j i (Ne.symm hi)) present body f
  refine ⟨k', r', Nat.le_succ_of_le hk', hr'.congr hvw, hsh'.congr ?_⟩
  intro record hcl
  refine ho record fun hoh => hi ?_
  exact Option.some.inj (hcl.symm.trans hoh)

theorem bounded_update (h : s.Matches f n content) (record : UInt16) (value : MapEntry) :
    ∀ other data, Function.update content record (value.map Subtype.val) other = some data →
      data.length ≤ maxRecordBytes := by
  intro other data hoh
  by_cases hsm : other = record
  · rw [hsm, Function.update_self] at hoh
    obtain ⟨bytes, -, rfl⟩ := Option.map_eq_some_iff.mp hoh
    exact bytes.property
  · rw [Function.update_of_ne hsm] at hoh
    exact h.bounded _ _ hoh

theorem Matches.putObject (hs : s.CellsApart) (h : s.Matches f n content) (hn : n + 1 < seqModulus)
    (hr : record ∈ pivRecords) (hmt : record ∉ metaRecords) {j : Fin (1 + pivObjectStores)}
    (hcl : cellOf record = some j) (hj : j ≠ 0) (present : Bool)
    (data : BoundedBytes maxRecordBytes) :
    ((s.cell j).put present data.val).result f = .ok () ∧
      s.Matches (((s.cell j).put present data.val).after f) (n + 1)
        (Function.update content record (if present then some data.val else none)) := by
  have hvl : (if present then some data.val else none) =
      (if present then some data else none : MapEntry).map Subtype.val := by
    cases present <;> rfl
  have hbd := bounded_update h record (if present then some data else none)
  rw [← hvl] at hbd
  refine h.put hs hn j present (Nat.lt_of_le_of_lt data.property (by decide)) ?_ ?_ hbd
  · intro other hoh
    have hne : other ≠ record := fun heq => hoh (by rw [heq, hcl])
    exact Function.update_of_ne hne _ _
  · rw [CellShows, if_neg hj]
    intro other hm hoh
    rw [cellOf_inj record hr other hm hmt (hoh.trans hcl.symm), Function.update_self]

/-- A change of the metadata map is a write of the changed map. -/
theorem Matches.updateMeta_eq (h : s.Matches f n content) (hr : record ∈ metaRecords)
    (value : MapEntry) :
    ∃ m : VecMap,
      m.records = metaRecords.map (Function.update content record (value.map Subtype.val)) ∧
      s.updateMeta (metaRecords.idxOf record) value f = s.storeMeta m f := by
  obtain ⟨m, hrc, -, hld⟩ := h.loadMeta
  refine ⟨m.set (metaRecords.idxOf record) value, ?_, ?_⟩
  · rw [VecMap.records_set, hrc, map_update_meta content hr]
  have hm : ∃ o, (Prog.look s.loadMeta : Prog SealCall CoreError _).result f = .ok o ∧
      o.getD VecMap.empty = m := by
    rcases hld with hld | ⟨hld, rfl⟩
    · exact ⟨some m, hld, rfl⟩
    · exact ⟨none, hld, rfl⟩
  obtain ⟨o, hlk, rfl⟩ := hm
  exact Prod.ext (Prog.ops_bind_ok hlk) (Prog.result_bind_ok hlk)

/-- A changed map that leaves room for the flag is written. -/
theorem Matches.updateMeta (hs : s.CellsApart) (h : s.Matches f n content) (hn : n + 1 < seqModulus)
    (hr : record ∈ metaRecords) (value : MapEntry)
    (hsz : metaSize (Function.update content record (value.map Subtype.val)) < shardBodyMax) :
    (s.updateMeta (metaRecords.idxOf record) value).result f = .ok () ∧
      s.Matches ((s.updateMeta (metaRecords.idxOf record) value).after f) (n + 1)
        (Function.update content record (value.map Subtype.val)) := by
  obtain ⟨m, hrc, hrn⟩ := h.updateMeta_eq hr value
  rw [metaSize, ← hrc, ← VecMap.length_bytes] at hsz
  have hst : s.storeMeta m = (s.cell 0).put true m.bytes := by
    rw [storeMeta, VecMap.encode_eq, if_pos (Nat.le_trans (Nat.le_of_lt hsz) (by decide))]
    exact SealedCell.store_of_fits _ hsz
  have ho : ∀ other, cellOf other ≠ some 0 →
      Function.update content record (value.map Subtype.val) other = content other := by
    intro other hoh
    have hne : other ≠ record := fun heq => hoh (by rw [heq, cellOf_meta record hr])
    exact Function.update_of_ne hne _ _
  rw [Prog.after, Prog.result, Prog.ops, hrn, hst]
  exact h.put hs hn 0 true hsz ho ⟨m, hrc, hsz, .inl rfl⟩ (bounded_update h record value)

/-- A longer map is refused and nothing changes. -/
theorem Matches.updateMeta_long (h : s.Matches f n content) (hc : record ∈ metaRecords)
    (value : MapEntry)
    (hsz : shardBodyMax ≤ metaSize (Function.update content record (value.map Subtype.val))) :
    (s.updateMeta (metaRecords.idxOf record) value).result f = .error .storageError ∧
      (s.updateMeta (metaRecords.idxOf record) value).after f = f := by
  obtain ⟨m, hrc, hn⟩ := h.updateMeta_eq hc value
  rw [metaSize, ← hrc, ← VecMap.length_bytes] at hsz
  obtain ⟨k, r, -, hr, -⟩ := h.cells 0
  rw [Prog.after, Prog.result, Prog.ops, hn, storeMeta, VecMap.encode_eq]
  by_cases hf : m.bytes.length ≤ metaBodyMax
  · rw [if_pos hf]
    exact hr.store_long hsz
  · rw [if_neg hf]
    exact ⟨rfl, rfl⟩

end Writes

section Operations
variable {s : SealedPivStore} {f : Flash} {n : Nat} {content : UInt16 → Option (List UInt8)}

/-- The packed metadata records leave room for the presence flag of their cell. -/
def Fits (content : UInt16 → Option (List UInt8)) : Prop := metaSize content < shardBodyMax

instance (content : UInt16 → Option (List UInt8)) : Decidable (Fits content) :=
  inferInstanceAs (Decidable (_ < _))

theorem metaSize_object (content : UInt16 → Option (List UInt8)) {record : UInt16}
    (hmt : record ∉ metaRecords) (value : Option (List UInt8)) :
    metaSize (Function.update content record value) = metaSize content := by
  unfold metaSize
  congr 2
  apply List.map_congr_left
  intro other hoh
  have hne : other ≠ record := fun heq => hmt (heq ▸ hoh)
  exact Function.update_of_ne hne _ _

theorem metaSize_erase (content : UInt16 → Option (List UInt8)) (record : UInt16) :
    metaSize (Function.update content record none) ≤ metaSize content := by
  unfold metaSize
  rw [List.map_map, List.map_map]
  apply List.sum_le_sum
  intro other _
  have ho : 1 ≤ recordSize (content other) := by
    cases content other with
    | none => exact Nat.le_refl 1
    | some data => exact Nat.le_add_right_of_le (by decide)
  by_cases hsm : other = record
  · rw [Function.comp_apply, hsm, Function.update_self]
    exact hsm ▸ ho
  · rw [Function.comp_apply, Function.update_of_ne hsm]
    exact Nat.le_refl _

theorem Matches.fits (h : s.Matches f n content) : Fits content := by
  obtain ⟨m, hrc, hsz, -⟩ := h.loadMeta
  rw [Fits, metaSize, ← hrc, ← VecMap.length_bytes]
  exact hsz

theorem write_eq (s : SealedPivStore) (record : UInt16) (data : BoundedBytes maxRecordBytes) :
    s.write record data.val = match metaEntry record with
      | some position => s.updateMeta position (some data)
      | none =>
        match objectCell record with
        | some j => (s.cell j).store data.val
        | none => Prog.fail .storageError := by
  have hsl : BoundedBytes.ofSlice maxRecordBytes data.val = some data :=
    BoundedBytes.ofSlice_eq_some.mpr rfl
  cases hen : metaEntry record with
  | some position => simp only [write, hsl, hen]
  | none =>
    cases hcl : objectCell record with
    | some j | none => simp only [write, hsl, hen, hcl]

theorem Matches.write (hs : s.CellsApart) (h : s.Matches f n content) (hn : n + 1 < seqModulus)
    (record : PivRecord) (data : BoundedBytes maxRecordBytes)
    (hft : Fits (Function.update content record.val (some data.val))) :
    (s.write record.val data.val).result f = .ok () ∧
      s.Matches ((s.write record.val data.val).after f) (n + 1)
        (Function.update content record.val (some data.val)) := by
  rw [write_eq]
  by_cases hmt : record.val ∈ metaRecords
  · rw [metaEntry_eq _ hmt]
    exact h.updateMeta hs hn hmt (some data) hft
  obtain ⟨hen, -, j, ho, hcl, hj⟩ := objectCell_eq _ record.property hmt
  have hf : data.val.length < shardBodyMax := Nat.lt_of_le_of_lt data.property (by decide)
  simp only [hen, ho, SealedCell.store_of_fits _ hf]
  exact h.putObject hs hn record.property hmt hcl hj true data

theorem Matches.write_refused (h : s.Matches f n content) (record : PivRecord)
    (data : BoundedBytes maxRecordBytes)
    (hft : ¬ Fits (Function.update content record.val (some data.val))) :
    (s.write record.val data.val).result f = .error .storageError ∧
      (s.write record.val data.val).after f = f := by
  by_cases hmt : record.val ∈ metaRecords
  · rw [write_eq, metaEntry_eq _ hmt]
    exact h.updateMeta_long hmt (some data) (Nat.le_of_not_lt hft)
  · rw [Fits, metaSize_object content hmt] at hft
    exact absurd h.fits hft

theorem Matches.erase (hs : s.CellsApart) (h : s.Matches f n content) (hn : n + 1 < seqModulus)
    (record : PivRecord) :
    (s.erase record.val).result f = .ok () ∧ s.Matches ((s.erase record.val).after f) (n + 1)
        (Function.update content record.val none) := by
  by_cases hmt : record.val ∈ metaRecords
  · rw [SealedPivStore.erase, metaEntry_eq _ hmt]
    exact h.updateMeta hs hn hmt none
      (Nat.lt_of_le_of_lt (metaSize_erase content record.val) h.fits)
  · obtain ⟨hen, -, j, ho, hcl, hj⟩ := objectCell_eq _ record.property hmt
    simp only [SealedPivStore.erase, hen, ho]
    exact h.putObject hs hn record.property hmt hcl hj false ⟨[], Nat.zero_le _⟩

end Operations

end SealedPivStore

/-! ## The store in memory -/

open Applets (Piv.memoryStore Piv.memoryErase Piv.memoryStore_holds)

def recordsOf (st : List (Nat × List UInt8)) (record : UInt16) : Option (List UInt8) :=
  st.lookup record.toNat

/-- The store in memory holds records of the applet, each once. -/
structure MemoryOk (st : List (Nat × List UInt8)) : Prop where
  nodup : (st.map Prod.fst).Nodup
  known : ∀ id ∈ st.map Prod.fst, id ∈ pivRecords.map UInt16.toNat

theorem memoryOk_nil : MemoryOk [] where
  nodup := List.nodup_nil
  known := nofun

variable {st : List (Nat × List UInt8)}

theorem not_mem_of_lookup {id : Nat} (h : st.lookup id = none) :
    id ∉ st.map Prod.fst := by
  intro hm
  obtain ⟨entry, hen, rfl⟩ := List.mem_map.mp hm
  have hne := List.lookup_eq_none_iff.mp h entry hen
  exact absurd hne (by simp)

/-- A record that is not there finds a free slot: there are as many slots as records. -/
theorem MemoryOk.room (h : MemoryOk st) (record : PivRecord)
    (hno : st.lookup record.val.toNat = none) : st.length < Applets.Piv.memoryRecords := by
  have hn := not_mem_of_lookup hno
  have hnd : (record.val.toNat :: st.map Prod.fst).Nodup := List.nodup_cons.mpr ⟨hn, h.nodup⟩
  have hs : (record.val.toNat :: st.map Prod.fst) ⊆ pivRecords.map UInt16.toNat := by
    intro id hid
    rcases List.mem_cons.mp hid with rfl | hid
    · exact List.mem_map_of_mem record.property
    · exact h.known id hid
  have hl := (hnd.subperm hs).length_le
  rw [List.length_cons, List.length_map] at hl
  exact hl

/-- The store in memory as a map: a write never fails. -/
theorem MemoryOk.write (h : MemoryOk st) (record : PivRecord) (data : BoundedBytes maxRecordBytes) :
    (Piv.memoryStore.write record.val.toNat data.val st).1 = true ∧
      MemoryOk (Piv.memoryStore.write record.val.toNat data.val st).2 ∧
      recordsOf (Piv.memoryStore.write record.val.toNat data.val st).2 =
        Function.update (recordsOf st) record.val (some data.val) := by
  have hwr : (Piv.memoryStore.write record.val.toNat data.val st).1 = true ∧
      MemoryOk (Piv.memoryStore.write record.val.toNat data.val st).2 := by
    have hl : ¬ Applets.Piv.maxRecordBytes < data.val.length := Nat.not_lt.mpr data.property
    by_cases hso : (st.lookup record.val.toNat).isSome
    · have hks : (st.map fun entry => if entry.1 = record.val.toNat then
          (record.val.toNat, data.val) else entry).map Prod.fst = st.map Prod.fst := by
        rw [List.map_map]
        apply List.map_congr_left
        intro entry _
        by_cases hid : entry.1 = record.val.toNat
        · rw [Function.comp_apply, if_pos hid, hid]
        · rw [Function.comp_apply, if_neg hid]
      simp only [Piv.memoryStore, if_neg hl, if_pos hso]
      exact ⟨trivial, hks ▸ h.nodup, hks ▸ h.known⟩
    · have hno := Option.not_isSome_iff_eq_none.mp hso
      have hrm := h.room record hno
      simp only [Piv.memoryStore, if_neg hl, if_neg hso, if_neg (Nat.not_le.mpr hrm)]
      refine ⟨trivial, ?_, ?_⟩
      · rw [List.map_append]
        refine h.nodup.append (List.nodup_singleton _) ?_
        intro id hid hn
        rw [List.mem_singleton.mp hn] at hid
        exact not_mem_of_lookup hno hid
      · intro id hid
        rw [List.map_append, List.mem_append] at hid
        rcases hid with hid | hid
        · exact h.known id hid
        · rw [List.mem_singleton.mp hid]
          exact List.mem_map_of_mem record.property
  refine ⟨hwr.1, hwr.2, ?_⟩
  funext other
  by_cases hsm : other = record.val
  · rw [hsm, Function.update_self]
    exact Piv.memoryStore_holds.written _ _ _ hwr.1
  · rw [Function.update_of_ne hsm]
    exact Piv.memoryStore_holds.others _ _ _ _ fun hid => hsm (UInt16.toNat_inj.mp hid)

theorem lookup_filter_ne (st : List (Nat × List UInt8)) (record other : Nat) :
    (st.filter fun entry => entry.1 ≠ record).lookup other =
      if other = record then none else st.lookup other := by
  induction st with
  | nil => exact (ite_self none).symm
  | cons entry st ih =>
    obtain ⟨id, data⟩ := entry
    rw [Applets.Piv.lookup_cons_eq]
    by_cases hid : id = record
    · rw [List.filter_cons_of_neg (by simpa using hid), ih]
      by_cases hoh : other = record
      · rw [if_pos hoh, if_pos hoh]
      · rw [if_neg hoh, if_neg hoh, if_neg (fun h => hoh (h.trans hid))]
    rw [List.filter_cons_of_pos (by simpa using hid), Applets.Piv.lookup_cons_eq, ih]
    by_cases hoh : other = record
    · rw [if_pos hoh, if_pos hoh, if_neg (fun h => hid (h.symm.trans hoh))]
    · rw [if_neg hoh, if_neg hoh]

theorem MemoryOk.erase (h : MemoryOk st) (record : PivRecord) :
    (Piv.memoryErase record.val.toNat st).1 = (recordsOf st record.val).isSome ∧
      MemoryOk (Piv.memoryErase record.val.toNat st).2 ∧
      recordsOf (Piv.memoryErase record.val.toNat st).2 =
        Function.update (recordsOf st) record.val none := by
  unfold Piv.memoryErase
  by_cases hsm : (st.lookup record.val.toNat).isSome
  · have hs : ((st.filter fun entry => entry.1 ≠ record.val.toNat).map Prod.fst).Sublist
        (st.map Prod.fst) := List.filter_sublist.map Prod.fst
    rw [if_pos hsm]
    refine ⟨hsm.symm, ⟨h.nodup.sublist hs, fun id hid => h.known id (hs.subset hid)⟩, ?_⟩
    funext other
    rw [recordsOf, lookup_filter_ne]
    by_cases hsa : other = record.val
    · rw [hsa, if_pos rfl, Function.update_self]
    · rw [if_neg fun hid => hsa (UInt16.toNat_inj.mp hid), Function.update_of_ne hsa]
      rfl
  · rw [if_neg hsm]
    refine ⟨(Bool.eq_false_of_not_eq_true hsm).symm, h, ?_⟩
    have hno : recordsOf st record.val = none := Option.not_isSome_iff_eq_none.mp hsm
    rw [← hno, Function.update_eq_self]

/-! ## The two stores side by side -/

/-- A call of a PIV store, on a record of the applet and with data of at most `maxRecordBytes`
  bytes. -/
inductive PivCall where
  | write (record : PivRecord) (data : BoundedBytes maxRecordBytes)
  | read (record : PivRecord) (outLen : Nat)
  | erase (record : PivRecord)

/-- What a store answers: whether it worked, or the bytes of a read. -/
inductive PivAnswer where
  | done (worked : Bool)
  | bytes (data : Option (List UInt8))
deriving DecidableEq

namespace SealedPivStore

def answer (s : SealedPivStore) (f : Flash) : PivCall → PivAnswer
  | .write record data => .done ((s.write record.val data.val).result f).isOk
  | .read record outLen => .bytes (s.read f record.val outLen)
  | .erase record => .done ((s.erase record.val).result f).isOk

def stepFlash (s : SealedPivStore) (f : Flash) : PivCall → Flash
  | .write record data => (s.write record.val data.val).after f
  | .read _ _ => f
  | .erase record => (s.erase record.val).after f

end SealedPivStore

def memoryAnswer (st : List (Nat × List UInt8)) : PivCall → PivAnswer
  | .write record data => .done (Piv.memoryStore.write record.val.toNat data.val st).1
  | .read record outLen =>
    .bytes ((Piv.memoryStore.read record.val.toNat outLen st).1.map Subtype.val)
  | .erase record => .done (Piv.memoryErase record.val.toNat st).1

def memoryStep (st : List (Nat × List UInt8)) : PivCall → List (Nat × List UInt8)
  | .write record data => (Piv.memoryStore.write record.val.toNat data.val st).2
  | .read record outLen => (Piv.memoryStore.read record.val.toNat outLen st).2
  | .erase record => (Piv.memoryErase record.val.toNat st).2

/-- The records after a call, read as a map. -/
def PivCall.apply (content : UInt16 → Option (List UInt8)) :
    PivCall → UInt16 → Option (List UInt8)
  | .write record data => Function.update content record.val (some data.val)
  | .read _ _ => content
  | .erase record => Function.update content record.val none

/-- The answer of a map: a write works, a read gives the last value written, and an erase says
  whether there was one. -/
def PivCall.expected (content : UInt16 → Option (List UInt8)) : PivCall → PivAnswer
  | .write _ _ => .done true
  | .read record outLen => .bytes ((content record.val).filter fun data => data.length ≤ outLen)
  | .erase record => .done (content record.val).isSome

/-- The same answer, or success for the erase of a record that was not there. -/
def PivCall.Agrees (call : PivCall) (sealedAnswer memory : PivAnswer) : Prop :=
  sealedAnswer = memory ∨
    (∃ record, call = .erase record) ∧ sealedAnswer = .done true ∧ memory = .done false

theorem memoryRead_eq (st : List (Nat × List UInt8)) (record : PivRecord) (outLen : Nat) :
    (Piv.memoryStore.read record.val.toNat outLen st).1.map Subtype.val =
      (recordsOf st record.val).filter fun data => data.length ≤ outLen := by
  show ((st.lookup record.val.toNat).bind (BoundedBytes.ofSlice outLen)).map _ = _
  rw [recordsOf]
  cases st.lookup record.val.toNat with
  | none => rfl
  | some data =>
    rw [Option.bind_some, Option.filter_some, BoundedBytes.ofSlice]
    by_cases hl : data.length ≤ outLen
    · rw [dif_pos hl, if_pos (by simpa using hl)]
      rfl
    · rw [dif_neg hl, if_neg (by simpa using hl)]
      rfl

theorem MemoryOk.call (h : MemoryOk st) (call : PivCall) :
    memoryAnswer st call = call.expected (recordsOf st) ∧
      recordsOf (memoryStep st call) = call.apply (recordsOf st) ∧
      MemoryOk (memoryStep st call) := by
  cases call with
  | write record data =>
    obtain ⟨hwr, hok, hrc⟩ := h.write record data
    exact ⟨congrArg PivAnswer.done hwr, hrc, hok⟩
  | read record outLen => exact ⟨congrArg PivAnswer.bytes (memoryRead_eq st record outLen), rfl, h⟩
  | erase record =>
    obtain ⟨hwr, hok, hrc⟩ := h.erase record
    exact ⟨congrArg PivAnswer.done hwr, hrc, hok⟩

namespace SealedPivStore

/-- One call on both stores: they agree exactly if the records fit after it, and then they hold the
  same records again. -/
theorem Matches.call {s : SealedPivStore} {f : Flash} {n : Nat} (hs : s.CellsApart)
    (h : s.Matches f n (recordsOf st)) (hm : MemoryOk st)
    (hn : n + 1 < seqModulus) (call : PivCall) :
    (call.Agrees (s.answer f call) (memoryAnswer st call) ↔ Fits (recordsOf (memoryStep st call))) ∧
      (Fits (recordsOf (memoryStep st call)) →
        s.Matches (s.stepFlash f call) (n + 1) (recordsOf (memoryStep st call)) ∧
          MemoryOk (memoryStep st call)) := by
  obtain ⟨han, hrc, hok⟩ := hm.call call
  rw [han, hrc]
  cases call with
  | write record data =>
    by_cases hft : Fits (Function.update (recordsOf st) record.val (some data.val))
    · obtain ⟨hr, ht⟩ := h.write hs hn record data hft
      refine ⟨⟨fun _ => hft, fun _ => .inl ?_⟩, fun _ => ⟨ht, hok⟩⟩
      rw [answer, hr]
      rfl
    have hr := (h.write_refused record data hft).1
    refine ⟨⟨fun ha => ?_, fun hft' => absurd hft' hft⟩, fun hft' => absurd hft' hft⟩
    rw [answer, hr] at ha
    rcases ha with heq | ⟨⟨other, hcl⟩, -, -⟩
    · cases heq
    · cases hcl
  | read record outLen =>
    refine ⟨⟨fun _ => h.fits, fun _ => .inl ?_⟩, fun _ => ⟨?_, hok⟩⟩
    · rw [answer, h.read, PivCall.expected]
    · refine ⟨fun j => ?_, h.bounded⟩
      obtain ⟨k, r, hk, hrs⟩ := h.cells j
      exact ⟨k, r, Nat.le_succ_of_le hk, hrs⟩
  | erase record =>
    obtain ⟨hr, ht⟩ := h.erase hs hn record
    refine ⟨⟨fun _ => ht.fits, fun _ => ?_⟩, fun _ => ⟨ht, hok⟩⟩
    rw [answer, hr, PivCall.expected]
    cases (recordsOf st record.val).isSome with
    | true => exact .inl rfl
    | false => exact .inr ⟨⟨record, rfl⟩, rfl, rfl⟩

end SealedPivStore

/-! ## Runs from blank flash -/

namespace SealedStores

theorem piv_cellsApart (d : SealedStores) : d.piv.CellsApart := by
  intro i j hij
  obtain ⟨k, hk, ho⟩ := d.piv_storage i
  obtain ⟨k', hk', ho'⟩ := d.piv_storage j
  rw [hk, hk']
  refine d.apart k k' fun heq => hij ?_
  rw [heq, ho'] at ho
  exact (Domain.piv.inj ho).symm

def sideBySide (d : SealedStores) (x : Flash × List (Nat × List UInt8)) (call : PivCall) :
    Flash × List (Nat × List UInt8) :=
  (d.piv.stepFlash x.1 call, memoryStep x.2 call)

/-- From blank flash on, the sealed store answers like the one in memory exactly as long as the
  packed metadata records fit one sealed record after every call. The store in memory answers like
  a map of records. -/
theorem answers_agree_iff (d : SealedStores) (calls : List PivCall)
    (hcalls : calls.length < 2 ^ 32) :
    (Runs.Every d.sideBySide
        (fun x call => call.Agrees (d.piv.answer x.1 call) (memoryAnswer x.2 call))
        (blank, []) calls ↔
      Runs.Every memoryStep (fun st call => SealedPivStore.Fits (recordsOf (memoryStep st call)))
        [] calls) ∧
    Runs.Every memoryStep
      (fun st call => memoryAnswer st call = call.expected (recordsOf st) ∧
        recordsOf (memoryStep st call) = call.apply (recordsOf st)) [] calls := by
  constructor
  · have hstart : d.piv.Matches blank 0 (recordsOf []) := d.piv.matches_blank
    have hpart : ∀ x call, Prod.snd (d.sideBySide x call) = memoryStep (Prod.snd x) call :=
      fun _ _ => rfl
    rw [← Runs.every_image Prod.snd hpart
      (fun st call => SealedPivStore.Fits (recordsOf (memoryStep st call))) (s := (blank, []))]
    refine Runs.every_iff (N := 2 ^ 32 - 1)
      (I := fun n x => d.piv.Matches x.1 n (recordsOf x.2) ∧ MemoryOk x.2)
      ?_ ?_ ⟨hstart, memoryOk_nil⟩ (by omega)
    · intro n x call hn hx
      exact (hx.1.call d.piv_cellsApart hx.2 (by unfold seqModulus; omega) call).1
    · intro n x call hn hx hfits
      exact (hx.1.call d.piv_cellsApart hx.2 (by unfold seqModulus; omega) call).2 hfits
  · refine Runs.every_of_keep ?_ ?_ memoryOk_nil calls
    · intro st call hst
      exact ⟨(hst.call call).1, (hst.call call).2.1⟩
    · intro st call hst
      exact (hst.call call).2.2

/-- A PIN is written, read and erased, and a PUK that is not there is erased. -/
def smallRecords : List PivCall :=
  [.write ⟨recordPin, by decide⟩ ⟨[1, 2], by decide⟩, .read ⟨recordPin, by decide⟩ 8,
    .erase ⟨recordPin, by decide⟩, .erase ⟨recordPuk, by decide⟩]

theorem answers_agree_iff_smallRecords :
    Runs.Every sectorStores.sideBySide
      (fun x call => call.Agrees (sectorStores.piv.answer x.1 call) (memoryAnswer x.2 call))
      (blank, []) smallRecords :=
  (answers_agree_iff sectorStores smallRecords (by decide)).1.mpr (by decide +kernel)

/-- The record of an RSA key: a header of 6 bytes and 1156 bytes of key material. -/
def rsaKeyRecord : BoundedBytes maxRecordBytes :=
  ⟨List.replicate (6 + rsaBlobBytes) 0, by decide +kernel⟩

/-- The store in memory takes a second RSA key, the sealed store refuses it. -/
theorem second_rsa_key_refused :
    let first : PivCall := .write ⟨recordKeyBase, by decide⟩ rsaKeyRecord
    let second : PivCall := .write ⟨recordKeyBase + 1, by decide⟩ rsaKeyRecord
    sectorStores.piv.answer blank first = .done true ∧ memoryAnswer [] first = .done true ∧
      sectorStores.piv.answer (sectorStores.piv.stepFlash blank first) second = .done false ∧
      memoryAnswer (memoryStep [] first) second = .done true := by
  intro first second
  have hfits : SealedPivStore.Fits (Function.update (fun _ => none) recordKeyBase
      (some rsaKeyRecord.val)) := by
    decide +kernel
  have hlong : ¬ SealedPivStore.Fits (Function.update (Function.update (fun _ => none)
      recordKeyBase (some rsaKeyRecord.val)) (recordKeyBase + 1) (some rsaKeyRecord.val)) := by
    decide +kernel
  obtain ⟨hfirst, hmatches⟩ := sectorStores.piv.matches_blank.write sectorStores.piv_cellsApart
    (by decide) ⟨recordKeyBase, by decide⟩ rsaKeyRecord hfits
  have hsecond := (hmatches.write_refused ⟨recordKeyBase + 1, by decide⟩ rsaKeyRecord hlong).1
  obtain ⟨hmemory, -, hok⟩ := memoryOk_nil.call first
  let reported (r : Except CoreError Unit) := PivAnswer.done r.isOk
  exact ⟨congrArg reported hfirst, hmemory, congrArg reported hsecond, (hok.call second).1⟩

end SealedStores

end AegisToken
