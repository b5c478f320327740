/-
  Reading PIV data objects back (aegis-applets piv.rs, over the memory store).
  GET DATA answers from the record of the object alone (`getData_answer`), and only an accepted
  PUT DATA for an object touches its record (`step_object`): the PINs, the management key and the
  keys are kept in other records. So what was put is what is read, with two exceptions: the CHUID
  and the CCC are read into a buffer that is always empty, so for them only an empty value or the
  built-in default comes back. `put_data_reads_back` says exactly that.
-/
import AegisToken.Applets.PivSession

namespace AegisToken.Applets.Piv
open ByteCodec

/-! ## The record of an object -/

variable {σ : Type} {K : PivCrypto} {S : PivStore σ} {content : σ → Nat → Option (List UInt8)}
  {apdu : Apdu} {value : List UInt8} {oid : Nat} {c : Piv σ} {rng : Rng}

theorem objectIndex_inj {oid oid' index : Nat} (h : objectIndex oid = some index)
    (h' : objectIndex oid' = some index) : oid = oid' := by
  obtain ⟨hlt, heq, -⟩ := List.findIdx?_eq_some_iff_getElem.mp h
  obtain ⟨hlt', heq', -⟩ := List.findIdx?_eq_some_iff_getElem.mp h'
  exact (of_decide_eq_true heq).symm.trans (of_decide_eq_true heq')

/-- What GET DATA answers for an object, from what the store holds. -/
def objectAnswer (content : Nat → Option (List UInt8)) (oid : Nat) : Response :=
  if oid = objectKeyHistory then wrapObject none keyHistory
  else
    match objectIndex oid with
    | none => .status .fileNotFound
    | some index =>
      let value := content (recordObjectBase + index)
      if oid = objectChuid then
        wrapObject none (((value.bind (BoundedBytes.ofSlice 0)).map (·.val)).getD defaultChuid)
      else if oid = objectCcc then
        wrapObject none (((value.bind (BoundedBytes.ofSlice 0)).map (·.val)).getD defaultCcc)
      else
        match value.bind (BoundedBytes.ofSlice maxRecordBytes) with
        | some value => wrapObject (if objectIsCertificate oid then some 0x70 else none) value.val
        | none => .status .fileNotFound

theorem getData_answer {c : Piv (List (Nat × List UInt8))} (hp : apdu.p1 = 0x3F ∧ apdu.p2 = 0xFF)
    (ho : requestObjectId apdu.data = some oid) :
    (c.getData memoryStore apdu).1 = objectAnswer (memoryContent c.store) oid := by
  have hd : ∀ (oid : Nat) (default : List UInt8) (index : Nat),
      objectIndex oid = some index → (c.storedOrDefault memoryStore oid default).1 =
        wrapObject none ((((memoryContent c.store (recordObjectBase + index)).bind
          (BoundedBytes.ofSlice 0)).map (·.val)).getD default) := by
    intro oid default index hin
    unfold storedOrDefault
    rw [hin]
    simp only [read_eq, memoryStore, memoryContent]
    rcases (c.store.lookup (recordObjectBase + index)).bind (BoundedBytes.ofSlice 0) with
      _ | value <;> rfl
  unfold getData objectAnswer
  rw [if_neg (by rw [hp.1, hp.2]; decide), ho]
  dsimp only
  by_cases hch : oid = objectChuid
  · subst hch
    exact hd objectChuid defaultChuid 1 rfl
  by_cases hc : oid = objectCcc
  · subst hc
    exact hd objectCcc defaultCcc 3 rfl
  rw [if_neg hch, if_neg hc]
  split
  · rfl
  rcases objectIndex oid with _ | index
  · rfl
  simp only [read_eq, memoryStore, memoryContent]
  rcases (c.store.lookup (recordObjectBase + index)).bind (BoundedBytes.ofSlice maxRecordBytes) with
    _ | value <;> rfl

/-! ## What changes a record -/

theorem PinRecord.record_lt (record : PinRecord) : record.record < recordObjectBase := by
  cases record <;> decide

theorem KeySlot.record_lt (slot : KeySlot) : slot.record < recordObjectBase := by
  cases slot <;> decide

/-- PUT DATA is refused, or writes the record of the object it names. -/
theorem putData_cases (apdu : Apdu) (c : Piv σ) :
    ((c.putData S apdu).1.sw ≠ .ok ∧ (c.putData S apdu).2 = c) ∨
    ∃ oid value index, putRequest apdu.data = some (oid, value) ∧ objectIndex oid = some index ∧
      value.length ≤ maxRecordBytes ∧
      c.putData S apdu =
        (written (S.write (recordObjectBase + index) value c.store).1 (.status .ok),
          { c with store := (S.write (recordObjectBase + index) value c.store).2 }) := by
  unfold putData
  split
  · exact .inl ⟨nofun, rfl⟩
  split
  · exact .inl ⟨nofun, rfl⟩
  rcases hr : putRequest apdu.data with _ | ⟨oid, value⟩
  · exact .inl ⟨nofun, rfl⟩
  dsimp only
  split
  · exact .inl ⟨nofun, rfl⟩
  rcases hin : objectIndex oid with _ | index
  · exact .inl ⟨nofun, rfl⟩
  dsimp only
  split
  · exact .inl ⟨nofun, rfl⟩
  · rename_i hl
    exact .inr ⟨oid, value, index, rfl, hin, Nat.le_of_not_lt hl, writeAnswer_eq _ _ _ c⟩

theorem process_putData (hi : apdu.ins = insPutData) :
    c.process K S apdu rng = c.putData S apdu := by
  unfold process
  rw [if_neg (by rw [hi]; decide), if_pos hi]

theorem process_getData (hi : apdu.ins = insGetData) :
    c.process K S apdu rng = c.getData S apdu := by
  unfold process
  rw [if_pos hi]

theorem Effect.object {c c' : Piv σ} {answer : Response} (he : Effect K S c apdu rng answer c')
    (hS : Holds S content) (hi : apdu.ins ≠ insPutData) {record : Nat}
    (hr : recordObjectBase ≤ record) :
    content c'.store record = content c.store record := by
  have hmg : record ≠ recordMgmtKey :=
    (Nat.lt_of_lt_of_le (by decide : recordMgmtKey < recordObjectBase) hr).ne'
  have hp : ∀ (own : PinRecord) (c₁ : Piv σ), c₁.store = c.store →
      content (c₁.persistPin S own).2.store record = content c.store record := by
    intro own c₁ hst
    have := own.record_lt
    rw [persistPin_content hS own c₁ (by omega), hst]
  cases he with
  | idle hrd | touchAsked _ _ hrd => rw [hrd.content hS]
  | objectWritten _ _ ht => exact absurd ht hi
  | keyWritten slot =>
    have := slot.record_lt
    exact hS.others _ _ _ _ (by omega)
  | mgmtKeySet | mgmtKeyKept => exact hS.others _ _ _ _ hmg
  | nonceDrawn => rfl
  | nonceRefused => rfl
  | nonceProved => rfl
  | pinRefused => rfl
  | pinAccepted => rfl
  | @pinWrong _ c₁ own _ _ _ _ _ hc₁ | @pinChanged _ c₁ own _ _ _ hc₁ =>
    exact hp own c₁ (by subst hc₁; cases own <;> rfl)
  | @pinUnblocked _ c₁ _ _ _ hc₁ => exact hp .pin c₁ (by subst hc₁; rfl)
  | signed _ _ _ _ _ _ hrd =>
    exact congrFun ((hS.read_content _ _ _).trans (hrd.content hS)) record

theorem Confirmed.object {c c' : Piv σ} {answer : Response} (he : Confirmed K S c rng answer c')
    (hS : Holds S content) (record : Nat) :
    content c'.store record = content c.store record := by
  cases he with
  | nothing => rfl
  | failed _ hrd => rw [hrd.content hS]
  | signed _ _ _ hrd =>
    exact congrFun ((hS.read_content _ _ _).trans (hrd.content hS)) record

/-! ## SELECT -/

theorem select_object (hS : Holds S content) (c : Piv σ) {record : Nat}
    (hr : recordObjectBase ≤ record) :
    content (c.select K S).2.store record = content c.store record := by
  refine select_keep (P := fun c' => content c'.store record = content c.store record) ?_ ?_ ?_
    (fun _ _ h => h) rfl
  · exact fun c' own cap h => (congrFun (hS.read_content own cap c'.store) record).trans h
  · intro c' own data ho h
    have : recordKeyBase < recordObjectBase := by decide
    exact (hS.others own data c'.store record (by omega)).trans h
  · exact fun _ own _ h => by cases own <;> exact h

/-! ## Runs -/

abbrev Memory := List (Nat × List UInt8)

/-- The event is a PUT DATA for the object that is answered 9000. -/
def PutsObject (K : PivCrypto) (oid : Nat) (c : Piv Memory) (e : Event) : Prop :=
  ∃ apdu rng value, e = .process apdu rng ∧ apdu.ins = insPutData ∧
    putRequest apdu.data = some (oid, value) ∧ (step K memoryStore c e).1.sw = .ok

theorem memoryStore_write_failed {record : Nat} {data : List UInt8} {st : Memory}
    (h : (memoryStore.write record data st).1 = false) :
    (memoryStore.write record data st).2 = st := by
  simp only [memoryStore] at h ⊢
  split at h
  · rw [if_pos ‹_›]
  rw [if_neg ‹_›]
  split at h
  · cases h
  rw [if_neg ‹_›]
  split at h
  · rw [if_pos ‹_›]
  · cases h

theorem step_object {oid index : Nat} (hin : objectIndex oid = some index) (c : Piv Memory)
    (e : Event) (hpt : ¬PutsObject K oid c e) :
    memoryContent (step K memoryStore c e).2.store (recordObjectBase + index) =
      memoryContent c.store (recordObjectBase + index) := by
  have hr : recordObjectBase ≤ recordObjectBase + index := Nat.le_add_right _ _
  cases e with
  | select => exact select_object memoryStore_holds c hr
  | confirm rng => exact (confirm_effect c rng).object memoryStore_holds _
  | deny => rfl
  | process apdu rng =>
    by_cases hi : apdu.ins = insPutData
    swap
    · exact (process_effect c apdu rng).object memoryStore_holds hi hr
    have hpr : step K memoryStore c (.process apdu rng) = c.putData memoryStore apdu :=
      process_putData hi
    rcases putData_cases apdu c with
      ⟨-, hkp⟩ | ⟨oid', value, index', hq, hin', -, hs⟩
    · rw [hpr, hkp]
    rw [hpr, hs]
    rcases hwrite : (memoryStore.write (recordObjectBase + index') value c.store).1 with _ | _
    · rw [memoryStore_write_failed hwrite]
    refine memoryStore_holds.others _ _ _ _ fun hsm => hpt ⟨apdu, rng, value, rfl, hi, ?_, ?_⟩
    · rw [hq, objectIndex_inj hin' (hin.trans (congrArg some (by omega)))]
    · rw [hpr, hs, hwrite]
      rfl

/-! ## Reading back -/

/-- The object as GET DATA sends it: `53 { value }`, or `53 { 70 { value } }` for a certificate. -/
def objectTemplate (oid : Nat) (value : List UInt8) : List UInt8 :=
  Tlv.element 0x53 (if objectIsCertificate oid then Tlv.element 0x70 value else value)

/-- GET DATA after a run: what was put comes back. -/
def ReadsBack (K : PivCrypto) (oid : Nat) (value : List UInt8) (c : Piv Memory) (get : Apdu)
    (rng : Rng) : Prop :=
  (c.process K memoryStore get rng).1 = .ok (objectTemplate oid value)

/-- The value of an object comes back unless it is one of the two that have a default; of those,
  the empty value and the default itself do. -/
def ComesBack (oid : Nat) (value : List UInt8) : Prop :=
  value = [] ∨ ((oid = objectChuid → value = defaultChuid) ∧ (oid = objectCcc → value = defaultCcc))

theorem ComesBack.of_plain (hch : oid ≠ objectChuid) (hc : oid ≠ objectCcc) :
    ComesBack oid value :=
  .inr ⟨fun h => absurd h hch, fun h => absurd h hc⟩

/-- No value that can be stored is too long for a response. -/
theorem wrapObject_fits (hl : value.length ≤ maxRecordBytes) (oid : Nat) :
    wrapObject (if objectIsCertificate oid then some 0x70 else none) value =
      .ok (objectTemplate oid value) := by
  have hm : maxRecordBytes = 1536 := rfl
  have hs : scratchBytes = 1552 := rfl
  have hin := Tlv.lengthEncodedLen_le (show value.length ≤ 0xFFFF by omega)
  unfold wrapObject objectTemplate
  rcases objectIsCertificate oid with _ | _
  · refine if_neg (Nat.not_lt.mpr ?_)
    change 1 + Tlv.lengthEncodedLen value.length + value.length ≤ _
    omega
  refine if_neg (Nat.not_lt.mpr ?_)
  change 1 + Tlv.lengthEncodedLen (1 + Tlv.lengthEncodedLen value.length + value.length) +
    (1 + Tlv.lengthEncodedLen value.length + value.length) ≤ _
  have hor := Tlv.lengthEncodedLen_le
    (show 1 + Tlv.lengthEncodedLen value.length + value.length ≤ 0xFFFF by omega)
  omega

/-- An object with a default: the buffer it is read into holds an empty value only. -/
theorem default_stored {value default : List UInt8} (hpl : objectIsCertificate oid = false)
    (hd : default.length ≤ maxRecordBytes) :
    wrapObject none ((((some value).bind (BoundedBytes.ofSlice 0)).map (·.val)).getD default) =
      .ok (objectTemplate oid value) ↔ value = [] ∨ value = default := by
  have hwr : ∀ v : List UInt8, v.length ≤ maxRecordBytes →
      wrapObject none v = .ok (Tlv.element 0x53 v) := by
    exact fun v hv => wrapObject_fits hv objectChuid
  have ht : objectTemplate oid value = Tlv.element 0x53 value := by
    unfold objectTemplate
    rw [hpl]
    rfl
  rw [ht]
  cases value with
  | nil => exact iff_of_true (hwr [] (Nat.zero_le _)) (.inl rfl)
  | cons first rest =>
    change wrapObject none default = _ ↔ _
    rw [hwr default hd]
    constructor
    · intro h
      exact .inr (Tlv.element_inj (congrArg Response.data h)).symm
    · rintro (h | h)
      · cases h
      · rw [h]

theorem objectAnswer_stored {stored : Nat → Option (List UInt8)} {oid index : Nat}
    (hin : objectIndex oid = some index)
    (hs : stored (recordObjectBase + index) = some value)
    (hl : value.length ≤ maxRecordBytes) :
    objectAnswer stored oid = .ok (objectTemplate oid value) ↔ ComesBack oid value := by
  have hh : oid ≠ objectKeyHistory := by
    rintro rfl
    exact absurd hin nofun
  unfold objectAnswer
  rw [if_neg hh, hin]
  dsimp only
  rw [hs]
  by_cases hch : oid = objectChuid
  · subst hch
    rw [if_pos rfl, default_stored rfl (by decide)]
    exact or_congr_right ⟨fun h => ⟨fun _ => h, fun h => absurd h nofun⟩, fun h => h.1 rfl⟩
  rw [if_neg hch]
  by_cases hc : oid = objectCcc
  · subst hc
    rw [if_pos rfl, default_stored rfl (by decide)]
    exact or_congr_right ⟨fun h => ⟨fun h => absurd h nofun, fun _ => h⟩, fun h => h.2 rfl⟩
  rw [if_neg hc]
  have hsl : (some value).bind (BoundedBytes.ofSlice maxRecordBytes) = some ⟨value, hl⟩ :=
    dif_pos hl
  rw [hsl]
  exact iff_of_true (wrapObject_fits hl oid) (.of_plain hch hc)

/-- PUT DATA for an object does not change what GET DATA answers for anything else. -/
theorem putData_others {c : Piv Memory} {put get : Apdu}
    (ht : putRequest put.data = some (oid, value)) (hg : requestObjectId get.data ≠ some oid) :
    ((c.putData memoryStore put).2.getData memoryStore get).1 = (c.getData memoryStore get).1 := by
  by_cases hp : get.p1 = 0x3F ∧ get.p2 = 0xFF
  swap
  · have hr : ∀ c : Piv Memory, (c.getData memoryStore get).1 = .status .incorrectParameters := by
      intro c
      unfold getData
      rw [if_pos (by rwa [← not_and_or])]
    rw [hr, hr]
  rcases ho : requestObjectId get.data with _ | other
  · have hr : ∀ c : Piv Memory, (c.getData memoryStore get).1 = .status .wrongData := by
      intro c
      unfold getData
      rw [if_neg (by rw [hp.1, hp.2]; decide), ho]
    rw [hr, hr]
  rw [getData_answer hp ho, getData_answer hp ho]
  have hoh : ∀ index, objectIndex other = some index →
      memoryContent (c.putData memoryStore put).2.store (recordObjectBase + index) =
        memoryContent c.store (recordObjectBase + index) := by
    intro index hin
    rcases putData_cases put c with
      ⟨-, hkp⟩ | ⟨oid', value', index', hq, hin', -, hs⟩
    · rw [hkp]
    rw [hs]
    refine memoryStore_holds.others _ _ _ _ fun hsm => hg ?_
    have hsm' : index = index' := by omega
    have hbt := hq.symm.trans ht
    rw [ho, objectIndex_inj hin (hsm' ▸ hin'), (Prod.mk.inj (Option.some.inj hbt)).1]
  unfold objectAnswer
  rcases hin : objectIndex other with _ | index
  · rfl
  · dsimp only
    rw [hoh index hin]

/-- An accepted PUT DATA is read back by every later GET DATA for the object, up to the next
  accepted PUT DATA for it, and changes nothing that GET DATA answers for other objects, exactly
  where the value is one that comes back. -/
theorem put_data_reads_back {c : Piv Memory} {put get : Apdu} {rng rng' : Rng} {oid : Nat}
    {value : List UInt8} {es : List Event} (hput : put.ins = insPutData)
    (hrequest : putRequest put.data = some (oid, value))
    (hok : (c.process K memoryStore put rng).1.sw = .ok)
    (hes : Runs.Every (fun c e => (step K memoryStore c e).2) (fun c e => ¬PutsObject K oid c e)
      (c.process K memoryStore put rng).2 es)
    (hget : get.ins = insGetData) (hp : get.p1 = 0x3F ∧ get.p2 = 0xFF)
    (hoid : requestObjectId get.data = some oid) :
    (ReadsBack K oid value (Runs.run (fun c e => (step K memoryStore c e).2)
        (c.process K memoryStore put rng).2 es) get rng' ∧
      ∀ (other : Apdu) (rng'' : Rng), other.ins = insGetData →
        requestObjectId other.data ≠ some oid →
        ((c.process K memoryStore put rng).2.process K memoryStore other rng'').1 =
          (c.process K memoryStore other rng'').1) ↔ ComesBack oid value := by
  -- The accepted write put the value into the record of the object, and the run leaves it there.
  obtain ⟨index, hindex, hlen, hstored⟩ : ∃ index, objectIndex oid = some index ∧
      value.length ≤ maxRecordBytes ∧ memoryContent (c.process K memoryStore put rng).2.store
        (recordObjectBase + index) = some value := by
    rw [process_putData hput] at hok ⊢
    rcases putData_cases put c with
      ⟨hrefused, -⟩ | ⟨oid', value', index, hrequest', hindex, hlen, hresult⟩
    · exact absurd hok hrefused
    obtain ⟨rfl, rfl⟩ := Prod.mk.inj (Option.some.inj (hrequest'.symm.trans hrequest))
    rw [hresult] at hok ⊢
    refine ⟨index, hindex, hlen, memoryStore_holds.written _ _ _ ?_⟩
    rcases hwrite : (memoryStore.write (recordObjectBase + index) value' c.store).1 with _ | _
    · rw [hwrite] at hok
      cases hok
    · rfl
  have hkept := hes.keep
    (fun c e hc he => (step_object hindex c e he).trans hc) hstored
  unfold ReadsBack
  rw [process_getData hget, getData_answer hp hoid]
  constructor
  · exact fun h => (objectAnswer_stored hindex hkept hlen).mp h.1
  intro h
  refine ⟨(objectAnswer_stored hindex hkept hlen).mpr h, fun other rng'' hother hne => ?_⟩
  rw [process_getData hother, process_getData hother, process_putData hput]
  exact putData_others hrequest hne

/-- An empty card after a SELECT and an authentication with the factory management key. -/
def managedCard : Piv Memory :=
  Runs.run (fun c e => (step exampleCrypto memoryStore c e).2) (new [])
    [.select, .process askNonce zeros, .process returnNonce zeros]

/-- PUT DATA and GET DATA for the object `5FC1xx`. -/
def putObject (last : UInt8) (value : List UInt8) : Apdu :=
  ⟨insPutData, 0x3F, 0xFF, [0x5C, 0x03, 0x5F, 0xC1, last] ++ Tlv.element 0x53 value, none⟩

def getObject (last : UInt8) : Apdu :=
  ⟨insGetData, 0x3F, 0xFF, [0x5C, 0x03, 0x5F, 0xC1, last], some 256⟩

theorem put_data_reads_back_printed :
    ReadsBack exampleCrypto objectPrinted [0x07]
      (Runs.run (fun c e => (step exampleCrypto memoryStore c e).2)
        (managedCard.process exampleCrypto memoryStore (putObject 0x09 [0x07]) zeros).2 [.select])
      (getObject 0x09) zeros := by
  have hselect : Runs.Every (fun c e => (step exampleCrypto memoryStore c e).2)
      (fun c e => ¬PutsObject exampleCrypto objectPrinted c e)
      (managedCard.process exampleCrypto memoryStore (putObject 0x09 [0x07]) zeros).2 [.select] := by
    refine ⟨?_, trivial⟩
    rintro ⟨_, _, _, he, _⟩
    cases he
  exact ((put_data_reads_back rfl (by decide) (by decide) hselect rfl ⟨rfl, rfl⟩ (by decide)).mpr
    (.of_plain nofun nofun)).1

/-- A CHUID of one byte is accepted, and GET DATA then answers the built-in one. -/
theorem chuid_not_read_back :
    (managedCard.process exampleCrypto memoryStore (putObject 0x02 [0x07]) zeros).1 = .status .ok ∧
    ((managedCard.process exampleCrypto memoryStore (putObject 0x02 [0x07]) zeros).2.process
      exampleCrypto memoryStore (getObject 0x02) zeros).1 =
        .ok (objectTemplate objectChuid defaultChuid) ∧
    ¬ReadsBack exampleCrypto objectChuid [0x07]
      (managedCard.process exampleCrypto memoryStore (putObject 0x02 [0x07]) zeros).2
      (getObject 0x02) zeros := by
  refine ⟨by decide, by decide, ?_⟩
  unfold ReadsBack
  decide

end AegisToken.Applets.Piv
