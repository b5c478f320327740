/-
  The PIV commands of the host tool (aegistoken-host piv_cmd.rs) against the applet.
  `piv_import_cert` puts `53 { 70 { der } 71 01 00 FE 00 }`, of which the applet stores what is
  inside the `53`. On GET DATA the applet wraps the stored bytes of a certificate in `53 { 70 { … } }`
  again, so the host, which unwraps two levels, gets the inner `70` element and its trailer in place
  of the certificate: `imported_certificate_not_read_back`.
-/
import AegisToken.Applets.PivObjects

namespace AegisToken.Host
open Applets ByteCodec

/-! ## TLV -/

/-- A definite length, as both host commands write it. From 65536 on it is cut to two bytes. -/
def encodeTlvLength (len : Nat) : List UInt8 :=
  if len < 0x80 then [UInt8.ofNat len]
  else if len ≤ 0xFF then [0x81, UInt8.ofNat len]
  else [0x82, UInt8.ofNat (len >>> 8), UInt8.ofNat (len &&& 0xFF)]

/-- Read a length of at most two bytes: it and what follows. -/
def tlvReadLength : List UInt8 → Option (Nat × List UInt8)
  | [] => none
  | first :: rest =>
    if first < 0x80 then some (first.toNat, rest)
    else if first = 0x81 then
      match rest with
      | len :: rest => some (len.toNat, rest)
      | [] => none
    else if first = 0x82 then
      match rest with
      | hi :: lo :: rest => some ((hi.toNat <<< 8) ||| lo.toNat, rest)
      | _ => none
    else none

/-- The value of the first of at most `elements` elements with the tag. -/
def extractTlvIn (target : UInt8) : Nat → List UInt8 → Option (List UInt8)
  | 0, _ => none
  | _, [] => none
  | elements + 1, tag :: data =>
    match tlvReadLength data with
    | none => none
    | some (len, body) =>
      if body.length < len then none
      else if tag = target then some (body.take len)
      else extractTlvIn target elements (body.drop len)

/-- Simple TLV extractor for PIV responses. An element has at least one byte, so there are no more
  elements than bytes. -/
def extractTlv (data : List UInt8) (target : UInt8) : Option (List UInt8) :=
  extractTlvIn target data.length data

def extractCertDer (data : List UInt8) : Option (List UInt8) :=
  match extractTlv data 0x53 with
  | none => none
  | some object => extractTlv object 0x70

theorem lengthBytes_eq {len : Nat} (hl : len ≤ 0xFFFF) :
    Tlv.lengthBytes len = encodeTlvLength len := by
  unfold Tlv.lengthBytes Tlv.lengthEncodedLen encodeTlvLength
  split_ifs
  · rfl
  · rfl
  have hhi : len / 256 = len >>> 8 := (Nat.shiftRight_eq_div_pow len 8).symm
  have hlo : UInt8.ofNat len = UInt8.ofNat (len &&& 0xFF) := by
    rw [show len &&& 0xFF = len % 256 from Nat.and_two_pow_sub_one_eq_mod len 8]
    exact UInt8.ofNat_mod_size.symm
  change [0x82, UInt8.ofNat (len / 256), UInt8.ofNat len] = _
  rw [hhi, hlo]

theorem tlvReadLength_encode {len : Nat} (hl : len ≤ 0xFFFF) (rest : List UInt8) :
    tlvReadLength (encodeTlvLength len ++ rest) = some (len, rest) := by
  have ho : ∀ n, n < 256 → (UInt8.ofNat n).toNat = n := fun n hn => UInt8.toNat_ofNat_of_lt' hn
  unfold encodeTlvLength
  split_ifs with hsh hm
  · unfold tlvReadLength
    have hlt : UInt8.ofNat len < 0x80 := by
      rw [UInt8.lt_iff_toNat_lt, ho len (by omega)]
      exact hsh
    rw [List.singleton_append]
    dsimp only
    rw [if_pos hlt, ho len (by omega)]
  · change some ((UInt8.ofNat len).toNat, rest) = _
    rw [ho len (by omega)]
  · change some (((UInt8.ofNat (len >>> 8)).toNat <<< 8) ||| (UInt8.ofNat (len &&& 0xFF)).toNat,
      rest) = _
    have hlo : len &&& 0xFF = len % 256 := Nat.and_two_pow_sub_one_eq_mod len 8
    rw [ho _ (by omega), ho _ (by omega), ← Nat.shiftLeft_add_eq_or_of_lt (by omega)]
    congr 2
    omega

theorem element_eq (tag : UInt8) {value : List UInt8} (hl : value.length ≤ 0xFFFF) :
    Tlv.element tag.toNat value = tag :: (encodeTlvLength value.length ++ value) := by
  have ht : Tlv.tagEncodedLen tag.toNat = 1 := if_pos (by have := tag.toNat_lt; omega)
  unfold Tlv.element
  rw [ht, lengthBytes_eq hl]
  change UInt8.ofNat tag.toNat :: (encodeTlvLength value.length ++ value) = _
  rw [UInt8.ofNat_toNat]

/-- What the applet writes as one element, the host reads. -/
theorem extractTlv_element (tag : UInt8) {value : List UInt8} (hl : value.length ≤ 0xFFFF) :
    extractTlv (Tlv.element tag.toNat value) tag = some value := by
  rw [element_eq tag hl]
  unfold extractTlv
  rw [List.length_cons]
  unfold extractTlvIn
  rw [tlvReadLength_encode hl]
  dsimp only
  rw [if_neg (Nat.lt_irrefl _), if_pos rfl, List.take_length]

/-! ## Certificates -/

/-- A certificate slot: the identifier of its object. -/
structure PivSlot where
  oid : UInt8 × UInt8 × UInt8
deriving DecidableEq

def slots : List PivSlot :=
  [⟨0x5F, 0xC1, 0x05⟩, ⟨0x5F, 0xC1, 0x0A⟩, ⟨0x5F, 0xC1, 0x0B⟩, ⟨0x5F, 0xC1, 0x01⟩]

/-- `5C 03 oid`. -/
def PivSlot.identifier (slot : PivSlot) : List UInt8 :=
  [0x5C, 0x03, slot.oid.1, slot.oid.2.1, slot.oid.2.2]

/-- `70 { der } 71 01 00 FE 00`: the certificate, its info byte and the empty check code. -/
def certificateObject (der : List UInt8) : List UInt8 :=
  0x70 :: encodeTlvLength der.length ++ der ++ [0x71, 0x01, 0x00, 0xFE, 0x00]

def importCertBody (slot : PivSlot) (der : List UInt8) : List UInt8 :=
  let inner := certificateObject der
  slot.identifier ++ 0x53 :: encodeTlvLength inner.length ++ inner

def PivSlot.object (slot : PivSlot) : Nat := ofBE [slot.oid.1, slot.oid.2.1, slot.oid.2.2]

variable {slot : PivSlot}

theorem readTag_identifier (hsl : slot ∈ slots) :
    Tlv.readTag [slot.oid.1, slot.oid.2.1, slot.oid.2.2] = some (slot.object, 3) := by
  simp only [slots, List.mem_cons, List.not_mem_nil, or_false] at hsl
  rcases hsl with rfl | rfl | rfl | rfl <;> decide

theorem next_identifier (slot : PivSlot) (rest : List UInt8) :
    Tlv.next (slot.identifier ++ rest) =
      some (0x5C, [slot.oid.1, slot.oid.2.1, slot.oid.2.2], rest) := by
  rfl

/-- The applet reads the host's length fields, whatever number is in them. -/
theorem readLength_encode (len : Nat) (rest : List UInt8) :
    ∃ n, Tlv.readLength (encodeTlvLength len ++ rest) = some (n, (encodeTlvLength len).length) := by
  unfold encodeTlvLength
  split_ifs with hsh hm
  · have hlt : UInt8.ofNat len < 0x80 := by
      rw [UInt8.lt_iff_toNat_lt, UInt8.toNat_ofNat_of_lt' (by omega : len < 256)]
      exact hsh
    refine ⟨(UInt8.ofNat len).toNat, ?_⟩
    rw [List.singleton_append]
    unfold Tlv.readLength
    dsimp only
    rw [if_pos hlt]
    rfl
  · exact ⟨_, rfl⟩
  · exact ⟨_, rfl⟩

/-- The applet sees the object as one element, of the length that the field says. -/
theorem next_object (len : Nat) (inner : List UInt8) :
    ∃ n, Tlv.next (0x53 :: encodeTlvLength len ++ inner) =
      if inner.length < n then none else some (0x53, inner.take n, inner.drop n) := by
  obtain ⟨n, hn⟩ := readLength_encode len inner
  refine ⟨n, ?_⟩
  have hdr : (0x53 :: encodeTlvLength len ++ inner).drop (1 + (encodeTlvLength len).length) =
      inner := by
    rw [List.cons_append, Nat.add_comm, List.drop_succ_cons, List.drop_left]
  change ((Tlv.readLength (encodeTlvLength len ++ inner)).bind fun x =>
    let body := (0x53 :: encodeTlvLength len ++ inner).drop (1 + x.2)
    if body.length < x.1 then none else some (0x53, body.take x.1, body.drop x.1)) = _
  rw [hn, Option.bind_some]
  rw [hdr]

/-- A PUT DATA that the applet accepts as one object carries exactly the certificate object. -/
theorem putRequest_import (hsl : slot ∈ slots) {der value : List UInt8}
    {oid : Nat} (h : Piv.putRequest (importCertBody slot der) = some (oid, value)) :
    oid = slot.object ∧ value = certificateObject der := by
  obtain ⟨n, hn⟩ := next_object (certificateObject der).length (certificateObject der)
  unfold Piv.putRequest importCertBody at h
  rw [List.append_assoc, next_identifier] at h
  simp only [Option.bind_eq_bind, Option.bind_some, ne_eq, not_true_eq_false, if_false] at h
  rw [readTag_identifier hsl, Option.bind_some, hn] at h
  split at h
  · cases h
  rw [Option.bind_some] at h
  -- Nothing may follow the object, so its length field covers all of it.
  split at h
  · cases h
  rename_i hrs
  obtain ⟨rfl, rfl⟩ := Prod.mk.inj (Option.some.inj h)
  refine ⟨rfl, List.take_of_length_le ?_⟩
  exact List.drop_eq_nil_iff.mp (not_not.mp hrs)

theorem certificateObject_length (der : List UInt8) :
    der.length < (certificateObject der).length := by
  unfold certificateObject
  simp only [List.length_append, List.length_cons]
  omega

theorem objectIndex_slot (hsl : slot ∈ slots) :
    slot.object ≠ Piv.objectChuid ∧ slot.object ≠ Piv.objectCcc ∧
      slot.object ≠ Piv.objectKeyHistory ∧ Piv.objectIsCertificate slot.object = true := by
  simp only [slots, List.mem_cons, List.not_mem_nil, or_false] at hsl
  rcases hsl with rfl | rfl | rfl | rfl <;> decide

section
variable {σ : Type} {K : PivCrypto} {S : PivStore σ} {content : σ → Nat → Option (List UInt8)}

/-- GET DATA for a certificate slot answers the stored bytes in two wrappers, or nothing. -/
theorem getData_certificate (hS : Piv.Holds S content) (hsl : slot ∈ slots) {c : Piv σ} {get : Apdu}
    (ho : Piv.requestObjectId get.data = some slot.object) {index : Nat} {value : List UInt8}
    (hin : Piv.objectIndex slot.object = some index)
    (hvl : content c.store (Piv.recordObjectBase + index) = some value)
    (hl : value.length ≤ Piv.maxRecordBytes) :
    (c.getData S get).1.data = [] ∨
      (c.getData S get).1.data = Tlv.element 0x53 (Tlv.element 0x70 value) := by
  obtain ⟨hch, hc, hh, hcr⟩ := objectIndex_slot hsl
  unfold Piv.getData
  split
  · exact .inl rfl
  rw [ho]
  dsimp only
  rw [if_neg hch, if_neg hc, if_neg hh, hin]
  simp only [Piv.read_eq]
  rcases hrd : (S.read (Piv.recordObjectBase + index) Piv.maxRecordBytes c.store).1 with _ | bytes
  · exact .inl rfl
  refine .inr ?_
  have hbt : bytes.val = value := Option.some.inj ((hS.read_value hrd).symm.trans hvl)
  dsimp only
  rw [hbt, Piv.wrapObject_fits hl]
  unfold Piv.objectTemplate
  rw [hcr]
  rfl

/-- No certificate that the host imports is what it reads back. -/
theorem imported_certificate_not_read_back (hS : Piv.Holds S content) (c : Piv σ) {slot : PivSlot}
    (hslot : slot ∈ slots) (der : List UInt8) {put get : Apdu} {rng rng' : Rng}
    (hput : put.ins = Piv.insPutData) (hbody : put.data = importCertBody slot der)
    (hok : (c.process K S put rng).1.sw = .ok)
    (hget : get.ins = Piv.insGetData) (hdata : get.data = slot.identifier) :
    extractCertDer ((c.process K S put rng).2.process K S get rng').1.data ≠ some der := by
  have hoid : Piv.requestObjectId get.data = some slot.object := by
    unfold Piv.requestObjectId
    have hnext := next_identifier slot []
    rw [List.append_nil] at hnext
    rw [hdata, hnext]
    simp only [Option.bind_eq_bind, Option.bind_some, ne_eq, not_true_eq_false, if_false]
    rw [readTag_identifier hslot]
    rfl
  rw [Piv.process_getData hget, Piv.process_putData hput]
  rw [Piv.process_putData hput] at hok
  rcases Piv.putData_cases put c with
    ⟨hrefused, -⟩ | ⟨oid, value, index, hrequest, hindex, hlen, hresult⟩
  · exact absurd hok hrefused
  rw [hbody] at hrequest
  obtain ⟨rfl, rfl⟩ := putRequest_import hslot hrequest
  have hstored : content (c.putData S put).2.store (Piv.recordObjectBase + index) =
      some (certificateObject der) := by
    rw [hresult] at hok ⊢
    refine hS.written _ _ _ ?_
    rcases hwrite : (S.write (Piv.recordObjectBase + index) (certificateObject der) c.store).1 with
      _ | _
    · rw [hwrite] at hok
      cases hok
    · rfl
  have hmax : Piv.maxRecordBytes = 1536 := rfl
  have helement : (Tlv.element 0x70 (certificateObject der)).length ≤ 0xFFFF := by
    have := Tlv.lengthEncodedLen_le (show (certificateObject der).length ≤ 0xFFFF by omega)
    rw [Tlv.length_element]
    change 1 + Tlv.lengthEncodedLen _ + (certificateObject der).length ≤ _
    omega
  rcases getData_certificate hS hslot hoid hindex hstored hlen with hnone | hsome
  · rw [hnone]
    exact nofun
  -- The host unwraps what the applet wrapped, and is left with the object it had sent.
  have houter : extractTlv (Tlv.element 0x53 (Tlv.element 0x70 (certificateObject der))) 0x53 =
      some (Tlv.element 0x70 (certificateObject der)) := extractTlv_element 0x53 helement
  have hinner : extractTlv (Tlv.element 0x70 (certificateObject der)) 0x70 =
      some (certificateObject der) :=
    extractTlv_element 0x70 (show (certificateObject der).length ≤ 0xFFFF by omega)
  rw [hsome]
  unfold extractCertDer
  rw [houter]
  dsimp only
  rw [hinner]
  intro heq
  have := certificateObject_length der
  rw [Option.some.inj heq] at this
  exact Nat.lt_irrefl _ this

end

/-- The PUT DATA that imports a certificate, and the GET DATA that `piv_list` sends. -/
def importCert (slot : PivSlot) (der : List UInt8) : Apdu :=
  ⟨Piv.insPutData, 0x3F, 0xFF, importCertBody slot der, none⟩

def readCert (slot : PivSlot) : Apdu := ⟨Piv.insGetData, 0x3F, 0xFF, slot.identifier, some 256⟩

theorem imported_certificate_not_read_back_small :
    extractCertDer ((Piv.managedCard.process Piv.exampleCrypto Piv.memoryStore
      (importCert ⟨0x5F, 0xC1, 0x05⟩ [0x30, 0x00]) Piv.zeros).2.process Piv.exampleCrypto
        Piv.memoryStore (readCert ⟨0x5F, 0xC1, 0x05⟩) Piv.zeros).1.data ≠ some [0x30, 0x00] :=
  imported_certificate_not_read_back Piv.memoryStore_holds _
    (show (⟨0x5F, 0xC1, 0x05⟩ : PivSlot) ∈ slots by decide) _ rfl rfl (by decide) rfl rfl

/-- A certificate of two bytes comes back as the nine bytes of the object it was sent in. -/
theorem certificate_comes_back_wrapped :
    (Piv.managedCard.process Piv.exampleCrypto Piv.memoryStore
      (importCert ⟨0x5F, 0xC1, 0x05⟩ [0x30, 0x00]) Piv.zeros).1 = .status .ok ∧
    extractCertDer ((Piv.managedCard.process Piv.exampleCrypto Piv.memoryStore
      (importCert ⟨0x5F, 0xC1, 0x05⟩ [0x30, 0x00]) Piv.zeros).2.process Piv.exampleCrypto
        Piv.memoryStore (readCert ⟨0x5F, 0xC1, 0x05⟩) Piv.zeros).1.data =
      some [0x70, 0x02, 0x30, 0x00, 0x71, 0x01, 0x00, 0xFE, 0x00] :=
  ⟨by decide, by decide +kernel⟩

end AegisToken.Host
