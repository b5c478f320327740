/-
  Whole responses at the host: a command, and GET RESPONSE as long as the status is 61xx.
  A response that a touch releases goes out whole, whatever length its command asked for:
  `touch_framing_iff`. The commands `oath list` and `piv list` of the host tool (oath_cmd.rs,
  piv_cmd.rs) transmit once and take 9000 only, so they miss every response of more than 256
  bytes: `host_lists_iff`.
-/
import AegisToken.Applets.CardIsolation
import AegisToken.Applets.OathTouch
import AegisToken.Host.OathCmd

namespace AegisToken.Host
open Applets ByteCodec Chainer

variable {α β σ : Type} {cap : Nat} {applets : List (Applet α)} {applets' : List (Applet β)}
  {data : List UInt8} {c : Oath σ}

/-- The selected applet answers a command that asks for `le` bytes with 9000 and `data`. -/
def AnswersOk (r : Router applets cap) (frame : List UInt8) (rng : Rng) (le : Nat)
    (data : List UInt8) : Prop :=
  ∃ apdu index, Apdu.parse frame = .ok (claInterindustry, apdu) ∧ apdu.expectedLen = le ∧
    apdu.ins ≠ Applets.insSelect ∧ apdu.ins ≠ insGetResponse ∧ apdu.ins ≠ insSendRemaining ∧
    r.selected = some index ∧ ((applets.get index).process apdu rng r.state).1 = .ok data

theorem command_of_answersOk {r : Router applets cap} {frame data : List UInt8} {rng : Rng}
    {le : Nat} (h : AnswersOk r frame rng le data) :
    (r.command frame rng).1 = (r.chain.begin data le).1 := by
  obtain ⟨apdu, index, hps, rfl, hs, hg, hsn, hsl, hok⟩ := h
  rcases hpr : (applets.get index).process apdu rng r.state with ⟨response, state⟩
  obtain rfl : response = .ok data := (congrArg Prod.fst hpr).symm.trans hok
  simp only [Router.command, Router.forward, hps, hsl, hpr, hs, hg, hsn,
    ne_eq, not_true_eq_false, if_false, false_or, false_and]
  rfl

theorem begin_eq_ok_iff (c : Chainer cap) (data : List UInt8) (le : Nat) :
    (c.begin data le).1 = .ok data ↔ data.length ≤ cap ∧ data.length ≤ limit le := by
  unfold Chainer.begin
  by_cases hc : data.length ≤ cap
  · rw [show BoundedBytes.ofSlice cap data = some ⟨data, hc⟩ from dif_pos hc]
    change ((⟨⟨data, hc⟩, 0, Nat.zero_le _⟩ : Chainer cap).deliver le).1 = _ ↔ _
    rw [(Chainer.deliver_eq _ le).1, and_iff_right hc]
    change chunk data le = _ ↔ _
    refine ⟨fun h => ?_, chunk_of_le⟩
    by_contra hln
    have hsw : _ = Sw.ok.isBytesRemaining := congrArg (·.sw.isBytesRemaining) h
    rw [chunk, if_neg hln] at hsw
    cases (Sw.isBytesRemaining_bytesRemaining _).symm.trans hsw
  · rw [show BoundedBytes.ofSlice cap data = none from dif_neg hc]
    refine iff_of_false (fun h => ?_) fun h => hc h.1
    cases show Sw.noPreciseDiagnosis = .ok from congrArg Response.sw h

/-! ## Touch -/

/-- The responses to a command: after `61xx` the host asks for more, with these lengths. -/
def obtained (rng : Rng) : List UInt8 → Response × Router applets cap → List Response
  | [], x => [x.1]
  | le :: les, x =>
    x.1 :: if x.1.sw.isBytesRemaining then
      obtained rng les (x.2.command [claInterindustry, insGetResponse, 0, 0, le] rng) else []

theorem obtained_ok (rng : Rng) (les : List UInt8) {x : Response × Router applets cap}
    (h : x.1 = .ok data) : obtained rng les x = [.ok data] := by
  cases les with
  | nil => exact congrArg ([·]) h
  | cons le les =>
    rw [obtained, h]
    exact congrArg (_ :: ·) (if_neg (show ¬Sw.ok.isBytesRemaining = true by decide))

/-- A command, and where it is answered with presence required the touch that follows. -/
def touched (r : Router applets cap) (frame : List UInt8) (rng rng' : Rng) :
    Response × Router applets cap :=
  let x := r.command frame rng
  if x.1.sw = .presenceRequired then x.2.confirmPresence rng' else x

/-- What a touch releases is framed like a direct answer exactly if that is one response. -/
theorem touch_framing_iff (waiting : Router applets cap) (direct : Router applets' cap)
    {frame data : List UInt8} {rng rng' : Rng} {le : Nat} (les : List UInt8)
    (hasked : (waiting.command frame rng').1.sw = .presenceRequired)
    (htouched : ((waiting.command frame rng').2.confirmPresence rng).1 = .ok data)
    (hdirect : AnswersOk direct frame rng' le data) :
    obtained rng les (touched waiting frame rng' rng) =
      obtained rng les (direct.command frame rng') ↔
      data.length ≤ cap ∧ data.length ≤ limit le := by
  rw [show touched waiting frame rng' rng = _ from if_pos hasked, obtained_ok rng les htouched,
    ← begin_eq_ok_iff direct.chain, ← command_of_answersOk hdirect]
  refine ⟨fun h => ?_, fun h => (obtained_ok rng les h).symm⟩
  cases les <;> exact (List.cons.inj h).1.symm

/-- An OATH card after SELECT and these commands. -/
def oathCard (puts : List Applets.Apdu) :
    Router [Oath.applet Oath.exampleCrypto Oath.memory] 2048 :=
  (⟨Applets.insSelect, selectByDfName, 0, aidOath, none⟩ :: puts).foldl
    (fun r put => (r.command (commandBytes put) Piv.zeros).2) (.new _ _ (.new []))

/-- CALCULATE for the credential `"a"`, asking for `le` bytes. -/
def calculateFrame (le : UInt8) : List UInt8 :=
  commandBytes (Oath.calculateFor (List.replicate 8 0)) ++ [le]

/-- A card whose credential wants a touch, and one whose credential wants none. -/
def waitingCard : Router [Oath.applet Oath.exampleCrypto Oath.memory] 2048 :=
  oathCard [Oath.putTouch]

def directCard : Router [Oath.applet Oath.exampleCrypto Oath.memory] 2048 :=
  oathCard [⟨Oath.insPut, 0, 0, [0x71, 1, 0x61, 0x73, 3, 0x21, 6, 0x01], none⟩]

theorem touch_framing_iff_code :
    obtained Piv.zeros [] (touched waitingCard (calculateFrame 0) Piv.zeros Piv.zeros) =
      obtained Piv.zeros [] (directCard.command (calculateFrame 0) Piv.zeros) :=
  (touch_framing_iff waitingCard directCard [] (by decide +kernel)
    (Response.eq_ok (by decide +kernel))
    ⟨_, 0, rfl, rfl, by decide, by decide, by decide, by decide +kernel, by decide +kernel⟩).mpr
    (by decide +kernel)

/-- To a command that asks for one byte the touch releases all seven. -/
theorem touch_ignores_le :
    (waitingCard.command (calculateFrame 1) Piv.zeros).1.sw = .presenceRequired ∧
    obtained Piv.zeros [] (touched waitingCard (calculateFrame 1) Piv.zeros Piv.zeros) ≠
      obtained Piv.zeros [] (directCard.command (calculateFrame 1) Piv.zeros) := by
  decide +kernel

/-! ## Lists -/

def accepted (response : Response) : Option (List UInt8) :=
  if response.sw = .ok then some response.data else none

/-- LIST of `oath_list`, and GET DATA of `piv_list` for each of its slots. -/
def listFrames : List (List UInt8) :=
  [0x00, 0xA1, 0x00, 0x00] ::
    slots.map fun slot => [0x00, 0xCB, 0x3F, 0xFF, 0x05] ++ slot.identifier ++ [0x00]

/-- `tlv_iter`, for at most so many elements. -/
def tlvIter : Nat → List UInt8 → List (UInt8 × List UInt8)
  | 0, _ => []
  | _, [] => []
  | elements + 1, tag :: data =>
    match tlvReadLength data with
    | none => []
    | some (len, body) =>
      if body.length < len then [] else (tag, body.take len) :: tlvIter elements (body.drop len)

def listedEntries (body : List UInt8) : List (List UInt8) :=
  ((tlvIter body.length body).filter fun x => x.1 = 0x72 ∧ x.2 ≠ []).map Prod.snd

theorem tlvIter_elements {values : List (List UInt8)} {n : Nat}
    (hvl : ∀ value ∈ values, value.length ≤ 0xFFFF)
    (hn : (values.flatMap (Tlv.element 0x72)).length ≤ n) :
    tlvIter n (values.flatMap (Tlv.element 0x72)) = values.map fun value => (0x72, value) := by
  induction values generalizing n with
  | nil => cases n <;> rfl
  | cons value rest ih =>
    have hl := hvl value List.mem_cons_self
    have he : Tlv.element 0x72 value = _ := element_eq 0x72 hl
    rw [List.flatMap_cons, he, List.cons_append, List.append_assoc] at hn ⊢
    rcases n with _ | n
    · exact absurd hn (Nat.not_succ_le_zero _)
    unfold tlvIter
    rw [tlvReadLength_encode hl]
    simp only [List.length_append, List.length_cons] at hn
    dsimp only
    rw [if_neg (by rw [List.length_append]; omega), List.take_left, List.drop_left, List.map_cons,
      ih (fun v hv => hvl v (List.mem_cons_of_mem _ hv)) (by omega)]

/-- The entry of a credential: its type and algorithm, and its name. -/
def listEntry (credential : Oath.Credential) : List UInt8 :=
  (credential.kind ||| credential.algorithm) :: credential.name.val

theorem length_listEntry_le (credential : Oath.Credential) : (listEntry credential).length ≤ 65 :=
  Nat.succ_le_succ credential.name.property

theorem elements_of_list (h : c.list = .ok data) :
    (c.credentials.val.map listEntry).flatMap (Tlv.element 0x72) = data := by
  by_cases hah : Oath.Authorised c
  · unfold Oath.list Oath.elementsAnswer at h
    rw [Oath.requireAuth_ok hah] at h
    dsimp only at h
    rw [Oath.appendElements_eq (Nat.zero_le _), List.nil_append, List.flatMap_map] at h
    split_ifs at h
    · rw [List.flatMap_map]
      exact congrArg Response.data h
    · exact absurd (show Sw.notEnoughMemory = .ok from congrArg Response.sw h) nofun
  · rw [Oath.list_denied hah] at h
    exact absurd (show Sw.securityStatusNotSatisfied = .ok from congrArg Response.sw h) nofun

/-- The whole answer to LIST shows one entry for each credential. -/
theorem listedEntries_list (h : c.list = .ok data) :
    listedEntries data = c.credentials.val.map listEntry := by
  have hsh : ∀ value ∈ c.credentials.val.map listEntry, value.length ≤ 0xFFFF := by
    intro value hvl
    obtain ⟨credential, -, rfl⟩ := List.mem_map.mp hvl
    exact (length_listEntry_le credential).trans (by decide)
  rw [listedEntries, ← elements_of_list h, tlvIter_elements hsh le_rfl, List.filter_eq_self.mpr]
  · simp
  · simp [listEntry]

theorem length_list (h : c.list = .ok data) :
    data.length = (c.credentials.val.map fun k => 3 + k.name.val.length).sum := by
  rw [← elements_of_list h, List.flatMap_map, List.length_flatMap]
  refine congrArg List.sum (List.map_congr_left fun k _ => ?_)
  rw [Tlv.length_element_short rfl ((length_listEntry_le k).trans_lt (by decide)), listEntry,
    List.length_cons]
  omega

theorem accepted_eq_some_iff {response : Response} :
    accepted response = some data ↔ response = .ok data := by
  obtain ⟨body, sw⟩ := response
  simp only [accepted, Response.ok, Response.mk.injEq]
  split <;> simp_all

theorem host_lists_iff (r : Router applets cap) {frame data : List UInt8} {rng : Rng} {le : Nat}
    (hframe : frame ∈ listFrames) (h : AnswersOk r frame rng le data) :
    (accepted (r.command frame rng).1 = some data ↔ data.length ≤ cap ∧ data.length ≤ 256) ∧
    ∀ c : Oath σ, c.list = .ok data → listedEntries data = c.credentials.val.map listEntry ∧
      data.length = (c.credentials.val.map fun k => 3 + k.name.val.length).sum := by
  refine ⟨?_, fun c h => ⟨listedEntries_list h, length_list h⟩⟩
  have hlimit : limit le = 256 := by
    obtain ⟨apdu, -, hparse, rfl, -⟩ := h
    simp only [listFrames, slots, List.map_cons, List.map_nil, List.mem_cons, List.not_mem_nil,
      or_false] at hframe
    rcases hframe with rfl | rfl | rfl | rfl | rfl <;> cases hparse <;> rfl
  rw [accepted_eq_some_iff, command_of_answersOk h, begin_eq_ok_iff, hlimit]

theorem host_lists_iff_one :
    accepted (directCard.command [0x00, 0xA1, 0x00, 0x00] Piv.zeros).1 =
      some [0x72, 0x02, 0x21, 0x61] :=
  (host_lists_iff (σ := Unit) directCard List.mem_cons_self ⟨_, 0, rfl, rfl, nofun, nofun,
    nofun, by decide +kernel, by decide +kernel⟩).1.mpr (by decide)

/-- Four credentials with names of 64 bytes. -/
def longNames : Router [Oath.applet Oath.exampleCrypto Oath.memory] 2048 :=
  oathCard ((List.range 4).map fun i => ⟨Oath.insPut, 0, 0,
    [0x71, 64] ++ List.replicate 64 (UInt8.ofNat i) ++ [0x73, 3, 0x21, 6, 0x01], none⟩)

theorem long_list_refused :
    longNames.state.credentials.val.length = 4 ∧
    accepted (longNames.command [0x00, 0xA1, 0x00, 0x00] Piv.zeros).1 = none := by
  decide +kernel

end AegisToken.Host
