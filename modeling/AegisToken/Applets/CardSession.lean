/-
  The loop around the card (firmware main.rs `run_card`), up to the first error.
  The host sends messages, each cut into bulk packets in any way. After each packet the card is
  polled until it has nothing more to say, and a command that waits for user presence is resolved
  at once. A message is answered when its last packet has come: by the poll, or by the resolution.
  So the responses are one for each message, in their order, each with the sequence number of its
  message and the length of its own payload.
  The output buffer has `maxMessageBytes`. An applet response has a header of ten bytes in front
  and a status word behind, so the response buffer must leave room for these twelve: the default
  of 2048 bytes does. With a larger one a response may not fit: `long_response_overflows`.
-/
import AegisToken.Applets.Card

namespace AegisToken.Applets
open ByteCodec History
open Ccid (CcidError Assembler headerLen maxMessageBytes)

variable {α : Type} {cap message : Nat} {applets : List (Applet α)}

/-! ## Messages -/

/-- A complete message: a header that gives the length of what follows it. -/
structure IsFrame (frame : List UInt8) : Prop where
  header : headerLen ≤ frame.length
  length : ofLE ((frame.drop 1).take 4) = frame.length - headerLen

instance : DecidablePred IsFrame := fun _ =>
  decidable_of_iff _ ⟨fun h => ⟨h.1, h.2⟩, fun h : IsFrame _ => And.intro h.header h.length⟩

def bSeq (frame : List UInt8) : UInt8 := frame.getD 6 0

/-- A response to a message: complete, and with its sequence number. -/
structure Answers (response frame : List UInt8) : Prop where
  isFrame : IsFrame response
  sequence : bSeq response = bSeq frame

theorem isFrame_header (messageType sequence a b c : UInt8) {payload : List UInt8}
    (h : payload.length < 2 ^ 32) :
    IsFrame (Ccid.header messageType payload.length sequence ++ [a, b, c] ++ payload) ∧
      bSeq (Ccid.header messageType payload.length sequence ++ [a, b, c] ++ payload) =
        sequence := by
  have hl : (toLE 4 payload.length).length = 4 := length_toLE ..
  have hvl : ofLE (toLE 4 payload.length) = payload.length := ofLE_toLE h
  unfold Ccid.header
  match htl : toLE 4 payload.length, hl with
  | [l₀, l₁, l₂, l₃], _ =>
    rw [htl] at hvl
    refine ⟨⟨?_, ?_⟩, rfl⟩
    · simp [headerLen]
    · refine hvl.trans ?_
      simp [headerLen]

theorem encodeInto_ok {response : Ccid.Response}
    (h : headerLen + response.data.length ≤ maxMessageBytes) :
    ∃ bytes, response.encodeInto maxMessageBytes = .ok bytes ∧ IsFrame bytes ∧
      bSeq bytes = response.sequence := by
  have hlt : response.data.length < 2 ^ 32 := by
    have : maxMessageBytes < 2 ^ 32 := by decide
    omega
  unfold Ccid.Response.encodeInto
  rw [if_neg (Nat.not_lt.mpr h)]
  exact ⟨_, rfl, isFrame_header _ _ _ _ _ hlt⟩

theorem encodeDataBlock_ok (sequence : UInt8) {response : Response}
    (h : response.data.length + 12 ≤ maxMessageBytes) :
    ∃ bytes, encodeDataBlock sequence response maxMessageBytes = .ok bytes ∧ IsFrame bytes ∧
      bSeq bytes = sequence := by
  have hsw : response.sw.bytes.length = 2 := length_toBE ..
  have hl : (response.data ++ response.sw.bytes).length = response.data.length + 2 := by
    rw [List.length_append, hsw]
  have hh : headerLen = 10 := rfl
  have hlt : (response.data ++ response.sw.bytes).length < 2 ^ 32 := by
    have : maxMessageBytes < 2 ^ 32 := by decide
    omega
  unfold encodeDataBlock Response.encodeInto
  rw [if_neg (by omega), if_neg (by omega)]
  dsimp only
  unfold Ccid.writeDataBlockHeader
  rw [if_neg (by omega)]
  exact ⟨_, rfl, isFrame_header _ _ _ _ _ hlt⟩

/-! ## Requests -/

/-- The payload that a request echoes is of a fixed length. -/
def Ccid.Request.EchoFits : Ccid.Request → Prop
  | .setParameters _ _ _ data => data.length = Ccid.t0Parameters.length
  | .setDataRateAndClock _ _ data => data.length = Ccid.dataRateAndClockLen
  | _ => True

/-- A parsed request has a given sequence number, and its echo fits. -/
def Ccid.Request.Parsed (sequence : UInt8) (parsed : Except CcidError Ccid.Request) : Prop :=
  ∀ request, parsed = .ok request → request.sequence = sequence ∧ request.EchoFits

theorem Ccid.Request.Parsed.of_ok {sequence : UInt8} {request : Ccid.Request}
    (hs : request.sequence = sequence) (hft : request.EchoFits) :
    Parsed sequence (.ok request) := by
  intro parsed hp
  cases hp
  exact ⟨hs, hft⟩

theorem Ccid.Request.ofHeader_ok (header : Ccid.Header) (payload : List UInt8) :
    Parsed header.sequence (ofHeader header payload) := by
  apply iteInduction (fun _ => .of_ok rfl trivial)
  iterate 2
    intro _
    apply iteInduction (fun _ => .of_ok rfl trivial)
  intro _
  apply iteInduction (fun hs => .of_ok rfl hs.2)
  iterate 2
    intro _
    apply iteInduction (fun _ => .of_ok rfl trivial)
  intro _
  apply iteInduction (fun hrt => .of_ok rfl hrt.2)
  iterate 3
    intro _
    apply iteInduction (fun _ => .of_ok rfl trivial)
  intro _ request hp
  cases hp

theorem Ccid.Request.parse_ok {frame : List UInt8} {request : Ccid.Request}
    (h : parse frame = .ok request) : request.sequence = bSeq frame ∧ request.EchoFits := by
  unfold parse at h
  rcases hh : Ccid.Header.parse frame with error | header
  · rw [hh] at h
    cases h
  rw [hh] at h
  obtain ⟨hs, hft⟩ := ofHeader_ok _ _ _ h
  refine ⟨hs.trans ?_, hft⟩
  unfold Ccid.Header.parse at hh
  split at hh
  · dsimp only at hh
    split at hh
    · cases hh
    · cases hh
      rfl
  · cases hh

/-! ## Responses of applets -/

/-- Every response of the applet fits the response buffer. -/
def Applet.Fits (cap : Nat) (applet : Applet α) : Prop :=
  ∀ state call, (applet.call state call).1.data.length ≤ cap

theorem Chainer.deliver_length (chain : Chainer cap) (le : Nat) :
    (chain.deliver le).1.data.length ≤ cap := by
  have hrs : (chain.deliver le).1.data.length ≤ chain.rest.length := by
    rw [← (chain.deliver_spec le).1, List.length_append]
    exact Nat.le_add_right _ _
  have hdr : chain.rest.length ≤ chain.pending.val.length := by
    unfold rest
    rw [List.length_drop]
    exact Nat.sub_le _ _
  exact Nat.le_trans hrs (Nat.le_trans hdr chain.pending.property)

namespace Router
variable {r : Router applets cap} (happlets : ∀ applet ∈ applets, applet.Fits cap)

include happlets in
theorem forward_length (apdu : Apdu) (rng : Rng) :
    (r.forward apdu rng).1.data.length ≤ cap := by
  unfold forward
  rcases r.selected with _ | index
  · exact Nat.zero_le _
  have hft := happlets _ (List.get_mem applets index) r.state (.process apdu rng)
  dsimp only
  split
  · exact hft
  split
  · unfold Chainer.begin
    split
    · exact Nat.zero_le _
    · exact Chainer.deliver_length _ _
  · exact hft

include happlets in
/-- What the router answers fits the response buffer when the responses of the applets do. -/
theorem command_length (frame : List UInt8)
    (rng : Rng) : (r.command frame rng).1.data.length ≤ cap := by
  unfold command
  split
  · exact Nat.zero_le _
  split
  · exact Nat.zero_le _
  split
  · split
    · exact Nat.zero_le _
    unfold select
    split
    · rename_i index _
      exact happlets _ (List.get_mem applets index) r.state (.select rng)
    · exact Nat.zero_le _
  split
  · unfold Chainer.getResponse
    dsimp only
    split
    · exact Nat.zero_le _
    · exact Chainer.deliver_length _ _
  · exact forward_length happlets _ rng

include happlets in
theorem confirmPresence_length (rng : Rng) :
    (r.confirmPresence rng).1.data.length ≤ cap := by
  unfold confirmPresence
  rcases r.selected with _ | index
  · exact Nat.zero_le _
  · exact happlets _ (List.get_mem applets index) r.state (.confirm rng)

include happlets in
theorem denyPresence_length :
    r.denyPresence.1.data.length ≤ cap := by
  unfold denyPresence
  rcases r.selected with _ | index
  · exact Nat.zero_le _
  · exact happlets _ (List.get_mem applets index) r.state .deny

end Router

/-! ## One message -/

namespace Card
variable {card : Card applets cap message} {frame : List UInt8}

/-- The buffer for an applet's response leaves room for the header and the status word. -/
def LeavesRoom (cap : Nat) : Prop := cap + 12 ≤ maxMessageBytes

/-- The result of a message: an answer, or a wait for user presence with its sequence number. -/
inductive FrameAnswered (frame : List UInt8) : Except CcidError FrameOutcome → Prop
  | answered {bytes : List UInt8} : Answers bytes frame → FrameAnswered frame (.ok (.encoded bytes))
  | waits : FrameAnswered frame (.ok (.presenceRequired (bSeq frame)))

/-- A response of the reader with a short payload and the sequence number of the message. -/
theorem FrameAnswered.reader (response : Ccid.Response)
    (hdt : response.data.length ≤ Ccid.dataRateAndClockLen)
    (hsq : response.sequence = bSeq frame) :
    FrameAnswered frame (encoded response maxMessageBytes) := by
  have hft : headerLen + response.data.length ≤ maxMessageBytes :=
    Nat.le_trans (Nat.add_le_add_left hdt _) (by decide)
  obtain ⟨bytes, hbt, hfr, hs⟩ := encodeInto_ok hft
  unfold encoded
  rw [hbt]
  exact .answered ⟨hfr, hs.trans hsq⟩

/-- A complete message is answered, or waits for user presence. -/
theorem handleFrame_answered (hc : LeavesRoom cap)
    (happlets : ∀ applet ∈ applets, applet.Fits cap) (frame : List UInt8) (rng : Rng)
    (r : Router applets cap) (powered : Bool) :
    FrameAnswered frame (handleFrame frame rng maxMessageBytes r powered).1 := by
  unfold handleFrame
  rcases hpr : Ccid.Request.parse frame with error | request
  · exact .reader (.slotStatusFailed (bSeq frame)) (Nat.zero_le _) rfl
  obtain ⟨hsq, hec⟩ := Ccid.Request.parse_ok hpr
  dsimp only
  by_cases hsl : request.slot ≠ 0
  · rw [if_pos hsl]
    exact .reader (.slotStatusFailed request.sequence) (Nat.zero_le _) hsq
  rw [if_neg hsl]
  have ht0 : Ccid.t0Parameters.length ≤ Ccid.dataRateAndClockLen := by decide
  cases request with
  | iccPowerOn slot sequence =>
    have ha : atr.length ≤ Ccid.dataRateAndClockLen := by decide
    exact .reader (.dataBlock sequence atr) ha hsq
  | iccPowerOff slot sequence =>
    exact .reader (.slotStatus sequence Ccid.iccStatusInactive) (Nat.zero_le _) hsq
  | getSlotStatus slot sequence | abort slot sequence =>
    exact .reader (.slotStatus sequence _) (Nat.zero_le _) hsq
  | setParameters slot sequence protocol data =>
    dsimp only
    split
    · exact .reader (.parameters sequence _ data) (Nat.le_trans (Nat.le_of_eq hec) ht0) hsq
    · exact .reader (.parametersFailed sequence) (Nat.zero_le _) hsq
  | getParameters slot sequence | resetParameters slot sequence =>
    exact .reader (.parameters sequence _ _) ht0 hsq
  | setDataRateAndClock slot sequence data =>
    exact .reader (.dataRateAndClock sequence data) (Nat.le_of_eq hec) hsq
  | xfrBlock slot sequence bwi levelParameter data =>
    obtain rfl : sequence = bSeq frame := hsq
    dsimp only
    split
    · exact .reader (.dataBlockFailed _) (Nat.zero_le _) rfl
    split
    · exact .waits
    have hl := Router.command_length (r := r) happlets data rng
    have hft : (r.command data rng).1.data.length + 12 ≤ maxMessageBytes :=
      Nat.le_trans (Nat.add_le_add_right hl 12) hc
    obtain ⟨bytes, hbt, hfr, hs⟩ := encodeDataBlock_ok (bSeq frame) hft
    rw [hbt]
    exact .answered ⟨hfr, hs⟩
  | escape slot sequence => exact .reader (.dataBlockFailed sequence) (Nat.zero_le _) hsq

/-- With a complete message, the card answers it or waits for user presence. -/
theorem poll_answered (hc : LeavesRoom cap) (happlets : ∀ applet ∈ applets, applet.Fits cap)
    (hil : card.pendingSequence = none) (hpn : card.assembler.pending = .ok (some frame))
    (rng : Rng) :
    (∃ bytes after, card.poll rng maxMessageBytes = (.ok (some (.response bytes)), after) ∧
      Answers bytes frame ∧ after.assembler = card.assembler.consume frame.length ∧
      after.pendingSequence = none) ∨
    (∃ after, card.poll rng maxMessageBytes = (.ok (some .presenceRequired), after) ∧
      after.assembler = card.assembler.consume frame.length ∧
      after.pendingSequence = some (bSeq frame)) := by
  have ha := handleFrame_answered hc happlets frame rng card.router card.powered
  unfold poll
  rw [if_neg (by rw [hil]; decide), hpn]
  dsimp only
  generalize handleFrame frame rng maxMessageBytes card.router card.powered = hn at ha ⊢
  obtain ⟨result, router, powered⟩ := hn
  cases ha with
  | answered han => exact .inl ⟨_, _, rfl, han, rfl, hil⟩
  | waits => exact .inr ⟨_, rfl, rfl, rfl⟩

/-- The resolution of a command that waits for user presence is an answer to it. -/
theorem completePresence_answered (hc : LeavesRoom cap)
    (happlets : ∀ applet ∈ applets, applet.Fits cap)
    (hpn : card.pendingSequence = some (bSeq frame)) (confirmed : Bool) (rng : Rng) :
    ∃ bytes after, card.completePresence confirmed rng maxMessageBytes = (.ok (some bytes), after) ∧
      Answers bytes frame ∧ after.assembler = card.assembler ∧ after.pendingSequence = none := by
  have hl : (if confirmed then card.router.confirmPresence rng
      else card.router.denyPresence).1.data.length ≤ cap := by
    cases confirmed
    · exact Router.denyPresence_length happlets
    · exact Router.confirmPresence_length happlets rng
  obtain ⟨bytes, hbt, hfr, hs⟩ := encodeDataBlock_ok (bSeq frame)
    (Nat.le_trans (Nat.add_le_add_right hl 12) hc)
  unfold completePresence
  rw [hpn]
  dsimp only
  rw [hbt]
  exact ⟨bytes, _, rfl, ⟨hfr, hs⟩, rfl, rfl⟩

/-! ## Reassembly -/

/-- While the first bytes of a message are buffered, the message is pending exactly when all of it
  has come. -/
theorem pending_of_buffered {a : Assembler message} (rest : List UInt8)
    (hfr : IsFrame (a.buffer.val ++ rest)) (hle : (a.buffer.val ++ rest).length ≤ message) :
    a.pending = .ok (if rest = [] then some a.buffer.val else none) := by
  have hh := hfr.header
  have hl := hfr.length
  rw [List.length_append] at hh hl hle
  unfold Assembler.pending
  by_cases hsh : a.buffer.val.length < headerLen
  · have hrs : rest ≠ [] := by
      rintro rfl
      rw [List.length_nil] at hh
      omega
    rw [if_pos hsh, if_neg hrs]
  rw [if_neg hsh]
  -- The length field is among the bytes that have come.
  have ht : headerLen = 10 := rfl
  have hfl : ofLE ((a.buffer.val.drop 1).take 4) =
      a.buffer.val.length + rest.length - headerLen := by
    rw [← hl, List.drop_append_of_le_length (by omega),
      List.take_append_of_le_length (by rw [List.length_drop]; omega)]
  rw [hfl, if_neg (by omega)]
  by_cases hrs : rest = []
  · rw [if_neg (by rw [hrs, List.length_nil]; omega), if_pos hrs, List.take_of_length_le]
    omega
  · have hp := List.length_pos_iff.mpr hrs
    rw [if_pos (by omega), if_neg hrs]

theorem feed_ok {chunk : List UInt8} (h : (card.assembler.buffer.val ++ chunk).length ≤ message) :
    ∃ after, card.feed chunk = (.ok (), after) ∧
      after.assembler.buffer.val = card.assembler.buffer.val ++ chunk ∧
      after.pendingSequence = card.pendingSequence := by
  unfold feed Assembler.feed BoundedBytes.ofSlice
  rw [dif_pos h]
  exact ⟨_, rfl, rfl, rfl⟩

/-! ## The loop -/

/-- What the loop takes from outside: the randomness of each call, and whether the user confirms. -/
structure Environment where
  rng : Nat → Rng
  confirmed : Nat → Bool

/-- Why the loop ends early: an error of the card, or a card that never falls silent. -/
inductive DriveError where
  | ccid (error : CcidError)
  | endless
deriving DecidableEq

/-- The card, the number of calls made, and the responses written so far. -/
structure Driver (applets : List (Applet α)) (cap message : Nat) where
  card : Card applets cap message
  calls : Nat
  responses : List (List UInt8)

/-- Poll until nothing is left, at most `fuel` times. -/
def pollAll (env : Environment) : Nat → Driver applets cap message →
    Except DriveError (Driver applets cap message)
  | 0, _ => .error .endless
  | fuel + 1, d =>
    match d.card.poll (env.rng d.calls) maxMessageBytes with
    | (.error error, _) => .error (.ccid error)
    | (.ok none, card) => .ok ⟨card, d.calls + 1, d.responses⟩
    | (.ok (some (.response bytes)), card) =>
      pollAll env fuel ⟨card, d.calls + 1, d.responses ++ [bytes]⟩
    | (.ok (some .presenceRequired), card) =>
      match card.completePresence (env.confirmed d.calls) (env.rng (d.calls + 1))
          maxMessageBytes with
      | (.error error, _) => .error (.ccid error)
      | (.ok bytes, card) => pollAll env fuel ⟨card, d.calls + 2, d.responses ++ bytes.toList⟩

/-- Feed one packet and poll. Each message that is handled takes a header from the buffer, so the
  buffer has fewer messages than bytes. -/
def feedPacket (env : Environment) (d : Driver applets cap message) (packet : List UInt8) :
    Except DriveError (Driver applets cap message) :=
  match d.card.feed packet with
  | (.error error, _) => .error (.ccid error)
  | (.ok _, card) =>
    pollAll env (card.assembler.buffer.val.length + 2) ⟨card, d.calls, d.responses⟩

def drive (env : Environment) (d : Driver applets cap message) (packets : List (List UInt8)) :
    Except DriveError (Driver applets cap message) :=
  packets.foldlM (feedPacket env) d

/-- Nothing is pending, and `bytes` are buffered. -/
structure Driver.Holds (d : Driver applets cap message) (bytes : List UInt8) : Prop where
  buffer : d.card.assembler.buffer.val = bytes
  idle : d.card.pendingSequence = none

section
variable (env : Environment) {d : Driver applets cap message}

theorem pollAll_none (hil : d.card.pendingSequence = none)
    (hpn : d.card.assembler.pending = .ok none) (fuel : Nat) :
    pollAll env (fuel + 1) d = .ok ⟨d.card, d.calls + 1, d.responses⟩ := by
  unfold pollAll
  have hpl : d.card.poll (env.rng d.calls) maxMessageBytes = (.ok none, d.card) := by
    unfold poll
    rw [hil, if_neg nofun, hpn]
  rw [hpl]

theorem pollAll_empty (hd : d.Holds []) (fuel : Nat) :
    pollAll env (fuel + 1) d = .ok ⟨d.card, d.calls + 1, d.responses⟩ := by
  refine pollAll_none env hd.idle ?_ fuel
  unfold Assembler.pending
  rw [hd.buffer]
  exact if_pos (by decide)

/-- A complete message is answered, and nothing of it is left. -/
theorem pollAll_frame (hc : LeavesRoom cap) (happlets : ∀ applet ∈ applets, applet.Fits cap)
    (hfr : IsFrame frame) (hle : frame.length ≤ message)
    (hd : d.Holds frame) (fuel : Nat) :
    ∃ after bytes, pollAll env (fuel + 2) d = .ok after ∧ after.Holds [] ∧
      after.responses = d.responses ++ [bytes] ∧ Answers bytes frame := by
  have hpn : d.card.assembler.pending = .ok (some frame) := by
    have hl : d.card.assembler.buffer.val ++ [] = frame := by rw [List.append_nil, hd.buffer]
    have hb := pending_of_buffered [] (hl ▸ hfr) (hl ▸ hle)
    rw [hb, if_pos rfl, hd.buffer]
  have hn : (d.card.assembler.consume frame.length).buffer.val = [] := by
    change d.card.assembler.buffer.val.drop frame.length = []
    rw [hd.buffer, List.drop_length]
  obtain ⟨bytes, card, hpl, ha, hs, hil⟩ | ⟨card, hpl, hs, hwt⟩ :=
    poll_answered hc happlets hd.idle hpn (env.rng d.calls)
  · have hem : Driver.Holds ⟨card, d.calls + 1, d.responses ++ [bytes]⟩ [] :=
      ⟨hs ▸ hn, hil⟩
    rw [pollAll, hpl]
    exact ⟨_, bytes, pollAll_empty env hem fuel, ⟨hem.buffer, hem.idle⟩, rfl, ha⟩
  obtain ⟨bytes, after, hm, ha, hkp, hil⟩ :=
    completePresence_answered hc happlets hwt (env.confirmed d.calls) (env.rng (d.calls + 1))
  have hem : Driver.Holds ⟨after, d.calls + 2, d.responses ++ [bytes]⟩ [] := by
    refine ⟨?_, hil⟩
    rw [hkp, hs]
    exact hn
  rw [pollAll, hpl]
  dsimp only
  rw [hm]
  exact ⟨_, bytes, pollAll_empty env hem fuel, ⟨hem.buffer, hem.idle⟩, rfl, ha⟩

theorem feedPacket_ok (packet : List UInt8)
    (h : (d.card.assembler.buffer.val ++ packet).length ≤ message) :
    ∃ (fed : Driver applets cap message) (fuel : Nat),
      fed.card.assembler.buffer.val = d.card.assembler.buffer.val ++ packet ∧
      fed.card.pendingSequence = d.card.pendingSequence ∧ fed.responses = d.responses ∧
      feedPacket env d packet = pollAll env (fuel + 2) fed := by
  obtain ⟨card, hfd, hb, hpn⟩ := feed_ok h
  refine ⟨⟨card, d.calls, d.responses⟩, card.assembler.buffer.val.length, hb, hpn, rfl, ?_⟩
  unfold feedPacket
  rw [hfd]

theorem drive_empty {packets : List (List UInt8)} (hk : packets.flatten = [])
    (hd : d.Holds []) :
    ∃ after, drive env d packets = .ok after ∧ after.Holds [] ∧ after.responses = d.responses := by
  induction packets generalizing d with
  | nil => exact ⟨d, rfl, hd, rfl⟩
  | cons packet packets ih =>
    rw [List.flatten_cons, List.append_eq_nil_iff] at hk
    obtain ⟨hp, hrt⟩ := hk
    have hft : (d.card.assembler.buffer.val ++ packet).length ≤ message := by
      rw [hd.buffer, hp]
      exact Nat.zero_le _
    obtain ⟨fed, fuel, hb, hpn, hrs, hfd⟩ := feedPacket_ok env packet hft
    have hf : fed.Holds [] := by
      refine ⟨?_, hpn.trans hd.idle⟩
      rw [hb, hd.buffer, hp]
      rfl
    have haf : Driver.Holds ⟨fed.card, fed.calls + 1, fed.responses⟩ [] :=
      ⟨hf.buffer, hf.idle⟩
    obtain ⟨after, hdr, hem, hsm⟩ := ih hrt haf
    refine ⟨after, ?_, hem, hsm.trans hrs⟩
    unfold drive
    rw [List.foldlM_cons, hfd, pollAll_empty env hf]
    exact hdr

/-- The packets of a message, from any point in it on. -/
theorem drive_frame (hc : LeavesRoom cap) (happlets : ∀ applet ∈ applets, applet.Fits cap)
    {frame seen : List UInt8} (hfr : IsFrame frame) (hle : frame.length ≤ message)
    {packets : List (List UInt8)} (hp : seen ++ packets.flatten = frame)
    (hsn : seen.length < frame.length) (hd : d.Holds seen) :
    ∃ after bytes, drive env d packets = .ok after ∧ after.Holds [] ∧
      after.responses = d.responses ++ [bytes] ∧ Answers bytes frame := by
  induction packets generalizing d seen with
  | nil =>
    -- Something of the message is still to come.
    rw [List.flatten_nil, List.append_nil] at hp
    rw [hp] at hsn
    exact absurd hsn (Nat.lt_irrefl _)
  | cons packet packets ih =>
    rw [List.flatten_cons, ← List.append_assoc] at hp
    have hl := congrArg List.length hp
    rw [List.length_append] at hl
    have hft : (d.card.assembler.buffer.val ++ packet).length ≤ message := by
      rw [hd.buffer]
      omega
    obtain ⟨fed, fuel, hb, hpn, hrp, hfd⟩ := feedPacket_ok env packet hft
    rw [hd.buffer] at hb
    have hf : fed.Holds (seen ++ packet) := ⟨hb, hpn.trans hd.idle⟩
    unfold drive
    rw [List.foldlM_cons, hfd]
    by_cases hls : (seen ++ packet).length < frame.length
    · -- The message is not complete yet.
      have hrs : packets.flatten ≠ [] := by
        intro hn
        rw [hn, List.length_nil] at hl
        omega
      have hi : fed.card.assembler.pending = .ok none := by
        rw [pending_of_buffered packets.flatten (by rw [hb, hp]; exact hfr)
          (by rw [hb, hp]; exact hle), if_neg hrs]
      rw [pollAll_none env hf.idle hi]
      have haf : Driver.Holds ⟨fed.card, fed.calls + 1, fed.responses⟩ (seen ++ packet) :=
        ⟨hf.buffer, hf.idle⟩
      obtain ⟨after, bytes, hdr, hem, ha, han⟩ := ih hp hls haf
      exact ⟨after, bytes, hdr, hem, hrp ▸ ha, han⟩
    · -- The last byte has come; what follows is empty.
      have hrs : packets.flatten = [] := List.eq_nil_of_length_eq_zero (by omega)
      rw [hrs, List.append_nil] at hp
      rw [hp] at hf
      obtain ⟨polled, bytes, hpl, hem, ha, han⟩ :=
        pollAll_frame env hc happlets hfr hle hf fuel
      obtain ⟨after, hdr, hem', hsm⟩ := drive_empty env hrs hem
      rw [hpl]
      exact ⟨after, bytes, hdr, hem', by rw [hsm, ha, hrp], han⟩

theorem drive_frames (hc : LeavesRoom cap) (happlets : ∀ applet ∈ applets, applet.Fits cap)
    {splits : List (List (List UInt8))}
    (hs : ∀ split ∈ splits, IsFrame split.flatten ∧ split.flatten.length ≤ message)
    (hd : d.Holds []) :
    ∃ after responses, drive env d splits.flatten = .ok after ∧ after.Holds [] ∧
      after.responses = d.responses ++ responses ∧
      List.Forall₂ Answers responses (splits.map List.flatten) := by
  induction splits generalizing d with
  | nil => exact ⟨d, [], rfl, hd, (List.append_nil _).symm, .nil⟩
  | cons split splits ih =>
    obtain ⟨hfr, hle⟩ := hs split List.mem_cons_self
    have hp : ([] : List UInt8).length < split.flatten.length :=
      Nat.lt_of_lt_of_le (by decide) hfr.header
    obtain ⟨middle, bytes, hdr, hem, hn, han⟩ :=
      drive_frame env hc happlets hfr hle (List.nil_append _) hp hd
    obtain ⟨after, responses, hrs, hem', hmr, ha⟩ :=
      ih (fun split hm => hs split (List.mem_cons_of_mem _ hm)) hem
    refine ⟨after, bytes :: responses, ?_, hem', ?_, .cons han ha⟩
    · unfold drive at hdr hrs ⊢
      rw [List.flatten_cons, List.foldlM_append, hdr]
      exact hrs
    · rw [hmr, hn, List.append_assoc]
      rfl

end

/-! ## Waiting for user presence -/

/-- The event resolves a wait for user presence. -/
def Event.Resolves : Event → Prop
  | .completePresence .. | .reset => True
  | _ => False

/-- The card said that it waits for user presence, and nothing resolved it since. -/
def Waiting (past : List (Log applets cap message)) : Prop :=
  Since (fun y _ => y.answer = .ok (some .presenceRequired)) (fun y => y.event.Resolves) past

/-- While the card waits, a poll says nothing and handles no message. -/
def HandlesNone (x : Log applets cap message) (past : List (Log applets cap message)) : Prop :=
  Waiting past → ∀ rng room, x.event = .poll rng room →
    x.answer = .ok none ∧ (step x.before x.event).2 = x.before

theorem poll_waiting (h : card.pendingSequence.isSome = true) (rng : Rng) (room : Nat) :
    card.poll rng room = (.ok none, card) := if_pos h

/-- A card that says it waits has a sequence number to answer with. -/
theorem step_waits (e : Event) (h : (step card e).1 = .ok (some .presenceRequired)) :
    (step card e).2.pendingSequence.isSome = true := by
  cases e with
  | feed chunk =>
    change (card.feed chunk).1.map (fun _ => none) = _ at h
    generalize (card.feed chunk).1 = result at h
    cases result with
    | error error | ok _ => cases h
  | poll rng room =>
    change (card.poll rng room).1 = _ at h
    change (card.poll rng room).2.pendingSequence.isSome = true
    unfold poll at h ⊢
    split at h
    · cases h
    rename_i hil
    rw [if_neg hil]
    rcases hpn : card.assembler.pending with error | _ | frame
    · rw [hpn] at h
      cases h
    · rw [hpn] at h
      cases h
    rw [hpn] at h
    dsimp only at h ⊢
    rcases hr : (handleFrame frame rng room card.router card.powered).1 with
      error | bytes | sequence
    · rw [hr] at h
      cases h
    · rw [hr] at h
      cases h
    · rfl
  | completePresence confirmed rng room =>
    change (card.completePresence confirmed rng room).1.map (Option.map Outcome.response) = _ at h
    generalize (card.completePresence confirmed rng room).1 = result at h
    obtain error | _ | bytes := result <;> cases h
  | reset => cases h

/-- Only a resolution ends the wait. -/
theorem step_stays (e : Event) (hr : ¬e.Resolves)
    (h : card.pendingSequence.isSome = true) : (step card e).2.pendingSequence.isSome = true := by
  cases e with
  | feed chunk => exact h
  | poll rng room =>
    change (card.poll rng room).2.pendingSequence.isSome = true
    rw [poll_waiting h]
    exact h
  | completePresence | reset => exact absurd trivial hr

theorem handles_none (card : Card applets cap message) (es : List Event) :
    Along HandlesNone (history step card es) := by
  refine along_history_of_all (I := fun card past =>
    Waiting past → card.pendingSequence.isSome = true) (fun h => absurd h id) ?_ es
  intro card past e hi
  refine ⟨fun hwt rng room hev => ?_, fun hwt => ?_⟩
  · cases hev
    change (card.poll rng room).1 = .ok none ∧ (card.poll rng room).2 = card
    rw [poll_waiting (hi hwt)]
    exact ⟨rfl, rfl⟩
  · rcases hwt with hsa | ⟨hr, hps⟩
    · exact step_waits e hsa
    · exact step_stays e hr (hi hps)

/-! ## The result -/

/-- For every list of messages that fit the buffer, every way to cut each of them into packets and
  every outcome of the presence requests: the loop comes to its end without an error, with one
  response for each message, in their order, each with the sequence number of its message and the
  length of its own payload. And in every run of the card no message is handled while it waits for
  user presence. The applets' responses fit their buffer, which leaves room for the header and the
  status word. -/
theorem card_answers_every_frame (hcap : LeavesRoom cap)
    (happlets : ∀ applet ∈ applets, applet.Fits cap) (state : α) (env : Environment)
    (splits : List (List (List UInt8)))
    (hsplits : ∀ split ∈ splits, IsFrame split.flatten ∧ split.flatten.length ≤ message) :
    (∃ d, drive env ⟨new applets cap message state, 0, []⟩ splits.flatten = .ok d ∧
      List.Forall₂ Answers d.responses (splits.map List.flatten)) ∧
    ∀ es, Along HandlesNone (history step (new applets cap message state) es) := by
  obtain ⟨d, responses, hdrive, -, hresponses, hall⟩ :=
    drive_frames env hcap happlets hsplits (d := ⟨new applets cap message state, 0, []⟩) ⟨rfl, rfl⟩
  refine ⟨⟨d, hdrive, ?_⟩, handles_none _⟩
  rw [hresponses]
  exact hall

/-! ### Example runs -/

/-- An applet that asks for user presence, and gives one byte when it is confirmed. -/
def touchApplet : Applet Unit where
  aid := [0xA0]
  selectWithRng _ state := (.ok [], state)
  process _ _ state := (.status .presenceRequired, state)
  confirmPresence _ state := (.ok [0x42], state)
  denyPresence state := (.status .conditionsNotSatisfied, state)

/-- An applet with a long response to SELECT. -/
def longApplet : Applet Unit := { touchApplet with
  selectWithRng := fun _ state => (.ok (List.replicate 2089 0), state) }

/-- A block with an APDU, of fewer than 256 bytes. -/
def blockFrame (sequence : UInt8) (apdu : List UInt8) : List UInt8 :=
  [Ccid.pcToRdrXfrBlock, UInt8.ofNat apdu.length, 0, 0, 0, 0, sequence, 0, 0, 0] ++ apdu

/-- Power on, and SELECT in two packets. -/
def selectSplits : List (List (List UInt8)) :=
  [[[Ccid.pcToRdrIccPowerOn, 0, 0, 0, 0, 0, 1, 0, 0, 0]],
    [(blockFrame 2 [0x00, insSelect, selectByDfName, 0x00, 0x01, 0xA0]).take 3,
      (blockFrame 2 [0x00, insSelect, selectByDfName, 0x00, 0x01, 0xA0]).drop 3]]

/-- A command that is confirmed, one that is denied, and a message that is not supported. -/
def commandSplits : List (List (List UInt8)) :=
  [[blockFrame 3 [0x00, 0x01, 0x00, 0x00]], [blockFrame 4 [0x00, 0x01, 0x00, 0x00]],
    [[0x99, 0, 0, 0, 0, 0, 5, 0, 0, 0]]]

/-- The user confirms the first of the two requests, which comes with the sixth call. -/
def confirmsFirst : Environment := ⟨fun _ _ => 0, fun call => call = 5⟩

theorem touchApplet_fits (h : 1 ≤ cap) : touchApplet.Fits cap := by
  intro state call
  cases call with
  | select rng | process apdu rng | deny => exact Nat.zero_le _
  | confirm rng => exact h

theorem longApplet_fits (h : 2089 ≤ cap) : longApplet.Fits cap := by
  intro state call
  cases call with
  | select rng => exact Nat.le_trans (Nat.le_of_eq List.length_replicate) h
  | process apdu rng | deny => exact Nat.zero_le _
  | confirm rng => exact Nat.le_trans (Nat.le_add_left 1 2088) h

theorem card_answers_every_frame_touch :
    (drive confirmsFirst ⟨new [touchApplet] 2048 maxMessageBytes (), 0, []⟩
        (selectSplits ++ commandSplits).flatten).toOption.map (·.responses) =
      some [[128, 2, 0, 0, 0, 0, 1, 0, 0, 0, 0x3B, 0x00],
        [128, 2, 0, 0, 0, 0, 2, 0, 0, 0, 0x90, 0x00],
        [128, 3, 0, 0, 0, 0, 3, 0, 0, 0, 0x42, 0x90, 0x00],
        [128, 2, 0, 0, 0, 0, 4, 0, 0, 0, 0x69, 0x85], [129, 0, 0, 0, 0, 0, 5, 65, 0, 0]] ∧
    ∃ d, drive confirmsFirst ⟨new [touchApplet] 2048 maxMessageBytes (), 0, []⟩
        (selectSplits ++ commandSplits).flatten = .ok d ∧
      List.Forall₂ Answers d.responses ((selectSplits ++ commandSplits).map List.flatten) := by
  have hroom : LeavesRoom 2048 := by
    unfold LeavesRoom
    decide
  have hsplits : ∀ split ∈ selectSplits ++ commandSplits,
      IsFrame split.flatten ∧ split.flatten.length ≤ maxMessageBytes := by decide +kernel
  have hfits : ∀ applet ∈ [touchApplet], applet.Fits 2048 :=
    List.forall_mem_singleton.mpr (touchApplet_fits (by decide))
  exact ⟨by decide +kernel, (card_answers_every_frame hroom hfits () confirmsFirst _ hsplits).1⟩

/-- A response buffer of 4096 bytes takes a response that the output buffer does not: the poll
  fails. -/
theorem long_response_overflows :
    (∀ applet ∈ [longApplet], applet.Fits 4096) ∧
    (∀ split ∈ selectSplits, IsFrame split.flatten ∧ split.flatten.length ≤ maxMessageBytes) ∧
    (drive confirmsFirst ⟨new [longApplet] 4096 maxMessageBytes (), 0, []⟩
      selectSplits.flatten).map (·.responses) = .error (.ccid .overflow) := by
  refine ⟨List.forall_mem_singleton.mpr (longApplet_fits (by decide)), ?_, ?_⟩
  · decide +kernel
  · decide +kernel

end Card

end AegisToken.Applets
