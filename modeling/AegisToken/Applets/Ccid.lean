/-
  CCID messages and their reassembly (aegis-applets ccid.rs).
  A message is a header of ten bytes and a payload whose length the header gives. `Request.parse`
  reads what the host sends, `Response` is what the card answers, and an `Assembler` cuts the
  stream of bulk packets into messages. An output buffer is its size: encoding gives the bytes
  that are written, or fails when they do not fit.
-/
import AegisToken.Applets.Framing

namespace AegisToken.Applets

def Sw.bytes (sw : Sw) : List UInt8 := ByteCodec.toBE 2 sw.code.toNat

/-- The data and the status word, if they fit `room` bytes. -/
def Response.encodeInto (room : Nat) (response : Response) : Option (List UInt8) :=
  if room < response.data.length + 2 then none else some (response.data ++ response.sw.bytes)

namespace Ccid
open ByteCodec

def headerLen : Nat := 10
def maxMessageBytes : Nat := 2100

def pcToRdrSetParameters : UInt8 := 0x61
def pcToRdrIccPowerOn : UInt8 := 0x62
def pcToRdrIccPowerOff : UInt8 := 0x63
def pcToRdrGetSlotStatus : UInt8 := 0x65
def pcToRdrEscape : UInt8 := 0x6B
def pcToRdrGetParameters : UInt8 := 0x6C
def pcToRdrResetParameters : UInt8 := 0x6D
def pcToRdrXfrBlock : UInt8 := 0x6F
def pcToRdrAbort : UInt8 := 0x72
def pcToRdrSetDataRateAndClock : UInt8 := 0x73

def rdrToPcDataBlock : UInt8 := 0x80
def rdrToPcSlotStatus : UInt8 := 0x81
def rdrToPcParameters : UInt8 := 0x82
def rdrToPcDataRateAndClock : UInt8 := 0x84

def statusOk : UInt8 := 0x00
def statusFailed : UInt8 := 0x40
def errorNone : UInt8 := 0x00
def errorUnsupported : UInt8 := 0x00
def errorOccurred : UInt8 := 0x01

def dataRateAndClockLen : Nat := 8

def iccStatusActive : UInt8 := 0x00
def iccStatusInactive : UInt8 := 0x01

def protocolT0 : UInt8 := 0x00

/-- The default structure of the protocol T=0. -/
def t0Parameters : List UInt8 := [0x11, 0x00, 0x00, 0x0A, 0x00]

inductive CcidError where
  | shortFrame
  | badLength
  | unsupportedMessage
  | overflow
deriving DecidableEq, Repr

/-! ## Requests -/

structure Header where
  messageType : UInt8
  length : Nat
  slot : UInt8
  sequence : UInt8
  specific : UInt8 × UInt8 × UInt8
deriving DecidableEq

/-- Parse a header. The frame has to be as long as the header says. -/
def Header.parse : List UInt8 → Except CcidError Header
  | messageType :: l₀ :: l₁ :: l₂ :: l₃ :: slot :: sequence :: s₀ :: s₁ :: s₂ :: payload =>
    let length := ofLE [l₀, l₁, l₂, l₃]
    if length ≠ payload.length then .error .badLength
    else .ok ⟨messageType, length, slot, sequence, s₀, s₁, s₂⟩
  | _ => .error .shortFrame

/-- A command of the host. -/
inductive Request where
  | iccPowerOn (slot sequence powerSelect : UInt8)
  | iccPowerOff (slot sequence : UInt8)
  | getSlotStatus (slot sequence : UInt8)
  | setParameters (slot sequence protocol : UInt8) (data : List UInt8)
  | getParameters (slot sequence : UInt8)
  | resetParameters (slot sequence : UInt8)
  | setDataRateAndClock (slot sequence : UInt8) (data : List UInt8)
  | xfrBlock (slot sequence bwi : UInt8) (levelParameter : UInt16) (data : List UInt8)
  | escape (slot sequence : UInt8) (data : List UInt8)
  | abort (slot sequence : UInt8)
deriving DecidableEq

namespace Request

/-- The command of a message with this header and payload. -/
def ofHeader (header : Header) (payload : List UInt8) : Except CcidError Request :=
  let slot := header.slot
  let sequence := header.sequence
  let (s₀, s₁, s₂) := header.specific
  if header.messageType = pcToRdrIccPowerOn ∧ payload = [] then .ok (.iccPowerOn slot sequence s₀)
  else if header.messageType = pcToRdrIccPowerOff ∧ payload = [] then
    .ok (.iccPowerOff slot sequence)
  else if header.messageType = pcToRdrGetSlotStatus ∧ payload = [] then
    .ok (.getSlotStatus slot sequence)
  else if header.messageType = pcToRdrSetParameters ∧ payload.length = t0Parameters.length then
    .ok (.setParameters slot sequence s₀ payload)
  else if header.messageType = pcToRdrGetParameters ∧ payload = [] then
    .ok (.getParameters slot sequence)
  else if header.messageType = pcToRdrResetParameters ∧ payload = [] then
    .ok (.resetParameters slot sequence)
  else if header.messageType = pcToRdrSetDataRateAndClock ∧
      payload.length = dataRateAndClockLen then
    .ok (.setDataRateAndClock slot sequence payload)
  else if header.messageType = pcToRdrXfrBlock then
    .ok (.xfrBlock slot sequence s₀ (UInt16.ofNat (ofLE [s₁, s₂])) payload)
  else if header.messageType = pcToRdrEscape then .ok (.escape slot sequence payload)
  else if header.messageType = pcToRdrAbort ∧ payload = [] then .ok (.abort slot sequence)
  else .error .unsupportedMessage

def parse (frame : List UInt8) : Except CcidError Request :=
  match Header.parse frame with
  | .error error => .error error
  | .ok header => ofHeader header (frame.drop headerLen)

def sequence : Request → UInt8
  | iccPowerOn _ sequence _ | iccPowerOff _ sequence | getSlotStatus _ sequence
  | setParameters _ sequence _ _ | getParameters _ sequence | resetParameters _ sequence
  | setDataRateAndClock _ sequence _ | xfrBlock _ sequence _ _ _ | escape _ sequence _
  | abort _ sequence => sequence

def slot : Request → UInt8
  | iccPowerOn slot _ _ | iccPowerOff slot _ | getSlotStatus slot _ | setParameters slot _ _ _
  | getParameters slot _ | resetParameters slot _ | setDataRateAndClock slot _ _
  | xfrBlock slot _ _ _ _ | escape slot _ _ | abort slot _ => slot

end Request

/-! ## Responses -/

/-- A response to the host. -/
structure Response where
  messageType : UInt8
  sequence : UInt8
  status : UInt8
  error : UInt8
  specific : UInt8 × UInt8 × UInt8
  data : List UInt8

namespace Response

def dataBlock (sequence : UInt8) (data : List UInt8) : Response :=
  ⟨rdrToPcDataBlock, sequence, statusOk, errorNone, (0, 0, 0), data⟩

def dataBlockFailed (sequence : UInt8) : Response :=
  ⟨rdrToPcDataBlock, sequence, statusFailed, errorOccurred, (0, 0, 0), []⟩

def slotStatus (sequence iccStatus : UInt8) : Response :=
  ⟨rdrToPcSlotStatus, sequence, statusOk ||| iccStatus, errorNone, (0, 0, 0), []⟩

def slotStatusFailed (sequence : UInt8) : Response :=
  ⟨rdrToPcSlotStatus, sequence, statusFailed ||| iccStatusInactive, errorUnsupported, (0, 0, 0), []⟩

def dataRateAndClock (sequence : UInt8) (data : List UInt8) : Response :=
  ⟨rdrToPcDataRateAndClock, sequence, statusOk, errorNone, (0, 0, 0), data⟩

def parameters (sequence protocol : UInt8) (data : List UInt8) : Response :=
  ⟨rdrToPcParameters, sequence, statusOk, errorNone, (protocol, 0, 0), data⟩

def parametersFailed (sequence : UInt8) : Response :=
  ⟨rdrToPcParameters, sequence, statusFailed, errorUnsupported, (0, 0, 0), []⟩

end Response

/-- The first seven bytes of a response: its type, the length of its payload, the slot and the
  sequence number. -/
def header (messageType : UInt8) (dataLen : Nat) (sequence : UInt8) : List UInt8 :=
  messageType :: (toLE 4 dataLen ++ [0, sequence])

/-- Header and payload, if they fit. -/
def Response.encodeInto (room : Nat) (response : Response) : Except CcidError (List UInt8) :=
  if room < headerLen + response.data.length then .error .overflow
  else
    .ok (header response.messageType response.data.length response.sequence ++
      [response.status, response.error, response.specific.1] ++ response.data)

/-- The header of a data block whose payload is already in the buffer. -/
def writeDataBlockHeader (sequence : UInt8) (dataLen room : Nat) :
    Except CcidError (List UInt8) :=
  if room < headerLen + dataLen then .error .overflow
  else .ok (header rdrToPcDataBlock dataLen sequence ++ [statusOk, errorNone, 0])

/-! ## Reassembly -/

/-- The bytes of the bulk packets that are not handled yet. -/
structure Assembler (message : Nat) where
  buffer : BoundedBytes message

namespace Assembler
variable {message : Nat}

def new : Assembler message := ⟨BoundedBytes.empty _⟩

def feed (chunk : List UInt8) (a : Assembler message) : Except CcidError Unit × Assembler message :=
  match BoundedBytes.ofSlice message (a.buffer.val ++ chunk) with
  | none => (.error .overflow, a)
  | some buffer => (.ok (), ⟨buffer⟩)

def pending (a : Assembler message) : Except CcidError (Option (List UInt8)) :=
  if a.buffer.val.length < headerLen then .ok none
  else
    let length := ofLE ((a.buffer.val.drop 1).take 4)
    if message - headerLen < length then .error .overflow
    else if a.buffer.val.length < headerLen + length then .ok none
    else .ok (some (a.buffer.val.take (headerLen + length)))

/-- Remove the frame that was handled. -/
def consume (frameLen : Nat) (a : Assembler message) : Assembler message :=
  ⟨⟨a.buffer.val.drop frameLen, by
    have := a.buffer.property
    rw [List.length_drop]
    omega⟩⟩

end Assembler

end Ccid

end AegisToken.Applets
