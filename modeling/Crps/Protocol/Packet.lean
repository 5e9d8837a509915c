import Crps.Foundation.Json

/-!
# The broker protocol on the wire

Packets carry a one-byte type and a 32-bit counter, then either a length and a
JSON text (control) or topic, message type and length (data). The decoder
works on the receive buffer as it is in memory: it sees whatever an earlier
datagram left behind the received bytes.
-/

namespace Crps

abbrev BpCounter := UInt32
abbrev BpNodeId := UInt32
abbrev MessageTypeId := UInt32
abbrev MessageSize := UInt32
abbrev TopicId := UInt32
abbrev TopicPriority := Int8

def dontcareTopicPriority : TopicPriority := -101

/-- `BpType`. The decoder copies the byte unchecked, so other values occur. -/
inductive BpType where
  | invalid
  | control
  | data
  | other (byte : UInt8)
  deriving DecidableEq, Repr

def BpType.ofByte (b : UInt8) : BpType :=
  if b = 0 then .invalid else if b = 1 then .control else if b = 2 then .data else .other b

structure BpHeader where
  type : BpType := .invalid
  counter : BpCounter := 0
  deriving DecidableEq, Repr

structure BpControlHeader where
  size : UInt32 := 0
  deriving DecidableEq, Repr

structure BpDataHeader where
  topicId : TopicId := 0
  messageTypeId : MessageTypeId := 0
  size : UInt32 := 0
  deriving DecidableEq, Repr

def bpHeaderSize : ℕ := 5
def bpControlHeaderSize : ℕ := 4
def bpDataHeaderSize : ℕ := 12

/-- Largest payload `sendto` accepts on a UDP socket. -/
def maxDatagramSize : ℕ := 65507

/-- `bp_control_json_to_packet_buffer`. -/
def bpControlJsonToPacketBuffer (text : JsonText) (controlJson : Json) (counter : BpCounter) :
    Bytes :=
  let controlString := text.dump controlJson
  1 :: be32 counter ++ be32 (UInt32.ofNat controlString.length) ++ controlString

/-- The 17 bytes `bp_fill_data_header` writes. -/
def dataHeaderBytes (counter : BpCounter) (topicId : TopicId) (messageTypeId : MessageTypeId)
    (messageSize : UInt32) : Bytes :=
  2 :: be32 counter ++ be32 topicId ++ be32 messageTypeId ++ be32 messageSize

/-- `bp_fill_data_header`, in place at the start of the buffer. -/
def bpFillDataHeader (counter : BpCounter) (topicId : TopicId) (messageTypeId : MessageTypeId)
    (messageSize : UInt32) (buffer : Bytes) : Bytes :=
  overwrite buffer 0 (dataHeaderBytes counter topicId messageTypeId messageSize)

/-- The out-parameters of `decode_packet_buffer` and its result. Fields the
decoder does not reach keep the callers' zero initialization. -/
structure Decoded where
  type : BpType := .invalid
  header : BpHeader := {}
  controlHeader : BpControlHeader := {}
  dataHeader : BpDataHeader := {}
  controlJson : Json := .null

/-- The receive buffers of broker and node. -/
def bufferSize : ℕ := 64 * 1024

/-- The bytes `json::parse` takes from a range of the buffer. It compares with the end for equality
only, so a range that ends before it starts has no end: the parser reads on to a NUL, which stands
for the end of its input. Where there is none, the end of the buffer is taken for it. -/
def parserInput (buffer : Memory) (first last : ℕ) : Bytes :=
  if last < first then (buffer.slice first (bufferSize - first)).takeWhile (· ≠ 0)
  else buffer.slice first (last - first)

theorem parserInput_of_le {first last : ℕ} (h : first ≤ last) (buffer : Memory) :
    parserInput buffer first last = buffer.slice first (last - first) := if_neg (Nat.not_lt.mpr h)

/-- The control branch of `decode_packet_buffer`. The end offset is stored in
32 bits, so it can come out smaller than the offset the text starts at. -/
def decodeControl (text : JsonText) (buffer : Memory) (packetSize : ℕ) (header : BpHeader) :
    Except Fault Decoded :=
  let controlHeader : BpControlHeader := { size := readBe32 buffer bpHeaderSize }
  let jsonStart := bpHeaderSize + bpControlHeaderSize
  let jsonEndOffset := UInt32.ofNat (jsonStart + controlHeader.size.toNat)
  if jsonEndOffset.toNat > packetSize then
    .ok { type := .invalid, header, controlHeader }
  else
    match text.parse (parserInput buffer jsonStart jsonEndOffset.toNat) with
    | none => .error .parseError
    | some controlJson => .ok { type := header.type, header, controlHeader, controlJson }

/-- The data branch of `decode_packet_buffer`. Its bound uses the size of the
control header. -/
def decodeData (buffer : Memory) (packetSize : ℕ) (header : BpHeader) : Decoded :=
  let dataHeader : BpDataHeader :=
    { topicId := readBe32 buffer bpHeaderSize
      messageTypeId := readBe32 buffer (bpHeaderSize + 4)
      size := readBe32 buffer (bpHeaderSize + 8) }
  let dataEndOffset :=
    UInt32.ofNat (bpHeaderSize + bpControlHeaderSize + dataHeader.size.toNat)
  if dataEndOffset.toNat > packetSize then { type := .invalid, header, dataHeader }
  else { type := header.type, header, dataHeader }

/-- `decode_packet_buffer`. -/
def decodePacketBuffer (text : JsonText) (buffer : Memory) (packetSize : ℕ) :
    Except Fault Decoded :=
  if packetSize < bpHeaderSize then .ok {}
  else
    let header : BpHeader := { type := .ofByte (buffer 0), counter := readBe32 buffer 1 }
    match header.type with
    | .control => decodeControl text buffer packetSize header
    | .data => .ok (decodeData buffer packetSize header)
    | type => .ok { type, header }

end Crps
