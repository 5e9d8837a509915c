import Crps.Foundation.JsonText
import Crps.Protocol.Packet

/-!
# Encoding and decoding packets

What the decoder returns on the packets the two encoders build, for every
earlier content of the receive buffer.
-/

namespace Crps

variable (text : JsonText)

@[simp] theorem length_dataHeaderBytes (c : BpCounter) (t : TopicId) (m : MessageTypeId)
    (s : UInt32) : (dataHeaderBytes c t m s).length = 17 := rfl

/-- The header counter is read from the packet whatever the decoding says. -/
def packetCounter (packet : Bytes) : BpCounter := readBe32 (Memory.load packet fun _ => 0) 1

theorem readBe32_eq_packetCounter {packet : Bytes} (h : 5 ≤ packet.length) (old : Memory) :
    readBe32 (Memory.load packet old) 1 = packetCounter packet := by
  apply readBe32_congr
  intro k _ hk
  rw [Memory.load_of_lt _ (by omega), Memory.load_of_lt _ (by omega)]

theorem packetCounter_cons (b : UInt8) (c : BpCounter) (rest : Bytes) :
    packetCounter (b :: be32 c ++ rest) = c :=
  readBe32_load [b] rest c _

theorem decodeControl_header {buffer : Memory} {n : ℕ} {header : BpHeader} {d : Decoded}
    (hd : decodeControl text buffer n header = .ok d) : d.header = header := by
  simp only [decodeControl] at hd
  split_ifs at hd
  · injection hd with hd
    rw [← hd]
  · split at hd
    · cases hd
    · injection hd with hd
      rw [← hd]

theorem decodeData_header (buffer : Memory) (n : ℕ) (header : BpHeader) :
    (decodeData buffer n header).header = header := by
  simp only [decodeData]
  split_ifs <;> rfl

theorem decode_counter {packet : Bytes} (h : 5 ≤ packet.length) (old : Memory) {d : Decoded}
    (hd : decodePacketBuffer text (Memory.load packet old) packet.length = .ok d) :
    d.header.counter = packetCounter packet := by
  have hsize : ¬ packet.length < bpHeaderSize := by simp only [bpHeaderSize]; omega
  rw [← readBe32_eq_packetCounter h old]
  simp only [decodePacketBuffer, if_neg hsize] at hd
  split at hd
  · rw [decodeControl_header text hd]
  · injection hd with hd
    rw [← hd, decodeData_header]
  · injection hd with hd
    rw [← hd]

theorem decode_notControl {packet : Bytes} (h : packet.head? ≠ some 1) (old : Memory) :
    ∃ d, decodePacketBuffer text (Memory.load packet old) packet.length = .ok d ∧
      d.type ≠ .control := by
  cases packet with
  | nil => exact ⟨{}, rfl, by simp⟩
  | cons b rest =>
    have hb : b ≠ 1 := fun he => h (by simp [he])
    have hbyte : Memory.load (b :: rest) old 0 = b := by
      rw [Memory.load_of_lt old (by simp)]
      rfl
    have htype : BpType.ofByte b ≠ .control := by
      simp only [BpType.ofByte, if_neg hb]
      split_ifs <;> simp
    simp only [decodePacketBuffer, hbyte]
    split
    · exact ⟨_, rfl, by simp⟩
    · split
      · rename_i hcontrol
        exact absurd hcontrol htype
      · refine ⟨_, rfl, ?_⟩
        simp only [decodeData]
        split_ifs
        · simp
        · exact htype
      · exact ⟨_, rfl, htype⟩

theorem length_controlPacket (j : Json) (c : BpCounter) :
    (bpControlJsonToPacketBuffer text j c).length = 9 + (text.dump j).length := by
  simp [bpControlJsonToPacketBuffer]
  omega

theorem packetCounter_control (j : Json) (c : BpCounter) :
    packetCounter (bpControlJsonToPacketBuffer text j c) = c := by
  simp only [bpControlJsonToPacketBuffer, List.cons_append, List.append_assoc]
  exact packetCounter_cons 1 c _

/-- Control round trip, for values that survive the text and whose framing does not wrap. -/
theorem decode_controlPacket_of_parse {j : Json} (hj : text.parse (text.dump j) = some j)
    (c : BpCounter) (old : Memory) (hlen : 9 + (text.dump j).length < 2 ^ 32) :
    decodePacketBuffer text (Memory.load (bpControlJsonToPacketBuffer text j c) old)
        (bpControlJsonToPacketBuffer text j c).length =
      .ok { type := .control
            header := { type := .control, counter := c }
            controlHeader := { size := UInt32.ofNat (text.dump j).length }
            controlJson := j } := by
  set packet := bpControlJsonToPacketBuffer text j c with hpacket
  have hl : packet.length = 9 + (text.dump j).length := length_controlPacket text j c
  have hbytes : packet =
      [1] ++ be32 c ++ be32 (UInt32.ofNat (text.dump j).length) ++ text.dump j := by
    simp [hpacket, bpControlJsonToPacketBuffer]
  have hcounter : readBe32 (Memory.load packet old) 1 = c := by
    rw [readBe32_eq_packetCounter (by omega)]
    exact packetCounter_control text j c
  have hsize : readBe32 (Memory.load packet old) 5 = UInt32.ofNat (text.dump j).length := by
    rw [hbytes]
    exact readBe32_load ([1] ++ be32 c) (text.dump j) _ old
  have htype : Memory.load packet old 0 = 1 := by
    rw [Memory.load_of_lt old (by omega)]
    simp [hbytes]
  have htext : (Memory.load packet old).slice 9 (text.dump j).length = text.dump j := by
    rw [Memory.slice_load old (by omega), hbytes]
    have hpre : ([1] ++ be32 c ++ be32 (UInt32.ofNat (text.dump j).length)).length = 9 := rfl
    rw [← hpre, List.drop_left, List.take_length]
  have hnat : (UInt32.ofNat (text.dump j).length).toNat = (text.dump j).length := by
    rw [UInt32.toNat_ofNat']
    omega
  have hend : (UInt32.ofNat (9 + (text.dump j).length)).toNat = 9 + (text.dump j).length := by
    rw [UInt32.toNat_ofNat']
    omega
  have hof : BpType.ofByte 1 = .control := rfl
  simp only [decodePacketBuffer, decodeControl, bpHeaderSize, bpControlHeaderSize, hcounter,
    hsize, htype, hof, hnat, hend, hl, Nat.reduceAdd]
  rw [if_neg (by omega), if_neg (by omega), parserInput_of_le (by omega), Nat.add_sub_cancel_left,
    htext, hj]

theorem decode_controlPacket {j : Json} (hj : j.Plain) (c : BpCounter) (old : Memory)
    (hlen : 9 + (text.dump j).length < 2 ^ 32) :
    decodePacketBuffer text (Memory.load (bpControlJsonToPacketBuffer text j c) old)
        (bpControlJsonToPacketBuffer text j c).length =
      .ok { type := .control
            header := { type := .control, counter := c }
            controlHeader := { size := UInt32.ofNat (text.dump j).length }
            controlJson := j } :=
  decode_controlPacket_of_parse text (text.parse_dump j hj) c old hlen

theorem packetCounter_data (c : BpCounter) (t : TopicId) (m : MessageTypeId) (s : UInt32)
    (payload : Bytes) : packetCounter (dataHeaderBytes c t m s ++ payload) = c := by
  simp only [dataHeaderBytes, List.cons_append, List.append_assoc]
  exact packetCounter_cons 2 c _

theorem readBe32_dataPacket (c : BpCounter) (t : TopicId) (m : MessageTypeId) (s : UInt32)
    (payload : Bytes) (old : Memory) :
    readBe32 (Memory.load (dataHeaderBytes c t m s ++ payload) old) 5 = t ∧
      readBe32 (Memory.load (dataHeaderBytes c t m s ++ payload) old) 9 = m ∧
      readBe32 (Memory.load (dataHeaderBytes c t m s ++ payload) old) 13 = s := by
  have hbytes : dataHeaderBytes c t m s ++ payload =
      [2] ++ be32 c ++ be32 t ++ be32 m ++ be32 s ++ payload := by
    simp [dataHeaderBytes]
  rw [hbytes]
  refine ⟨?_, ?_, readBe32_load ([2] ++ be32 c ++ be32 t ++ be32 m) payload s old⟩
  · rw [List.append_assoc, List.append_assoc]
    exact readBe32_load ([2] ++ be32 c) (be32 m ++ (be32 s ++ payload)) t old
  · rw [List.append_assoc]
    exact readBe32_load ([2] ++ be32 c ++ be32 t) (be32 s ++ payload) m old

/-- Data round trip: a packet that holds the payload it announces decodes to
exactly its header. -/
theorem decode_dataPacket (c : BpCounter) (t : TopicId) (m : MessageTypeId) {s : UInt32}
    {payload : Bytes} (old : Memory) (hs : s.toNat = payload.length)
    (hlen : 17 + payload.length < 2 ^ 32) :
    decodePacketBuffer text (Memory.load (dataHeaderBytes c t m s ++ payload) old)
        (dataHeaderBytes c t m s ++ payload).length =
      .ok { type := .data
            header := { type := .data, counter := c }
            dataHeader := { topicId := t, messageTypeId := m, size := s } } := by
  set packet := dataHeaderBytes c t m s ++ payload with hpacket
  have hl : packet.length = 17 + payload.length := by simp [hpacket]
  have hbytes : packet = [2] ++ be32 c ++ be32 t ++ be32 m ++ be32 s ++ payload := by
    simp [hpacket, dataHeaderBytes]
  have hcounter : readBe32 (Memory.load packet old) 1 = c := by
    rw [readBe32_eq_packetCounter (by omega)]
    exact packetCounter_data c t m s payload
  obtain ⟨htopic, hmessage, hsize⟩ := readBe32_dataPacket c t m s payload old
  rw [← hpacket] at htopic hmessage hsize
  have htype : Memory.load packet old 0 = 2 := by
    rw [Memory.load_of_lt old (by omega)]
    simp [hbytes]
  have hend : (UInt32.ofNat (9 + s.toNat)).toNat = 9 + payload.length := by
    rw [UInt32.toNat_ofNat', hs]
    omega
  have hof : BpType.ofByte 2 = .data := rfl
  simp only [decodePacketBuffer, decodeData, bpHeaderSize, bpControlHeaderSize, hcounter, htopic,
    hmessage, hsize, htype, hof, hend, hl, Nat.reduceAdd]
  rw [if_neg (by omega), if_neg (by omega)]

theorem bpFillDataHeader_append (c : BpCounter) (t : TopicId) (m : MessageTypeId) (s : UInt32)
    {prior : Bytes} (hprior : prior.length = 17) (payload : Bytes) :
    bpFillDataHeader c t m s (prior ++ payload) = dataHeaderBytes c t m s ++ payload := by
  have hfits : 0 + (dataHeaderBytes c t m s).length ≤ (prior ++ payload).length := by
    rw [length_dataHeaderBytes, List.length_append]
    omega
  have hrest : (prior ++ payload).drop 17 = payload := by
    rw [← hprior, List.drop_left]
  rw [bpFillDataHeader, overwrite_eq hfits, List.take_zero, List.nil_append,
    length_dataHeaderBytes, Nat.zero_add, hrest]

/-- What either encoder wrote is what the decoder returns, for every earlier content of the
receive buffer; filling in a data header leaves the payload as it was. -/
theorem codec_roundTrip :
    (∀ (j : Json) (c : BpCounter) (old : Memory), (text.dump j).length < 2 ^ 32 - 9 →
      text.parse (text.dump j) = some j →
      ∃ d, decodePacketBuffer text (Memory.load (bpControlJsonToPacketBuffer text j c) old)
          (bpControlJsonToPacketBuffer text j c).length = .ok d ∧
        d.type = .control ∧ d.header.counter = c ∧
        d.controlHeader.size.toNat = (text.dump j).length ∧ d.controlJson = j) ∧
    ∀ (c : BpCounter) (t : TopicId) (m : MessageTypeId) (prior payload : Bytes) (old : Memory),
      prior.length = 17 → payload.length < 2 ^ 32 - 17 →
      let packet := bpFillDataHeader c t m (UInt32.ofNat payload.length) (prior ++ payload)
      packet.length = 17 + payload.length ∧ packet.drop 17 = payload ∧
      ∃ d, decodePacketBuffer text (Memory.load packet old) packet.length = .ok d ∧
        d.type = .data ∧ d.header.counter = c ∧ d.dataHeader.topicId = t ∧
        d.dataHeader.messageTypeId = m ∧ d.dataHeader.size.toNat = payload.length := by
  constructor
  · intro j c old hlen hj
    have hsize : (UInt32.ofNat (text.dump j).length).toNat = (text.dump j).length := by
      rw [UInt32.toNat_ofNat']
      omega
    exact ⟨_, decode_controlPacket_of_parse text hj c old (by omega), rfl, rfl, hsize, rfl⟩
  · intro c t m prior payload old hprior hlen packet
    have hpacket : packet = dataHeaderBytes c t m (UInt32.ofNat payload.length) ++ payload :=
      bpFillDataHeader_append c t m _ hprior payload
    have hsize : (UInt32.ofNat payload.length).toNat = payload.length := by
      rw [UInt32.toNat_ofNat']
      omega
    rw [hpacket]
    refine ⟨by rw [List.length_append, length_dataHeaderBytes],
      by rw [← length_dataHeaderBytes c t m (UInt32.ofNat payload.length), List.drop_left], ?_⟩
    exact ⟨_, decode_dataPacket text c t m old hsize (by omega), rfl, rfl, rfl, rfl, hsize⟩

/-- A number round trips as a control value, a three-byte payload behind an old header as data. -/
theorem codec_roundTrip_number :
    (∃ d, decodePacketBuffer compactJson
        (Memory.load (bpControlJsonToPacketBuffer compactJson (.number 7) 3) fun _ => 255)
        (bpControlJsonToPacketBuffer compactJson (.number 7) 3).length = .ok d ∧
      d.type = .control ∧ d.header.counter = 3 ∧
      d.controlHeader.size.toNat = (compactJson.dump (.number 7)).length ∧
      d.controlJson = .number 7) ∧
    (bpFillDataHeader 4 0 0 3 (List.replicate 17 9 ++ [1, 2, 3])).drop 17 = [1, 2, 3] := by
  have hplain : (Json.number 7).Plain := ⟨by decide, by decide⟩
  have hround := codec_roundTrip compactJson
  exact ⟨hround.1 (.number 7) 3 _ (by decide) (compactJson.parse_dump _ hplain),
    (hround.2 4 0 0 (List.replicate 17 9) [1, 2, 3] (fun _ => 0) (by decide) (by decide)).2.1⟩

end Crps
