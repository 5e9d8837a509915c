import Crps.Protocol.Codec

/-!
# What the decoder's length checks admit

The end offset of a packet is stored in 32 bits before it is compared with the
received length, and the data branch measures with the size of the control
header. The packets on which this makes a difference are a narrow band around
the announced size and the last few sizes below `2 ^ 32`.
-/

namespace Crps

variable (text : JsonText)

/-- `BpControlHeader::size` as it stands in the receive buffer. -/
def controlSize (buffer : Memory) : ℕ := (readBe32 buffer bpHeaderSize).toNat

/-- `BpDataHeader::size` as it stands in the receive buffer. -/
def dataSize (buffer : Memory) : ℕ := (readBe32 buffer (bpHeaderSize + 8)).toNat

/-- The end offset of either branch. -/
def endOffset (size : ℕ) : ℕ :=
  (UInt32.ofNat (bpHeaderSize + bpControlHeaderSize + size)).toNat

theorem endOffset_eq (size : ℕ) : endOffset size = (9 + size) % 2 ^ 32 := by
  simp only [endOffset, bpHeaderSize, bpControlHeaderSize, UInt32.toNat_ofNat']

theorem controlSize_lt (buffer : Memory) : controlSize buffer < 2 ^ 32 := UInt32.toNat_lt _

theorem dataSize_lt (buffer : Memory) : dataSize buffer < 2 ^ 32 := UInt32.toNat_lt _

theorem load_zero {packet : Bytes} {b : UInt8} (h : packet.head? = some b) (old : Memory) :
    Memory.load packet old 0 = b := by
  cases packet with
  | nil => cases h
  | cons c rest =>
    exact Option.some.inj h

theorem decode_short {packet : Bytes} (h : packet.length < 5) (old : Memory) :
    decodePacketBuffer text (Memory.load packet old) packet.length = .ok {} := by
  have hsize : packet.length < bpHeaderSize := h
  unfold decodePacketBuffer
  rw [if_pos hsize]

/-- The header of a packet that is long enough for one. -/
def packetHeader (packet : Bytes) : BpHeader :=
  { type := .ofByte (packet.headD 0), counter := packetCounter packet }

theorem decode_byType {packet : Bytes} {b : UInt8} (h : packet.head? = some b)
    (hn : 5 ≤ packet.length) (old : Memory) :
    decodePacketBuffer text (Memory.load packet old) packet.length =
      match BpType.ofByte b with
      | .control =>
        decodeControl text (Memory.load packet old) packet.length (packetHeader packet)
      | .data => .ok (decodeData (Memory.load packet old) packet.length (packetHeader packet))
      | type => .ok { type, header := packetHeader packet } := by
  have hsize : ¬ packet.length < bpHeaderSize := by simp only [bpHeaderSize]; omega
  have hheader : packetHeader packet = { type := .ofByte b, counter := packetCounter packet } := by
    simp only [packetHeader, List.headD_eq_head?_getD, h, Option.getD_some]
  cases htype : BpType.ofByte b <;>
    simp only [decodePacketBuffer, if_neg hsize, load_zero h old, readBe32_eq_packetCounter hn old,
      hheader, htype]

/-! ## Data packets -/

theorem decode_dataType {packet : Bytes} (h : packet.head? = some 2) (hn : 5 ≤ packet.length)
    (old : Memory) :
    decodePacketBuffer text (Memory.load packet old) packet.length =
      .ok (decodeData (Memory.load packet old) packet.length (packetHeader packet)) :=
  decode_byType text h hn old

theorem packetHeader_type {packet : Bytes} {b : UInt8} (h : packet.head? = some b) :
    (packetHeader packet).type = .ofByte b := by
  simp only [packetHeader, List.headD_eq_head?_getD, h, Option.getD_some]

theorem decodeData_type (buffer : Memory) (n : ℕ) (header : BpHeader) :
    (decodeData buffer n header).type =
      if endOffset (dataSize buffer) > n then .invalid else header.type := by
  simp only [decodeData]
  change (if endOffset (dataSize buffer) > n then _ else _ : Decoded).type = _
  split_ifs <;> rfl

theorem decodeData_dataHeader (buffer : Memory) (n : ℕ) (header : BpHeader) :
    (decodeData buffer n header).dataHeader =
      { topicId := readBe32 buffer bpHeaderSize
        messageTypeId := readBe32 buffer (bpHeaderSize + 4)
        size := readBe32 buffer (bpHeaderSize + 8) } := by
  simp only [decodeData]
  split_ifs <;> rfl

theorem decodeControl_type {buffer : Memory} {n : ℕ} {header : BpHeader} {d : Decoded}
    (hd : decodeControl text buffer n header = .ok d) :
    d.type = .invalid ∨ d.type = header.type := by
  simp only [decodeControl] at hd
  split_ifs at hd
  · injection hd with hd
    exact .inl (by rw [← hd])
  · split at hd
    · cases hd
    · injection hd with hd
      exact .inr (by rw [← hd])

theorem head?_of_data {packet : Bytes} {old : Memory} {d : Decoded}
    (hd : decodePacketBuffer text (Memory.load packet old) packet.length = .ok d)
    (htype : d.type = .data) : packet.head? = some 2 := by
  cases packet with
  | nil =>
    injection hd with hd
    rw [← hd] at htype
    cases htype
  | cons b rest =>
    have hload : Memory.load (b :: rest) old 0 = b := load_zero rfl old
    have hb : BpType.ofByte b = .data := by
      unfold decodePacketBuffer at hd
      simp only [hload] at hd
      split at hd
      · injection hd with hd
        rw [← hd] at htype
        cases htype
      · split at hd
        · rename_i hcontrol
          rcases decodeControl_type text hd with hinvalid | hheader
          · rw [hinvalid] at htype
            cases htype
          · rwa [hheader] at htype
        · assumption
        · injection hd with hd
          rw [← hd] at htype
          exact htype
    by_contra hne
    have h2 : b ≠ 2 := fun he => hne (by rw [he]; rfl)
    simp only [BpType.ofByte, if_neg h2] at hb
    split_ifs at hb

/-- A packet of type data is reported as one exactly if it holds its whole header and the
payload it announces. -/
def DataFramed (packet : Bytes) (old : Memory) : Prop :=
  ∃ d, decodePacketBuffer text (Memory.load packet old) packet.length = .ok d ∧
    d.type = if 17 ≤ packet.length ∧ 17 + dataSize (Memory.load packet old) ≤ packet.length
      then .data else .invalid

/-- Packets too short for a header, complete ones, and those that miss nine bytes or more of
what they announce, as long as the end offset does not wrap into the packet. -/
def DataLengthTold (length size : ℕ) : Prop :=
  length < 5 ∨ 17 + size ≤ length ∨ (length < 9 + size ∧ 9 + size < 2 ^ 32) ∨
    length + 2 ^ 32 < 9 + size

/-- Data framing is exact outside the eight lengths below the announced end and the sizes
whose end offset wraps into the packet. -/
theorem dataFramed_iff {packet : Bytes} (h : packet.head? = some 2) (old : Memory) :
    DataFramed text packet old ↔
      DataLengthTold packet.length (dataSize (Memory.load packet old)) := by
  set size := dataSize (Memory.load packet old) with hsize
  have hlt : size < 2 ^ 32 := dataSize_lt _
  unfold DataFramed DataLengthTold
  rw [← hsize]
  by_cases hn : packet.length < 5
  · rw [decode_short text hn old]
    constructor
    · intro _
      exact .inl hn
    · intro _
      refine ⟨{}, rfl, ?_⟩
      rw [if_neg (by omega)]
  · have hof : BpType.ofByte 2 = .data := rfl
    have htype := decodeData_type (Memory.load packet old) packet.length (packetHeader packet)
    rw [decode_dataType text h (by omega) old]
    rw [← hsize, endOffset_eq, packetHeader_type h, hof] at htype
    constructor
    · rintro ⟨d, hd, hdtype⟩
      injection hd with hd
      subst hd
      rw [htype] at hdtype
      by_cases hend : (9 + size) % 2 ^ 32 > packet.length
      · omega
      · rw [if_neg hend] at hdtype
        by_cases hfull : 17 ≤ packet.length ∧ 17 + size ≤ packet.length
        · exact .inr (.inl hfull.2)
        · rw [if_neg hfull] at hdtype
          cases hdtype
    · intro hcond
      refine ⟨_, rfl, ?_⟩
      rw [htype]
      by_cases hfull : 17 ≤ packet.length ∧ 17 + size ≤ packet.length
      · rw [if_pos hfull, if_neg (by omega)]
      · rw [if_neg hfull, if_pos (by omega)]

/-- A packet that carries the three bytes it announces is reported as data. -/
theorem dataFramed_whole :
    DataFramed compactJson (dataHeaderBytes 1 0 0 3 ++ [1, 2, 3]) fun _ => 0 := by
  have hhead : (dataHeaderBytes 1 0 0 3 ++ [1, 2, 3]).head? = some (2 : UInt8) := rfl
  apply (dataFramed_iff compactJson hhead fun _ => 0).mpr
  exact .inr (.inl (by decide))

/-- A bare header that announces eight bytes is reported as data. -/
theorem dataFramed_fails :
    ¬ ∀ (packet : Bytes) (old : Memory), packet.head? = some 2 →
      DataFramed compactJson packet old := by
  intro hall
  obtain ⟨d, hd, htype⟩ := hall (dataHeaderBytes 1 0 0 8) (fun _ => 0) rfl
  rw [decode_dataType compactJson rfl (by decide)] at hd
  injection hd with hd
  subst hd
  revert htype
  decide

/-! ## Control packets -/

/-- The offsets between which the control branch hands the buffer to the JSON parser. -/
def parsedRange (buffer : Memory) (packetSize : ℕ) : Option (ℕ × ℕ) :=
  if packetSize < bpHeaderSize then none
  else
    let jsonEndOffset := endOffset (controlSize buffer)
    if jsonEndOffset > packetSize then none
    else some (bpHeaderSize + bpControlHeaderSize, jsonEndOffset)

variable {buffer : Memory} {n : ℕ}

theorem decodeControl_of_gt (h : endOffset (controlSize buffer) > n) (header : BpHeader) :
    decodeControl text buffer n header =
      .ok { type := .invalid, header
            controlHeader := { size := readBe32 buffer bpHeaderSize } } :=
  if_pos h

theorem decodeControl_of_le (h : ¬ endOffset (controlSize buffer) > n) (header : BpHeader) :
    decodeControl text buffer n header =
      match text.parse (parserInput buffer (bpHeaderSize + bpControlHeaderSize)
        (endOffset (controlSize buffer))) with
      | none => .error .parseError
      | some controlJson =>
        .ok { type := header.type, header
              controlHeader := { size := readBe32 buffer bpHeaderSize }, controlJson } :=
  if_neg h

/-- What the decoder does with a control packet whose text it parses from this range. -/
def ParsedFrom (packet : Bytes) (old : Memory) (first last : ℕ) : Prop :=
  decodePacketBuffer text (Memory.load packet old) packet.length =
    match text.parse (parserInput (Memory.load packet old) first last) with
    | none => .error .parseError
    | some controlJson => .ok {
        type := .control
        header := packetHeader packet
        controlHeader := { size := readBe32 (Memory.load packet old) bpHeaderSize }
        controlJson }

/-- Without a range the packet is invalid; otherwise the result is that of parsing it. -/
theorem decode_controlType {packet : Bytes} (h : packet.head? = some 1) (old : Memory) :
    match parsedRange (Memory.load packet old) packet.length with
    | none => ∃ d, decodePacketBuffer text (Memory.load packet old) packet.length = .ok d ∧
        d.type = .invalid
    | some (first, last) => ParsedFrom text packet old first last := by
  by_cases hn : packet.length < bpHeaderSize
  · simp only [parsedRange, if_pos hn]
    exact ⟨{}, decode_short text hn old, rfl⟩
  · have htype : (packetHeader packet).type = .control := packetHeader_type h
    have hdecode : decodePacketBuffer text (Memory.load packet old) packet.length =
        decodeControl text (Memory.load packet old) packet.length (packetHeader packet) :=
      decode_byType text h (by simp only [bpHeaderSize] at hn; omega) old
    simp only [parsedRange, if_neg hn]
    by_cases hend : endOffset (controlSize (Memory.load packet old)) > packet.length
    · simp only [if_pos hend]
      rw [hdecode]
      exact ⟨_, decodeControl_of_gt text hend _, rfl⟩
    · simp only [if_neg hend]
      rw [ParsedFrom, hdecode, decodeControl_of_le text hend, htype]

/-- If the control branch parses at all, it parses the announced text inside the packet;
otherwise it reports an invalid packet. -/
def ControlFramed (packet : Bytes) (old : Memory) : Prop :=
  match parsedRange (Memory.load packet old) packet.length with
  | none => ∃ d, decodePacketBuffer text (Memory.load packet old) packet.length = .ok d ∧
      d.type = .invalid
  | some (first, last) =>
    ParsedFrom text packet old first last ∧ first = 9 ∧
      last = 9 + controlSize (Memory.load packet old) ∧ first ≤ last ∧ last ≤ packet.length

/-- Packets too short for a header, sizes whose end offset does not wrap, and packets shorter
than the wrapped offset. -/
def ControlLengthTold (length size : ℕ) : Prop :=
  length < 5 ∨ 9 + size < 2 ^ 32 ∨ length + 2 ^ 32 < 9 + size

theorem controlFramed_iff {packet : Bytes} (h : packet.head? = some 1) (old : Memory) :
    ControlFramed text packet old ↔
      ControlLengthTold packet.length (controlSize (Memory.load packet old)) := by
  have hdecode := decode_controlType text h old
  unfold ControlFramed ControlLengthTold
  have hlt := controlSize_lt (Memory.load packet old)
  generalize hrange : parsedRange (Memory.load packet old) packet.length = range at hdecode ⊢
  simp only [parsedRange, bpHeaderSize, bpControlHeaderSize, endOffset_eq] at hrange
  cases range with
  | none =>
    constructor
    · intro _
      split_ifs at hrange <;> omega
    · intro _
      exact hdecode
  | some range =>
    obtain ⟨first, last⟩ := range
    split_ifs at hrange with hn hend
    simp only [Option.some.injEq, Prod.mk.injEq] at hrange
    constructor
    · rintro ⟨_, _, hlast, _⟩
      omega
    · intro hcond
      refine ⟨hdecode, ?_⟩
      omega

/-- The packet of an empty control value is parsed from its text. -/
theorem controlFramed_whole :
    ControlFramed compactJson [1, 0, 0, 0, 1, 0, 0, 0, 4, 110, 117, 108, 108] fun _ => 0 := by
  have hhead : [1, 0, 0, 0, 1, 0, 0, 0, 4, 110, 117, 108, 108].head? = some (1 : UInt8) := rfl
  apply (controlFramed_iff compactJson hhead fun _ => 0).mpr
  exact .inr (.inl (by decide))

/-- An announced size of `2 ^ 32 - 1` makes the range end where it has not begun. -/
theorem controlFramed_fails :
    ¬ ∀ (packet : Bytes) (old : Memory), packet.length ≤ 65536 → packet.head? = some 1 →
      ControlFramed compactJson packet old := by
  intro hall
  have hframed := hall [1, 0, 0, 0, 1, 255, 255, 255, 255] (fun _ => 0) (by decide) rfl
  have hrange : parsedRange (Memory.load [1, 0, 0, 0, 1, 255, 255, 255, 255] fun _ => 0) 9 =
      some (9, 8) := by decide
  have hlen : ([1, 0, 0, 0, 1, 255, 255, 255, 255] : Bytes).length = 9 := rfl
  unfold ControlFramed at hframed
  rw [hlen, hrange] at hframed
  omega

end Crps
