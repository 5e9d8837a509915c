import Mathlib.Data.List.TakeWhile
import Crps.Broker.Loop
import Crps.Node.Events
import Crps.Protocol.Framing

/-!
# Independence from stale buffer bytes

Both receive buffers keep what an earlier datagram left behind the received
bytes. The decoder reads a whole header before it looks at the length, and a
subscriber's queue copies as many bytes as its messages have; a datagram whose
handling does not depend on the rest of the buffer is one that holds all of
these bytes, or whose received bytes settle the outcome without them.
-/

namespace Crps

variable (text : JsonText)

/-- What a decoding tells its caller: the fields of the other kind of packet do not count. -/
def Decoded.reported (d : Decoded) : Decoded where
  type := d.type
  header := d.header
  controlHeader := if d.type = .control then d.controlHeader else {}
  dataHeader := if d.type = .data then d.dataHeader else {}
  controlJson := if d.type = .control then d.controlJson else .null

/-- The decoder's result on a packet in a buffer with the given earlier contents. -/
def decodedAfter (packet : Bytes) (old : Memory) : Except Fault Decoded :=
  (decodePacketBuffer text (Memory.load packet old) packet.length).map Decoded.reported

def DecodesAlike (packet : Bytes) : Prop :=
  ∀ old old' : Memory, decodedAfter text packet old = decodedAfter text packet old'

/-- The received bytes settle the header: it is there, or what there is of the size field is
neither all zeros nor all ones in a data packet, nor all ones in a control packet. -/
def HeaderReceived (packet : Bytes) : Prop :=
  5 ≤ packet.length →
    (packet.head? = some 1 → 9 ≤ packet.length ∨ ∃ b ∈ packet.drop 5, b ≠ 255) ∧
    (packet.head? = some 2 → 17 ≤ packet.length ∨
      (∃ b ∈ packet.drop 13, b ≠ 0) ∧ ∃ b ∈ packet.drop 13, b ≠ 255)

/-- The received bytes settle the text of a control packet whose end offset wraps below it: they
hold the NUL the parser stops at, or it comes to the same result whatever follows up to one. -/
def TextReceived (packet : Bytes) : Prop :=
  packet.head? = some 1 → 9 ≤ packet.length →
    2 ^ 32 ≤ 9 + controlSize (Memory.load packet fun _ => 0) →
      0 ∈ packet.drop 9 ∨ ∀ more more' : Bytes, 0 ∉ more → 0 ∉ more' →
        more.length ≤ bufferSize - packet.length → more'.length ≤ bufferSize - packet.length →
          text.parse (packet.drop 9 ++ more) = text.parse (packet.drop 9 ++ more')

/-! ## The decoder -/

section Congruence

variable {m m' : Memory} {n : ℕ} {header : BpHeader}

theorem load_agree (packet : Bytes) (old old' : Memory) {k : ℕ} (hk : k < packet.length) :
    Memory.load packet old k = Memory.load packet old' k := by
  rw [Memory.load_of_lt old hk, Memory.load_of_lt old' hk]

theorem controlSize_congr (h : ∀ k < n, m k = m' k) (hn : 9 ≤ n) :
    readBe32 m bpHeaderSize = readBe32 m' bpHeaderSize := by
  apply readBe32_congr
  intro k _ hk
  exact h k (by simp only [bpHeaderSize] at hk; omega)

theorem decodeControl_congr (h : ∀ k < n, m k = m' k) (hn : 9 ≤ n)
    (hinput : text.parse (parserInput m 9 (endOffset (controlSize m))) =
      text.parse (parserInput m' 9 (endOffset (controlSize m)))) :
    decodeControl text m n header = decodeControl text m' n header := by
  have hsize := controlSize_congr h hn
  have hcontrol : controlSize m = controlSize m' := congrArg UInt32.toNat hsize
  by_cases hend : endOffset (controlSize m) > n
  · rw [decodeControl_of_gt text hend, decodeControl_of_gt text (hcontrol ▸ hend), hsize]
  · rw [decodeControl_of_le text hend, decodeControl_of_le text (hcontrol ▸ hend), ← hcontrol,
      hsize]
    simp only [bpHeaderSize, bpControlHeaderSize, Nat.reduceAdd, hinput]

theorem decodeData_congr (h : ∀ k < n, m k = m' k) (hn : 17 ≤ n) :
    decodeData m n header = decodeData m' n header := by
  have hread : ∀ off, off + 4 ≤ 17 → readBe32 m off = readBe32 m' off := by
    intro off hoff
    apply readBe32_congr
    intro k _ hk
    exact h k (by omega)
  simp only [decodeData, hread bpHeaderSize (by decide), hread (bpHeaderSize + 4) (by decide),
    hread (bpHeaderSize + 8) (by decide)]

theorem decodeControl_reported (h : endOffset (controlSize m) > n) :
    (decodeControl text m n header).map Decoded.reported = .ok { type := .invalid, header } := by
  rw [decodeControl_of_gt text h]
  rfl

theorem decodeData_reported (h : endOffset (dataSize m) > n) :
    (decodeData m n header).reported = { type := .invalid, header } := by
  have htype := decodeData_type m n header
  rw [if_pos h] at htype
  simp only [Decoded.reported, htype, decodeData_header]
  rfl

end Congruence

theorem readBe32_toNat (m : Memory) (off : ℕ) :
    (readBe32 m off).toNat = (m off).toNat * 2 ^ 24 + (m (off + 1)).toNat * 2 ^ 16 +
      (m (off + 2)).toNat * 2 ^ 8 + (m (off + 3)).toNat := by
  have h0 := (m off).toNat_lt
  have h1 := (m (off + 1)).toNat_lt
  have h2 := (m (off + 2)).toNat_lt
  have h3 := (m (off + 3)).toNat_lt
  rw [readBe32, UInt32.toNat_ofNat']
  omega

section Partial

variable {packet : Bytes} {off : ℕ}

theorem exists_byte (hlen : packet.length ≤ off + 3) (old : Memory) {v : UInt8}
    (h : ∃ b ∈ packet.drop off, b ≠ v) :
    ∃ k < 3, Memory.load packet old (off + k) ≠ v := by
  obtain ⟨b, hb, hne⟩ := h
  obtain ⟨k, hk, rfl⟩ := List.getElem_of_mem hb
  rw [List.length_drop] at hk
  refine ⟨k, by omega, ?_⟩
  rw [Memory.load_of_lt old (by omega)]
  simpa using hne

theorem word_pos (hlen : packet.length ≤ off + 3) (old : Memory)
    (h : ∃ b ∈ packet.drop off, b ≠ 0) : 256 ≤ (readBe32 (Memory.load packet old) off).toNat := by
  obtain ⟨k, hk, hne⟩ := exists_byte hlen old h
  have hpos : 1 ≤ (Memory.load packet old (off + k)).toNat := by
    rw [Nat.one_le_iff_ne_zero]
    intro hzero
    exact hne (UInt8.toNat_inj.mp hzero)
  rw [readBe32_toNat]
  interval_cases k
  · rw [Nat.add_zero] at hpos
    omega
  · omega
  · omega

theorem word_lt (hlen : packet.length ≤ off + 3) (old : Memory)
    (h : ∃ b ∈ packet.drop off, b ≠ 255) :
    (readBe32 (Memory.load packet old) off).toNat < 2 ^ 32 - 256 := by
  obtain ⟨k, hk, hne⟩ := exists_byte hlen old h
  have hlt : (Memory.load packet old (off + k)).toNat < 255 := by
    have hmax := (Memory.load packet old (off + k)).toNat_lt
    have hneq : (Memory.load packet old (off + k)).toNat ≠ 255 := by
      intro hmax
      exact hne (UInt8.toNat_inj.mp hmax)
    omega
  have h0 := (Memory.load packet old off).toNat_lt
  have h1 := (Memory.load packet old (off + 1)).toNat_lt
  have h2 := (Memory.load packet old (off + 2)).toNat_lt
  have h3 := (Memory.load packet old (off + 3)).toNat_lt
  rw [readBe32_toNat]
  interval_cases k
  · rw [Nat.add_zero] at hlt
    omega
  · omega
  · omega

/-- A buffer that continues a run of equal bytes up to the last byte of a word. -/
def tailMemory (off : ℕ) (v w : UInt8) : Memory := fun k => if k = off + 3 then w else v

theorem readBe32_tail (hlen : packet.length ≤ off + 3) {v w : UInt8}
    (h : ∀ b ∈ packet.drop off, b = v) :
    (readBe32 (Memory.load packet (tailMemory off v w)) off).toNat =
      v.toNat * 2 ^ 24 + v.toNat * 2 ^ 16 + v.toNat * 2 ^ 8 + w.toNat := by
  have hbyte : ∀ k < 4, Memory.load packet (tailMemory off v w) (off + k) =
      if k = 3 then w else v := by
    intro k hk
    by_cases hin : off + k < packet.length
    · rw [Memory.load_of_lt _ hin, if_neg (by omega)]
      apply h
      rw [List.mem_drop_iff_getElem]
      exact ⟨k, by omega, rfl⟩
    · rw [Memory.load_of_le _ (by omega)]
      simp only [tailMemory, Nat.add_left_cancel_iff]
  have h0 : Memory.load packet (tailMemory off v w) off = v := hbyte 0 (by omega)
  rw [readBe32_toNat, h0, hbyte 1 (by omega), hbyte 2 (by omega), hbyte 3 (by omega)]
  rfl

end Partial

/-! ## The parser's input -/

section Text

variable {packet : Bytes} {last : ℕ}

theorem uptoNul_of_mem {received : Bytes} (h : 0 ∈ received) (stale : Bytes) :
    (received ++ stale).takeWhile (· ≠ 0) = received.takeWhile (· ≠ 0) := by
  rw [List.takeWhile_append, if_neg]
  intro hlen
  have hall := (List.takeWhile_prefix fun b : UInt8 => decide (b ≠ 0)).eq_of_length hlen
  exact absurd (List.mem_takeWhile_imp (hall.symm ▸ h)) (by decide)

theorem uptoNul_of_notMem {received : Bytes} (h : 0 ∉ received) (stale : Bytes) :
    (received ++ stale).takeWhile (· ≠ 0) = received ++ stale.takeWhile (· ≠ 0) := by
  apply List.takeWhile_append_of_pos
  intro b hb
  rw [decide_eq_true_iff]
  rintro rfl
  exact h hb

theorem notMem_uptoNul (stale : Bytes) : 0 ∉ stale.takeWhile (· ≠ 0) := fun h =>
  absurd (List.mem_takeWhile_imp h) (by decide)

/-- From a reversed range the parser takes the received bytes and what stands behind them. -/
theorem parserInput_reversed (hlast : last < 9) (h9 : 9 ≤ packet.length)
    (hfit : packet.length ≤ bufferSize) (old : Memory) :
    parserInput (Memory.load packet old) 9 last = (packet.drop 9 ++
      old.slice packet.length (bufferSize - packet.length)).takeWhile (· ≠ 0) := by
  have hsplit : bufferSize - 9 = packet.length - 9 + (bufferSize - packet.length) := by omega
  have hreceived : (Memory.load packet old).slice 9 (packet.length - 9) = packet.drop 9 := by
    rw [Memory.slice_load old (by omega), ← List.length_drop, List.take_length]
  have hstale : (Memory.load packet old).slice packet.length (bufferSize - packet.length) =
      old.slice packet.length (bufferSize - packet.length) := by
    apply Memory.slice_congr
    intro k hk _
    exact Memory.load_of_le old hk
  rw [parserInput, if_pos hlast, hsplit, Memory.slice_add, hreceived,
    show 9 + (packet.length - 9) = packet.length by omega, hstale]

/-- A buffer that holds these bytes behind the packet, and zeros behind them. -/
def continued (packet more : Bytes) : Memory := fun k => more.getD (k - packet.length) 0

theorem parserInput_continued (hlast : last < 9) (h9 : 9 ≤ packet.length) {more : Bytes}
    (hfit : packet.length + more.length ≤ bufferSize) (hpacket : 0 ∉ packet.drop 9)
    (hmore : 0 ∉ more) :
    parserInput (Memory.load packet (continued packet more)) 9 last = packet.drop 9 ++ more := by
  have hcontinued : (continued packet more).slice packet.length (bufferSize - packet.length) =
      more ++ List.replicate (bufferSize - packet.length - more.length) 0 := by
    apply List.ext_getElem
    · rw [Memory.length_slice, List.length_append, List.length_replicate]
      omega
    · intro k _ _
      simp only [Memory.slice, List.getElem_map, List.getElem_range, continued,
        Nat.add_sub_cancel_left, List.getElem_append, List.getElem_replicate,
        List.getD_eq_getElem?_getD]
      split
      · rw [List.getElem?_eq_getElem (by assumption), Option.getD_some]
      · rw [List.getElem?_eq_none (by omega), Option.getD_none]
  rw [parserInput_reversed hlast h9 (by omega), hcontinued, uptoNul_of_notMem hpacket,
    uptoNul_of_notMem hmore]
  generalize bufferSize - packet.length - more.length = count
  cases count with
  | zero => rw [List.replicate_zero, List.takeWhile_nil, List.append_nil]
  | succ count =>
    rw [List.replicate_succ, List.takeWhile_cons_of_neg (by decide), List.append_nil]

theorem parserInput_congr (h : TextReceived text packet) (hb : packet.head? = some 1)
    (h9 : 9 ≤ packet.length) (old old' : Memory)
    (hend : endOffset (controlSize (Memory.load packet old)) ≤ packet.length) :
    text.parse (parserInput (Memory.load packet old) 9
        (endOffset (controlSize (Memory.load packet old)))) =
      text.parse (parserInput (Memory.load packet old') 9
        (endOffset (controlSize (Memory.load packet old)))) := by
  have hagree : ∀ k < packet.length, Memory.load packet old k = Memory.load packet old' k :=
    fun k hk => load_agree packet old old' hk
  by_cases hlast : endOffset (controlSize (Memory.load packet old)) < 9
  · by_cases hfit : packet.length ≤ bufferSize
    · rw [parserInput_reversed hlast h9 hfit, parserInput_reversed hlast h9 hfit]
      have hsize : controlSize (Memory.load packet old) =
          controlSize (Memory.load packet fun _ => 0) :=
        congrArg UInt32.toNat (controlSize_congr (n := packet.length)
          (fun k hk => load_agree packet old _ hk) h9)
      have hlt := controlSize_lt (Memory.load packet old)
      rw [endOffset_eq] at hlast
      rcases h hb h9 (by omega) with hnul | hsame
      · rw [uptoNul_of_mem hnul, uptoNul_of_mem hnul]
      · by_cases hnul : 0 ∈ packet.drop 9
        · rw [uptoNul_of_mem hnul, uptoNul_of_mem hnul]
        · rw [uptoNul_of_notMem hnul, uptoNul_of_notMem hnul]
          have hlen : ∀ old : Memory,
              ((old.slice packet.length (bufferSize - packet.length)).takeWhile
                (· ≠ 0)).length ≤ bufferSize - packet.length := fun old =>
            (List.takeWhile_prefix _).length_le.trans (Memory.length_slice _ _ _).le
          exact hsame _ _ (notMem_uptoNul _) (notMem_uptoNul _) (hlen old) (hlen old')
    · have hslice : (Memory.load packet old).slice 9 (bufferSize - 9) =
          (Memory.load packet old').slice 9 (bufferSize - 9) := by
        apply Memory.slice_congr
        intro k _ hk
        exact hagree k (by omega)
      rw [parserInput, parserInput, if_pos hlast, if_pos hlast, hslice]
  · rw [parserInput_of_le (by omega), parserInput_of_le (by omega)]
    congr 1
    apply Memory.slice_congr
    intro k _ hk
    exact hagree k (by omega)

end Text

/-! ## The length checks -/

theorem endOffset_of_short {packet : Bytes} (hlen : packet.length < 17)
    (h : (∃ b ∈ packet.drop 13, b ≠ 0) ∧ ∃ b ∈ packet.drop 13, b ≠ 255) (old : Memory) :
    endOffset (dataSize (Memory.load packet old)) > packet.length := by
  have hpos := word_pos (show packet.length ≤ 13 + 3 by omega) old h.1
  have hlt := word_lt (show packet.length ≤ 13 + 3 by omega) old h.2
  have heq : dataSize (Memory.load packet old) = (readBe32 (Memory.load packet old) 13).toNat := rfl
  rw [endOffset_eq]
  omega

theorem decodesAlike_of_received {packet : Bytes} (h : HeaderReceived packet)
    (htext : TextReceived text packet) : DecodesAlike text packet := by
  intro old old'
  by_cases hn : packet.length < 5
  · simp only [decodedAfter, decode_short text hn]
  · obtain ⟨hcontrol, hdata⟩ := h (by omega)
    obtain ⟨b, hb⟩ : ∃ b, packet.head? = some b := by
      cases packet with
      | nil => exact absurd (show 0 < 5 by omega) hn
      | cons b rest => exact ⟨b, rfl⟩
    have hagree : ∀ k < packet.length, Memory.load packet old k = Memory.load packet old' k :=
      fun k hk => load_agree packet old old' hk
    simp only [decodedAfter, decode_byType text hb (show 5 ≤ packet.length by omega)]
    by_cases h1 : b = 1
    · subst h1
      have hof : BpType.ofByte 1 = .control := rfl
      simp only [hof]
      by_cases hlen : 9 ≤ packet.length
      · by_cases hend : endOffset (controlSize (Memory.load packet old)) > packet.length
        · have hsize : controlSize (Memory.load packet old) =
              controlSize (Memory.load packet old') :=
            congrArg UInt32.toNat (controlSize_congr hagree hlen)
          rw [decodeControl_reported text hend, decodeControl_reported text (hsize ▸ hend)]
        · rw [decodeControl_congr text hagree hlen
            (parserInput_congr text htext hb hlen old old' (Nat.not_lt.mp hend))]
      · have hsize := (hcontrol hb).resolve_left hlen
        have hend : ∀ old, endOffset (controlSize (Memory.load packet old)) > packet.length := by
          intro old
          have hlt := word_lt (show packet.length ≤ 5 + 3 by omega) old hsize
          have heq : controlSize (Memory.load packet old) =
            (readBe32 (Memory.load packet old) 5).toNat := rfl
          rw [endOffset_eq]
          omega
        rw [decodeControl_reported text (hend old), decodeControl_reported text (hend old')]
    · by_cases h2 : b = 2
      · subst h2
        have hof : BpType.ofByte 2 = .data := rfl
        simp only [hof]
        by_cases hlen : 17 ≤ packet.length
        · rw [decodeData_congr hagree hlen]
        · have hend := endOffset_of_short (by omega) ((hdata hb).resolve_left hlen)
          simp only [Except.map, decodeData_reported (hend old), decodeData_reported (hend old')]
      · have hother : BpType.ofByte b = .invalid ∨ BpType.ofByte b = .other b := by
          simp only [BpType.ofByte, if_neg h1, if_neg h2]
          split_ifs
          · exact .inl rfl
          · exact .inr rfl
        rcases hother with hof | hof <;> simp only [hof]

section Completed

variable {packet : Bytes}

/-- All ones so far: the size can be `2 ^ 32 - 9`, whose end offset is zero, or much too large. -/
theorem endOffset_ones (off : ℕ) (hlen : packet.length ≤ off + 3) (hn : packet.length ≤ 16)
    (h : ∀ b ∈ packet.drop off, b = 255) :
    endOffset (readBe32 (Memory.load packet (tailMemory off 255 247)) off).toNat = 0 ∧
      packet.length <
        endOffset (readBe32 (Memory.load packet (tailMemory off 255 0)) off).toNat := by
  rw [readBe32_tail hlen h, readBe32_tail hlen h, endOffset_eq, endOffset_eq]
  have hones : (255 : UInt8).toNat = 255 := rfl
  have hlast : (247 : UInt8).toNat = 247 := rfl
  have hzero : (0 : UInt8).toNat = 0 := rfl
  rw [hones, hlast, hzero]
  omega

theorem endOffset_zeros (off : ℕ) (hlen : packet.length ≤ off + 3) (hn : packet.length ≤ 16)
    (h : ∀ b ∈ packet.drop off, b = 0) :
    endOffset (readBe32 (Memory.load packet (tailMemory off 0 0)) off).toNat = 9 ∧
      packet.length <
        endOffset (readBe32 (Memory.load packet (tailMemory off 0 255)) off).toNat := by
  rw [readBe32_tail hlen h, readBe32_tail hlen h, endOffset_eq, endOffset_eq]
  have hlast : (255 : UInt8).toNat = 255 := rfl
  have hzero : (0 : UInt8).toNat = 0 := rfl
  rw [hlast, hzero]
  omega

theorem dataType_after (hb : packet.head? = some 2) (hn : 5 ≤ packet.length) (old : Memory) :
    (decodedAfter text packet old).map Decoded.type =
      .ok (if endOffset (dataSize (Memory.load packet old)) > packet.length then .invalid
        else .data) := by
  have htype := decodeData_type (Memory.load packet old) packet.length (packetHeader packet)
  rw [packetHeader_type hb] at htype
  simp only [decodedAfter, decode_dataType text hb hn, Except.map, Decoded.reported, htype]
  rfl

end Completed

/-- Buffers that go on differently up to a NUL show whether the parser reads on. -/
theorem text_of_decodesAlike {packet : Bytes} (h : DecodesAlike text packet) :
    TextReceived text packet := by
  intro hb h9 hwrap
  by_cases hnul : 0 ∈ packet.drop 9
  · exact .inl hnul
  · refine .inr fun more more' hmore hmore' hlen hlen' => ?_
    by_cases hfit : packet.length ≤ bufferSize
    · have hinput : ∀ bytes : Bytes, 0 ∉ bytes → bytes.length ≤ bufferSize - packet.length →
          decodedAfter text packet (continued packet bytes) =
            ((text.parse (packet.drop 9 ++ bytes)).elim (.error .parseError) fun controlJson =>
              .ok {
                type := .control
                header := packetHeader packet
                controlHeader := {
                  size := readBe32 (Memory.load packet (continued packet bytes)) bpHeaderSize }
                controlJson } : Except Fault Decoded).map Decoded.reported := by
        intro bytes hbytes hlen
        have hsize : controlSize (Memory.load packet (continued packet bytes)) =
            controlSize (Memory.load packet fun _ => 0) :=
          congrArg UInt32.toNat (controlSize_congr (n := packet.length)
            (fun k hk => load_agree packet _ _ hk) h9)
        have hlt := controlSize_lt (Memory.load packet (continued packet bytes))
        have hend : endOffset (controlSize (Memory.load packet (continued packet bytes))) < 9 := by
          rw [endOffset_eq]
          omega
        have hof : BpType.ofByte 1 = .control := rfl
        simp only [decodedAfter, decode_byType text hb (show 5 ≤ packet.length by omega), hof]
        rw [decodeControl_of_le text (by omega), packetHeader_type hb]
        simp only [bpHeaderSize, bpControlHeaderSize, Nat.reduceAdd]
        rw [parserInput_continued hend h9 (by omega) hnul hbytes]
        cases text.parse (packet.drop 9 ++ bytes) <;> rfl
      have hsame := h (continued packet more) (continued packet more')
      rw [hinput more hmore hlen, hinput more' hmore' hlen'] at hsame
      cases hparse : text.parse (packet.drop 9 ++ more) with
      | none =>
        rw [hparse] at hsame
        cases hparse' : text.parse (packet.drop 9 ++ more') with
        | none => rfl
        | some json =>
          rw [hparse'] at hsame
          cases hsame
      | some json =>
        rw [hparse] at hsame
        cases hparse' : text.parse (packet.drop 9 ++ more') with
        | none =>
          rw [hparse'] at hsame
          cases hsame
        | some json' =>
          rw [hparse'] at hsame
          have hjson := congrArg (Except.map Decoded.controlJson) hsame
          injection hjson with hjson
          exact congrArg some hjson
    · have hnil : ∀ bytes : Bytes, bytes.length ≤ bufferSize - packet.length → bytes = [] := by
        intro bytes hbytes
        exact List.eq_nil_of_length_eq_zero (by omega)
      rw [hnil more hlen, hnil more' hlen']

/-- A partly received size field of equal bytes can be completed to a size that is let pass and
to one that is not. -/
theorem header_of_decodesAlike {packet : Bytes} (h : DecodesAlike text packet) :
    HeaderReceived packet := by
  intro hn
  constructor
  · intro hb
    by_contra hcond
    simp only [not_or, not_le, not_exists, not_and, not_not] at hcond
    obtain ⟨hlen, hones⟩ := hcond
    obtain ⟨hwrap, hfar⟩ := endOffset_ones 5 (by omega) (by omega) hones
    have hne := h (tailMemory 5 255 247) (tailMemory 5 255 0)
    have hof : BpType.ofByte 1 = .control := rfl
    simp only [decodedAfter, decode_byType text hb hn, hof] at hne
    have hle : ¬ endOffset (controlSize (Memory.load packet (tailMemory 5 255 247))) >
        packet.length := by
      rw [show endOffset (controlSize (Memory.load packet (tailMemory 5 255 247))) = 0 from hwrap]
      omega
    rw [decodeControl_reported text hfar, decodeControl_of_le text hle,
      packetHeader_type hb] at hne
    split at hne <;> cases hne
  · intro hb
    by_contra hcond
    simp only [not_or, not_le] at hcond
    obtain ⟨hlen, hcond⟩ := hcond
    have hsame : ∀ old old' : Memory,
        endOffset (dataSize (Memory.load packet old)) ≤ packet.length →
        ¬ packet.length < endOffset (dataSize (Memory.load packet old')) := by
      intro old old' hle hgt
      have hne := congrArg (Except.map Decoded.type) (h old old')
      rw [dataType_after text hb hn, dataType_after text hb hn, if_neg (by omega),
        if_pos hgt] at hne
      cases hne
    by_cases hones : ∃ b ∈ packet.drop 13, b ≠ 255
    · have hzeros : ∀ b ∈ packet.drop 13, b = 0 := by
        intro b hb'
        by_contra hne
        exact hcond ⟨⟨b, hb', hne⟩, hones⟩
      obtain ⟨hempty, hfar⟩ := endOffset_zeros 13 (by omega) (by omega) hzeros
      obtain ⟨b, hb', _⟩ := hones
      have hlong : 13 < packet.length := by
        by_contra hshort
        rw [List.drop_eq_nil_of_le (by omega)] at hb'
        cases hb'
      exact hsame (tailMemory 13 0 0) (tailMemory 13 0 255) (by
        rw [show endOffset (dataSize (Memory.load packet (tailMemory 13 0 0))) = 9 from hempty]
        omega) hfar
    · simp only [not_exists, not_and, not_not] at hones
      obtain ⟨hwrap, hfar⟩ := endOffset_ones 13 (by omega) (by omega) hones
      exact hsame (tailMemory 13 255 247) (tailMemory 13 255 0) (by
        rw [show endOffset (dataSize (Memory.load packet (tailMemory 13 255 247))) = 0 from hwrap]
        omega) hfar

/-! ## The broker -/

/-- What an iteration did, without the receive buffer it leaves. -/
def Iteration.effects (it : Iteration) : Iteration :=
  { it with broker := { it.broker with buffer := fun _ => 0 } }

def Broker.iterationAfter (b : Broker) (sendto : Sendto) (client : String) (packet : Bytes)
    (old : Memory) : Except Fault Iteration :=
  (({ b with buffer := old } : Broker).spinIteration text sendto client packet).map
    Iteration.effects

/-- The broker does the same with a packet whatever its buffer held. -/
def Broker.IteratesAlike (b : Broker) (packet : Bytes) : Prop :=
  ∀ (sendto : Sendto) (client : String) (old old' : Memory),
    b.iterationAfter text sendto client packet old =
      b.iterationAfter text sendto client packet old'

theorem reported_fields {d d' : Decoded} (h : d.reported = d'.reported) :
    d.type = d'.type ∧ d.header = d'.header ∧
      (d.type = .control → d.controlJson = d'.controlJson) ∧
      (d.type = .data → d.dataHeader = d'.dataHeader) := by
  simp only [Decoded.reported, Decoded.mk.injEq] at h
  obtain ⟨htype, hheader, _, hdata, hjson⟩ := h
  refine ⟨htype, hheader, fun hcontrol => ?_, fun hkind => ?_⟩
  · rwa [if_pos hcontrol, if_pos (htype ▸ hcontrol)] at hjson
  · rwa [if_pos hkind, if_pos (htype ▸ hkind)] at hdata

theorem decodedAfter_cases {packet : Bytes} (h : DecodesAlike text packet) (old old' : Memory) :
    (∃ fault, decodePacketBuffer text (Memory.load packet old) packet.length = .error fault ∧
        decodePacketBuffer text (Memory.load packet old') packet.length = .error fault) ∨
      ∃ d d', decodePacketBuffer text (Memory.load packet old) packet.length = .ok d ∧
        decodePacketBuffer text (Memory.load packet old') packet.length = .ok d' ∧
        d.reported = d'.reported := by
  have hsame := h old old'
  simp only [decodedAfter] at hsame
  cases hd : decodePacketBuffer text (Memory.load packet old) packet.length with
  | error fault =>
    cases hd' : decodePacketBuffer text (Memory.load packet old') packet.length with
    | error fault' =>
      rw [hd, hd'] at hsame
      injection hsame with hsame
      exact .inl ⟨fault, rfl, hsame ▸ rfl⟩
    | ok d' =>
      rw [hd, hd'] at hsame
      cases hsame
  | ok d =>
    cases hd' : decodePacketBuffer text (Memory.load packet old') packet.length with
    | error fault' =>
      rw [hd, hd'] at hsame
      cases hsame
    | ok d' =>
      rw [hd, hd'] at hsame
      injection hsame with hsame
      exact .inr ⟨d, d', rfl, rfl, hsame⟩

theorem processControl_effects (counters : ClientCounters) (t : Tables) (m m' : Memory)
    (sendto : Sendto) (client : String) (request : Json) :
    (Broker.processControl text ⟨counters, t, m⟩ sendto client request).map Iteration.effects =
      (Broker.processControl text ⟨counters, t, m'⟩ sendto client request).map
        Iteration.effects := by
  simp only [Broker.processControl]
  cases t.processControlRequest client request <;> rfl

theorem processData_effects (counters : ClientCounters) (t : Tables) (m m' : Memory)
    (sendto : Sendto) (packet : Bytes) (header : BpDataHeader) :
    (Broker.processData ⟨counters, t, m⟩ sendto packet header).effects =
      (Broker.processData ⟨counters, t, m'⟩ sendto packet header).effects := by
  simp only [Broker.processData]
  split
  · rfl
  · split_ifs <;> rfl

theorem iteratesAlike_of_decodesAlike {packet : Bytes} (h : DecodesAlike text packet)
    (b : Broker) : b.IteratesAlike text packet := by
  intro sendto client old old'
  simp only [Broker.iterationAfter, Broker.spinIteration]
  rcases decodedAfter_cases text h old old' with ⟨fault, hd, hd'⟩ | ⟨d, d', hd, hd', hsame⟩
  · rw [hd, hd']
    rfl
  · obtain ⟨htype, hheader, hjson, hdata⟩ := reported_fields hsame
    rw [hd, hd']
    simp only [bind, Except.bind, ← hheader, Memory.slice_load_self]
    cases (verifyAndUpdateClientCounter b.clientCounters client d.header.counter).1 with
    | false => rfl
    | true =>
      simp only [Bool.not_true, Bool.false_eq_true, if_false, ← htype]
      cases hkind : d.type with
      | invalid => rfl
      | control =>
        simp only [hjson hkind]
        exact processControl_effects text _ _ _ _ sendto client _
      | data =>
        simp only [hdata hkind]
        exact congrArg Except.ok (processData_effects _ _ _ _ sendto packet _)
      | other byte => rfl

/-! ## The node -/

/-- The result of `process_incoming_message` on a packet, and every subscriber's queue after it. -/
def Node.processedAfter (n : Node) (packet : Bytes) (old : Memory) :
    Except Fault (ℤ × List (List Bytes)) :=
  (({ n with buffer := old } : Node).processIncomingMessage text (.datagram packet)).map fun out =>
    (out.2.2, out.1.subscribers.map Subscriber.messages)

/-- The node does the same with a packet whatever its buffer held. -/
def Node.ProcessesAlike (n : Node) (packet : Bytes) : Prop :=
  ∀ old old' : Memory, n.processedAfter text packet old = n.processedAfter text packet old'

/-- A data packet with a whole header holds as many payload bytes as each subscriber that is
about to queue it copies. -/
def Node.PayloadReceived (n : Node) (packet : Bytes) : Prop :=
  let received := Memory.load packet fun _ => 0
  packet.head? = some 2 → 17 ≤ packet.length → endOffset (dataSize received) ≤ packet.length →
    ∀ info, n.topics (readBe32 received bpHeaderSize) = some info → ∀ k ∈ info.subscribers,
      ∀ s, n.subscribers[k]? = some s → 0 < s.room → 17 + s.messageSize.toNat ≤ packet.length

theorem dataReported {packet : Bytes} (h : HeaderReceived packet) {old : Memory} {d : Decoded}
    (hd : decodePacketBuffer text (Memory.load packet old) packet.length = .ok d)
    (htype : d.type = .data) :
    packet.head? = some 2 ∧ 17 ≤ packet.length ∧
      endOffset (dataSize (Memory.load packet fun _ => 0)) ≤ packet.length ∧
      d.dataHeader.topicId = readBe32 (Memory.load packet fun _ => 0) bpHeaderSize := by
  have hn : 5 ≤ packet.length := by
    by_contra hn
    rw [decode_short text (by omega)] at hd
    injection hd with hd
    rw [← hd] at htype
    cases htype
  have hb : packet.head? = some 2 := head?_of_data text hd htype
  have hread : ∀ off, off + 4 ≤ packet.length →
      readBe32 (Memory.load packet old) off = readBe32 (Memory.load packet fun _ => 0) off := by
    intro off hoff
    apply readBe32_congr
    intro k _ hk
    exact load_agree packet _ _ (by omega)
  rw [decode_dataType text hb hn] at hd
  injection hd with hd
  subst hd
  rw [decodeData_type] at htype
  have hle : ¬ endOffset (dataSize (Memory.load packet old)) > packet.length := by
    intro hgt
    rw [if_pos hgt] at htype
    cases htype
  have hlen : 17 ≤ packet.length := by
    by_contra hlen
    exact hle (endOffset_of_short (by omega) (((h hn).2 hb).resolve_left hlen) old)
  refine ⟨hb, hlen, ?_, ?_⟩
  · have hsize := hread 13 (by omega)
    rw [show dataSize (Memory.load packet fun _ => 0) = dataSize (Memory.load packet old) from
      congrArg UInt32.toNat hsize.symm]
    omega
  · rw [decodeData_dataHeader]
    exact hread 5 (by omega)

theorem payloadOf_agree {packet : Bytes} {size : ℕ} (h : 17 + size ≤ packet.length)
    (old old' : Memory) :
    (Node.payloadOf (Memory.load packet old)).slice 0 size =
      (Node.payloadOf (Memory.load packet old')).slice 0 size := by
  apply Memory.slice_congr
  intro k _ hk
  exact load_agree packet old old' (by simp only [bpHeaderSize, bpDataHeaderSize]; omega)

namespace Node

variable {text} {n : Node} {packet : Bytes}

/-- The subscribers a decoded packet is for. -/
def listening (n : Node) (d : Decoded) : List ℕ :=
  (n.topics d.dataHeader.topicId).elim [] TopicInfo.subscribers

theorem processedAfter_of_decode {old : Memory} {d : Decoded}
    (hd : decodePacketBuffer text (Memory.load packet old) packet.length = .ok d) :
    n.processedAfter text packet old =
      if d.type = .data ∧ n.listening d ≠ [] then
        .ok (1, (({ n with buffer := Memory.load packet old } : Node).queueAll
          (payloadOf (Memory.load packet old)) (n.listening d)).1.subscribers.map
            Subscriber.messages)
      else .ok (-1, n.subscribers.map Subscriber.messages) := by
  unfold processedAfter
  rw [processIncomingMessage_of_decode hd]
  change Except.map _ (if d.type = .data ∧ n.listening d ≠ [] then _ else _) = _
  split_ifs <;> rfl

theorem processesAlike_of_received (hheader : HeaderReceived packet)
    (htext : TextReceived text packet) (hpayload : n.PayloadReceived packet) :
    n.ProcessesAlike text packet := by
  intro old old'
  rcases decodedAfter_cases text (decodesAlike_of_received text hheader htext) old old' with
    ⟨fault, hd, hd'⟩ | ⟨d, d', hd, hd', hsame⟩
  · simp only [processedAfter, processIncomingMessage, receiveMessage, hd, hd']
    rfl
  · obtain ⟨htype, _, _, hdata⟩ := reported_fields hsame
    rw [processedAfter_of_decode hd, processedAfter_of_decode hd', ← htype]
    by_cases hkind : d.type = .data
    · obtain ⟨hb, hlen, hend, htopic⟩ := dataReported text hheader hd hkind
      have hlistening : n.listening d' = n.listening d := by
        rw [listening, listening, hdata hkind]
      rw [hlistening]
      split_ifs
      · congr 2
        apply List.ext_getElem?
        intro k
        rw [List.getElem?_map, List.getElem?_map, queueAll_messages, queueAll_messages]
        cases hs : n.subscribers[k]? with
        | none => rfl
        | some s =>
          simp only [Option.map_some, Option.some.injEq, List.append_cancel_left_eq]
          by_cases hcount : min ((n.listening d).count k) s.room = 0
          · rw [hcount, List.replicate_zero, List.replicate_zero]
          · have hmem : k ∈ n.listening d := List.count_pos_iff.mp (by omega)
            obtain ⟨info, hinfo, hk⟩ : ∃ info, n.topics d.dataHeader.topicId = some info ∧
                k ∈ info.subscribers := by
              unfold listening at hmem
              cases hinfo : n.topics d.dataHeader.topicId with
              | none =>
                rw [hinfo] at hmem
                cases hmem
              | some info =>
                rw [hinfo] at hmem
                exact ⟨info, rfl, hmem⟩
            have hfits := hpayload hb hlen hend info (htopic ▸ hinfo) k hk s hs (by omega)
            rw [payloadOf_agree hfits old old']
      · rfl
    · rw [if_neg (fun h => hkind h.1), if_neg (fun h => hkind h.1)]

/-- A subscriber that copies past the packet queues what was in the buffer there. -/
theorem received_of_processesAlike (h : n.ProcessesAlike text packet) :
    n.PayloadReceived packet := by
  intro hb hlen hend info hinfo k hk s hs hroom
  by_contra hshort
  set received := Memory.load packet fun _ => 0 with hreceived
  have hread : ∀ old off, off + 4 ≤ 17 →
      readBe32 (Memory.load packet old) off = readBe32 received off := by
    intro old off hoff
    apply readBe32_congr
    intro j _ hj
    exact load_agree packet _ _ (by omega)
  have hqueued : ∀ old : Memory, ∃ queues : List (List Bytes),
      n.processedAfter text packet old = .ok (1, queues) ∧
      queues[k]? = some (s.messages ++ List.replicate (min (info.subscribers.count k) s.room)
        ((payloadOf (Memory.load packet old)).slice 0 s.messageSize.toNat)) := by
    intro old
    have hd := decode_dataType text hb (show 5 ≤ packet.length by omega) old
    have htopic : n.listening (decodeData (Memory.load packet old) packet.length
        (packetHeader packet)) = info.subscribers := by
      rw [listening, decodeData_dataHeader, hread old bpHeaderSize (by decide), hinfo]
      rfl
    have hsize : dataSize (Memory.load packet old) = dataSize received :=
      congrArg UInt32.toNat (hread old 13 (by omega))
    have htype : (decodeData (Memory.load packet old) packet.length
        (packetHeader packet)).type = .data := by
      rw [decodeData_type, hsize, if_neg (by omega)]
      exact packetHeader_type hb
    have hlisten := htopic ▸ List.ne_nil_of_mem hk
    refine ⟨_, (processedAfter_of_decode hd).trans (if_pos ⟨htype, hlisten⟩), ?_⟩
    rw [htopic, List.getElem?_map, queueAll_messages]
    simp only [hs, Option.map_some]
  obtain ⟨queues, hrun, hget⟩ := hqueued fun _ => 0
  obtain ⟨queues', hrun', hget'⟩ := hqueued fun _ => 1
  have hsame := (hrun.symm.trans (h _ _)).trans hrun'
  simp only [Except.ok.injEq, Prod.mk.injEq, true_and] at hsame
  subst hsame
  have hcount : min (info.subscribers.count k) s.room ≠ 0 := by
    have hpos := List.count_pos_iff.mpr hk
    omega
  have hslices := Option.some.inj (hget.symm.trans hget')
  rw [List.append_cancel_left_eq, List.replicate_right_inj hcount] at hslices
  have hlast : s.messageSize.toNat - 1 < s.messageSize.toNat := by omega
  have hbyte := congrArg (fun bytes => bytes[s.messageSize.toNat - 1]?) hslices
  simp only [Memory.slice, List.getElem?_map, List.getElem?_range hlast, Option.map_some,
    payloadOf, bpHeaderSize, bpDataHeaderSize] at hbyte
  rw [Memory.load_of_le _ (by omega), Memory.load_of_le _ (by omega)] at hbyte
  cases hbyte

end Node

/-- Broker and node treat a packet alike whatever their buffers held. -/
def StaleFree (n : Node) (packet : Bytes) : Prop :=
  DecodesAlike text packet ∧ (∀ b : Broker, b.IteratesAlike text packet) ∧
    n.ProcessesAlike text packet

/-- Stale bytes stay out exactly if the packet settles its header and its text and fills the
messages of the subscribers that queue it. -/
theorem staleFree_iff (n : Node) (packet : Bytes) :
    StaleFree text n packet ↔
      HeaderReceived packet ∧ TextReceived text packet ∧ n.PayloadReceived packet := by
  constructor
  · rintro ⟨hdecode, _, hnode⟩
    exact ⟨header_of_decodesAlike text hdecode, text_of_decodesAlike text hdecode,
      Node.received_of_processesAlike hnode⟩
  · rintro ⟨hheader, htext, hpayload⟩
    have hdecode := decodesAlike_of_received text hheader htext
    exact ⟨hdecode, iteratesAlike_of_decodesAlike text hdecode,
      Node.processesAlike_of_received hheader htext hpayload⟩

/-- A data packet cut off after its topic is taken for what an earlier packet left behind. -/
theorem staleFree_fails :
    ¬ ∀ (n : Node) (packet : Bytes), StaleFree compactJson n packet := by
  intro hall
  have hheader := header_of_decodesAlike compactJson
    (hall (.create "n") [2, 0, 0, 0, 1, 0, 0, 0, 0]).1
  rcases (hheader (by decide)).2 rfl with hlen | ⟨⟨b, hb, _⟩, _⟩
  · revert hlen
    decide
  · cases hb

end Crps
