import Mathlib.Tactic
import Mathlib.Data.List.Basic

/-!
# Byte memory, slices and network byte order

A pointer into a receive buffer or a user payload is the function from an
offset to the byte there, so stale bytes beyond a datagram stay visible. Owned
buffers are byte lists of fixed length; `overwrite` is the bounded `memcpy`
into one. Words on the wire are big-endian.
-/

namespace Crps

abbrev Bytes := List UInt8

/-- The bytes reachable from a pointer, by offset. -/
abbrev Memory := ℕ → UInt8

namespace Memory

/-- Copy `d` to the start of the memory and keep everything behind it. -/
def load (d : Bytes) (old : Memory) : Memory := fun k => d.getD k (old k)

/-- The `len` bytes from offset `off`. -/
def slice (m : Memory) (off len : ℕ) : Bytes := (List.range len).map fun k => m (off + k)

@[simp] theorem length_slice (m : Memory) (off len : ℕ) : (m.slice off len).length = len := by
  simp [slice]

theorem load_of_lt {d : Bytes} {k : ℕ} (old : Memory) (hk : k < d.length) :
    load d old k = d[k] := by
  simp [load, List.getD_eq_getElem?_getD, hk]

theorem load_of_le {d : Bytes} {k : ℕ} (old : Memory) (hk : d.length ≤ k) :
    load d old k = old k := by
  simp [load, List.getD_eq_getElem?_getD, hk]

theorem slice_congr {m m' : Memory} {off len : ℕ}
    (h : ∀ k, off ≤ k → k < off + len → m k = m' k) : m.slice off len = m'.slice off len := by
  apply List.map_congr_left
  intro k hk
  exact h _ (Nat.le_add_right _ _) (Nat.add_lt_add_left (List.mem_range.mp hk) _)

theorem slice_add (m : Memory) (off len len' : ℕ) :
    m.slice off (len + len') = m.slice off len ++ m.slice (off + len) len' := by
  simp only [slice, List.range_add, List.map_append, List.map_map]
  congr 1
  apply List.map_congr_left
  intro k _
  simp only [Function.comp_apply, Nat.add_assoc]

/-- A slice inside the loaded datagram is a piece of it, whatever was there before. -/
theorem slice_load {d : Bytes} (old : Memory) {off len : ℕ} (h : off + len ≤ d.length) :
    (load d old).slice off len = (d.drop off).take len := by
  apply List.ext_getElem
  · simp; omega
  · intro k hk _
    have hk' : k < len := by simpa using hk
    simp [slice, load_of_lt old (show off + k < d.length by omega)]

/-- The whole datagram, as `sendto(buffer.data(), bytes_received)` sends it. -/
theorem slice_load_self (d : Bytes) (old : Memory) : (load d old).slice 0 d.length = d := by
  rw [slice_load old (by omega)]
  simp

end Memory

/-- Bounded `memcpy`: write `bs` at offset `off` of an owned buffer, whose length stays. -/
def overwrite (buf : Bytes) (off : ℕ) (bs : Bytes) : Bytes :=
  buf.mapIdx fun k b => if off ≤ k then bs.getD (k - off) b else b

@[simp] theorem length_overwrite (buf : Bytes) (off : ℕ) (bs : Bytes) :
    (overwrite buf off bs).length = buf.length := by simp [overwrite]

theorem overwrite_eq {buf : Bytes} {off : ℕ} {bs : Bytes} (h : off + bs.length ≤ buf.length) :
    overwrite buf off bs = buf.take off ++ bs ++ buf.drop (off + bs.length) := by
  apply List.ext_getElem
  · simp; omega
  · intro k hk _
    have hk' : k < buf.length := by simpa using hk
    simp only [overwrite, List.getElem_mapIdx, List.getElem_append, List.length_append,
      List.length_take, Nat.min_eq_left (show off ≤ buf.length by omega)]
    by_cases h1 : off ≤ k
    · by_cases h2 : k - off < bs.length
      · rw [dif_pos (by omega), dif_neg (by omega)]
        simp [h1, List.getD_eq_getElem?_getD, h2]
      · rw [dif_neg (by omega)]
        have hge : bs.length ≤ k - off := by omega
        simp [h1, List.getD_eq_getElem?_getD, hge]
        congr 1
        omega
    · rw [dif_pos (by omega), dif_pos (by omega)]
      simp [h1]

theorem overwrite_eq_append {buf : Bytes} {off : ℕ} {bs : Bytes}
    (h : off + bs.length = buf.length) : overwrite buf off bs = buf.take off ++ bs := by
  rw [overwrite_eq h.le, h]
  simp

/-! ## Network byte order -/

/-- `htonl`: the four bytes of a word, most significant first. -/
def be32 (w : UInt32) : Bytes :=
  [UInt8.ofNat (w.toNat / 2 ^ 24), UInt8.ofNat (w.toNat / 2 ^ 16),
    UInt8.ofNat (w.toNat / 2 ^ 8), UInt8.ofNat w.toNat]

/-- `ntohl` of the four bytes at offset `off`. -/
def readBe32 (m : Memory) (off : ℕ) : UInt32 :=
  UInt32.ofNat ((m off).toNat * 2 ^ 24 + (m (off + 1)).toNat * 2 ^ 16 +
    (m (off + 2)).toNat * 2 ^ 8 + (m (off + 3)).toNat)

@[simp] theorem length_be32 (w : UInt32) : (be32 w).length = 4 := rfl

theorem readBe32_congr {m m' : Memory} {off : ℕ}
    (h : ∀ k, off ≤ k → k < off + 4 → m k = m' k) : readBe32 m off = readBe32 m' off := by
  simp only [readBe32, h off (by omega) (by omega), h (off + 1) (by omega) (by omega),
    h (off + 2) (by omega) (by omega), h (off + 3) (by omega) (by omega)]

theorem readBe32_of_bytes {m : Memory} {off : ℕ} {w : UInt32}
    (h : ∀ k < 4, m (off + k) = (be32 w).getD k 0) : readBe32 m off = w := by
  have h0 : m off = UInt8.ofNat (w.toNat / 2 ^ 24) := h 0 (by omega)
  have h1 : m (off + 1) = UInt8.ofNat (w.toNat / 2 ^ 16) := h 1 (by omega)
  have h2 : m (off + 2) = UInt8.ofNat (w.toNat / 2 ^ 8) := h 2 (by omega)
  have h3 : m (off + 3) = UInt8.ofNat w.toNat := h 3 (by omega)
  have hw := w.toNat_lt
  rw [← UInt32.toNat_inj]
  simp only [readBe32, h0, h1, h2, h3, UInt8.toNat_ofNat', UInt32.toNat_ofNat']
  omega

theorem readBe32_load (xs ys : Bytes) (w : UInt32) (old : Memory) :
    readBe32 (Memory.load (xs ++ be32 w ++ ys) old) xs.length = w := by
  apply readBe32_of_bytes
  intro k hk
  have hk' : k < (be32 w).length := hk
  rw [Memory.load_of_lt old (by simp; omega), List.getD_eq_getElem?_getD,
    List.getElem?_eq_getElem hk', Option.getD_some]
  simp [List.getElem_append, hk]

end Crps
