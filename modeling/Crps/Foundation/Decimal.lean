import Mathlib.Tactic
import Mathlib.Data.Nat.Digits.Defs
import Crps.Foundation.Bytes

/-!
# Decimal text

Natural numbers as ASCII digits, most significant first, and the scanner that
reads as many digits as there are.
-/

namespace Crps
namespace Decimal

def isDigit (c : UInt8) : Bool := decide (48 ≤ c.toNat ∧ c.toNat ≤ 57)

def digitByte (d : ℕ) : UInt8 := UInt8.ofNat (48 + d)

/-- The decimal digits, without leading zeros except for zero itself. -/
def print (n : ℕ) : Bytes :=
  if n = 0 then [48] else ((Nat.digits 10 n).map digitByte).reverse

/-- The number a digit string denotes. -/
def value (bs : Bytes) : ℕ := bs.foldl (fun acc c => 10 * acc + (c.toNat - 48)) 0

/-- The longest run of digits at the front, as a number; none without a digit. -/
def scan (bs : Bytes) : Option (ℕ × Bytes) :=
  let digits := bs.takeWhile isDigit
  if digits = [] then none else some (value digits, bs.dropWhile isDigit)

/-- Text that a scan stops in front of. -/
def Stops (rest : Bytes) : Prop := ∀ c ∈ rest.head?, isDigit c = false

theorem isDigit_digitByte {d : ℕ} (hd : d < 10) : isDigit (digitByte d) = true := by
  simp only [isDigit, digitByte, UInt8.toNat_ofNat', decide_eq_true_eq]
  omega

theorem isDigit_of_mem_print {n : ℕ} {c : UInt8} (hc : c ∈ print n) : isDigit c = true := by
  unfold print at hc
  split_ifs at hc
  · rw [List.mem_singleton.mp hc]
    rfl
  · obtain ⟨d, hd, rfl⟩ := List.mem_map.mp (List.mem_reverse.mp hc)
    exact isDigit_digitByte (Nat.digits_lt_base (by omega) hd)

theorem length_print_le {n k : ℕ} (h : n < 10 ^ k) (hk : 0 < k) : (print n).length ≤ k := by
  unfold print
  split_ifs
  · exact hk
  · rw [List.length_reverse, List.length_map]
    exact (Nat.digits_length_le_iff (by omega) n).mpr h

theorem print_ne_nil (n : ℕ) : print n ≠ [] := by
  unfold print
  split_ifs with h
  · simp
  · simpa using Nat.digits_ne_nil_iff_ne_zero.mpr h

theorem value_print (n : ℕ) : value (print n) = n := by
  unfold print
  split_ifs with h
  · rw [h]
    rfl
  · have hfold : ∀ ds : List ℕ, (∀ d ∈ ds, d < 10) →
        value ((ds.map digitByte).reverse) = Nat.ofDigits 10 ds := by
      intro ds hds
      induction ds with
      | nil => rfl
      | cons d ds ih =>
        have hd := hds d (by simp)
        have hbyte : (digitByte d).toNat - 48 = d := by
          simp only [digitByte, UInt8.toNat_ofNat']
          omega
        have htail := ih fun e he => hds e (by simp [he])
        simp only [value] at htail
        simp only [value, List.map_cons, List.reverse_cons, List.foldl_append, List.foldl_cons,
          List.foldl_nil, htail, hbyte, Nat.ofDigits_cons]
        ring
    rw [hfold _ fun d hd => Nat.digits_lt_base (by omega) hd, Nat.ofDigits_digits]

/-- Scanning reads back a printed number. -/
theorem scan_print (n : ℕ) {rest : Bytes} (hrest : Stops rest) :
    scan (print n ++ rest) = some (n, rest) := by
  have htake : (print n ++ rest).takeWhile isDigit = print n := by
    rw [List.takeWhile_append_of_pos fun c hc => isDigit_of_mem_print hc]
    cases rest with
    | nil => simp
    | cons c cs => simp [hrest c (by simp)]
  have hdrop : (print n ++ rest).dropWhile isDigit = rest := by
    rw [List.dropWhile_append_of_pos fun c hc => isDigit_of_mem_print hc]
    cases rest with
    | nil => rfl
    | cons c cs => simp [hrest c (by simp)]
  simp only [scan, htake, hdrop, if_neg (print_ne_nil n), value_print]

/-! ## Decimal strings -/

/-- The digits as characters. -/
def digits (n : ℕ) : List Char := (print n).map fun c => Char.ofNat c.toNat

def text (n : ℕ) : String := String.ofList (digits n)

/-- Number and rest of a text that starts with digits. -/
def scanChars (cs : List Char) : Option (ℕ × List Char) :=
  let ds := cs.takeWhile Char.isDigit
  if ds = [] then none
  else some (value (ds.map fun c => UInt8.ofNat c.toNat), cs.dropWhile Char.isDigit)

theorem toNat_digit {c : UInt8} (h : isDigit c = true) : (Char.ofNat c.toNat).toNat = c.toNat := by
  have hchar : ∀ k < 58, (Char.ofNat k).toNat = k := by decide
  simp only [isDigit, decide_eq_true_eq] at h
  exact hchar c.toNat (by omega)

theorem bytes_digits (n : ℕ) : (digits n).map (fun c => UInt8.ofNat c.toNat) = print n := by
  rw [digits, List.map_map, List.map_congr_left, List.map_id]
  intro c hc
  simp only [Function.comp_apply, toNat_digit (isDigit_of_mem_print hc), UInt8.ofNat_toNat, id_eq]

theorem isDigit_of_mem_digits {n : ℕ} {c : Char} (h : c ∈ digits n) : c.isDigit = true := by
  obtain ⟨b, hb, rfl⟩ := List.mem_map.mp h
  have hdigit := isDigit_of_mem_print hb
  have hvalue := toNat_digit hdigit
  simp only [isDigit, decide_eq_true_eq] at hdigit
  rw [Char.isDigit_iff_toNat, hvalue]
  exact hdigit

theorem digits_ne_nil (n : ℕ) : digits n ≠ [] := by
  simp [digits, print_ne_nil]

theorem takeWhile_digits (n : ℕ) {rest : List Char} (hrest : ∀ c ∈ rest.head?, c.isDigit = false) :
    (digits n ++ rest).takeWhile Char.isDigit = digits n := by
  rw [List.takeWhile_append_of_pos fun c hc => isDigit_of_mem_digits hc]
  cases rest with
  | nil => simp
  | cons c cs => simp [hrest c (by simp)]

theorem scanChars_digits (n : ℕ) {rest : List Char} (hrest : ∀ c ∈ rest.head?, c.isDigit = false) :
    scanChars (digits n ++ rest) = some (n, rest) := by
  have hdrop : (digits n ++ rest).dropWhile Char.isDigit = rest := by
    rw [List.dropWhile_append_of_pos fun c hc => isDigit_of_mem_digits hc]
    cases rest with
    | nil => rfl
    | cons c cs => simp [hrest c (by simp)]
  simp only [scanChars, takeWhile_digits n hrest, hdrop, if_neg (digits_ne_nil n), bytes_digits,
    value_print]

theorem digits_injective : Function.Injective digits := by
  intro n m h
  rw [← value_print n, ← bytes_digits n, h, bytes_digits, value_print]

theorem text_injective : Function.Injective text := fun _ _ h =>
  digits_injective (String.ofList_injective h)

end Decimal
end Crps
