import Crps.Foundation.Decimal
import Crps.Foundation.Json

/-!
# Compact JSON text

The serializer's compact form (no blanks, keys in order, control characters
escaped) and a recursive-descent parser for it. On plain values parsing inverts
dumping, so the two make a codec for the control plane. Fractions, exponents,
blanks and surrogate escapes, which dumping a plain value never produces, are
not parsed.
-/

namespace Crps
namespace CompactJson

/-! ## Strings -/

def hexDigit (d : ℕ) : UInt8 := UInt8.ofNat (if d < 10 then 48 + d else 87 + d)

def hexValue (c : UInt8) : ℕ := if c.toNat < 58 then c.toNat - 48 else c.toNat - 87

/-- One byte of a string: quote, backslash and control characters are escaped. -/
def escapeByte (c : UInt8) : Bytes :=
  if c = 34 then [92, 34]
  else if c = 92 then [92, 92]
  else if c = 8 then [92, 98]
  else if c = 9 then [92, 116]
  else if c = 10 then [92, 110]
  else if c = 12 then [92, 102]
  else if c = 13 then [92, 114]
  else if c.toNat < 32 then
    [92, 117, 48, 48, hexDigit (c.toNat / 16), hexDigit (c.toNat % 16)]
  else [c]

def escape (bs : Bytes) : Bytes := bs.flatMap escapeByte

theorem length_escape_le (bs : Bytes) : (escape bs).length ≤ 6 * bs.length := by
  have hbyte : ∀ c, (escapeByte c).length ≤ 6 := by
    intro c
    unfold escapeByte
    split_ifs <;> simp
  induction bs with
  | nil => exact le_rfl
  | cons c bs ih =>
    have hc := hbyte c
    simp only [escape, List.flatMap_cons, List.length_append, List.length_cons] at ih ⊢
    omega

/-- The bytes up to the closing quote, and what follows it. -/
def scanString : Bytes → Option (Bytes × Bytes)
  | [] => none
  | 34 :: rest => some ([], rest)
  | 92 :: 34 :: rest => (scanString rest).map fun r => (34 :: r.1, r.2)
  | 92 :: 92 :: rest => (scanString rest).map fun r => (92 :: r.1, r.2)
  | 92 :: 98 :: rest => (scanString rest).map fun r => (8 :: r.1, r.2)
  | 92 :: 116 :: rest => (scanString rest).map fun r => (9 :: r.1, r.2)
  | 92 :: 110 :: rest => (scanString rest).map fun r => (10 :: r.1, r.2)
  | 92 :: 102 :: rest => (scanString rest).map fun r => (12 :: r.1, r.2)
  | 92 :: 114 :: rest => (scanString rest).map fun r => (13 :: r.1, r.2)
  | 92 :: 117 :: 48 :: 48 :: a :: b :: rest =>
    (scanString rest).map fun r => (UInt8.ofNat (16 * hexValue a + hexValue b) :: r.1, r.2)
  | c :: rest => if c = 92 then none else (scanString rest).map fun r => (c :: r.1, r.2)

theorem hexValue_hexDigit {d : ℕ} (hd : d < 16) : hexValue (hexDigit d) = d := by
  unfold hexValue hexDigit
  split_ifs with h1 h2 h2 <;> simp only [UInt8.toNat_ofNat'] at * <;> omega

theorem scanString_escapeByte (c : UInt8) (rest : Bytes) :
    scanString (escapeByte c ++ rest) = (scanString rest).map fun r => (c :: r.1, r.2) := by
  unfold escapeByte
  split_ifs with h1 h2 h3 h4 h5 h6 h7 h8
  · rw [h1]; rfl
  · rw [h2]; rfl
  · rw [h3]; rfl
  · rw [h4]; rfl
  · rw [h5]; rfl
  · rw [h6]; rfl
  · rw [h7]; rfl
  · have hbyte : UInt8.ofNat (16 * hexValue (hexDigit (c.toNat / 16)) +
        hexValue (hexDigit (c.toNat % 16))) = c := by
      rw [hexValue_hexDigit (by omega), hexValue_hexDigit (by omega), ← UInt8.toNat_inj,
        UInt8.toNat_ofNat']
      omega
    simp only [List.cons_append, List.nil_append, scanString, hbyte]
  · simp only [List.cons_append, List.nil_append]
    rw [scanString]
    · rw [if_neg h2]
    all_goals intros; simp_all

theorem scanString_escape (bs rest : Bytes) :
    scanString (escape bs ++ 34 :: rest) = some (bs, rest) := by
  induction bs with
  | nil => rfl
  | cons c cs ih =>
    have hsplit : escape (c :: cs) = escapeByte c ++ escape cs := by simp [escape]
    rw [hsplit, List.append_assoc, scanString_escapeByte, ih]
    rfl

def utf8 (s : String) : Bytes := s.toByteArray.data.toList

def ofUtf8 (bs : Bytes) : Option String := String.fromUTF8? ⟨⟨bs⟩⟩

theorem ofUtf8_utf8 (s : String) : ofUtf8 (utf8 s) = some s := by
  change String.fromUTF8? s.toByteArray = some s
  rw [String.fromUTF8?, dif_pos s.isValidUTF8]
  rfl

def dumpString (s : String) : Bytes := 34 :: escape (utf8 s) ++ [34]

/-- A character takes at most four bytes, each of which at most six when escaped. -/
theorem length_dumpString_ofList_le (cs : List Char) :
    (dumpString (String.ofList cs)).length ≤ 2 + 24 * cs.length := by
  have hescape := length_escape_le (utf8 (String.ofList cs))
  have hutf8 : (utf8 (String.ofList cs)).length ≤ 4 * cs.length := by
    change (String.ofList cs).utf8ByteSize ≤ 4 * cs.length
    clear hescape
    induction cs using List.reverseRecOn with
    | nil => exact le_rfl
    | append_singleton cs c ih =>
      have hc := c.utf8Size_le_four
      rw [String.ofList_append, ← String.singleton_eq_ofList, String.utf8ByteSize_append,
        String.utf8ByteSize_singleton, List.length_append, List.length_singleton]
      omega
  simp only [dumpString, List.length_append, List.length_cons, List.length_nil]
  omega

/-- A string after its opening quote. -/
def parseString (bs : Bytes) : Option (String × Bytes) :=
  (scanString bs).bind fun r => (ofUtf8 r.1).map fun s => (s, r.2)

theorem parseString_dump (s : String) (rest : Bytes) :
    parseString (escape (utf8 s) ++ 34 :: rest) = some (s, rest) := by
  simp [parseString, scanString_escape, ofUtf8_utf8]

/-! ## Values -/

def dumpInt (z : ℤ) : Bytes :=
  if z < 0 then 45 :: Decimal.print z.natAbs else Decimal.print z.natAbs

mutual

/-- `dump()` of plain values. -/
def dump : Json → Bytes
  | .null => [110, 117, 108, 108]
  | .boolean true => [116, 114, 117, 101]
  | .boolean false => [102, 97, 108, 115, 101]
  | .number z => dumpInt z
  | .float _ => []
  | .string s => dumpString s
  | .array [] => [91, 93]
  | .array (v :: vs) => 91 :: (dump v ++ dumpElements vs)
  | .object [] => [123, 125]
  | .object ((k, v) :: fs) => 123 :: (dumpString k ++ 58 :: (dump v ++ dumpMembers fs))

/-- The elements after the first one, with the closing bracket. -/
def dumpElements : List Json → Bytes
  | [] => [93]
  | v :: vs => 44 :: (dump v ++ dumpElements vs)

/-- The members after the first one, with the closing brace. -/
def dumpMembers : List (String × Json) → Bytes
  | [] => [125]
  | (k, v) :: fs => 44 :: (dumpString k ++ 58 :: (dump v ++ dumpMembers fs))

end

mutual

def parseValue : ℕ → Bytes → Option (Json × Bytes)
  | 0, _ => none
  | fuel + 1, bs =>
    match bs with
    | 110 :: 117 :: 108 :: 108 :: rest => some (.null, rest)
    | 116 :: 114 :: 117 :: 101 :: rest => some (.boolean true, rest)
    | 102 :: 97 :: 108 :: 115 :: 101 :: rest => some (.boolean false, rest)
    | 34 :: rest => (parseString rest).map fun r => (.string r.1, r.2)
    | 91 :: 93 :: rest => some (.array [], rest)
    | 91 :: rest =>
      (parseValue fuel rest).bind fun r =>
        (parseElements fuel r.2).map fun rs => (.array (r.1 :: rs.1), rs.2)
    | 123 :: 125 :: rest => some (.object [], rest)
    | 123 :: rest =>
      (parseMember fuel rest).bind fun r =>
        (parseMembers fuel r.2).map fun rs => (.object (r.1 :: rs.1), rs.2)
    | 45 :: rest => (Decimal.scan rest).map fun r => (.number (-(r.1 : ℤ)), r.2)
    | bs => (Decimal.scan bs).map fun r => (.number r.1, r.2)

def parseElements : ℕ → Bytes → Option (List Json × Bytes)
  | 0, _ => none
  | fuel + 1, bs =>
    match bs with
    | 93 :: rest => some ([], rest)
    | 44 :: rest =>
      (parseValue fuel rest).bind fun r =>
        (parseElements fuel r.2).map fun rs => (r.1 :: rs.1, rs.2)
    | _ => none

def parseMember : ℕ → Bytes → Option ((String × Json) × Bytes)
  | 0, _ => none
  | fuel + 1, bs =>
    match bs with
    | 34 :: rest =>
      (parseString rest).bind fun k =>
        match k.2 with
        | 58 :: rest => (parseValue fuel rest).map fun r => ((k.1, r.1), r.2)
        | _ => none
    | _ => none

def parseMembers : ℕ → Bytes → Option (List (String × Json) × Bytes)
  | 0, _ => none
  | fuel + 1, bs =>
    match bs with
    | 125 :: rest => some ([], rest)
    | 44 :: rest =>
      (parseMember fuel rest).bind fun r =>
        (parseMembers fuel r.2).map fun rs => (r.1 :: rs.1, rs.2)
    | _ => none

end

/-- `parse` of a whole text. -/
def parse (bs : Bytes) : Option Json :=
  match parseValue (2 * bs.length) bs with
  | some (j, []) => some j
  | _ => none

/-! ## Parsing inverts dumping -/

theorem parseValue_digit {c : UInt8} (hc : Decimal.isDigit c = true) (fuel : ℕ) (cs : Bytes) :
    parseValue (fuel + 1) (c :: cs) =
      (Decimal.scan (c :: cs)).map fun r => (.number r.1, r.2) := by
  rw [parseValue]
  all_goals
    intro rest h
    injection h with h _
    subst h
    simp [Decimal.isDigit] at hc

theorem parseValue_dumpInt (z : ℤ) (fuel : ℕ) {rest : Bytes} (hrest : Decimal.Stops rest) :
    parseValue (fuel + 1) (dumpInt z ++ rest) = some (.number z, rest) := by
  unfold dumpInt
  split_ifs with hz
  · have hneg : -(z.natAbs : ℤ) = z := by omega
    simp only [List.cons_append, parseValue, Decimal.scan_print _ hrest, Option.map_some, hneg]
  · have hpos : (z.natAbs : ℤ) = z := by omega
    have hscan := Decimal.scan_print z.natAbs hrest
    cases hp : Decimal.print z.natAbs with
    | nil => exact absurd hp (Decimal.print_ne_nil _)
    | cons c cs =>
      rw [hp, List.cons_append] at hscan
      have hc : Decimal.isDigit c = true := Decimal.isDigit_of_mem_print (hp ▸ List.mem_cons_self)
      rw [List.cons_append, parseValue_digit hc, hscan, Option.map_some, hpos]

theorem length_dumpInt_le {z : ℤ} {k : ℕ} (h : z.natAbs < 10 ^ k) (hk : 0 < k) :
    (dumpInt z).length ≤ k + 1 := by
  have hprint := Decimal.length_print_le h hk
  unfold dumpInt
  split_ifs
  · rw [List.length_cons]
    omega
  · omega

theorem dumpInt_ne_nil (z : ℤ) : dumpInt z ≠ [] := by
  unfold dumpInt
  split_ifs
  · simp
  · exact Decimal.print_ne_nil _

theorem dump_ne_nil {j : Json} (hj : j.Plain) : dump j ≠ [] := by
  match j with
  | .null => simp [dump]
  | .boolean true => simp [dump]
  | .boolean false => simp [dump]
  | .number z => simpa [dump] using dumpInt_ne_nil z
  | .float q => exact hj.elim
  | .string s => simp [dump, dumpString]
  | .array [] => simp [dump]
  | .array (v :: vs) => simp [dump]
  | .object [] => simp [dump]
  | .object ((k, v) :: fs) => simp [dump]

theorem stops_elements (vs : List Json) (rest : Bytes) :
    Decimal.Stops (dumpElements vs ++ rest) := by
  cases vs <;> simp [dumpElements, Decimal.Stops, Decimal.isDigit]

theorem stops_members (fs : List (String × Json)) (rest : Bytes) :
    Decimal.Stops (dumpMembers fs ++ rest) := by
  rcases fs with _ | ⟨⟨k, v⟩, fs⟩ <;> simp [dumpMembers, Decimal.Stops, Decimal.isDigit]

theorem parseValue_array {c : UInt8} (hc : c ≠ 93) (fuel : ℕ) (cs : Bytes) :
    parseValue (fuel + 1) (91 :: c :: cs) =
      (parseValue fuel (c :: cs)).bind fun r =>
        (parseElements fuel r.2).map fun rs => (.array (r.1 :: rs.1), rs.2) := by
  rw [parseValue]
  intro rest h
  injection h with h _
  exact hc h

theorem parseValue_object {c : UInt8} (hc : c ≠ 125) (fuel : ℕ) (cs : Bytes) :
    parseValue (fuel + 1) (123 :: c :: cs) =
      (parseMember fuel (c :: cs)).bind fun r =>
        (parseMembers fuel r.2).map fun rs => (.object (r.1 :: rs.1), rs.2) := by
  rw [parseValue]
  intro rest h
  injection h with h _
  exact hc h

theorem dump_head {j : Json} (hj : j.Plain) : ∃ c cs, dump j = c :: cs ∧ c ≠ 93 := by
  match j with
  | .null => exact ⟨_, _, rfl, by decide⟩
  | .boolean true => exact ⟨_, _, rfl, by decide⟩
  | .boolean false => exact ⟨_, _, rfl, by decide⟩
  | .number z =>
    cases hp : dumpInt z with
    | nil => exact absurd hp (dumpInt_ne_nil z)
    | cons c cs =>
      refine ⟨c, cs, by rw [dump, hp], ?_⟩
      rintro rfl
      unfold dumpInt at hp
      split_ifs at hp
      · simp at hp
      · have hd := Decimal.isDigit_of_mem_print (n := z.natAbs) (hp ▸ List.mem_cons_self)
        simp [Decimal.isDigit] at hd
  | .float q => exact hj.elim
  | .string s => exact ⟨_, _, rfl, by decide⟩
  | .array [] => exact ⟨_, _, rfl, by decide⟩
  | .array (v :: vs) => exact ⟨_, _, rfl, by decide⟩
  | .object [] => exact ⟨_, _, rfl, by decide⟩
  | .object ((k, v) :: fs) => exact ⟨_, _, rfl, by decide⟩

mutual

theorem parseValue_dump : ∀ (j : Json), j.Plain → ∀ (fuel : ℕ) (rest : Bytes),
    2 * (dump j).length ≤ fuel → Decimal.Stops rest →
      parseValue fuel (dump j ++ rest) = some (j, rest)
  | j, hj, 0, _, hfuel, _ => by
    have hlen := List.length_pos_iff.mpr (dump_ne_nil hj)
    omega
  | .null, _, fuel + 1, rest, _, _ => rfl
  | .boolean true, _, fuel + 1, rest, _, _ => rfl
  | .boolean false, _, fuel + 1, rest, _, _ => rfl
  | .number z, _, fuel + 1, rest, _, hrest => by
    rw [dump]
    exact parseValue_dumpInt z fuel hrest
  | .string s, _, fuel + 1, rest, _, _ => by
    simp only [dump, dumpString, List.cons_append, List.append_assoc, List.nil_append, parseValue,
      parseString_dump, Option.map_some]
  | .array [], _, fuel + 1, rest, _, _ => rfl
  | .array (v :: vs), hj, fuel + 1, rest, hfuel, _ => by
    simp only [Json.Plain, Json.PlainValues] at hj
    simp only [dump, List.length_cons, List.length_append] at hfuel
    obtain ⟨c, cs, hhead, hc⟩ := dump_head hj.1
    have hvalue := parseValue_dump v hj.1 fuel (dumpElements vs ++ rest) (by omega)
      (stops_elements vs rest)
    have helements := parseElements_dump vs hj.2 fuel rest (by omega)
    rw [hhead, List.cons_append] at hvalue
    rw [dump, hhead, List.cons_append, List.cons_append, List.cons_append, List.append_assoc,
      parseValue_array hc, hvalue, Option.bind_some, helements, Option.map_some]
  | .object [], _, fuel + 1, rest, _, _ => rfl
  | .object ((k, v) :: fs), hj, fuel + 1, rest, hfuel, _ => by
    simp only [Json.Plain, Json.PlainFields] at hj
    simp only [dump, dumpString, List.length_cons, List.length_append] at hfuel
    have hmember := parseMember_dump k v hj.2.1 fuel (dumpMembers fs ++ rest) (by
      simp only [dumpString, List.length_cons, List.length_append]
      omega) (stops_members fs rest)
    have hmembers := parseMembers_dump fs hj.2.2 fuel rest (by omega)
    simp only [dumpString, List.cons_append, List.append_assoc, List.nil_append] at hmember
    simp only [dump, dumpString, List.cons_append, List.append_assoc, List.nil_append]
    rw [parseValue_object (by decide), hmember, Option.bind_some, hmembers, Option.map_some]

theorem parseElements_dump : ∀ (vs : List Json), Json.PlainValues vs → ∀ (fuel : ℕ) (rest : Bytes),
    2 * (dumpElements vs).length ≤ fuel →
      parseElements fuel (dumpElements vs ++ rest) = some (vs, rest)
  | vs, _, 0, _, hfuel => by
    cases vs <;> simp [dumpElements] at hfuel
  | [], _, fuel + 1, rest, _ => rfl
  | v :: vs, hvs, fuel + 1, rest, hfuel => by
    simp only [Json.PlainValues] at hvs
    simp only [dumpElements, List.length_cons, List.length_append] at hfuel
    have hvalue := parseValue_dump v hvs.1 fuel (dumpElements vs ++ rest) (by omega)
      (stops_elements vs rest)
    have helements := parseElements_dump vs hvs.2 fuel rest (by omega)
    simp only [dumpElements, List.cons_append, List.append_assoc, parseElements, hvalue,
      Option.bind_some, helements, Option.map_some]

theorem parseMember_dump : ∀ (k : String) (v : Json), v.Plain → ∀ (fuel : ℕ) (rest : Bytes),
    2 * (dumpString k ++ 58 :: dump v).length ≤ fuel + 1 → Decimal.Stops rest →
      parseMember fuel (dumpString k ++ 58 :: (dump v ++ rest)) = some ((k, v), rest)
  | k, v, _, 0, _, hfuel, _ => by
    simp [dumpString] at hfuel
    omega
  | k, v, hv, fuel + 1, rest, hfuel, hrest => by
    simp only [dumpString, List.length_cons, List.length_append] at hfuel
    have hvalue := parseValue_dump v hv fuel rest (by omega) hrest
    simp only [dumpString, List.cons_append, List.append_assoc, List.nil_append, parseMember,
      parseString_dump, Option.bind_some, hvalue, Option.map_some]

theorem parseMembers_dump : ∀ (fs : List (String × Json)), Json.PlainFields fs →
    ∀ (fuel : ℕ) (rest : Bytes), 2 * (dumpMembers fs).length ≤ fuel →
      parseMembers fuel (dumpMembers fs ++ rest) = some (fs, rest)
  | fs, _, 0, _, hfuel => by
    rcases fs with _ | ⟨⟨k, v⟩, fs⟩ <;> simp [dumpMembers] at hfuel
  | [], _, fuel + 1, rest, _ => rfl
  | (k, v) :: fs, hfs, fuel + 1, rest, hfuel => by
    simp only [Json.PlainFields] at hfs
    simp only [dumpMembers, dumpString, List.length_cons, List.length_append] at hfuel
    have hmember := parseMember_dump k v hfs.1 fuel (dumpMembers fs ++ rest) (by
      simp only [dumpString, List.length_cons, List.length_append]
      omega) (stops_members fs rest)
    have hmembers := parseMembers_dump fs hfs.2 fuel rest (by omega)
    simp only [dumpMembers, List.cons_append, List.append_assoc, parseMembers, hmember,
      Option.bind_some, hmembers, Option.map_some]

end

theorem parse_dump {j : Json} (hj : j.Plain) : parse (dump j) = some j := by
  have h := parseValue_dump j hj (2 * (dump j).length) [] le_rfl (by simp [Decimal.Stops])
  rw [List.append_nil] at h
  simp only [parse, h]

end CompactJson

/-- The compact text as a codec for the control plane. -/
def compactJson : JsonText where
  dump := CompactJson.dump
  parse := CompactJson.parse
  parse_dump _ hj := CompactJson.parse_dump hj

end Crps
