import Mathlib.Tactic
import Mathlib.Data.Rat.Floor
import Crps.Foundation.Bytes

/-!
# JSON values as the control plane uses them

Objects are association lists sorted by key, as the serializer's ordered map
enumerates them. Reading follows the const accessors: a missing key or a value
of the wrong type is a fault, never a default. The text codec is a parameter;
what is assumed of it is that parsing inverts dumping on plain values.
-/

namespace Crps

inductive Json where
  | null
  | boolean (value : Bool)
  | number (value : ℤ)
  | float (value : ℚ)
  | string (value : String)
  | array (values : List Json)
  | object (fields : List (String × Json))

/-- How a read of a received packet can leave the defined behaviour: the two
exceptions of the JSON library and its failed assertion on an absent key. -/
inductive Fault where
  | parseError
  | typeError
  | missingKey
  deriving DecidableEq, Repr

namespace Json

/-- Key order of the object map: lexicographic by code point. -/
def keyBefore (a b : String) : Bool := List.lex a.toList b.toList fun c d => decide (c < d)

/-- Insert or replace one key, keeping the order. -/
def insertField (key : String) (value : Json) :
    List (String × Json) → List (String × Json)
  | [] => [(key, value)]
  | (k, v) :: fs =>
    if key = k then (k, value) :: fs
    else if keyBefore key k then (key, value) :: (k, v) :: fs
    else (k, v) :: insertField key value fs

/-- Assignment through the non-const `operator[]`, which turns null into an
object. It is only ever applied to objects and null. -/
def set (j : Json) (key : String) (value : Json) : Json :=
  match j with
  | .object fs => .object (insertField key value fs)
  | .null => .object [(key, value)]
  | other => other

/-- The const `operator[]`: the key has to be there. -/
def field (j : Json) (key : String) : Except Fault Json :=
  match j with
  | .object fs =>
    match fs.lookup key with
    | some v => .ok v
    | none => .error .missingKey
  | _ => .error .typeError

/-- The non-const `operator[]` where it is read from: an absent key is entered with null. -/
def entry (j : Json) (key : String) : Except Fault Json :=
  match j with
  | .object fs => .ok ((fs.lookup key).getD .null)
  | .null => .ok .null
  | _ => .error .typeError

theorem entry_of_field {j value : Json} {key : String} (h : j.field key = .ok value) :
    j.entry key = .ok value := by
  cases j with
  | object fs =>
    simp only [field] at h
    split at h
    · rename_i hlookup
      injection h with h
      rw [entry, hlookup, h, Option.getD_some]
    · cases h
  | _ => cases h

/-- Nested assignment `j[k₁][k₂]… = value`. -/
def setIn (j : Json) (path : List String) (value : Json) : Json :=
  match path with
  | [] => value
  | k :: ks =>
    let inner := match j.field k with
      | .ok v => v
      | .error _ => .null
    j.set k (inner.setIn ks value)
termination_by structural path

/-- Comparison with a string literal; any other type compares unequal. -/
def isStr (j : Json) (s : String) : Bool :=
  match j with
  | .string t => t == s
  | _ => false

/-- `empty()`: null and containers without elements. -/
def isEmpty : Json → Bool
  | .null => true
  | .array vs => vs.isEmpty
  | .object fs => fs.isEmpty
  | _ => false

def toBool : Json → Except Fault Bool
  | .boolean b => .ok b
  | _ => .error .typeError

def toStr : Json → Except Fault String
  | .string s => .ok s
  | _ => .error .typeError

/-- Arithmetic conversion before narrowing: numbers, floats toward zero, and
booleans as zero and one. -/
def toInt : Json → Except Fault ℤ
  | .number z => .ok z
  | .float q => .ok (if 0 ≤ q then ⌊q⌋ else ⌈q⌉)
  | .boolean b => .ok (if b then 1 else 0)
  | _ => .error .typeError

def toUInt32 (j : Json) : Except Fault UInt32 := UInt32.ofInt <$> j.toInt

def toInt32 (j : Json) : Except Fault Int32 := Int32.ofInt <$> j.toInt

def toInt8 (j : Json) : Except Fault Int8 := Int8.ofInt <$> j.toInt

def ofUInt32 (w : UInt32) : Json := .number w.toNat

def ofInt32 (w : Int32) : Json := .number w.toInt

def ofInt8 (w : Int8) : Json := .number w.toInt

@[simp] theorem toUInt32_ofUInt32 (w : UInt32) : (ofUInt32 w).toUInt32 = .ok w := by
  have hw := w.toNat_lt
  have hmod : ((w.toNat : ℤ) % 2 ^ 32).toNat = w.toNat := by omega
  simp [ofUInt32, toUInt32, toInt, Functor.map, Except.map, UInt32.ofInt, -Int.reducePow, hmod]

@[simp] theorem toInt8_ofInt8 (w : Int8) : (ofInt8 w).toInt8 = .ok w := by
  simp [ofInt8, toInt8, toInt, Functor.map, Except.map]

theorem ofUInt32_injective : Function.Injective ofUInt32 := by
  intro v w h
  have hread := congrArg toUInt32 h
  rw [toUInt32_ofUInt32, toUInt32_ofUInt32] at hread
  injection hread

theorem ofInt8_injective : Function.Injective ofInt8 := by
  intro v w h
  have hread := congrArg toInt8 h
  rw [toInt8_ofInt8, toInt8_ofInt8] at hread
  injection hread

@[simp] theorem field_object (fs : List (String × Json)) (key : String) :
    (Json.object fs).field key =
      match fs.lookup key with
      | some v => .ok v
      | none => .error .missingKey := rfl

mutual

/-- Values that survive the text: sorted distinct keys, 64-bit integers and no
binary floating point. -/
def Plain : Json → Prop
  | .null => True
  | .boolean _ => True
  | .number z => -2 ^ 63 ≤ z ∧ z < 2 ^ 64
  | .float _ => False
  | .string _ => True
  | .array vs => PlainValues vs
  | .object fs => (fs.map Prod.fst).Pairwise (fun a b => keyBefore a b = true) ∧ PlainFields fs

def PlainValues : List Json → Prop
  | [] => True
  | v :: vs => Plain v ∧ PlainValues vs

def PlainFields : List (String × Json) → Prop
  | [] => True
  | (_, v) :: fs => Plain v ∧ PlainFields fs

end

theorem plain_ofUInt32 (w : UInt32) : (ofUInt32 w).Plain := by
  have hw := w.toNat_lt
  simp only [ofUInt32, Plain]
  omega

theorem plain_ofInt8 (w : Int8) : (ofInt8 w).Plain := by
  have hlo := w.le_toInt
  have hhi := w.toInt_lt
  simp only [ofInt8, Plain]
  omega

theorem plain_ofInt32 (w : Int32) : (ofInt32 w).Plain := by
  have hlo := w.le_toInt
  have hhi := w.toInt_lt
  simp only [ofInt32, Plain]
  omega

end Json

/-- The JSON text codec the control plane links against. `parse` is `none`
where the library throws a parse error. -/
structure JsonText where
  dump : Json → Bytes
  parse : Bytes → Option Json
  parse_dump : ∀ j : Json, j.Plain → parse (dump j) = some j

end Crps
