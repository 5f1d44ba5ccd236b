import Mathlib.Algebra.Ring.Int.Defs
import Mathlib.Algebra.Ring.Nat
import Mathlib.Order.Lattice
import Webserver.FixedBuffer
import Webserver.Runs

namespace Webserver

open Runs

def kSmallBuffer : Nat := 4000

def bytesOf (s : String) : List Byte := s.toList.map (fun c => c.toNat.toUInt8)

def newline : Byte := 10

inductive IntType
  | char
  | signedChar
  | unsignedChar
  | short
  | unsignedShort
  | int
  | unsignedInt
  | long
  | unsignedLong
  | longLong
  | unsignedLongLong
deriving DecidableEq

namespace IntType

def signed : IntType → Bool
  | .char | .signedChar | .short | .int | .long | .longLong => true
  | .unsignedChar | .unsignedShort | .unsignedInt | .unsignedLong | .unsignedLongLong => false

def bits : IntType → Nat
  | .char | .signedChar | .unsignedChar => 8
  | .short | .unsignedShort => 16
  | .int | .unsignedInt => 32
  | .long | .unsignedLong | .longLong | .unsignedLongLong => 64

def lower (t : IntType) : Int := if t.signed then -2 ^ (t.bits - 1) else 0

def upper (t : IntType) : Int := if t.signed then 2 ^ (t.bits - 1) else 2 ^ t.bits

/-- Integral promotion. The small types have no overload of their own, and a
promotion beats every conversion, the one to bool included. -/
def promote : IntType → IntType
  | .char | .signedChar | .unsignedChar | .short | .unsignedShort => .int
  | t => t

theorem promote_lower (t : IntType) : t.promote.lower ≤ t.lower := by cases t <;> decide

theorem promote_upper (t : IntType) : t.upper ≤ t.promote.upper := by cases t <;> decide

end IntType

structure IntValue where
  type : IntType
  value : Int
  lower : type.lower ≤ value
  upper : value < type.upper

def IntValue.promote (v : IntValue) : IntValue :=
  ⟨v.type.promote, v.value, v.type.promote_lower.trans v.lower, v.upper.trans_le v.type.promote_upper⟩

def IntValue.char (c : Char) (h : c.toNat < 128) : IntValue :=
  ⟨.char, c.toNat, by simp only [IntType.lower, IntType.signed, IntType.bits]; omega,
    by simp only [IntType.upper, IntType.signed, IntType.bits]; omega⟩

inductive Arg
  | bool (v : Bool)
  | integer (v : IntValue)
  | cstr (str : Option (List Byte))
  | string (str : List Byte)
  | pointer (null : Bool)

/-- The overloads of operator<<. The six for integers differ in the type of the value only. -/
inductive Operand
  | bool (v : Bool)
  | cstr (str : Option (List Byte))
  | string (str : List Byte)
  | integer (v : IntValue)

/-- Overload resolution: a pointer other than to char converts to bool and to nothing else. -/
def Arg.resolve : Arg → Operand
  | .bool v => .bool v
  | .integer v => .integer v.promote
  | .cstr str => .cstr str
  | .string str => .string str
  | .pointer null => .bool !null

abbrev LogStream := FixedBuffer kSmallBuffer

namespace LogStream

def digits : List Byte := bytesOf "987654321023456789" ++ [0]

def zero (lsd : Int) : Byte := digits.getD (9 + lsd).toNat 0

/-- The loop of convert, least digit first. The 64-bit types have at most twenty digits. -/
def convertLoop : Nat → Int → List Byte
  | 0, _ => []
  | fuel + 1, i =>
      let lsd := i.tmod 10
      let i := i.tdiv 10
      zero lsd :: if i ≠ 0 then convertLoop fuel i else []

def convert (value : Int) : List Byte :=
  (convertLoop 20 value ++ if value < 0 then bytesOf "-" else []).reverse

def kMaxnumericSize : Nat := 48

def cString (str : List Byte) : List Byte := str.takeWhile (· ≠ 0)

def text : Operand → List Byte
  | .bool v => if v then bytesOf "1" else bytesOf "0"
  | .cstr (some str) => cString str
  | .cstr none => bytesOf "(null)"
  | .string str => str
  | .integer v => convert v.value

theorem length_convertLoop_le (fuel : Nat) (i : Int) : (convertLoop fuel i).length ≤ fuel := by
  induction fuel generalizing i with
  | zero => exact le_rfl
  | succ fuel ih =>
      simp only [convertLoop]
      split
      · exact Nat.succ_le_succ (ih _)
      · simp

theorem natAbs_tdiv_ten_lt {fuel : Nat} {i : Int} (h : i.natAbs < 10 ^ (fuel + 1)) :
    (i.tdiv 10).natAbs < 10 ^ fuel := by
  rw [Int.natAbs_tdiv]
  exact Nat.div_lt_of_lt_mul (by rw [Nat.pow_succ] at h; simpa [Nat.mul_comm] using h)

theorem fuel_pos_of_tdiv_ten {fuel : Nat} {i : Int} (h : i.natAbs < 10 ^ (fuel + 1)) (hi : i.tdiv 10 ≠ 0) :
    0 < fuel := by
  have hsmall := natAbs_tdiv_ten_lt h
  have hne : (i.tdiv 10).natAbs ≠ 0 := Int.natAbs_ne_zero.mpr hi
  rcases Nat.eq_zero_or_pos fuel with hz | hp
  · rw [hz, Nat.pow_zero] at hsmall
    omega
  · exact hp

theorem convertLoop_enough {fuel : Nat} {i : Int} (h : i.natAbs < 10 ^ fuel) (hf : 0 < fuel) (more : Nat) :
    convertLoop (fuel + more) i = convertLoop fuel i := by
  induction fuel generalizing i with
  | zero => exact absurd hf (lt_irrefl 0)
  | succ fuel ih =>
      rw [Nat.succ_add]
      simp only [convertLoop]
      by_cases hi : i.tdiv 10 = 0
      · simp [hi]
      · rw [ih (natAbs_tdiv_ten_lt h) (fuel_pos_of_tdiv_ten h hi)]

theorem natAbs_value_lt (v : IntValue) : v.value.natAbs < 10 ^ 20 := by
  have hlower : -2 ^ 63 ≤ v.value := le_trans (by cases v.type <;> decide) v.lower
  have hupper : v.value < 2 ^ 64 := v.upper.trans_le (by cases v.type <;> decide)
  omega

theorem convertLoop_value (v : IntValue) (more : Nat) : convertLoop (20 + more) v.value = convertLoop 20 v.value :=
  convertLoop_enough (natAbs_value_lt v) (by decide) more

theorem length_convert_le (value : Int) : (convert value).length ≤ 21 := by
  have hloop := length_convertLoop_le 20 value
  have hsign : (if value < 0 then bytesOf "-" else []).length ≤ 1 := by
    split <;> decide
  simp only [convert, List.length_reverse, List.length_append]
  omega

def formatInteger (v : IntValue) (s : LogStream) : LogStream :=
  if h : kMaxnumericSize ≤ s.avail then
    ⟨s.data ++ convert v.value, by
      have hlen := length_convert_le v.value
      simp only [FixedBuffer.avail, kMaxnumericSize] at h
      rw [List.length_append]
      omega⟩
  else s

def put (s : LogStream) : Operand → LogStream
  | .bool v => s.append (if v then bytesOf "1" else bytesOf "0")
  | .cstr (some str) => s.append (cString str)
  | .cstr none => s.append (bytesOf "(null)")
  | .string str => s.append str
  | .integer v => formatInteger v s

theorem zero_ne_newline (lsd : Int) : zero lsd ≠ newline := by
  have hall : ∀ c ∈ digits, c ≠ newline := by decide +kernel
  unfold zero
  rw [List.getD_eq_getElem?_getD]
  cases hc : digits[(9 + lsd).toNat]? with
  | none => decide
  | some c => exact hall c (List.mem_of_getElem? hc)

theorem getLast_convert (value : Int) : (convert value).getLast? = some (zero (value.tmod 10)) := by
  simp [convert, convertLoop, List.getLast?_reverse]

def Fits (s : LogStream) : Operand → Prop
  | .integer _ => kMaxnumericSize ≤ s.avail
  | o => (text o).length < s.avail

theorem put_data {s : LogStream} {o : Operand} (h : Fits s o) : (s.put o).data = s.data ++ text o := by
  cases o with
  | bool v => exact FixedBuffer.append_data h
  | cstr str =>
      cases str with
      | none => exact FixedBuffer.append_data h
      | some str => exact FixedBuffer.append_data h
  | string str => exact FixedBuffer.append_data h
  | integer v =>
      have hroom : kMaxnumericSize ≤ s.avail := h
      simp [put, formatInteger, hroom, text]

theorem run_put_data {s : LogStream} {os : List Operand} (h : Meets put Fits s os) :
    (run put s os).data = s.data ++ os.flatMap text := by
  induction os generalizing s with
  | nil => simp [run]
  | cons o os ih =>
      rw [List.flatMap_cons, ← List.append_assoc, ← put_data h.1]
      exact ih h.2

end LogStream

end Webserver
