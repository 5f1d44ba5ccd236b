import Mathlib.Data.List.Basic
import Webserver.ConnectionNames
import Webserver.LogStream
import Webserver.Segments

namespace Webserver

open Segments

namespace LogStream

def store (mem : List Byte) (p : Nat) (c : Byte) : Option (List Byte) :=
  if p < mem.length then some (mem.set p c) else none

/-- The loop of convert with its stores. The result is what is in memory, and p. -/
def storeDigits : Nat → Int → List Byte → Nat → Option (List Byte × Nat)
  | 0, _, _, _ => none
  | fuel + 1, i, mem, p =>
      let lsd := i.tmod 10
      let i := i.tdiv 10
      (store mem p (zero lsd)).bind fun mem =>
        if i ≠ 0 then storeDigits fuel i mem (p + 1) else some (mem, p + 1)

def minus : Byte := 45

/-- The template convert, with buf a place in memory. No store leaves the memory where there is a result. -/
def convertAt (value : Int) (mem : List Byte) (buf : Nat) : Option (List Byte × Nat) :=
  (storeDigits 20 value mem buf).bind fun (mem, p) =>
    (if value < 0 then (store mem p minus).map fun mem => (mem, p + 1) else some (mem, p)).bind fun (mem, p) =>
      (store mem p 0).map fun mem => (overwrite mem buf (window mem buf p).reverse, p - buf)

end LogStream

namespace IntegerText

open LogStream

def decimalText (value : Int) : List Byte := (decimal value).map fun c => c.toNat.toUInt8

def numeral (ds : List Byte) : Option Nat :=
  ds.foldlM (fun n d => if 48 ≤ d.toNat ∧ d.toNat ≤ 57 then some (10 * n + (d.toNat - 48)) else none) 0

def parse (text : List Byte) : Option Int :=
  if text.head? = some minus then (numeral text.tail).map fun n => -(n : Int)
  else (numeral text).map Int.ofNat

theorem store_eq {mem : List Byte} {p : Nat} (h : p < mem.length) (c : Byte) :
    store mem p c = some (overwrite mem p [c]) := by
  simp [store, h, set_eq_overwrite h]

theorem storeDigits_eq {fuel : Nat} {i : Int} {mem : List Byte} {p : Nat} (hf : 0 < fuel) (hi : i.natAbs < 10 ^ fuel)
    (hroom : p + (convertLoop fuel i).length ≤ mem.length) :
    storeDigits fuel i mem p = some (overwrite mem p (convertLoop fuel i), p + (convertLoop fuel i).length) := by
  induction fuel generalizing i mem p with
  | zero => exact absurd hf (lt_irrefl 0)
  | succ fuel ih =>
      simp only [convertLoop, List.length_cons] at hroom ⊢
      have hp : p < mem.length := by omega
      simp only [storeDigits, store, hp, if_true, Option.bind_some, overwrite_cons hp]
      by_cases hz : i.tdiv 10 = 0
      · simp [hz, overwrite_nil]
      · simp only [hz, ne_eq, not_false_eq_true, if_true] at hroom ⊢
        rw [ih (fuel_pos_of_tdiv_ten hi hz) (natAbs_tdiv_ten_lt hi) (by rw [List.length_set]; omega)]
        congr 2
        omega

theorem convert_eq (value : Int) :
    convert value = (if value < 0 then [minus] else []) ++ (convertLoop 20 value).reverse := by
  rw [convert, List.reverse_append]
  split
  · rfl
  · rfl

theorem stored_eq (v : IntValue) {mem : List Byte} {buf : Nat}
    (hroom : buf + (convert v.value).length < mem.length) :
    ((storeDigits 20 v.value mem buf).bind fun (mem, p) =>
      if v.value < 0 then (store mem p minus).map fun mem => (mem, p + 1) else some (mem, p)) =
      some (overwrite mem buf (convert v.value).reverse, buf + (convert v.value).length) := by
  rw [convert_eq] at hroom ⊢
  rw [List.length_append, List.length_reverse] at hroom ⊢
  rw [storeDigits_eq (by decide) (natAbs_value_lt v) (by omega)]
  by_cases hneg : v.value < 0
  · simp only [hneg, if_true, List.length_singleton] at hroom ⊢
    rw [Option.bind_some]
    simp only
    rw [store_eq (by rw [length_overwrite]; omega), overwrite_overwrite _ _ _ (by simp; omega)]
    simp
    omega
  · simp [hneg]

theorem convertAt_eq (v : IntValue) {mem : List Byte} {buf : Nat}
    (hroom : buf + (convert v.value).length < mem.length) :
    convertAt v.value mem buf = some (overwrite mem buf (convert v.value ++ [0]), (convert v.value).length) := by
  have hrev : (convert v.value).reverse.length = (convert v.value).length := List.length_reverse
  have hstored := stored_eq v hroom
  generalize convert v.value = text at hroom hrev hstored ⊢
  have hzero : store (overwrite mem buf text.reverse) (buf + text.length) 0 =
      some (overwrite mem buf (text.reverse ++ [0])) := by
    rw [store_eq (by rw [length_overwrite]; exact hroom), ← hrev, overwrite_overwrite _ _ _ (by simp; omega)]
  have hwindow : window (overwrite mem buf (text.reverse ++ [0])) buf (buf + text.length) = text.reverse := by
    rw [← hrev, window_overwrite_append _ _ _ (by simp; omega)]
  have hbind : convertAt v.value mem buf = ((storeDigits 20 v.value mem buf).bind fun (mem, p) =>
      if v.value < 0 then (store mem p minus).map fun mem => (mem, p + 1) else some (mem, p)).bind fun (mem, p) =>
        (store mem p 0).map fun mem => (overwrite mem buf (window mem buf p).reverse, p - buf) := by
    rw [convertAt, Option.bind_assoc]
  rw [hbind, hstored, Option.bind_some]
  simp only [hzero, hwindow, Option.map_some, List.reverse_reverse, Nat.add_sub_cancel_left]
  rw [overwrite_again _ _ _ _ hrev.symm (by simp; omega)]

theorem zero_neg : ∀ d < 10, zero (-(d : Nat)) = (Nat.digitChar d).toNat.toUInt8 := by decide +kernel

/-- To its right the entry of each digit but 0 belongs to another. -/
theorem zero_pos_ne : ∀ d < 10, 0 < d → zero (d : Nat) ≠ zero (-(d : Nat)) := by decide +kernel

def digitBytes (n : Nat) : List Byte := (Nat.toDigits 10 n).map fun c => c.toNat.toUInt8

theorem digitBytes_of_lt {n : Nat} (h : n < 10) : digitBytes n = [zero (-(n : Int))] := by
  rw [zero_neg n h, digitBytes, Nat.toDigits_of_lt_base h]
  rfl

theorem digitBytes_of_le {n : Nat} (h : 10 ≤ n) : digitBytes n = digitBytes (n / 10) ++ [zero (-(n % 10 : Nat))] := by
  rw [zero_neg _ (Nat.mod_lt n (by decide)), digitBytes, digitBytes, Nat.toDigits_of_base_le (by decide) h,
    List.map_append]
  rfl

theorem convertLoop_succ_neg (fuel n : Nat) : convertLoop (fuel + 1) (-(n : Int)) =
    zero (-((n % 10 : Nat) : Int)) :: if n / 10 ≠ 0 then convertLoop fuel (-((n / 10 : Nat) : Int)) else [] := by
  have hmod : (-(n : Int)).tmod 10 = -((n % 10 : Nat) : Int) := Int.neg_tmod ..
  have hdiv : (-(n : Int)).tdiv 10 = -((n / 10 : Nat) : Int) := Int.neg_tdiv ..
  have hzero : -((n / 10 : Nat) : Int) ≠ 0 ↔ n / 10 ≠ 0 := by
    rw [ne_eq, Int.neg_eq_zero, Int.natCast_eq_zero]
  simp only [convertLoop, hmod, hdiv, hzero]

theorem convertLoop_succ_nat (fuel n : Nat) : convertLoop (fuel + 1) (n : Int) =
    zero ((n % 10 : Nat) : Int) :: if n / 10 ≠ 0 then convertLoop fuel ((n / 10 : Nat) : Int) else [] := by
  have hmod : (n : Int).tmod 10 = ((n % 10 : Nat) : Int) := rfl
  have hdiv : (n : Int).tdiv 10 = ((n / 10 : Nat) : Int) := rfl
  have hzero : ((n / 10 : Nat) : Int) ≠ 0 ↔ n / 10 ≠ 0 := by
    rw [ne_eq, Int.natCast_eq_zero]
  simp only [convertLoop, hmod, hdiv, hzero]

theorem rounds_left {fuel n : Nat} (hn : n < 10 ^ (fuel + 1)) (hne : n / 10 ≠ 0) : 0 < fuel ∧ n / 10 < 10 ^ fuel :=
  ⟨fuel_pos_of_tdiv_ten (i := n) hn (Int.natCast_ne_zero.mpr hne), natAbs_tdiv_ten_lt (i := n) hn⟩

theorem convertLoop_neg {fuel n : Nat} (hf : 0 < fuel) (hn : n < 10 ^ fuel) :
    convertLoop fuel (-(n : Int)) = (digitBytes n).reverse := by
  induction fuel generalizing n with
  | zero => exact absurd hf (lt_irrefl 0)
  | succ fuel ih =>
      rw [convertLoop_succ_neg]
      by_cases hlt : n < 10
      · simp [digitBytes_of_lt hlt, Nat.div_eq_of_lt hlt, Nat.mod_eq_of_lt hlt]
      · have hne : n / 10 ≠ 0 := by omega
        obtain ⟨hfuel, hsmall⟩ := rounds_left hn hne
        rw [if_pos hne, ih hfuel hsmall, digitBytes_of_le (Nat.le_of_not_lt hlt), List.reverse_append]
        rfl

theorem convertLoop_pos_ne {fuel n : Nat} (hf : 0 < fuel) (hn : n < 10 ^ fuel) (hpos : 0 < n) :
    convertLoop fuel (n : Int) ≠ convertLoop fuel (-(n : Int)) := by
  induction fuel generalizing n with
  | zero => exact absurd hf (lt_irrefl 0)
  | succ fuel ih =>
      rw [convertLoop_succ_neg, convertLoop_succ_nat]
      intro h
      obtain ⟨hhead, htail⟩ := List.cons.inj h
      rcases Nat.eq_zero_or_pos (n % 10) with hz | hd
      · -- a last digit 0 is written right, so the difference is further to the front
        have hne : n / 10 ≠ 0 := by omega
        rw [if_pos hne, if_pos hne] at htail
        obtain ⟨hfuel, hsmall⟩ := rounds_left hn hne
        exact ih hfuel hsmall (Nat.pos_of_ne_zero hne) htail
      · exact zero_pos_ne _ (Nat.mod_lt n (by decide)) hd hhead

theorem decimalText_neg {n : Nat} (hn : 0 < n) : decimalText (-(n : Int)) = minus :: digitBytes n := by
  obtain ⟨k, rfl⟩ := Nat.exists_eq_succ_of_ne_zero (Nat.pos_iff_ne_zero.mp hn)
  rfl

theorem convert_neg {n : Nat} (h : n < 10 ^ 20) : convert (-(n : Int)) = decimalText (-(n : Int)) := by
  rw [convert_eq, convertLoop_neg (by decide) h, List.reverse_reverse]
  rcases Nat.eq_zero_or_pos n with rfl | hn
  · rfl
  · rw [if_pos (by omega), decimalText_neg hn]
    rfl

theorem convert_pos_ne {n : Nat} (h : n < 10 ^ 20) (hn : 0 < n) : convert (n : Int) ≠ decimalText (n : Int) := by
  rw [convert_eq, if_neg (by omega), List.nil_append]
  intro heq
  apply convertLoop_pos_ne (by decide) h hn
  rw [convertLoop_neg (by decide) h, ← List.reverse_inj, List.reverse_reverse, heq]
  rfl

theorem convert_eq_decimalText_iff (v : IntValue) : convert v.value = decimalText v.value ↔ v.value ≤ 0 := by
  have hv := natAbs_value_lt v
  constructor
  · intro h
    by_contra hpos
    obtain ⟨n, hn⟩ := Int.eq_ofNat_of_zero_le (le_of_lt (not_le.mp hpos))
    rw [hn] at h hv hpos
    exact convert_pos_ne hv (by omega) h
  · intro h
    obtain ⟨n, hn⟩ := Int.exists_eq_neg_ofNat h
    rw [hn] at hv ⊢
    exact convert_neg (by rwa [Int.natAbs_neg, Int.natAbs_natCast] at hv)

theorem numeral_append (ds : List Byte) (d : Byte) : numeral (ds ++ [d]) =
    (numeral ds).bind fun n => if 48 ≤ d.toNat ∧ d.toNat ≤ 57 then some (10 * n + (d.toNat - 48)) else none := by
  simp [numeral, List.foldlM_append]

theorem zero_neg_toNat : ∀ d < 10, (zero (-(d : Nat))).toNat = 48 + d := by decide +kernel

theorem numeral_digit (ds : List Byte) {d : Nat} (hd : d < 10) :
    numeral (ds ++ [zero (-(d : Int))]) = (numeral ds).map fun n => 10 * n + d := by
  have hbyte := zero_neg_toNat d hd
  rw [numeral_append, Option.map_eq_bind]
  congr 1
  funext n
  rw [if_pos (by omega), hbyte, Nat.add_sub_cancel_left]
  rfl

theorem numeral_digitBytes (n : Nat) : numeral (digitBytes n) = some n := by
  induction n using Nat.strong_induction_on with
  | _ n ih =>
      by_cases hlt : n < 10
      · rw [digitBytes_of_lt hlt]
        simpa [numeral] using numeral_digit [] hlt
      · rw [digitBytes_of_le (Nat.le_of_not_lt hlt), numeral_digit _ (Nat.mod_lt n (by decide)), ih _ (by omega),
          Option.map_some, Nat.div_add_mod]

theorem parse_decimalText {value : Int} (h : value ≤ 0) : parse (decimalText value) = some value := by
  obtain ⟨n, rfl⟩ := Int.exists_eq_neg_ofNat h
  rcases Nat.eq_zero_or_pos n with rfl | hn
  · decide +kernel
  · simp [decimalText_neg hn, parse, numeral_digitBytes]

structure WritesDecimal (v : IntValue) (mem : List Byte) (buf : Nat) : Prop where
  written : convertAt v.value mem buf =
    some (overwrite mem buf (decimalText v.value ++ [0]), (decimalText v.value).length)
  parsed : ∀ mem' len, convertAt v.value mem buf = some (mem', len) →
    parse (window mem' buf (buf + len)) = some v.value

theorem room_of_max (v : IntValue) {mem : List Byte} {buf : Nat} (h : buf + kMaxnumericSize ≤ mem.length) :
    buf + (convert v.value).length < mem.length := by
  have hlen := length_convert_le v.value
  simp only [kMaxnumericSize] at h
  omega

theorem window_convertAt {v : IntValue} {mem mem' : List Byte} {buf len : Nat}
    (hroom : buf + (convert v.value).length < mem.length) (h : convertAt v.value mem buf = some (mem', len)) :
    window mem' buf (buf + len) = convert v.value := by
  rw [convertAt_eq v hroom] at h
  obtain ⟨rfl, rfl⟩ := Prod.mk.inj (Option.some.inj h)
  exact window_overwrite_append _ _ _ hroom

/-- The table has no 1 to the right of its 0, so the positive integers, and only
these, come out wrong. The smallest integer of each type is right. -/
theorem writesDecimal_iff_nonpos (v : IntValue) (mem : List Byte) (buf : Nat)
    (hroom : buf + kMaxnumericSize ≤ mem.length) : WritesDecimal v mem buf ↔ v.value ≤ 0 := by
  have hlen := room_of_max v hroom
  rw [← convert_eq_decimalText_iff]
  constructor
  · intro h
    have hlength : (convert v.value).length = (decimalText v.value).length := by
      have hboth := (convertAt_eq v hlen).symm.trans h.written
      exact (Prod.mk.inj (Option.some.inj hboth)).2
    rw [← window_convertAt hlen h.written]
    apply window_overwrite_append
    rw [← hlength]
    exact hlen
  · intro h
    constructor
    · rw [← h, convertAt_eq v hlen]
    · intro mem' len hc
      rw [window_convertAt hlen hc, h]
      exact parse_decimalText ((convert_eq_decimalText_iff v).mp h)

def lowest : IntValue := ⟨.longLong, -2 ^ 63, by decide, by decide⟩

theorem writesDecimal_lowest : lowest.value ≤ 0 ∧ WritesDecimal lowest (List.replicate 48 255) 0 := by
  have h : lowest.value ≤ 0 := by decide
  exact ⟨h, (writesDecimal_iff_nonpos lowest (List.replicate 48 255) 0 (by decide)).mpr h⟩

def one : IntValue := ⟨.int, 1, by decide, by decide⟩

theorem one_reads_two : convertAt one.value (List.replicate 48 255) 0 = some (50 :: 0 :: List.replicate 46 255, 1) ∧
    decimalText one.value = [49] ∧
    ¬ ∀ (v : IntValue) (mem : List Byte) (buf : Nat), buf + kMaxnumericSize ≤ mem.length →
      WritesDecimal v mem buf := by
  have htext : convertAt one.value (List.replicate 48 255) 0 = some (50 :: 0 :: List.replicate 46 255, 1) := by
    decide +kernel
  refine ⟨htext, by decide +kernel, ?_⟩
  intro h
  have hparsed := (h one (List.replicate 48 255) 0 (by decide)).parsed _ _ htext
  exact absurd hparsed (by decide +kernel)

end IntegerText

end Webserver
