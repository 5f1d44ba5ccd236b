import Mathlib.Algebra.Ring.Nat
import Mathlib.Data.List.Induction
import Mathlib.Data.Nat.Init

namespace Webserver.Numerals

open Nat (toDigits ofDigitChars)

/-- Decimal digits without a leading zero, apart from the numeral of zero itself. -/
structure IsNumeral (cs : List Char) : Prop where
  nonempty : cs ≠ []
  digits : ∀ c ∈ cs, c.isDigit = true
  leading : cs.head? = some '0' → cs.length = 1

def isNumeral (cs : List Char) : Bool := !cs.isEmpty && cs.all Char.isDigit && (cs.head? != some '0' || cs.length == 1)

theorem isNumeral_iff {cs : List Char} : isNumeral cs = true ↔ IsNumeral cs := by
  simp only [isNumeral, Bool.and_eq_true, Bool.or_eq_true, Bool.not_eq_true', List.isEmpty_eq_false_iff,
    List.all_eq_true, bne_iff_ne, beq_iff_eq, ne_eq]
  constructor
  · rintro ⟨⟨hne, hdigits⟩, hlead⟩
    exact ⟨hne, hdigits, fun hz => hlead.resolve_left (not_not_intro hz)⟩
  · rintro ⟨hne, hdigits, hlead⟩
    exact ⟨⟨hne, hdigits⟩, (em _).symm.imp_right hlead⟩

instance (cs : List Char) : Decidable (IsNumeral cs) := decidable_of_iff _ isNumeral_iff

theorem digitChar_of_isDigit {c : Char} (h : c.isDigit = true) : c.toNat - 48 < 10 ∧ (c.toNat - 48).digitChar = c := by
  have hc : 48 ≤ c.toNat ∧ c.toNat ≤ 57 := by simpa [Char.isDigit, UInt32.le_iff_toNat_le] using h
  have hlt : c.toNat - 48 < 10 := by omega
  refine ⟨hlt, Char.ext ?_⟩
  apply UInt32.toNat_inj.mp
  change (c.toNat - 48).digitChar.toNat = c.toNat
  rw [Nat.toNat_digitChar_of_lt_ten hlt]
  omega

theorem head_toDigits {n : Nat} (hn : 0 < n) : (toDigits 10 n).head? ≠ some '0' := by
  induction n using Nat.strong_induction_on with
  | _ n ih =>
      by_cases hlt : n < 10
      · rw [Nat.toDigits_of_lt_base hlt]
        simp
        omega
      · have hten : 10 ≤ n := Nat.le_of_not_lt hlt
        have hrest := ih (n / 10) (by omega) (by omega)
        obtain ⟨d, ds, hcons⟩ := List.exists_cons_of_ne_nil (Nat.toDigits_ne_nil (n := n / 10) (b := 10))
        rw [hcons] at hrest
        rw [Nat.toDigits_of_base_le (by decide) hten, hcons]
        exact hrest

theorem isNumeral_toDigits (n : Nat) : IsNumeral (toDigits 10 n) := by
  refine ⟨Nat.toDigits_ne_nil, fun c hc => Nat.isDigit_of_mem_toDigits (by decide) (by decide) hc, fun hz => ?_⟩
  rcases Nat.eq_zero_or_pos n with rfl | hn
  · rfl
  · exact absurd hz (head_toDigits hn)

theorem IsNumeral.toDigits_value {cs : List Char} (h : IsNumeral cs) : toDigits 10 (ofDigitChars 10 cs 0) = cs := by
  induction cs using List.reverseRecOn with
  | nil => exact absurd rfl h.nonempty
  | append_singleton cs c ih =>
      obtain ⟨hlt, hc⟩ := digitChar_of_isDigit (h.digits c (by simp))
      have hvalue : ofDigitChars 10 (cs ++ [c]) 0 = 10 * ofDigitChars 10 cs 0 + (c.toNat - 48) := by
        simp [Nat.ofDigitChars_append, Nat.ofDigitChars_cons]
      rw [hvalue]
      cases cs with
      | nil =>
          simp only [Nat.ofDigitChars_nil, Nat.mul_zero, Nat.zero_add, List.nil_append]
          rw [Nat.toDigits_of_lt_base hlt, hc]
      | cons d ds =>
          have hd : d ≠ '0' := by
            rintro rfl
            have hlen := h.leading rfl
            simp at hlen
          have hrest : IsNumeral (d :: ds) :=
            ⟨by simp, fun e he => h.digits e (List.mem_append_left _ he), fun hz => absurd (by simpa using hz) hd⟩
          have hpos : 0 < ofDigitChars 10 (d :: ds) 0 := by
            rcases Nat.eq_zero_or_pos (ofDigitChars 10 (d :: ds) 0) with hz | hz
            · have hzero := ih hrest
              rw [hz, Nat.toDigits_zero] at hzero
              exact absurd (List.cons.inj hzero).1.symm hd
            · exact hz
          rw [← Nat.toDigits_append_toDigits (by decide) hpos hlt, ih hrest, Nat.toDigits_of_lt_base hlt, hc]

/-- Decimal digits to a fixed width, with leading zeros. -/
def fixed : Nat → Nat → List Char
  | 0, _ => []
  | w + 1, n => fixed w (n / 10) ++ [(n % 10).digitChar]

@[simp]
theorem length_fixed (w n : Nat) : (fixed w n).length = w := by
  induction w generalizing n with
  | zero => rfl
  | succ w ih => simp [fixed, ih]

theorem toDigits_eq_fixed {w n : Nat} (hle : 10 ^ w ≤ n) (hlt : n < 10 ^ (w + 1)) :
    toDigits 10 n = fixed (w + 1) n := by
  induction w generalizing n with
  | zero =>
      rw [Nat.toDigits_of_lt_base (by omega), fixed, fixed, Nat.mod_eq_of_lt (by omega), List.nil_append]
  | succ w ih =>
      rw [Nat.pow_succ] at hle hlt
      have hpow : 0 < 10 ^ w := Nat.pow_pos (by decide)
      rw [Nat.toDigits_of_base_le (by decide) (by omega), fixed, ih (by omega) (by omega)]

theorem digitChar_lt {m n : Nat} (h : m < n) (hn : n < 10) : m.digitChar < n.digitChar := by
  have hall : ∀ i j : Fin 10, i < j → i.val.digitChar < j.val.digitChar := by decide
  exact hall ⟨m, by omega⟩ ⟨n, hn⟩ h

theorem append_lt_append {α : Type} [LT α] {a b : List α} (h : a < b) (hlen : a.length = b.length) (c d : List α) :
    a ++ c < b ++ d := by
  induction h with
  | nil => simp at hlen
  | rel hlt => exact List.Lex.rel hlt
  | cons _ ih => exact List.Lex.cons (ih (by simpa using hlen))

theorem fixed_lt_fixed {w m n : Nat} (h : m < n) (hn : n < 10 ^ w) : fixed w m < fixed w n := by
  induction w generalizing m n with
  | zero => simp at hn; omega
  | succ w ih =>
      rw [Nat.pow_succ] at hn
      by_cases heq : m / 10 = n / 10
      · rw [fixed, fixed, heq]
        exact List.append_left_lt (List.Lex.rel (digitChar_lt (by omega) (Nat.mod_lt n (by decide))))
      · exact append_lt_append (ih (by omega) (by omega)) (by simp) _ _

theorem fixed_append_lt {w m n : Nat} {a b : List Char} (hle : m ≤ n) (hn : n < 10 ^ w) (h : m = n → a < b) :
    fixed w m ++ a < fixed w n ++ b := by
  rcases Nat.lt_or_eq_of_le hle with hlt | heq
  · exact append_lt_append (fixed_lt_fixed hlt hn) (by simp) a b
  · rw [heq]
    exact List.append_left_lt (h heq)

theorem fixed_injective {w m n : Nat} (hm : m < 10 ^ w) (hn : n < 10 ^ w) (h : fixed w m = fixed w n) : m = n := by
  rcases Nat.lt_trichotomy m n with hlt | heq | hlt
  · have hless := fixed_lt_fixed hlt hn
    rw [h] at hless
    exact absurd hless (List.lt_irrefl _)
  · exact heq
  · have hless := fixed_lt_fixed hlt hm
    rw [h] at hless
    exact absurd hless (List.lt_irrefl _)

/-- An integer to a width of at least w with leading zeros, the sign counted. -/
def zeroPadded (w : Nat) : Int → List Char
  | .ofNat n => (toDigits 10 n).leftpad w '0'
  | .negSucc n => '-' :: (toDigits 10 (n + 1)).leftpad (w - 1) '0'

theorem value_leftpad (w n : Nat) : ofDigitChars 10 ((toDigits 10 n).leftpad w '0') 0 = n := by
  rw [List.leftpad, Nat.ofDigitChars_append, Nat.ofDigitChars_replicate_zero, Nat.mul_zero,
    Nat.ofDigitChars_ten_toDigits]

theorem minus_notMem (w n : Nat) : '-' ∉ (toDigits 10 n).leftpad w '0' := by
  intro hm
  rcases List.mem_append.mp hm with hm | hm
  · exact absurd (List.eq_of_mem_replicate hm) (by decide)
  · exact absurd (Nat.isDigit_of_mem_toDigits (by decide) (by decide) hm) (by decide)

theorem zeroPadded_injective (w : Nat) : Function.Injective (zeroPadded w) := by
  intro m n h
  cases m with
  | ofNat m =>
      cases n with
      | ofNat n =>
          have hvalue := congrArg (ofDigitChars 10 · 0) h
          simp only [zeroPadded, value_leftpad] at hvalue
          rw [hvalue]
      | negSucc n =>
          have hm : '-' ∈ zeroPadded w (.ofNat m) := by
            rw [h]
            exact List.mem_cons_self
          exact absurd hm (minus_notMem w m)
  | negSucc m =>
      cases n with
      | ofNat n =>
          have hn : '-' ∈ zeroPadded w (.ofNat n) := by
            rw [← h]
            exact List.mem_cons_self
          exact absurd hn (minus_notMem w n)
      | negSucc n =>
          have hvalue := congrArg (ofDigitChars 10 · 0) (List.cons.inj h).2
          simp only [value_leftpad] at hvalue
          rw [Nat.succ.inj hvalue]

theorem leftpad_append {α : Type} (w : Nat) (a c : α) (l : List α) :
    (l ++ [c]).leftpad (w + 1) a = l.leftpad w a ++ [c] := by
  simp [List.leftpad, Nat.add_sub_add_right]

theorem fixed_zero (w : Nat) : fixed w 0 = List.replicate w '0' := by
  induction w with
  | zero => rfl
  | succ w ih => rw [fixed, ih, List.replicate_succ']; rfl

theorem zeroPadded_eq_fixed {w n : Nat} (h : n < 10 ^ (w + 1)) : zeroPadded (w + 1) n = fixed (w + 1) n := by
  change (toDigits 10 n).leftpad (w + 1) '0' = _
  induction w generalizing n with
  | zero =>
      rw [Nat.toDigits_of_lt_base (by omega), fixed, fixed, Nat.mod_eq_of_lt (by omega)]
      rfl
  | succ w ih =>
      by_cases hten : n < 10
      · have hdigit := leftpad_append (w + 1) '0' n.digitChar []
        rw [List.nil_append] at hdigit
        rw [Nat.toDigits_of_lt_base hten, hdigit, fixed, Nat.div_eq_of_lt hten, Nat.mod_eq_of_lt hten, fixed_zero]
        simp [List.leftpad]
      · have hrest : n / 10 < 10 ^ (w + 1) := by
          rw [Nat.pow_succ] at h
          omega
        rw [Nat.toDigits_of_base_le (by decide) (by omega), leftpad_append, ih hrest]
        rfl

theorem leftpad_inj {α : Type} [DecidableEq α] {w : Nat} {a : α} {l m : List α} (hl : a ∉ l) (hm : a ∉ m)
    (h : l.leftpad w a = m.leftpad w a) : l = m := by
  have hself : ∀ {k : List α}, a ∉ k → (k.leftpad w a).filter (· ≠ a) = k := by
    intro k hk
    have hkept : k.filter (· ≠ a) = k := by
      rw [List.filter_eq_self]
      intro c hc
      have hne : c ≠ a := fun hca => hk (hca ▸ hc)
      exact decide_eq_true hne
    rw [List.leftpad, List.filter_append, hkept]
    simp
  rw [← hself hl, h, hself hm]

end Webserver.Numerals
