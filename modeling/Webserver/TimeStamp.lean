import Mathlib.Algebra.Ring.Int.Defs
import Mathlib.Algebra.Ring.Nat
import Mathlib.Data.Int.Order.Basic
import Mathlib.Order.Lattice

namespace Webserver

abbrev CInt := { x : Int // -2 ^ 31 ≤ x ∧ x < 2 ^ 31 }

theorem bmod_range (x : Int) : -2 ^ 31 ≤ x.bmod (2 ^ 32) ∧ x.bmod (2 ^ 32) < 2 ^ 31 := by
  have hl := @Int.le_bmod x (2 ^ 32) (by decide)
  have hu := @Int.bmod_lt x (2 ^ 32) (by decide)
  omega

def CInt.ofInt (x : Int) : CInt := ⟨x.bmod (2 ^ 32), bmod_range x⟩

theorem CInt.ofInt_val {x : Int} (hl : -2 ^ 31 ≤ x) (hu : x < 2 ^ 31) : (CInt.ofInt x).val = x :=
  Int.bmod_eq_of_le (by omega) (by omega)

/-- The field microSecondSinceEpoch_ is an int, whatever is passed to the constructor. -/
structure TimeStamp where
  microSecondSinceEpoch : CInt

namespace TimeStamp

theorem microSecondSinceEpoch_injective : Function.Injective microSecondSinceEpoch := by
  rintro ⟨a⟩ ⟨b⟩ h
  exact congrArg mk h

instance : LinearOrder TimeStamp := LinearOrder.lift' microSecondSinceEpoch microSecondSinceEpoch_injective

def construct (microSecondsSinceEpochArg : Int) : TimeStamp := ⟨CInt.ofInt microSecondsSinceEpochArg⟩

def invalid : TimeStamp := construct 0

def valid (t : TimeStamp) : Bool := 0 < t.microSecondSinceEpoch.val

def kMicroSecondsPerSecond : Int := 1000 * 1000

/-- The delay is given as the int64_t that addTime computes from its seconds. -/
def addTime (t : TimeStamp) (delta : Int) : TimeStamp := construct (t.microSecondSinceEpoch.val + delta)

theorem valid_of_le {t u : TimeStamp} (h : t ≤ u) (ht : t.valid = true) : u.valid = true := by
  have hle : t.microSecondSinceEpoch.val ≤ u.microSecondSinceEpoch.val := h
  simp only [valid, decide_eq_true_eq] at ht ⊢
  omega

end TimeStamp

end Webserver
