import Mathlib.Data.Nat.Init
import Mathlib.Algebra.Order.Group.Int

namespace Webserver.Calendar

def isLeap (y : Int) : Bool := y % 4 == 0 && (y % 100 != 0 || y % 400 == 0)

def yearStart (y : Int) : Int := 365 * (y - 1970) + (y - 1) / 4 - (y - 1) / 100 + (y - 1) / 400 - 477

def monthStart (leap : Bool) (m : Nat) : Int :=
  [0, 31, 59, 90, 120, 151, 181, 212, 243, 273, 304, 334].getD m 365 + if leap && 2 ≤ m then 1 else 0

/-- The year of a day. The quotient is the year, or the one before or after it. -/
def yearOf (day : Int) : Int :=
  let y := 1970 + 400 * day / 146097
  if day < yearStart y then y - 1 else if yearStart (y + 1) ≤ day then y + 1 else y

def monthOf (leap : Bool) (yday : Int) : Nat → Nat
  | 0 => 0
  | m + 1 => if yday < monthStart leap (m + 1) then monthOf leap yday m else m + 1

structure Tm where
  year : Int
  mon : Nat
  mday : Nat
  hour : Nat
  min : Nat
  sec : Nat
deriving DecidableEq

def secondsPerDay : Int := 86400

/-- The seconds since the epoch as a date and a time of day, without leap seconds. -/
def gmtime (t : Int) : Tm :=
  let day := t / secondsPerDay
  let rest := (t % secondsPerDay).toNat
  let year := yearOf day
  let yday := day - yearStart year
  let mon := monthOf (isLeap year) yday 11
  ⟨year, mon, (yday - monthStart (isLeap year) mon + 1).toNat, rest / 3600, rest / 60 % 60, rest % 60⟩

example : gmtime 951782400 = ⟨2000, 1, 29, 0, 0, 0⟩ ∧ gmtime 951868799 = ⟨2000, 1, 29, 23, 59, 59⟩ := by decide

theorem yearStart_succ (y : Int) : yearStart (y + 1) = yearStart y + if isLeap y then 366 else 365 := by
  have hleap : isLeap y = true ↔ y % 4 = 0 ∧ (y % 100 ≠ 0 ∨ y % 400 = 0) := by simp [isLeap]
  unfold yearStart
  split
  · rename_i h
    have h' := hleap.mp h
    omega
  · rename_i h
    have h' := mt hleap.mpr h
    omega

theorem yearStart_lt (y : Int) : yearStart y < yearStart (y + 1) := by
  rw [yearStart_succ]
  split <;> omega

theorem yearStart_mono {y z : Int} (h : y ≤ z) : yearStart y ≤ yearStart z := by
  induction z, h using Int.leInduction with
  | base => exact Int.le_refl _
  | succ z _ ih => exact Int.le_trans ih (Int.le_of_lt (yearStart_lt z))

theorem yearOf_spec (day : Int) : yearStart (yearOf day) ≤ day ∧ day < yearStart (yearOf day + 1) := by
  have hbefore : yearStart (1970 + 400 * day / 146097 - 1) ≤ day := by
    unfold yearStart
    omega
  have hafter : day < yearStart (1970 + 400 * day / 146097 + 1 + 1) := by
    unfold yearStart
    omega
  simp only [yearOf]
  split
  · rename_i h
    exact ⟨hbefore, by rwa [Int.sub_add_cancel]⟩
  · rename_i h
    split
    · rename_i h'
      exact ⟨h', hafter⟩
    · rename_i h'
      exact ⟨Int.not_lt.mp h, Int.not_le.mp h'⟩

theorem yearOf_mono {d e : Int} (h : d ≤ e) : yearOf d ≤ yearOf e := by
  by_contra hlt
  have hle := yearStart_mono (show yearOf e + 1 ≤ yearOf d by omega)
  have hd := (yearOf_spec d).1
  have he := (yearOf_spec e).2
  omega

theorem monthOf_le (leap : Bool) (yday : Int) (m : Nat) : monthOf leap yday m ≤ m := by
  induction m with
  | zero => exact Nat.le_refl 0
  | succ m ih =>
      unfold monthOf
      split
      · exact Nat.le_succ_of_le ih
      · exact Nat.le_refl _

theorem monthStart_monthOf (leap : Bool) {yday : Int} (h : 0 ≤ yday) (m : Nat) :
    monthStart leap (monthOf leap yday m) ≤ yday := by
  induction m with
  | zero => simpa [monthOf, monthStart] using h
  | succ m ih =>
      unfold monthOf
      split
      · exact ih
      · exact Int.not_lt.mp ‹_›

theorem lt_monthStart_succ (leap : Bool) {yday : Int} {m : Nat} (h : yday < monthStart leap (m + 1)) :
    yday < monthStart leap (monthOf leap yday m + 1) := by
  induction m with
  | zero => exact h
  | succ m ih =>
      unfold monthOf
      split
      · exact ih ‹_›
      · exact h

theorem monthOf_mono (leap : Bool) {d e : Int} (h : d ≤ e) (m : Nat) : monthOf leap d m ≤ monthOf leap e m := by
  induction m with
  | zero => exact Nat.le_refl 0
  | succ m ih =>
      unfold monthOf
      split
      · split
        · exact ih
        · exact Nat.le_succ_of_le (monthOf_le leap d m)
      · rename_i hd
        rw [if_neg (by omega)]

theorem monthStart_succ_le (leap : Bool) {m : Nat} (h : m ≤ 11) : monthStart leap (m + 1) ≤ monthStart leap m + 31 := by
  have hall : ∀ leap : Bool, ∀ i : Fin 12, monthStart leap (i + 1) ≤ monthStart leap i + 31 := by decide
  exact hall leap ⟨m, by omega⟩

theorem yearOf_lt {day y : Int} : yearOf day < y ↔ day < yearStart y := by
  constructor
  · intro h
    exact Int.lt_of_lt_of_le (yearOf_spec day).2 (yearStart_mono h)
  · intro h
    by_contra hle
    have hstart := yearStart_mono (Int.not_lt.mp hle)
    have hday := (yearOf_spec day).1
    omega

theorem yday_spec (day : Int) : 0 ≤ day - yearStart (yearOf day) ∧
    day - yearStart (yearOf day) < monthStart (isLeap (yearOf day)) 12 := by
  obtain ⟨hle, hlt⟩ := yearOf_spec day
  rw [yearStart_succ] at hlt
  cases hleap : isLeap (yearOf day) with
  | true =>
      have h12 : monthStart true 12 = 366 := by decide
      simp only [hleap, if_true] at hlt
      omega
  | false =>
      have h12 : monthStart false 12 = 365 := by decide
      simp only [hleap, Bool.false_eq_true, if_false] at hlt
      omega

structure Ranged (tm : Tm) : Prop where
  mon : tm.mon ≤ 11
  mday : 1 ≤ tm.mday ∧ tm.mday ≤ 31
  hour : tm.hour < 24
  min : tm.min < 60
  sec : tm.sec < 60

theorem gmtime_ranged (t : Int) : Ranged (gmtime t) := by
  obtain ⟨hyday, hyear⟩ := yday_spec (t / secondsPerDay)
  have hmon := monthOf_le (isLeap (yearOf (t / secondsPerDay)))
    (t / secondsPerDay - yearStart (yearOf (t / secondsPerDay))) 11
  have hstart := monthStart_monthOf (isLeap (yearOf (t / secondsPerDay))) hyday 11
  have hend := lt_monthStart_succ (isLeap (yearOf (t / secondsPerDay))) hyear
  have hlength := monthStart_succ_le (isLeap (yearOf (t / secondsPerDay))) hmon
  have hrest : (t % secondsPerDay).toNat < 86400 := by
    unfold secondsPerDay
    omega
  refine ⟨hmon, ?_, ?_, ?_, ?_⟩
  · simp only [gmtime]
    omega
  · simp only [gmtime]
    omega
  · exact Nat.mod_lt _ (by decide)
  · exact Nat.mod_lt _ (by decide)

def Tm.Before (a b : Tm) : Prop :=
  a.year ≤ b.year ∧ (a.year = b.year → a.mon ≤ b.mon ∧ (a.mon = b.mon → a.mday ≤ b.mday ∧
    (a.mday = b.mday → a.hour ≤ b.hour ∧ (a.hour = b.hour → a.min ≤ b.min ∧ (a.min = b.min → a.sec < b.sec)))))

theorem gmtime_before {t u : Int} (h : t < u) : (gmtime t).Before (gmtime u) := by
  have hday : t / secondsPerDay ≤ u / secondsPerDay := by
    unfold secondsPerDay
    omega
  have ht := (yday_spec (t / secondsPerDay)).1
  refine ⟨yearOf_mono hday, fun hyear => ?_⟩
  have hyear' : yearOf (t / secondsPerDay) = yearOf (u / secondsPerDay) := hyear
  simp only [gmtime, hyear'] at ht ⊢
  generalize yearOf (u / secondsPerDay) = y at ht
  have hyday : t / secondsPerDay - yearStart y ≤ u / secondsPerDay - yearStart y := by omega
  refine ⟨monthOf_mono _ hyday 11, fun hmon => ?_⟩
  have hstart := monthStart_monthOf (isLeap y) ht 11
  rw [hmon] at hstart ⊢
  generalize monthStart (isLeap y) (monthOf (isLeap y) (u / secondsPerDay - yearStart y) 11) = start at hstart
  unfold secondsPerDay at *
  refine ⟨by omega, fun hmday => ?_⟩
  have hsame : t / 86400 = u / 86400 := by omega
  refine ⟨by omega, fun hhour => ⟨by omega, fun hmin => by omega⟩⟩

theorem Tm.not_before_self (a : Tm) : ¬ a.Before a := by
  rintro ⟨_, hyear⟩
  obtain ⟨_, hmon⟩ := hyear rfl
  obtain ⟨_, hmday⟩ := hmon rfl
  obtain ⟨_, hhour⟩ := hmday rfl
  obtain ⟨_, hmin⟩ := hhour rfl
  exact Nat.lt_irrefl a.sec (hmin rfl)

theorem gmtime_injective : Function.Injective gmtime := by
  intro t u h
  rcases Int.lt_trichotomy t u with hlt | heq | hlt
  · have hbefore := gmtime_before hlt
    rw [h] at hbefore
    exact absurd hbefore (Tm.not_before_self _)
  · exact heq
  · have hbefore := gmtime_before hlt
    rw [h] at hbefore
    exact absurd hbefore (Tm.not_before_self _)

end Webserver.Calendar
