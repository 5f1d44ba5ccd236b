import Mathlib.Algebra.Ring.Int.Defs
import Mathlib.Algebra.Ring.Nat
import Webserver.TimerArming

namespace Webserver.TimerDelay

open TimerQueue

def InRange (bits : Nat) (x : Int) : Prop := -2 ^ (bits - 1) ≤ x ∧ x < 2 ^ (bits - 1)

instance (bits : Nat) (x : Int) : Decidable (InRange bits x) := inferInstanceAs (Decidable (_ ∧ _))

def difference (when now : TimeStamp) : Int := when.microSecondSinceEpoch.val - now.microSecondSinceEpoch.val

def microseconds (when now : TimeStamp) : Int :=
  if (CInt.ofInt (difference when now)).val < 100 then 100 else (CInt.ofInt (difference when now)).val

/-- The exact value of each arithmetic operation of howMuchTimeFromNow, with the
width of its type: the getter returns an int, and only its difference is widened. -/
def operations (when now : TimeStamp) : List (Nat × Int) :=
  [(32, difference when now),
    (64, (microseconds when now).tdiv TimeStamp.kMicroSecondsPerSecond),
    (64, (microseconds when now).tmod TimeStamp.kMicroSecondsPerSecond),
    (64, (microseconds when now).tmod TimeStamp.kMicroSecondsPerSecond * 1000)]

structure Exact (when now : TimeStamp) : Prop where
  denotes : (howMuchTimeFromNow when now).tv_sec * 10 ^ 9 + (howMuchTimeFromNow when now).tv_nsec =
    1000 * max 100 (difference when now)
  seconds : 0 ≤ (howMuchTimeFromNow when now).tv_sec
  nanoseconds : 0 ≤ (howMuchTimeFromNow when now).tv_nsec ∧ (howMuchTimeFromNow when now).tv_nsec < 10 ^ 9
  arms : howMuchTimeFromNow when now ≠ ⟨0, 0⟩
  noOverflow : ∀ op ∈ operations when now, InRange op.1 op.2

theorem howMuchTimeFromNow_eq (when now : TimeStamp) : howMuchTimeFromNow when now =
    ⟨(microseconds when now).tdiv TimeStamp.kMicroSecondsPerSecond,
      (microseconds when now).tmod TimeStamp.kMicroSecondsPerSecond * 1000⟩ := rfl

theorem microseconds_range (when now : TimeStamp) :
    100 ≤ microseconds when now ∧ microseconds when now < 2 ^ 31 := by
  have h := (CInt.ofInt (difference when now)).property
  simp only [microseconds]
  split <;> omega

theorem microseconds_of_inRange {when now : TimeStamp} (h : InRange 32 (difference when now)) :
    microseconds when now = max 100 (difference when now) := by
  rw [microseconds, CInt.ofInt_val h.1 h.2]
  split <;> omega

theorem perSecond : TimeStamp.kMicroSecondsPerSecond = 1000000 := rfl

theorem split_seconds {m : Int} (h : 0 ≤ m) :
    m.tdiv 1000000 * 10 ^ 9 + m.tmod 1000000 * 1000 = 1000 * m ∧ 0 ≤ m.tdiv 1000000 ∧ m.tdiv 1000000 ≤ m ∧
      0 ≤ m.tmod 1000000 ∧ m.tmod 1000000 < 1000000 := by
  have hdiv := Int.mul_tdiv_add_tmod m 1000000
  have hlow := Int.tmod_nonneg 1000000 h
  have hhigh := Int.tmod_lt_of_pos m (show (0 : Int) < 1000000 by decide)
  have hsec := Int.tdiv_nonneg h (show (0 : Int) ≤ 1000000 by decide)
  have hself := Int.tdiv_le_self 1000000 h
  refine ⟨?_, hsec, hself, hlow, hhigh⟩
  omega

theorem operations_inRange {when now : TimeStamp} (h : InRange 32 (difference when now)) :
    ∀ op ∈ operations when now, InRange op.1 op.2 := by
  obtain ⟨hlow, hhigh⟩ := microseconds_range when now
  obtain ⟨_, hsec, hself, hmod, hmax⟩ := split_seconds (le_trans (by decide) hlow : 0 ≤ microseconds when now)
  intro op hop
  simp only [operations, perSecond, List.mem_cons, List.not_mem_nil, or_false] at hop
  rcases hop with rfl | rfl | rfl | rfl
  · exact h
  · simp only [InRange]
    omega
  · simp only [InRange]
    omega
  · simp only [InRange]
    omega

/-- The delay is right exactly when the difference of the two stored values fits in an int. -/
theorem exact_iff_difference_fits (when now : TimeStamp) :
    Exact when now ↔ -2 ^ 31 ≤ difference when now ∧ difference when now < 2 ^ 31 := by
  constructor
  · intro h
    exact h.noOverflow (32, difference when now) (by simp [operations])
  · intro h
    have hlow := (microseconds_range when now).1
    obtain ⟨hsum, hsec, _, hmod, hmax⟩ := split_seconds (le_trans (by decide) hlow : 0 ≤ microseconds when now)
    constructor
    case denotes =>
      rw [← microseconds_of_inRange h]
      exact hsum
    case seconds => exact hsec
    case nanoseconds =>
      simp only [howMuchTimeFromNow_eq, perSecond]
      omega
    case arms => exact TimerArming.howMuchTimeFromNow_ne_zero when now
    case noOverflow => exact operations_inRange h

def farWhen : TimeStamp := ⟨⟨2 ^ 31 - 1, by decide⟩⟩

def farNow : TimeStamp := ⟨⟨-1, by decide⟩⟩

theorem long_delay_is_cut_short : howMuchTimeFromNow farWhen farNow = ⟨0, 100000⟩ ∧
    difference farWhen farNow = 2 ^ 31 ∧ ¬ ∀ when now : TimeStamp, Exact when now := by
  have hts : howMuchTimeFromNow farWhen farNow = ⟨0, 100000⟩ := by decide
  refine ⟨hts, by decide, ?_⟩
  intro h
  have hd := (h farWhen farNow).denotes
  rw [hts] at hd
  exact absurd hd (by decide)

end Webserver.TimerDelay
