import Webserver.LogNames

namespace Webserver

open Calendar Numerals

namespace TimeStamp

/-- The date and the time of day as toFormatString prints them. -/
def dateText (tm : Tm) : List Char :=
  (decimal tm.year).leftpad 4 ' ' ++ (zeroPadded 2 (tm.mon + 1 : Nat) ++ (zeroPadded 2 tm.mday ++
    ' ' :: (zeroPadded 2 tm.hour ++ ':' :: (zeroPadded 2 tm.min ++ ':' :: zeroPadded 2 tm.sec))))

/-- The text for any number of microseconds since the epoch. Division and remainder go towards zero. -/
def text (showMicroSeconds : Bool) (micros : Int) : List Char :=
  let seconds := micros.tdiv kMicroSecondsPerSecond
  let microseconds := micros.tmod kMicroSecondsPerSecond
  if showMicroSeconds then dateText (gmtime seconds) ++ '.' :: zeroPadded 6 microseconds
  else dateText (gmtime seconds)

def toFormatString (showMicroSeconds : Bool) (t : TimeStamp) : List Char :=
  snprintf 32 (text showMicroSeconds t.microSecondSinceEpoch.val)

end TimeStamp

namespace TimeStampText

open TimeStamp LogNames

/-- What follows the year has its width. -/
def rest (tm : Tm) : List Char :=
  fixed 2 (tm.mon + 1) ++ (fixed 2 tm.mday ++
    ' ' :: (fixed 2 tm.hour ++ ':' :: (fixed 2 tm.min ++ ':' :: fixed 2 tm.sec)))

theorem dateText_eq (t : Int) : dateText (gmtime t) = (decimal (gmtime t).year).leftpad 4 ' ' ++ rest (gmtime t) := by
  obtain ⟨hmon, ⟨_, hmday⟩, hhour, hmin, hsec⟩ := gmtime_ranged t
  have h : ∀ {n : Nat}, n < 100 → zeroPadded 2 n = fixed 2 n := fun hn => zeroPadded_eq_fixed (w := 1) hn
  rw [dateText, h (by omega), h (by omega), h (by omega), h (by omega), h (by omega)]
  rfl

theorem length_rest (tm : Tm) : (rest tm).length = 13 := by simp [rest]

theorem rest_injective {a b : Tm} (ha : Ranged a) (hb : Ranged b) (hyear : a.year = b.year) (h : rest a = rest b) :
    a = b := by
  obtain ⟨hmon, ⟨_, hmday⟩, hhour, hmin, hsec⟩ := ha
  obtain ⟨hmon', ⟨_, hmday'⟩, hhour', hmin', hsec'⟩ := hb
  have hfield : ∀ {m n : Nat}, m < 100 → n < 100 → fixed 2 m = fixed 2 n → m = n :=
    fun hm hn => fixed_injective (w := 2) hm hn
  obtain ⟨h1, h⟩ := List.append_inj h (by simp)
  obtain ⟨h2, h⟩ := List.append_inj h (by simp)
  obtain ⟨h3, h⟩ := List.append_inj (List.cons.inj h).2 (by simp)
  obtain ⟨h4, h⟩ := List.append_inj (List.cons.inj h).2 (by simp)
  have h1' := hfield (by omega) (by omega) h1
  have h2' := hfield (by omega) (by omega) h2
  have h3' := hfield (by omega) (by omega) h3
  have h4' := hfield (by omega) (by omega) h4
  have h5' := hfield (by omega) (by omega) (List.cons.inj h).2
  cases a
  cases b
  simp_all

theorem decimal_eq_zeroPadded (n : Int) : decimal n = zeroPadded 0 n := by
  cases n with
  | ofNat n => simp [decimal, zeroPadded, List.leftpad]
  | negSucc n => simp [decimal, zeroPadded, List.leftpad]

theorem mem_zeroPadded {w : Nat} {n : Int} {c : Char} (h : c ∈ zeroPadded w n) : c.isDigit = true ∨ c = '-' := by
  have hdigits : ∀ {w n : Nat}, c ∈ (Nat.toDigits 10 n).leftpad w '0' → c.isDigit = true := by
    intro w n hc
    rcases List.mem_append.mp hc with hc | hc
    · rw [List.eq_of_mem_replicate hc]
      rfl
    · exact Nat.isDigit_of_mem_toDigits (by decide) (by decide) hc
  cases n with
  | ofNat n => exact .inl (hdigits h)
  | negSucc n =>
      rcases List.mem_cons.mp h with rfl | h
      · exact .inr rfl
      · exact .inl (hdigits h)

theorem dateText_injective {t u : Int} (h : dateText (gmtime t) = dateText (gmtime u)) : t = u := by
  rw [dateText_eq, dateText_eq] at h
  obtain ⟨hyear, hrest⟩ := List.append_inj' h (by rw [length_rest, length_rest])
  have hspace : ∀ n : Int, ' ' ∉ decimal n := by
    intro n hm
    rw [decimal_eq_zeroPadded] at hm
    rcases mem_zeroPadded hm with hd | hd
    · exact absurd hd (by decide)
    · exact absurd hd (by decide)
  have hyear' := leftpad_inj (hspace _) (hspace _) hyear
  rw [decimal_eq_zeroPadded, decimal_eq_zeroPadded] at hyear'
  exact gmtime_injective (rest_injective (gmtime_ranged t) (gmtime_ranged u) (zeroPadded_injective 0 hyear') hrest)

theorem point_notMem (w : Nat) (n : Int) : '.' ∉ zeroPadded w n := by
  intro hm
  rcases mem_zeroPadded hm with hd | hd
  · exact absurd hd (by decide)
  · exact absurd hd (by decide)

theorem point_notMem_dateText (tm : Tm) : '.' ∉ dateText tm := by
  simp only [dateText, List.leftpad, decimal_eq_zeroPadded, List.mem_append, List.mem_cons, List.mem_replicate]
  simp [point_notMem]

theorem text_injective : Function.Injective (text true) := by
  intro a b h
  simp only [text, if_true] at h
  obtain ⟨hdate, _, hmicros⟩ :=
    (List.append_cons_inj_of_notMem (point_notMem_dateText _) (point_notMem 6 _)).mp h
  have hseconds := dateText_injective hdate
  have hmicros' := zeroPadded_injective 6 hmicros
  have ha := Int.mul_tdiv_add_tmod a kMicroSecondsPerSecond
  have hb := Int.mul_tdiv_add_tmod b kMicroSecondsPerSecond
  rw [← ha, ← hb, hseconds, hmicros']

theorem text_seconds {a b : Int} :
    text false a = text false b ↔ a.tdiv kMicroSecondsPerSecond = b.tdiv kMicroSecondsPerSecond := by
  simp only [text, Bool.false_eq_true, if_false]
  exact ⟨dateText_injective, fun h => by rw [h]⟩

theorem dateText_lt {t u : Int} (h : 0 ≤ t) (htu : t < u) (hu : u < year10000) :
    dateText (gmtime t) < dateText (gmtime u) ∧ (dateText (gmtime t)).length = (dateText (gmtime u)).length := by
  have hyear : ∀ {v : Int}, 0 ≤ v → v < year10000 →
      (decimal (gmtime v).year).leftpad 4 ' ' = fixed 4 (gmtime v).year.toNat := by
    intro v hv hv'
    obtain ⟨hle, hlt⟩ := year_bounds hv hv'
    rw [decimal_eq_fixed hle hlt, List.leftpad, length_fixed]
    rfl
  rw [dateText_eq, dateText_eq, hyear h (htu.trans hu), hyear (h.trans htu.le) hu]
  refine ⟨?_, by simp [length_rest]⟩
  obtain ⟨ht, _⟩ := year_bounds h (htu.trans hu)
  obtain ⟨hu, hu'⟩ := year_bounds (h.trans htu.le) hu
  obtain ⟨hmon, ⟨_, hmday⟩, hhour, hmin, hsec⟩ := gmtime_ranged u
  obtain ⟨hle, hbefore⟩ := gmtime_before htu
  refine fixed_append_lt (by omega) (by omega) fun he => ?_
  obtain ⟨hle, hbefore⟩ := hbefore (by omega)
  refine fixed_append_lt (by omega) (by omega) fun he => ?_
  obtain ⟨hle, hbefore⟩ := hbefore (by omega)
  refine fixed_append_lt hle (by omega) fun he => ?_
  obtain ⟨hle, hbefore⟩ := hbefore he
  apply List.Lex.cons
  refine fixed_append_lt hle (by omega) fun he => ?_
  obtain ⟨hle, hbefore⟩ := hbefore he
  apply List.Lex.cons
  refine fixed_append_lt hle (by omega) fun he => ?_
  apply List.Lex.cons
  exact fixed_lt_fixed (hbefore he) (by omega)

theorem text_lt {a b : Int} (h : 0 ≤ a) (hab : a < b) (hb : b < year10000 * kMicroSecondsPerSecond) :
    text true a < text true b := by
  have ha' : a.tdiv kMicroSecondsPerSecond = a / kMicroSecondsPerSecond := Int.tdiv_eq_ediv_of_nonneg h
  have hb' : b.tdiv kMicroSecondsPerSecond = b / kMicroSecondsPerSecond := Int.tdiv_eq_ediv_of_nonneg (by omega)
  have hma : a.tmod kMicroSecondsPerSecond = a % kMicroSecondsPerSecond := Int.tmod_eq_emod_of_nonneg h
  have hmb : b.tmod kMicroSecondsPerSecond = b % kMicroSecondsPerSecond := Int.tmod_eq_emod_of_nonneg (by omega)
  simp only [text, if_true, ha', hb', hma, hmb]
  have hmicro : kMicroSecondsPerSecond = 1000000 := rfl
  rw [hmicro] at hb ⊢
  by_cases hsame : a / 1000000 = b / 1000000
  · obtain ⟨m, hm⟩ := Int.eq_ofNat_of_zero_le (show 0 ≤ a % 1000000 by omega)
    obtain ⟨n, hn⟩ := Int.eq_ofNat_of_zero_le (show 0 ≤ b % 1000000 by omega)
    rw [hsame, hm, hn, zeroPadded_eq_fixed (w := 5) (by omega), zeroPadded_eq_fixed (w := 5) (by omega)]
    apply List.append_left_lt
    apply List.Lex.cons
    exact fixed_lt_fixed (by omega) (by omega)
  · have hnonneg : 0 ≤ a / 1000000 := by omega
    have hlater : a / 1000000 < b / 1000000 := by omega
    obtain ⟨hlt, hlen⟩ := dateText_lt hnonneg hlater (by omega)
    exact append_lt_append hlt hlen _ _

theorem length_zeroPadded_six {n : Int} (hl : -1000000 < n) (hu : n < 1000000) : (zeroPadded 6 n).length ≤ 7 := by
  have hdigits : ∀ {m w : Nat}, m < 1000000 → w ≤ 6 → ((Nat.toDigits 10 m).leftpad w '0').length ≤ 6 := by
    intro m w hm hw
    have hlen := (Nat.length_toDigits_le_iff (b := 10) (k := 6) (n := m) (by decide) (by decide)).mpr (by omega)
    rw [List.leftpad, List.length_append, List.length_replicate]
    omega
  cases n with
  | ofNat n =>
      have hn : (n : Int) < 1000000 := hu
      exact (hdigits (by omega) (Nat.le_refl 6)).trans (by decide)
  | negSucc n =>
      have hlen := hdigits (m := n + 1) (w := 5) (by omega) (by decide)
      exact Nat.succ_le_succ hlen

theorem length_dateText {t : Int} (hl : -86400 ≤ t) (hu : t < 86400) : (dateText (gmtime t)).length = 17 := by
  have hyear : (gmtime t).year = 1969 ∨ (gmtime t).year = 1970 := by
    have hfirst : yearStart 1969 = -365 := by decide
    have hlast : yearStart 1971 = 365 := by decide
    have hle : ¬ yearOf (t / secondsPerDay) < 1969 := by
      rw [yearOf_lt, hfirst, secondsPerDay]
      omega
    have hlt : yearOf (t / secondsPerDay) < 1971 := by
      rw [yearOf_lt, hlast, secondsPerDay]
      omega
    have hyear : (gmtime t).year = yearOf (t / secondsPerDay) := rfl
    omega
  rw [dateText_eq, List.length_append, length_rest]
  rcases hyear with h | h
  · rw [h]
    rfl
  · rw [h]
    rfl

theorem toFormatString_eq (showMicroSeconds : Bool) (t : TimeStamp) :
    t.toFormatString showMicroSeconds = text showMicroSeconds t.microSecondSinceEpoch.val := by
  obtain ⟨hl, hu⟩ := t.microSecondSinceEpoch.property
  have hmicro : kMicroSecondsPerSecond = 1000000 := rfl
  have hparts := Int.mul_tdiv_add_tmod t.microSecondSinceEpoch.val kMicroSecondsPerSecond
  have hlow := Int.lt_tmod_of_pos t.microSecondSinceEpoch.val (show 0 < kMicroSecondsPerSecond by decide)
  have hhigh := Int.tmod_lt_of_pos t.microSecondSinceEpoch.val (show 0 < kMicroSecondsPerSecond by decide)
  have hmicros := length_zeroPadded_six hlow hhigh
  rw [hmicro] at hparts hlow hhigh
  have hdate : (dateText (gmtime (t.microSecondSinceEpoch.val.tdiv kMicroSecondsPerSecond))).length = 17 := by
    rw [hmicro]
    exact length_dateText (by omega) (by omega)
  apply List.take_of_length_le
  cases showMicroSeconds with
  | true =>
      simp only [text, if_true, List.length_append, List.length_cons]
      omega
  | false =>
      simp only [text, Bool.false_eq_true, if_false]
      omega

/-- What the text of a stamp made at t, and of any stamps a and b, tells. -/
structure Tells (t : Int) (a b : TimeStamp) : Prop where
  whole : ∀ showMicroSeconds,
    a.toFormatString showMicroSeconds = text showMicroSeconds a.microSecondSinceEpoch.val
  moment : (construct t).toFormatString true = text true t ↔ -2 ^ 31 ≤ t ∧ t < 2 ^ 31
  stamp : a.toFormatString true = b.toFormatString true ↔ a = b
  second : a.toFormatString false = b.toFormatString false ↔
    a.microSecondSinceEpoch.val.tdiv kMicroSecondsPerSecond = b.microSecondSinceEpoch.val.tdiv kMicroSecondsPerSecond
  order : a < b → 0 ≤ a.microSecondSinceEpoch.val → a.toFormatString true < b.toFormatString true

/-- A text tells its stamp from all others, but the moment the stamp was made at only
within some 35 minutes of the epoch. -/
theorem toFormatString_tells (t : Int) (a b : TimeStamp) : Tells t a b := by
  constructor
  · intro showMicroSeconds
    exact toFormatString_eq showMicroSeconds a
  · rw [toFormatString_eq, text_injective.eq_iff]
    constructor
    · intro h
      rw [← h]
      exact (construct t).microSecondSinceEpoch.property
    · rintro ⟨hl, hu⟩
      exact CInt.ofInt_val hl hu
  · rw [toFormatString_eq, toFormatString_eq, text_injective.eq_iff]
    exact ⟨fun h => microSecondSinceEpoch_injective (Subtype.ext h), fun h => by rw [h]⟩
  · rw [toFormatString_eq, toFormatString_eq, text_seconds]
  · intro hab h
    have hlt : a.microSecondSinceEpoch.val < b.microSecondSinceEpoch.val := hab
    have hb := b.microSecondSinceEpoch.property
    rw [toFormatString_eq, toFormatString_eq]
    apply text_lt h hlt
    rw [year10000, kMicroSecondsPerSecond]
    omega

example : (construct 1000000000000000).toFormatString true = "19691231 23:34:30.-494976".toList := by decide

end TimeStampText

end Webserver
