import Webserver.LogRolling

namespace Webserver.DailyRolling

open Runs LogFile LogRolling

variable (timebuf : Int → List Char)

/-- A file by the startOfPeriod_ it was opened with and the times at which its
lines were appended. -/
structure History where
  startOfPeriod : Int
  times : List Int

def History.late (f : History) : Nat := f.times.countP (fun time => f.startOfPeriod < period time)

/-- A LogFile with the last reading of the clock and the histories of its files. -/
structure Daily where
  log : LogFile
  now : Int
  current : History
  earlier : List History

structure Append where
  line : Line
  fuel : Nat
  io : Nat → Fwrite
  time : Int
  clock : Clock

def appended (s : LogFile) (e : Append) : Option LogFile := s.append timebuf e.fuel e.line e.io e.clock

def History.add (time : Int) (f : History) : History := { f with times := f.times ++ [time] }

def next (s : Daily) (e : Append) : Daily :=
  match appended timebuf s.log e with
  | none => s
  | some t =>
      if Rolled s.log t then ⟨t, e.clock.roll, ⟨t.startOfPeriod, []⟩, s.earlier ++ [s.current.add e.time]⟩
      else ⟨t, e.clock.roll, s.current.add e.time, s.earlier⟩

/-- The append returns, and the clock does not go back. -/
structure Enabled (s : Daily) (e : Append) : Prop where
  returns : (appended timebuf s.log e).isSome
  time : s.now ≤ e.time
  check : e.time ≤ e.clock.check
  roll : e.clock.check ≤ e.clock.roll

def start (basename : List Char) (rollSize flushInterval checkEveryM now : Int) : Daily :=
  let log := construct timebuf basename rollSize flushInterval checkEveryM now
  ⟨log, now, ⟨log.startOfPeriod, []⟩, []⟩

def LagBounded (s : Daily) : Prop := ∀ f ∈ s.earlier ++ [s.current], (f.late : Int) ≤ s.log.checkEveryM

variable {timebuf}

theorem append_written {s t : LogFile} {f : AppendFile} {e : Append} (hf : s.file = some f)
    (h : appended timebuf s e = some t) : ∃ g, Written timebuf g.writtenBytes e.clock (s.withFile g) t := by
  simp only [appended, LogFile.append, hf, Option.map_eq_some_iff] at h
  obtain ⟨g, _, rfl⟩ := h
  exact ⟨g, afterWrite_written timebuf g.writtenBytes e.clock (s.withFile g)⟩

theorem period_mono {t u : Int} (h : t ≤ u) : period t ≤ period u := by
  apply Int.mul_le_mul_of_nonneg_right
  · exact Int.tdiv_le_tdiv (by decide) h
  · decide

theorem late_add (f : History) (time : Int) :
    (f.add time).late = f.late + if f.startOfPeriod < period time then 1 else 0 := by
  have hadd : (f.add time).late = (f.times ++ [time]).countP (fun time => f.startOfPeriod < period time) := rfl
  rw [hadd, List.countP_append, List.countP_singleton]
  simp [History.late]

structure Inv (checkEveryM : Int) (s : Daily) : Prop where
  opened : s.log.file.isSome
  every : s.log.checkEveryM = checkEveryM
  day : s.current.startOfPeriod = s.log.startOfPeriod
  lastRoll : s.log.startOfPeriod = period s.log.lastRoll
  count : 0 ≤ s.log.count ∧ s.log.count < checkEveryM
  late : (s.current.late : Int) ≤ s.log.count
  behind : 0 < s.current.late → s.log.startOfPeriod < period s.now
  earlier : ∀ f ∈ s.earlier, (f.late : Int) ≤ checkEveryM

theorem Inv.behind_add {checkEveryM : Int} {s : Daily} (h : Inv checkEveryM s) {time : Int} (ht : s.now ≤ time)
    (hpos : 0 < (s.current.add time).late) : s.log.startOfPeriod < period time := by
  rw [late_add, h.day] at hpos
  by_cases hlate : s.log.startOfPeriod < period time
  · exact hlate
  · rw [if_neg hlate, Nat.add_zero] at hpos
    exact (h.behind hpos).trans_le (period_mono ht)

theorem Inv.late_add_le {checkEveryM : Int} {s : Daily} (h : Inv checkEveryM s) (time : Int) :
    ((s.current.add time).late : Int) ≤ s.log.count + 1 := by
  have hle := h.late
  rw [late_add]
  split <;> omega

theorem Inv.none_late {checkEveryM : Int} {s : Daily} (h : Inv checkEveryM s) {time : Int} (ht : s.now ≤ time)
    (hday : period time ≤ s.log.startOfPeriod) : (s.current.add time).late = 0 := by
  by_contra hne
  exact absurd (h.behind_add ht (Nat.pos_of_ne_zero hne)) (Int.not_lt.mpr hday)

theorem kept_count {s : LogFile} {count checkEveryM : Int} (hc : count = s.count ∨ count = 0)
    (h : 0 ≤ s.count ∧ s.count < checkEveryM) : 0 ≤ count ∧ count < checkEveryM := by
  rcases hc with rfl | rfl
  · exact h
  · omega

theorem next_of_rolled {s : Daily} {e : Append} {t : LogFile} (h : appended timebuf s.log e = some t)
    (hr : Rolled s.log t) : next timebuf s e =
      ⟨t, e.clock.roll, ⟨t.startOfPeriod, []⟩, s.earlier ++ [s.current.add e.time]⟩ := by
  simp only [next, h, hr, if_true]

theorem next_of_same {s : Daily} {e : Append} {t : LogFile} (h : appended timebuf s.log e = some t)
    (hr : t.closed = s.log.closed) : next timebuf s e = ⟨t, e.clock.roll, s.current.add e.time, s.earlier⟩ := by
  have hno : ¬ Rolled s.log t := by simp [Rolled, hr]
  simp only [next, h, hno, if_false]

theorem Inv.same {checkEveryM : Int} {s : Daily} (h : Inv checkEveryM s) {e : Append} (he : Enabled timebuf s e)
    {g : AppendFile} {count lastFlush : Int} (hc : 0 ≤ count ∧ count < checkEveryM)
    (hlate : ((s.current.add e.time).late : Int) ≤ count) :
    Inv checkEveryM ⟨{ s.log.withFile g with count, lastFlush }, e.clock.roll, s.current.add e.time, s.earlier⟩ := by
  constructor
  case opened => rfl
  case every => exact h.every
  case day => exact h.day
  case lastRoll => exact h.lastRoll
  case count => exact hc
  case late => exact hlate
  case behind =>
    intro hpos
    exact (h.behind_add he.time hpos).trans_le (period_mono (he.check.trans he.roll))
  case earlier => exact h.earlier

theorem Inv.rolled {checkEveryM : Int} {s : Daily} (h : Inv checkEveryM s) (time : Int) {t : LogFile} {now : Int}
    (hopened : t.file.isSome) (hevery : t.checkEveryM = checkEveryM) (hday : t.startOfPeriod = period t.lastRoll)
    (hc : 0 ≤ t.count ∧ t.count < checkEveryM) :
    Inv checkEveryM ⟨t, now, ⟨t.startOfPeriod, []⟩, s.earlier ++ [s.current.add time]⟩ := by
  constructor
  case opened => exact hopened
  case every => exact hevery
  case day => rfl
  case lastRoll => exact hday
  case count => exact hc
  case late => exact hc.1
  case behind => exact fun hpos => absurd hpos (lt_irrefl 0)
  case earlier =>
    intro f hf
    rcases List.mem_append.mp hf with hf | hf
    · exact h.earlier f hf
    · have hle := h.late_add_le time
      have hcount := h.count
      rw [List.mem_singleton.mp hf]
      omega

theorem step_inv {checkEveryM : Int} (s : Daily) (e : Append) (h : Inv checkEveryM s) (he : Enabled timebuf s e) :
    Inv checkEveryM (next timebuf s e) := by
  obtain ⟨t, ht⟩ := Option.isSome_iff_exists.mp he.returns
  obtain ⟨f, hf⟩ := Option.isSome_iff_exists.mp h.opened
  obtain ⟨g, hw⟩ := append_written hf ht
  have hcount := h.count
  have hevery := h.every
  cases hw with
  | rolled count _ hc hlater =>
      have heq := rollFile_eq timebuf (s := { s.log.withFile g with count }) hlater
      have hr : Rolled s.log (rollFile timebuf e.clock.roll { s.log.withFile g with count }).2 := by
        rw [heq]
        simp [Rolled, files, withFile]
      rw [next_of_rolled ht hr]
      apply h.rolled e.time
      · rw [heq]
        rfl
      · rw [heq]
        exact hevery
      · rw [heq]
      · rw [heq]
        exact kept_count hc hcount
  | refused count _ hc hearly =>
      have hday : period e.time ≤ s.log.startOfPeriod := by
        rw [h.lastRoll]
        exact period_mono ((he.check.trans he.roll).trans (Int.not_lt.mp hearly))
      have hzero := h.none_late he.time hday
      rw [next_of_same ht rfl]
      have hkept := kept_count hc hcount
      exact h.same he hkept (by omega)
  | counted _ hlt =>
      rw [next_of_same ht rfl]
      exact h.same he ⟨Int.le_add_one hcount.1, hevery ▸ hlt⟩ (h.late_add_le e.time)
  | checked lastFlush _ hperiod =>
      have hday : period e.time ≤ s.log.startOfPeriod := hperiod ▸ period_mono he.check
      have hzero := h.none_late he.time hday
      rw [next_of_same ht rfl]
      exact h.same he (by omega) (by omega)

theorem start_inv (timebuf : Int → List Char) (basename : List Char) (rollSize flushInterval : Int)
    {checkEveryM now : Int} (hevery : 1 ≤ checkEveryM) (hnow : 0 < now) :
    Inv checkEveryM (start timebuf basename rollSize flushInterval checkEveryM now) := by
  have heq := rollFile_eq timebuf
    (s := ⟨basename, rollSize, flushInterval, checkEveryM, 0, 0, 0, 0, none, [], false⟩) hnow
  simp only [start, construct, heq]
  constructor
  case opened => rfl
  case every => rfl
  case day => rfl
  case lastRoll => rfl
  case count => exact ⟨le_rfl, hevery⟩
  case late => exact le_rfl
  case behind => exact fun hpos => absurd hpos (lt_irrefl 0)
  case earlier => exact fun f hf => absurd hf List.not_mem_nil

theorem lagBounded_of_inv {checkEveryM : Int} (s : Daily) (h : Inv checkEveryM s) : LagBounded s := by
  intro f hf
  rw [h.every]
  rcases List.mem_append.mp hf with hf | hf
  · exact h.earlier f hf
  · rw [List.mem_singleton.mp hf]
    exact h.late.trans h.count.2.le

theorem lag_bounded (timebuf : Int → List Char) (basename : List Char)
    (rollSize flushInterval checkEveryM now : Int) (hevery : 1 ≤ checkEveryM) (hnow : 0 < now) (es : List Append)
    (h : Meets (next timebuf) (Enabled timebuf) (start timebuf basename rollSize flushInterval checkEveryM now) es) :
    Always (next timebuf) LagBounded (start timebuf basename rollSize flushInterval checkEveryM now) es :=
  always_mono lagBounded_of_inv
    (always_of_step step_inv (start_inv timebuf basename rollSize flushInterval hevery hnow) h)

def overMidnight : List Append :=
  [⟨⟨[1], by decide⟩, 1, fun _ => ⟨1, false⟩, 86401, ⟨86401, 86401⟩⟩,
    ⟨⟨[2], by decide⟩, 1, fun _ => ⟨1, false⟩, 86402, ⟨86402, 86403⟩⟩,
    ⟨⟨[3], by decide⟩, 1, fun _ => ⟨1, false⟩, 86404, ⟨86404, 86404⟩⟩]

theorem lag_bounded_over_midnight :
    Meets (next stamp) (Enabled stamp) (start stamp "log".toList 5 3 2 100) overMidnight ∧
      Always (next stamp) LagBounded (start stamp "log".toList 5 3 2 100) overMidnight := by
  have h : Meets (next stamp) (Enabled stamp) (start stamp "log".toList 5 3 2 100) overMidnight := by
    refine ⟨⟨?_, ?_, ?_, ?_⟩, ⟨?_, ?_, ?_, ?_⟩, ⟨?_, ?_, ?_, ?_⟩, trivial⟩ <;> decide +kernel
  exact ⟨h, lag_bounded stamp "log".toList 5 3 2 100 (by decide) (by decide) overMidnight h⟩

end Webserver.DailyRolling
