import Webserver.Calendar
import Webserver.Numerals
import Webserver.RolledFiles

namespace Webserver.LogNames

open Runs LogFile Calendar Numerals
open RolledFiles (Append)

/-- strftime with the format of getLogFileName. A year has so few digits that timebuf never gets too small. -/
def strftime (tm : Tm) : List Char :=
  '>' :: (decimal tm.year ++ (fixed 2 (tm.mon + 1) ++ (fixed 2 tm.mday ++
    '-' :: (fixed 2 tm.hour ++ (fixed 2 tm.min ++ fixed 2 tm.sec)))))

def timebuf (now : Int) : List Char := strftime (gmtime now)

example : getLogFileName timebuf "server".toList 951782400 = "server>20000229-000000.log".toList := by decide

/-- An append whose loop is not through after fuel rounds has not come to the roll. -/
def next (fuel : Nat) (s : LogFile) (e : Append) : LogFile :=
  (s.append timebuf fuel e.line e.io e.clock).getD s

def Sorted (s : LogFile) : Prop := (s.files.map AppendFile.filename).Pairwise (· < ·)

def year10000 : Int := 253402300800

theorem year_bounds {t : Int} (h : 0 ≤ t) (hlt : t < year10000) :
    1970 ≤ (gmtime t).year ∧ (gmtime t).year < 10000 := by
  have hfirst : yearStart 1970 = 0 := by decide
  have hlast : yearStart 10000 = 2932897 := by decide
  unfold year10000 at hlt
  constructor
  · by_contra hearly
    have hday := yearOf_lt.mp (Int.not_le.mp hearly)
    rw [hfirst, secondsPerDay] at hday
    omega
  · apply yearOf_lt.mpr
    rw [hlast, secondsPerDay]
    omega

theorem decimal_eq_fixed {y : Int} (hle : 1970 ≤ y) (hlt : y < 10000) : decimal y = fixed 4 y.toNat := by
  obtain ⟨n, rfl⟩ := Int.eq_ofNat_of_zero_le (show 0 ≤ y by omega)
  exact toDigits_eq_fixed (w := 3) (by omega) (by omega)

theorem length_timebuf {t : Int} (h : 0 ≤ t) (hlt : t < year10000) : (timebuf t).length = 16 := by
  obtain ⟨hle, hlt'⟩ := year_bounds h hlt
  simp [timebuf, strftime, decimal_eq_fixed hle hlt']

theorem timebuf_lt {t u : Int} (h : 0 ≤ t) (htu : t < u) (hu : u < year10000) : timebuf t < timebuf u := by
  obtain ⟨ht, ht'⟩ := year_bounds h (htu.trans hu)
  obtain ⟨hu, hu'⟩ := year_bounds (h.trans htu.le) hu
  obtain ⟨hmon, ⟨_, hmday⟩, hhour, hmin, hsec⟩ := gmtime_ranged u
  obtain ⟨hyear, hbefore⟩ := gmtime_before htu
  rw [timebuf, timebuf, strftime, strftime, decimal_eq_fixed ht ht', decimal_eq_fixed hu hu']
  apply List.Lex.cons
  refine fixed_append_lt (by omega) (by omega) fun he => ?_
  obtain ⟨hle, hbefore⟩ := hbefore (by omega)
  refine fixed_append_lt (by omega) (by omega) fun he => ?_
  obtain ⟨hle, hbefore⟩ := hbefore (by omega)
  refine fixed_append_lt hle (by omega) fun he => ?_
  obtain ⟨hle, hbefore⟩ := hbefore he
  apply List.Lex.cons
  refine fixed_append_lt hle (by omega) fun he => ?_
  obtain ⟨hle, hbefore⟩ := hbefore he
  refine fixed_append_lt hle (by omega) fun he => ?_
  exact fixed_lt_fixed (hbefore he) (by omega)

theorem getLogFileName_lt (basename : List Char) {t u : Int} (h : 0 ≤ t) (htu : t < u) (hu : u < year10000) :
    getLogFileName timebuf basename t < getLogFileName timebuf basename u := by
  have hlen : (timebuf t).length = (timebuf u).length := by
    rw [length_timebuf h (htu.trans hu), length_timebuf (h.trans htu.le) hu]
  rw [getLogFileName, getLogFileName, List.append_assoc, List.append_assoc]
  exact List.append_left_lt (append_lt_append (timebuf_lt h htu hu) hlen _ _)

structure Inv (s : LogFile) : Prop where
  started : 0 ≤ s.lastRoll
  dated : ∃ seconds : List Int, seconds.Pairwise (· < ·) ∧
    (∀ now ∈ seconds, 0 < now ∧ now ≤ s.lastRoll ∧ now < year10000) ∧
    s.files.map AppendFile.filename = seconds.map (getLogFileName timebuf s.basename)

theorem Inv.sorted {s : LogFile} (h : Inv s) : Sorted s := by
  obtain ⟨seconds, hsorted, hbounds, hnames⟩ := h.dated
  rw [Sorted, hnames, List.pairwise_map]
  refine hsorted.imp_of_mem fun ht hu htu => ?_
  exact getLogFileName_lt s.basename (hbounds _ ht).1.le htu (hbounds _ hu).2.2

theorem Inv.stays {s t : LogFile} (h : Inv s) (hbase : t.basename = s.basename) (hroll : t.lastRoll = s.lastRoll)
    (hnames : t.files.map AppendFile.filename = s.files.map AppendFile.filename) : Inv t := by
  obtain ⟨seconds, hsorted, hbounds, hdated⟩ := h.dated
  refine ⟨hroll ▸ h.started, seconds, hsorted, ?_, ?_⟩
  · rw [hroll]
    exact hbounds
  · rw [hnames, hdated, hbase]

theorem Inv.rolls {s t : LogFile} {now : Int} (h : Inv s) (hr : Rolls timebuf now s t) (hnow : now < year10000) :
    Inv t := by
  obtain ⟨seconds, hsorted, hbounds, hnames⟩ := h.dated
  have hstarted := h.started
  have hlater := hr.later
  have hlt : ∀ second ∈ seconds, second < now := fun second hsecond => (hbounds second hsecond).2.1.trans_lt hlater
  refine ⟨by rw [hr.lastRoll]; omega, seconds ++ [now], ?_, ?_, ?_⟩
  · refine List.pairwise_append.mpr ⟨hsorted, List.pairwise_singleton _ _, ?_⟩
    simpa using hlt
  · intro second hsecond
    rw [hr.lastRoll]
    rcases List.mem_append.mp hsecond with hold | hnew
    · exact ⟨(hbounds second hold).1, (hlt second hold).le, (hbounds second hold).2.2⟩
    · rw [List.mem_singleton.mp hnew]
      exact ⟨by omega, Int.le_refl now, hnow⟩
  · rw [files, hr.closed, hr.file, Option.toList_some, List.map_append, hnames, List.map_append, hr.basename]
    rfl

theorem append_filename {fuel : Nat} {logline : List Byte} {io : Nat → Fwrite} {f g : AppendFile}
    (h : f.append fuel logline io = some g) : g.filename = f.filename := by
  rw [AppendFile.append, Option.map_eq_some_iff] at h
  obtain ⟨r, _, rfl⟩ := h
  rfl

theorem step_inv {fuel : Nat} (s : LogFile) (e : Append) (h : Inv s) (he : e.clock.roll < year10000) :
    Inv (next fuel s e) := by
  cases hf : s.file with
  | none =>
      have heq : next fuel s e = { s with fault := true } := by
        simp only [next, LogFile.append, hf, Option.getD_some]
      rw [heq]
      exact h.stays rfl rfl rfl
  | some f =>
      cases hg : f.append fuel e.line.bytes e.io with
      | none =>
          have heq : next fuel s e = s := by
            simp only [next, LogFile.append, hf, hg, Option.map_none, Option.getD_none]
          rw [heq]
          exact h
      | some g =>
          have heq : next fuel s e = afterWrite timebuf g.writtenBytes e.clock (s.withFile g) := by
            simp only [next, LogFile.append, hf, hg, Option.map_some, Option.getD_some]
            rfl
          have hwritten : Inv (s.withFile g) := by
            refine h.stays rfl rfl ?_
            simp [files, withFile, hf, append_filename hg]
          rw [heq]
          by_cases hw : WantsRoll g.writtenBytes e.clock (s.withFile g) ∧ (s.withFile g).lastRoll < e.clock.roll
          · exact hwritten.rolls (afterWrite_rolls timebuf hw.1 hw.2) he
          · have hstays := afterWrite_stays timebuf hw
            refine hwritten.stays hstays.basename hstays.lastRoll ?_
            rw [files, files, hstays.closed, hstays.file]

theorem construct_inv (basename : List Char) (rollSize flushInterval checkEveryM : Int) {now : Int}
    (hnow : now < year10000) : Inv (construct timebuf basename rollSize flushInterval checkEveryM now) := by
  have hnone : Inv ⟨basename, rollSize, flushInterval, checkEveryM, 0, 0, 0, 0, none, [], false⟩ :=
    ⟨Int.le_refl 0, [], List.Pairwise.nil, by simp, rfl⟩
  unfold construct
  by_cases hlater : 0 < now
  · exact hnone.rolls (rollFile_rolls timebuf hlater) hnow
  · rw [rollFile_stays timebuf hlater]
    exact hnone

/-- Whatever the clock does up to the year 10000, no file is opened a second
time, and the order of the names is that of the files. -/
theorem names_sorted (basename : List Char) (rollSize flushInterval checkEveryM now : Int) (hnow : now < year10000)
    (fuel : Nat) (es : List Append) (hes : ∀ e ∈ es, e.clock.roll < year10000) :
    Always (next fuel) Sorted (construct timebuf basename rollSize flushInterval checkEveryM now) es :=
  always_mono (fun _ h => h.sorted)
    (always_of_step step_inv (construct_inv basename rollSize flushInterval checkEveryM hnow)
      (meets_of_forall _ hes))

theorem names_sorted_new_year :
    Always (next 9) Sorted (construct timebuf "server".toList 2 3 1024 1230767998)
      [⟨⟨[1, 2, 3], by decide⟩, fun _ => ⟨9, false⟩, ⟨1230767999, 1230767999⟩⟩,
        ⟨⟨[4, 5, 6], by decide⟩, fun _ => ⟨9, false⟩, ⟨1230767990, 1230767990⟩⟩,
        ⟨⟨[7, 8, 9], by decide⟩, fun _ => ⟨9, false⟩, ⟨1230768000, 1230768000⟩⟩] :=
  names_sorted "server".toList 2 3 1024 1230767998 (by decide) 9 _ (by simp [year10000])

end Webserver.LogNames
