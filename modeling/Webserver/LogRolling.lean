import Webserver.ConnectionNames
import Webserver.LogFile
import Webserver.Runs

namespace Webserver.LogRolling

open Runs LogFile

variable (timebuf : Int → List Char)

/-- A LogFile whose writes store everything, with what the clock last read and
the bytes that the current file got in the second in which it was opened. -/
structure Rolling where
  log : LogFile
  now : Int
  early : Nat

structure Append where
  line : Line
  clock : Clock

def whole (line : Line) : Nat → Fwrite := fun _ => ⟨line.bytes.length + 1, false⟩

def written (e : Append) (f : AppendFile) : Option AppendFile :=
  f.append e.line.bytes.length e.line.bytes (whole e.line)

def appended (s : LogFile) (e : Append) : LogFile :=
  (s.append timebuf e.line.bytes.length e.line (whole e.line) e.clock).getD s

def Rolled (s t : LogFile) : Prop := t.closed.length = s.closed.length + 1

instance (s t : LogFile) : Decidable (Rolled s t) := inferInstanceAs (Decidable (_ = _))

def next (s : Rolling) (e : Append) : Rolling :=
  let t := appended timebuf s.log e
  ⟨t, e.clock.roll,
    if Rolled s.log t then 0
    else if e.clock.roll = s.log.lastRoll then s.early + e.line.bytes.length
    else s.early⟩

def Enabled (s : Rolling) (e : Append) : Prop := s.now ≤ e.clock.check ∧ e.clock.check ≤ e.clock.roll

def start (basename : List Char) (rollSize flushInterval checkEveryM now : Int) : Rolling :=
  ⟨construct timebuf basename rollSize flushInterval checkEveryM now, now, 0⟩

def RollsWhenDue (s : Rolling) (e : Append) : Prop :=
  ∀ f f', s.log.file = some f → written e f = some f' → s.log.rollSize < f'.contents.length →
    s.log.lastRoll < e.clock.roll → Rolled s.log (next timebuf s e).log

def SizeBounded (s : Rolling) (e : Append) : Prop :=
  ∀ f f', s.log.file = some f → written e f = some f' →
    (f'.contents.length : Int) ≤ max s.log.rollSize s.early + e.line.bytes.length

def Due (s : Rolling) (e : Append) : Prop :=
  ∃ f, s.log.file = some f ∧ s.log.rollSize < (f.contents.length + e.line.bytes.length : Nat) ∧
    s.log.lastRoll < e.clock.roll

/-- An append that takes the file past rollSize_ does so with this line alone,
or is one that looks at the period and finds a new one. -/
def Caught (s : Rolling) (e : Append) : Prop := Due s e → WantsRoll e.line.bytes.length e.clock s.log

variable {timebuf}

theorem whole_progress (line : Line) (k : Nat) : 1 ≤ (whole line k).count ∧ (whole line k).err = false :=
  ⟨Nat.le_add_left 1 _, rfl⟩

theorem written_eq (e : Append) (f : AppendFile) : written e f = some (f.took e.line.bytes) :=
  AppendFile.append_progress (whole_progress e.line) le_rfl f

theorem appended_eq {s : LogFile} {f : AppendFile} (hf : s.file = some f) (e : Append) :
    appended timebuf s e =
      afterWrite timebuf e.line.bytes.length e.clock (s.withFile (f.took e.line.bytes)) := by
  unfold appended
  rw [append_progress timebuf (whole_progress e.line) le_rfl e.clock hf]
  rfl

theorem Rolled.of_rolls {now : Int} {s t : LogFile} {f : AppendFile} (hf : s.file = some f)
    (h : Rolls timebuf now s t) : Rolled s t := by
  simp [Rolled, h.closed, files, hf]

theorem Stays.not_rolled {s t : LogFile} (h : Stays s t) : ¬ Rolled s t := by
  simp [Rolled, h.closed]

theorem rolled_iff {s : LogFile} {f : AppendFile} (hf : s.file = some f) (e : Append) :
    Rolled s (appended timebuf s e) ↔ WantsRoll e.line.bytes.length e.clock s ∧ s.lastRoll < e.clock.roll := by
  rw [appended_eq hf e]
  constructor
  · intro hr
    by_contra hn
    have hs := afterWrite_stays timebuf (s := s.withFile (f.took e.line.bytes)) hn
    exact Stays.not_rolled hs hr
  · rintro ⟨hw, hc⟩
    have hr := afterWrite_rolls timebuf (s := s.withFile (f.took e.line.bytes)) hw hc
    exact Rolled.of_rolls (s := s.withFile (f.took e.line.bytes)) rfl hr

theorem rollsWhenDue_iff_caught (s : Rolling) (e : Append) : RollsWhenDue timebuf s e ↔ Caught s e := by
  constructor
  · rintro h ⟨f, hf, hsize, hc⟩
    have hr := h f _ hf (written_eq e f) (by simpa using hsize) hc
    exact ((rolled_iff hf e).mp hr).1
  · intro h f f' hf hw hsize hc
    rw [written_eq, Option.some.injEq] at hw
    subst hw
    exact (rolled_iff hf e).mpr ⟨h ⟨f, hf, by simpa using hsize, hc⟩, hc⟩

structure Inv (s : Rolling) : Prop where
  clock : ∀ f, s.log.file = some f → s.log.lastRoll ≤ s.now
  first : ∀ f, s.log.file = some f → s.now = s.log.lastRoll → f.contents.length = s.early
  size : ∀ f, s.log.file = some f → (f.contents.length : Int) ≤ max s.log.rollSize s.early

theorem inv_of_rolls {s t : LogFile} {now : Int} (h : Rolls timebuf now s t) : Inv ⟨t, now, 0⟩ := by
  constructor
  · intro f _
    exact h.lastRoll.le
  · intro f hf _
    rw [h.file, Option.some.injEq] at hf
    simp [← hf, AppendFile.construct]
  · intro f hf
    rw [h.file, Option.some.injEq] at hf
    simp [← hf, AppendFile.construct]

theorem inv_of_stays {s : Rolling} {t : LogFile} {e : Append} {f : AppendFile} (h : Inv s) (hf : s.log.file = some f)
    (hnow : s.now ≤ e.clock.roll) (hs : Stays (s.log.withFile (f.took e.line.bytes)) t)
    (hsmall : s.log.lastRoll < e.clock.roll →
      ((f.contents.length + e.line.bytes.length : Nat) : Int) ≤ s.log.rollSize) :
    Inv ⟨t, e.clock.roll, if e.clock.roll = s.log.lastRoll then s.early + e.line.bytes.length else s.early⟩ := by
  have hclock := h.clock f hf
  have hlast : t.lastRoll = s.log.lastRoll := hs.lastRoll
  have hfile : t.file = some (f.took e.line.bytes) := hs.file
  have hlimit : t.rollSize = s.log.rollSize := hs.rollSize
  constructor
  · intro g _
    simp only [hlast]
    omega
  · intro g hg he
    simp only [hlast] at he
    simp only [hfile, Option.some.injEq] at hg
    subst hg
    simp only [he, if_true, AppendFile.length_took, h.first f hf (by omega)]
  · intro g hg
    simp only [hfile, Option.some.injEq] at hg
    subst hg
    simp only [hlimit, AppendFile.length_took]
    by_cases hc : e.clock.roll = s.log.lastRoll
    · rw [if_pos hc, h.first f hf (by omega)]
      exact le_max_right _ _
    · exact (hsmall (by omega)).trans (le_max_left _ _)

theorem start_inv (basename : List Char) (rollSize flushInterval checkEveryM now : Int) :
    Inv (start timebuf basename rollSize flushInterval checkEveryM now) := by
  unfold start construct
  by_cases hnow : 0 < now
  · exact inv_of_rolls (rollFile_rolls timebuf hnow)
  · rw [rollFile_stays timebuf hnow]
    exact ⟨by simp, by simp, by simp⟩

theorem step_inv (s : Rolling) (e : Append) (h : Inv s) (he : Enabled s e ∧ Caught s e) : Inv (next timebuf s e) := by
  obtain ⟨⟨hcheck, hroll⟩, hcaught⟩ := he
  cases hf : s.log.file with
  | none =>
      have hnone : (next timebuf s e).log.file = none := by simp [next, appended, LogFile.append, hf]
      exact ⟨by simp [hnone], by simp [hnone], by simp [hnone]⟩
  | some f =>
      by_cases hr : WantsRoll e.line.bytes.length e.clock s.log ∧ s.log.lastRoll < e.clock.roll
      · have hn : next timebuf s e = ⟨appended timebuf s.log e, e.clock.roll, 0⟩ := by
          simp only [next, (rolled_iff hf e).mpr hr, if_true]
        rw [hn, appended_eq hf e]
        exact inv_of_rolls (afterWrite_rolls timebuf (s := s.log.withFile _) hr.1 hr.2)
      · have hn : next timebuf s e = ⟨appended timebuf s.log e, e.clock.roll,
            if e.clock.roll = s.log.lastRoll then s.early + e.line.bytes.length else s.early⟩ := by
          simp only [next, (rolled_iff hf e).not.mpr hr, if_false]
        rw [hn, appended_eq hf e]
        apply inv_of_stays h hf (hcheck.trans hroll) (afterWrite_stays timebuf (s := s.log.withFile _) hr)
        intro hc
        by_contra hbig
        exact hr ⟨hcaught ⟨f, hf, Int.lt_of_not_ge hbig, hc⟩, hc⟩

theorem sizeBounded (s : Rolling) (e : Append) (h : Inv s) : SizeBounded s e := by
  intro f f' hf hw
  rw [written_eq, Option.some.injEq] at hw
  subst hw
  have hsize := h.size f hf
  rw [AppendFile.length_took]
  omega

theorem rolls_when_due_iff_caught (timebuf : Int → List Char) (basename : List Char)
    (rollSize flushInterval checkEveryM now : Int) (es : List Append)
    (hes : Meets (next timebuf) Enabled (start timebuf basename rollSize flushInterval checkEveryM now) es) :
    Meets (next timebuf) (fun s e => RollsWhenDue timebuf s e ∧ SizeBounded s e)
        (start timebuf basename rollSize flushInterval checkEveryM now) es ↔
      Meets (next timebuf) Caught (start timebuf basename rollSize flushInterval checkEveryM now) es := by
  constructor
  · intro h
    exact meets_mono (fun s e hd => (rollsWhenDue_iff_caught s e).mp hd.1) h
  · intro h
    refine meets_of_step step_inv (fun s e hi hd => ?_) (start_inv _ _ _ _ _)
      (meets_and.mpr ⟨hes, h⟩)
    exact ⟨(rollsWhenDue_iff_caught s e).mpr hd.2, sizeBounded s e hi⟩

def stamp (now : Int) : List Char :=
  if now = 100 then ">19700101-000140".toList
  else if now = 101 then ">19700101-000141".toList
  else if 0 ≤ now then '+' :: decimal now.natAbs
  else '-' :: decimal now.natAbs

theorem rolls_when_due_long_line :
    Meets (next stamp) (fun s e => RollsWhenDue stamp s e ∧ SizeBounded s e) (start stamp "log".toList 5 3 1024 100)
      [⟨⟨[1, 2, 3, 4, 5, 6], by decide⟩, ⟨101, 101⟩⟩, ⟨⟨[7], by decide⟩, ⟨101, 101⟩⟩] :=
  (rolls_when_due_iff_caught stamp "log".toList 5 3 1024 100
    [⟨⟨[1, 2, 3, 4, 5, 6], by decide⟩, ⟨101, 101⟩⟩, ⟨⟨[7], by decide⟩, ⟨101, 101⟩⟩]
    ⟨⟨by decide, by decide⟩, ⟨by decide, by decide⟩, trivial⟩).mpr
    ⟨fun _ => by decide, fun ⟨_, _, _, hlater⟩ => absurd hlater (by decide), trivial⟩

/-- Two lines of three bytes in a file that should hold five: writtenBytes_ is
the length of the last line, not the sum. -/
theorem two_short_lines_do_not_roll :
    ¬ ∀ (basename : List Char) (rollSize flushInterval checkEveryM now : Int) (es : List Append),
      Meets (next stamp) Enabled (start stamp basename rollSize flushInterval checkEveryM now) es →
      Meets (next stamp) (fun s e => RollsWhenDue stamp s e ∧ SizeBounded s e)
        (start stamp basename rollSize flushInterval checkEveryM now) es := by
  intro hall
  have h := hall "log".toList 5 3 1024 100
    [⟨⟨[1, 2, 3], by decide⟩, ⟨101, 101⟩⟩, ⟨⟨[4, 5, 6], by decide⟩, ⟨102, 102⟩⟩]
    ⟨⟨by decide, by decide⟩, ⟨by decide, by decide⟩, trivial⟩
  have hcaught := (rollsWhenDue_iff_caught _ _).mp h.2.1.1
  have hwants := hcaught ⟨⟨"log>19700101-000140.log".toList, [1, 2, 3], 3⟩, rfl, by decide, by decide⟩
  exact absurd hwants (by decide)

end Webserver.LogRolling
