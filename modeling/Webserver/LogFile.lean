import Mathlib.Algebra.Ring.Int.Defs
import Mathlib.Algebra.Ring.Nat
import Mathlib.Order.Lattice
import Webserver.Buffer

namespace Webserver

/-- A log line, short enough for its length to pass through an int. -/
structure Line where
  bytes : List Byte
  short : bytes.length < 2 ^ 31

/-- What a call of fwrite_unlocked returns and what ferror says after it. A
count above what was asked for stands for all of it. -/
structure Fwrite where
  count : Nat
  err : Bool

/-- An open file, by the bytes that fwrite has taken since it was opened. They
are on disk after a flush, and all of them once it is closed. -/
structure AppendFile where
  filename : List Char
  contents : List Byte
  writtenBytes : Int
deriving DecidableEq

namespace AppendFile

def construct (filename : List Char) : AppendFile := ⟨filename, [], 0⟩

/-- The loop of append from its k-th write on, as far as fuel rounds lead. None
says that it is still in the loop; otherwise this is what written has become. -/
def appendLoop (logline : List Byte) (io : Nat → Fwrite) :
    (fuel k written : Nat) → List Byte → Option (Nat × List Byte)
  | 0, _, written, contents => if written = logline.length then some (written, contents) else none
  | fuel + 1, k, written, contents =>
      if written = logline.length then some (written, contents)
      else
        let remain := logline.length - written
        let n := min (io k).count remain
        let contents := contents ++ (logline.drop written).take n
        if n ≠ remain ∧ (io k).err then some (written, contents)
        else appendLoop logline io fuel (k + 1) (written + n) contents

def append (fuel : Nat) (logline : List Byte) (io : Nat → Fwrite) (f : AppendFile) : Option AppendFile :=
  (appendLoop logline io fuel 0 0 f.contents).map
    (fun r => { f with contents := r.2, writtenBytes := r.1 })

def took (logline : List Byte) (f : AppendFile) : AppendFile :=
  { f with contents := f.contents ++ logline, writtenBytes := logline.length }

@[simp]
theorem length_took (logline : List Byte) (f : AppendFile) :
    (f.took logline).contents.length = f.contents.length + logline.length :=
  List.length_append

theorem appendLoop_progress {logline : List Byte} {io : Nat → Fwrite}
    (hio : ∀ k, 1 ≤ (io k).count ∧ (io k).err = false) (fuel k written : Nat) (contents : List Byte)
    (hw : written ≤ logline.length) (hfuel : logline.length - written ≤ fuel) :
    appendLoop logline io fuel k written contents = some (logline.length, contents ++ logline.drop written) := by
  induction fuel generalizing k written contents with
  | zero =>
      have he : written = logline.length := by omega
      simp [appendLoop, he]
  | succ fuel ih =>
      obtain ⟨hcount, herr⟩ := hio k
      by_cases he : written = logline.length
      · simp [appendLoop, he]
      · simp only [appendLoop, if_neg he, herr, Bool.false_eq_true, and_false, if_false]
        generalize hn : min (io k).count (logline.length - written) = n
        rw [ih (k + 1) (written + n) _ (by omega) (by omega), List.append_assoc, ← List.drop_drop,
          List.take_append_drop]

theorem append_progress {logline : List Byte} {io : Nat → Fwrite}
    (hio : ∀ k, 1 ≤ (io k).count ∧ (io k).err = false) {fuel : Nat} (hfuel : logline.length ≤ fuel)
    (f : AppendFile) : f.append fuel logline io = some (f.took logline) := by
  simp [append, took, appendLoop_progress hio fuel 0 0 f.contents (Nat.zero_le _) hfuel]

end AppendFile

/-- The readings of time(NULL) in one append: the one of the period check and
the one of getLogFileName, each if the code gets there. -/
structure Clock where
  check : Int
  roll : Int

/-- A LogFile. The file is null until the first roll that opens one, and fault
says that it was used while null; closed holds the files of the earlier rolls
in the order they were opened. -/
structure LogFile where
  basename : List Char
  rollSize : Int
  flushInterval : Int
  checkEveryM : Int
  count : Int
  startOfPeriod : Int
  lastRoll : Int
  lastFlush : Int
  file : Option AppendFile
  closed : List AppendFile
  fault : Bool
deriving DecidableEq

namespace LogFile

def kRollPerseconds : Int := 60 * 60 * 24

def period (now : Int) : Int := now.tdiv kRollPerseconds * kRollPerseconds

section

variable (timebuf : Int → List Char)

def getLogFileName (basename : List Char) (now : Int) : List Char := basename ++ timebuf now ++ ".log".toList

def rollFile (now : Int) (s : LogFile) : Bool × LogFile :=
  if s.lastRoll < now then
    (true, { s with
      lastRoll := now
      lastFlush := now
      startOfPeriod := period now
      closed := s.closed ++ s.file.toList
      file := some (.construct (getLogFileName timebuf s.basename now)) })
  else (false, s)

def construct (basename : List Char) (rollSize flushInterval checkEveryM now : Int) : LogFile :=
  (rollFile timebuf now ⟨basename, rollSize, flushInterval, checkEveryM, 0, 0, 0, 0, none, [], false⟩).2

def afterWrite (writtenBytes : Int) (clock : Clock) (s : LogFile) : LogFile :=
  if s.rollSize < writtenBytes then (rollFile timebuf clock.roll s).2
  else
    let s := { s with count := s.count + 1 }
    if s.checkEveryM ≤ s.count then
      let s := { s with count := 0 }
      if period clock.check ≠ s.startOfPeriod then (rollFile timebuf clock.roll s).2
      else if s.flushInterval < clock.check - s.lastFlush then { s with lastFlush := clock.check }
      else s
    else s

def append (fuel : Nat) (logline : Line) (io : Nat → Fwrite) (clock : Clock) (s : LogFile) : Option LogFile :=
  match s.file with
  | none => some { s with fault := true }
  | some f => (f.append fuel logline.bytes io).map
      (fun f => afterWrite timebuf f.writtenBytes clock { s with file := some f })

end

def withFile (f : AppendFile) (s : LogFile) : LogFile := { s with file := some f }

def files (s : LogFile) : List AppendFile := s.closed ++ s.file.toList

def WantsRoll (writtenBytes : Int) (clock : Clock) (s : LogFile) : Prop :=
  s.rollSize < writtenBytes ∨ s.checkEveryM ≤ s.count + 1 ∧ period clock.check ≠ s.startOfPeriod

instance (writtenBytes : Int) (clock : Clock) (s : LogFile) : Decidable (WantsRoll writtenBytes clock s) :=
  inferInstanceAs (Decidable (_ ∨ _))

structure Stays (s t : LogFile) : Prop where
  basename : t.basename = s.basename
  rollSize : t.rollSize = s.rollSize
  lastRoll : t.lastRoll = s.lastRoll
  file : t.file = s.file
  closed : t.closed = s.closed
  fault : t.fault = s.fault

structure Rolls (timebuf : Int → List Char) (now : Int) (s t : LogFile) : Prop where
  basename : t.basename = s.basename
  rollSize : t.rollSize = s.rollSize
  later : s.lastRoll < now
  lastRoll : t.lastRoll = now
  file : t.file = some (.construct (getLogFileName timebuf s.basename now))
  closed : t.closed = s.files
  fault : t.fault = s.fault

variable (timebuf : Int → List Char)

theorem rollFile_eq {now : Int} {s : LogFile} (h : s.lastRoll < now) : (rollFile timebuf now s).2 = { s with
    lastRoll := now
    lastFlush := now
    startOfPeriod := period now
    closed := s.files
    file := some (.construct (getLogFileName timebuf s.basename now)) } := by
  unfold rollFile
  rw [if_pos h]
  rfl

theorem rollFile_rolls {now : Int} {s : LogFile} (h : s.lastRoll < now) :
    Rolls timebuf now s (rollFile timebuf now s).2 := by
  rw [rollFile_eq timebuf h]
  exact ⟨rfl, rfl, h, rfl, rfl, rfl, rfl⟩

theorem rollFile_stays {now : Int} {s : LogFile} (h : ¬ s.lastRoll < now) : (rollFile timebuf now s).2 = s := by
  unfold rollFile
  rw [if_neg h]

inductive Written (writtenBytes : Int) (clock : Clock) (s : LogFile) : LogFile → Prop
  | rolled (count : Int) (hw : WantsRoll writtenBytes clock s) (hc : count = s.count ∨ count = 0)
      (hlater : s.lastRoll < clock.roll) : Written writtenBytes clock s (rollFile timebuf clock.roll { s with count }).2
  | refused (count : Int) (hw : WantsRoll writtenBytes clock s) (hc : count = s.count ∨ count = 0)
      (hearly : ¬ s.lastRoll < clock.roll) : Written writtenBytes clock s { s with count }
  | counted (hw : ¬ WantsRoll writtenBytes clock s) (hcount : s.count + 1 < s.checkEveryM) :
      Written writtenBytes clock s { s with count := s.count + 1 }
  | checked (lastFlush : Int) (hw : ¬ WantsRoll writtenBytes clock s) (hperiod : period clock.check = s.startOfPeriod) :
      Written writtenBytes clock s { s with count := 0, lastFlush }

theorem written_of_rollFile {writtenBytes : Int} {clock : Clock} {s : LogFile} {count : Int}
    (hw : WantsRoll writtenBytes clock s) (hc : count = s.count ∨ count = 0) :
    Written timebuf writtenBytes clock s (rollFile timebuf clock.roll { s with count }).2 := by
  by_cases hlater : s.lastRoll < clock.roll
  · exact .rolled count hw hc hlater
  · rw [rollFile_stays timebuf (s := { s with count }) hlater]
    exact .refused count hw hc hlater

theorem afterWrite_written (writtenBytes : Int) (clock : Clock) (s : LogFile) :
    Written timebuf writtenBytes clock s (afterWrite timebuf writtenBytes clock s) := by
  unfold afterWrite
  by_cases hsize : s.rollSize < writtenBytes
  · rw [if_pos hsize]
    exact written_of_rollFile timebuf (.inl hsize) (.inl rfl)
  · simp only [if_neg hsize]
    by_cases hcount : s.checkEveryM ≤ s.count + 1
    · rw [if_pos hcount]
      by_cases hperiod : period clock.check = s.startOfPeriod
      · have hw : ¬ WantsRoll writtenBytes clock s := by
          rintro (h | h)
          · exact hsize h
          · exact h.2 hperiod
        rw [if_neg (not_not.mpr hperiod)]
        split
        · exact .checked clock.check hw hperiod
        · exact .checked s.lastFlush hw hperiod
      · rw [if_pos hperiod]
        exact written_of_rollFile timebuf (.inr ⟨hcount, hperiod⟩) (.inr rfl)
    · have hw : ¬ WantsRoll writtenBytes clock s := by
        rintro (h | h)
        · exact hsize h
        · exact hcount h.1
      rw [if_neg hcount]
      exact .counted hw (Int.not_le.mp hcount)

theorem afterWrite_rolls {writtenBytes : Int} {clock : Clock} {s : LogFile} (hw : WantsRoll writtenBytes clock s)
    (hc : s.lastRoll < clock.roll) : Rolls timebuf clock.roll s (afterWrite timebuf writtenBytes clock s) := by
  have hwritten := afterWrite_written timebuf writtenBytes clock s
  generalize afterWrite timebuf writtenBytes clock s = t at hwritten ⊢
  cases hwritten with
  | rolled count =>
      obtain ⟨h1, h2, h3, h4, h5, h6, h7⟩ := rollFile_rolls timebuf (s := { s with count }) hc
      exact ⟨h1, h2, h3, h4, h5, h6, h7⟩
  | refused count _ _ hearly => exact absurd hc hearly
  | counted hno => exact absurd hw hno
  | checked lastFlush hno => exact absurd hw hno

theorem afterWrite_stays {writtenBytes : Int} {clock : Clock} {s : LogFile}
    (h : ¬ (WantsRoll writtenBytes clock s ∧ s.lastRoll < clock.roll)) :
    Stays s (afterWrite timebuf writtenBytes clock s) := by
  have hwritten := afterWrite_written timebuf writtenBytes clock s
  generalize afterWrite timebuf writtenBytes clock s = t at hwritten ⊢
  cases hwritten with
  | rolled count hw _ hlater => exact absurd ⟨hw, hlater⟩ h
  | refused | counted | checked => exact ⟨rfl, rfl, rfl, rfl, rfl, rfl⟩

theorem append_progress {io : Nat → Fwrite} (hio : ∀ k, 1 ≤ (io k).count ∧ (io k).err = false) {fuel : Nat}
    {logline : Line} (hfuel : logline.bytes.length ≤ fuel) (clock : Clock) {s : LogFile} {f : AppendFile}
    (hf : s.file = some f) : s.append timebuf fuel logline io clock =
      some (afterWrite timebuf logline.bytes.length clock (s.withFile (f.took logline.bytes))) := by
  simp only [LogFile.append, hf, AppendFile.append_progress hio hfuel, Option.map_some]
  rfl

theorem getLogFileName_injective (htime : Function.Injective timebuf) (basename : List Char) :
    Function.Injective (getLogFileName timebuf basename) := by
  intro now now' he
  exact htime (List.append_cancel_left (List.append_cancel_right he))

end LogFile

end Webserver
