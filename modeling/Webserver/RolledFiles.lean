import Mathlib.Data.List.Nodup
import Webserver.LogRolling

namespace Webserver.RolledFiles

open LogFile LogRolling

variable {timebuf : Int → List Char}

structure Append where
  line : Line
  io : Nat → Fwrite
  clock : Clock

def appendAll (timebuf : Int → List Char) (fuel : Nat) (s : LogFile) (es : List Append) : Option LogFile :=
  es.foldlM (fun s e => s.append timebuf fuel e.line e.io e.clock) s

/-- The files hold these lines, each one whole and in one file, the last file being the open one. -/
def Holds (s : LogFile) (lines : List (List Byte)) : Prop :=
  ∃ groups : List (List (List Byte)), groups.flatten = lines ∧
    s.files.map AppendFile.contents = groups.map List.flatten

def Dated (timebuf : Int → List Char) (s : LogFile) : Prop :=
  ∃ seconds : List Int, seconds.Pairwise (· < ·) ∧ (∀ now ∈ seconds, now ≤ s.lastRoll) ∧
    s.files.map AppendFile.filename = seconds.map (getLogFileName timebuf s.basename)

structure Inv (timebuf : Int → List Char) (lines : List (List Byte)) (s : LogFile) : Prop where
  opened : s.file.isSome
  sound : s.fault = false
  holds : Holds s lines
  dated : Dated timebuf s

theorem Holds.took {s : LogFile} {f : AppendFile} (hf : s.file = some f) {lines : List (List Byte)}
    (h : Holds s lines) (line : List Byte) : Holds (s.withFile (f.took line)) (lines ++ [line]) := by
  obtain ⟨groups, hlines, hfiles⟩ := h
  rw [files, hf, Option.toList_some, List.map_append, List.map_singleton] at hfiles
  obtain ⟨front, last, rfl⟩ : ∃ front last, groups = front ++ [last] := by
    have hne : groups ≠ [] := by
      rintro rfl
      simp at hfiles
    exact ⟨groups.dropLast, groups.getLast hne, (List.dropLast_append_getLast hne).symm⟩
  rw [List.map_append, List.map_singleton] at hfiles
  obtain ⟨hfront, hlast⟩ := List.append_inj' hfiles rfl
  refine ⟨front ++ [last ++ [line]], ?_, ?_⟩
  · simp [← hlines]
  · simp only [files, withFile, Option.toList_some, List.map_append, List.map_singleton, hfront, List.flatten_append,
      List.flatten_singleton, AppendFile.took]
    rw [List.singleton_inj.mp hlast]

theorem Dated.took {s : LogFile} {f : AppendFile} (hf : s.file = some f) (h : Dated timebuf s) (line : List Byte) :
    Dated timebuf (s.withFile (f.took line)) := by
  obtain ⟨seconds, hsorted, hle, hnames⟩ := h
  refine ⟨seconds, hsorted, hle, ?_⟩
  rw [files, hf, List.map_append] at hnames
  rw [files, List.map_append]
  exact hnames

theorem Inv.stays {s t : LogFile} {lines : List (List Byte)} (h : Inv timebuf lines s) (hs : Stays s t) :
    Inv timebuf lines t := by
  have hfiles : t.files = s.files := by rw [files, files, hs.closed, hs.file]
  refine ⟨hs.file ▸ h.opened, hs.fault.trans h.sound, ?_, ?_⟩
  · obtain ⟨groups, hlines, hcontents⟩ := h.holds
    exact ⟨groups, hlines, hfiles ▸ hcontents⟩
  · obtain ⟨seconds, hsorted, hle, hnames⟩ := h.dated
    refine ⟨seconds, hsorted, fun now hnow => hs.lastRoll ▸ hle now hnow, ?_⟩
    rw [hfiles, hs.basename, hnames]

theorem Inv.rolls {s t : LogFile} {lines : List (List Byte)} {now : Int} (h : Inv timebuf lines s)
    (hr : Rolls timebuf now s t) : Inv timebuf lines t := by
  have hfiles : t.files = s.files ++ [.construct (getLogFileName timebuf s.basename now)] := by
    rw [files, hr.closed, hr.file, Option.toList_some]
  refine ⟨by simp [hr.file], hr.fault.trans h.sound, ?_, ?_⟩
  · obtain ⟨groups, hlines, hcontents⟩ := h.holds
    refine ⟨groups ++ [[]], by simp [hlines], ?_⟩
    rw [hfiles, List.map_append, hcontents, List.map_append]
    rfl
  · obtain ⟨seconds, hsorted, hle, hnames⟩ := h.dated
    have hlt : ∀ second ∈ seconds, second < now := fun second hsecond => (hle second hsecond).trans_lt hr.later
    refine ⟨seconds ++ [now], ?_, ?_, ?_⟩
    · refine List.pairwise_append.mpr ⟨hsorted, List.pairwise_singleton _ _, ?_⟩
      simpa using hlt
    · intro second hsecond
      rw [hr.lastRoll]
      rcases List.mem_append.mp hsecond with hold | hnew
      · exact (hlt second hold).le
      · exact (List.mem_singleton.mp hnew).le
    · rw [hfiles, List.map_append, hnames, List.map_append, hr.basename]
      rfl

theorem append_inv {s : LogFile} {lines : List (List Byte)} (h : Inv timebuf lines s) {e : Append}
    (hio : ∀ k, 1 ≤ (e.io k).count ∧ (e.io k).err = false) {fuel : Nat} (hfuel : e.line.bytes.length ≤ fuel) :
    ∃ t, s.append timebuf fuel e.line e.io e.clock = some t ∧ Inv timebuf (lines ++ [e.line.bytes]) t := by
  obtain ⟨f, hf⟩ := Option.isSome_iff_exists.mp h.opened
  refine ⟨_, append_progress timebuf hio hfuel e.clock hf, ?_⟩
  have hk : Inv timebuf (lines ++ [e.line.bytes]) (s.withFile (f.took e.line.bytes)) :=
    ⟨rfl, h.sound, h.holds.took hf _, h.dated.took hf _⟩
  by_cases hw : WantsRoll e.line.bytes.length e.clock (s.withFile (f.took e.line.bytes)) ∧
      (s.withFile (f.took e.line.bytes)).lastRoll < e.clock.roll
  · exact hk.rolls (afterWrite_rolls timebuf hw.1 hw.2)
  · exact hk.stays (afterWrite_stays timebuf hw)

theorem appendAll_inv {fuel : Nat} {es : List Append}
    (hio : ∀ e ∈ es, ∀ k, 1 ≤ (e.io k).count ∧ (e.io k).err = false)
    (hfuel : ∀ e ∈ es, e.line.bytes.length ≤ fuel) {s : LogFile} {lines : List (List Byte)}
    (h : Inv timebuf lines s) :
    ∃ t, appendAll timebuf fuel s es = some t ∧ Inv timebuf (lines ++ es.map (·.line.bytes)) t := by
  induction es generalizing s lines with
  | nil => exact ⟨s, rfl, by simpa using h⟩
  | cons e es ih =>
      obtain ⟨t, ht, hinv⟩ := append_inv h (hio e (by simp)) (hfuel e (by simp))
      obtain ⟨u, hu, hend⟩ := ih (fun d hd => hio d (by simp [hd])) (fun d hd => hfuel d (by simp [hd])) hinv
      refine ⟨u, ?_, by simpa using hend⟩
      rw [appendAll, List.foldlM_cons, ht]
      exact hu

theorem construct_inv (timebuf : Int → List Char) (basename : List Char)
    (rollSize flushInterval checkEveryM : Int) {now : Int} (hnow : 0 < now) :
    Inv timebuf [] (construct timebuf basename rollSize flushInterval checkEveryM now) := by
  unfold construct rollFile
  rw [if_pos hnow]
  refine ⟨rfl, rfl, ⟨[[]], rfl, rfl⟩, [now], List.pairwise_singleton _ _, ?_, rfl⟩
  intro second hsecond
  exact (List.mem_singleton.mp hsecond).le

theorem nodup_of_dated (htime : Function.Injective timebuf) {s : LogFile} (h : Dated timebuf s) :
    (s.files.map AppendFile.filename).Nodup := by
  obtain ⟨seconds, hsorted, _, hnames⟩ := h
  rw [hnames]
  exact List.Nodup.map (getLogFileName_injective timebuf htime s.basename) (hsorted.imp ne_of_lt)

theorem lines_kept_across_rolls (timebuf : Int → List Char) (htime : Function.Injective timebuf)
    (basename : List Char) (rollSize flushInterval checkEveryM now : Int) (hnow : 0 < now) (es : List Append)
    (hio : ∀ e ∈ es, ∀ k, 1 ≤ (e.io k).count ∧ (e.io k).err = false) (fuel : Nat)
    (hfuel : ∀ e ∈ es, e.line.bytes.length ≤ fuel) :
    ∃ t, appendAll timebuf fuel (construct timebuf basename rollSize flushInterval checkEveryM now) es = some t ∧
      t.fault = false ∧ Holds t (es.map (·.line.bytes)) ∧
      (t.files.map AppendFile.contents).flatten = (es.map (·.line.bytes)).flatten ∧
      (t.files.map AppendFile.filename).Nodup := by
  obtain ⟨t, ht, h⟩ := appendAll_inv hio hfuel (construct_inv timebuf basename rollSize flushInterval checkEveryM hnow)
  refine ⟨t, ht, h.sound, h.holds, ?_, nodup_of_dated htime h.dated⟩
  obtain ⟨groups, hlines, hcontents⟩ := h.holds
  rw [hcontents, ← List.flatten_flatten, hlines, List.nil_append]

theorem stamp_injective : Function.Injective stamp := by
  intro a b he
  unfold stamp at he
  split_ifs at he <;> first
    | omega
    | (have hd := ConnectionNames.decimal_injective (List.cons.inj he).2; omega)
    | (exfalso; revert he; simp)

/-- Two lines written byte by byte, the first of them longer than rollSize_, on a clock that steps back. -/
theorem lines_kept_across_short_writes :
    ∃ t, appendAll stamp 4 (construct stamp "log".toList 3 3 1024 100)
        [⟨⟨[1, 2, 3, 4], by decide⟩, fun _ => ⟨1, false⟩, ⟨101, 101⟩⟩,
          ⟨⟨[5, 6], by decide⟩, fun _ => ⟨1, false⟩, ⟨99, 99⟩⟩] = some t ∧
      t.fault = false ∧ Holds t [[1, 2, 3, 4], [5, 6]] ∧
      (t.files.map AppendFile.contents).flatten = [1, 2, 3, 4, 5, 6] ∧
      (t.files.map AppendFile.filename).Nodup :=
  lines_kept_across_rolls stamp stamp_injective "log".toList 3 3 1024 100 (by decide)
    [⟨⟨[1, 2, 3, 4], by decide⟩, fun _ => ⟨1, false⟩, ⟨101, 101⟩⟩,
      ⟨⟨[5, 6], by decide⟩, fun _ => ⟨1, false⟩, ⟨99, 99⟩⟩]
    (by simp) 4 (by simp)

end Webserver.RolledFiles
