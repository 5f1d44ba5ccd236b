import Webserver.LogConservation
import Webserver.RolledFiles

namespace Webserver.LogPipeline

open Runs AsyncLogging LogBuffers LogConservation RolledFiles

def flushInterval : Int := 3

def checkEveryM : Int := 1024

/-- The logger with the LogFile of threadFunc, which is there from the start of
the thread on, and the number of bytes of the open file that have left the
buffer of its FILE. -/
structure Pipeline where
  history : Logged
  output : Option LogFile
  flushed : Nat

/-- A step of the thread comes with what fwrite_unlocked and time answer in it,
and with how far stdio writes out its buffer without being told to. -/
inductive Event
  | start (now : Int)
  | stop
  | append (logline : List Byte)
  | thread (io : Nat → Fwrite) (clock : Clock) (spill : Nat)

def lineOf (b : LargeBuffer) : Line := ⟨b.data, by have hfits := b.fits; unfold kLargeBuffer at hfits; omega⟩

def due (s : AsyncLogging) : Option LargeBuffer :=
  match s.point with
  | .writing i => s.buffersToWrite[i]?.join
  | _ => none

def flushes (s : AsyncLogging) : Bool :=
  match s.point with
  | .writing _ => true
  | .test => !s.running
  | _ => false

def openSize (o : LogFile) : Nat := o.file.elim 0 (·.contents.length)

namespace Pipeline

def construct : Pipeline := ⟨.construct, none, 0⟩

section

variable (timebuf : Int → List Char) (baseName : List Char) (rollSize : Int)

def write (b : LargeBuffer) (io : Nat → Fwrite) (clock : Clock) (spill : Nat) (o : LogFile) (p : Pipeline) :
    Pipeline :=
  match o.append timebuf b.data.length (lineOf b) io clock with
  | some o => ⟨p.history.next .thread, some o, min (max p.flushed spill) (openSize o)⟩
  | none => p

def flush (p : Pipeline) : Pipeline := { p with flushed := p.output.elim 0 openSize }

def thread (io : Nat → Fwrite) (clock : Clock) (spill : Nat) (p : Pipeline) : Pipeline :=
  match due p.history.log, p.output with
  | some b, some o => p.write timebuf b io clock spill o
  | _, _ =>
      let q := { p with history := p.history.next .thread }
      if flushes p.history.log then q.flush else q

def next (p : Pipeline) : Event → Pipeline
  | .start now =>
      ⟨p.history.next .start, some (.construct timebuf baseName rollSize flushInterval checkEveryM now), 0⟩
  | .stop => { p with history := p.history.next .stop }
  | .append logline => { p with history := p.history.next (.append logline) }
  | .thread io clock spill => p.thread timebuf io clock spill

end

/-- The clock is past the epoch when the thread starts, and fwrite_unlocked stores something whenever it is called. -/
def Enabled (p : Pipeline) : Event → Prop
  | .start now => p.history.Enabled .start ∧ 0 < now
  | .stop => p.history.Enabled .stop
  | .append logline => p.history.Enabled (.append logline)
  | .thread io _ _ => ∀ k, 1 ≤ (io k).count ∧ (io k).err = false

end Pipeline

def keptOf {α : Type} (point : LogPoint) (batches : List (List α)) : List α :=
  if point = .swapped then (batches.dropLast.map retained).flatten ++ batches.getLast?.toList.flatten
  else (batches.map retained).flatten

/-- Lines by the buffer they are in: in the batches that were swapped out, in
buffers_ and in currentBuffer_; and of the batches those buffers that have been
written and those that are still to be. -/
structure Layout where
  batches : List (List (List (List Byte)))
  full : List (List (List Byte))
  current : List (List Byte)
  written : List (List (List Byte))
  rest : List (List (List Byte))

structure Describes (l : Layout) (h : Logged) : Prop where
  batches : l.batches.map (·.map List.flatten) = h.batches
  full : l.full.map List.flatten = h.log.buffers.map bytes
  current : l.current.flatten = bytes h.log.currentBuffer
  lines : h.lines = l.batches.flatten.flatten ++ l.full.flatten ++ l.current
  rest : l.rest.map List.flatten = (unwritten h.log).map bytes
  kept : l.written ++ l.rest = keptOf h.log.point l.batches

structure Delivered (l : Layout) (p : Pipeline) : Prop extends Describes l p.history where
  files : ∀ o, p.output = some o → Holds o l.written.flatten
  sound : p.history.log.fault = false ∧ ∀ o, p.output = some o → o.fault = false

/-- What the operating system has been given of all files, in the order they were opened. -/
def onDisk (p : Pipeline) : List Byte :=
  p.output.elim [] fun o =>
    (o.closed.map AppendFile.contents).flatten ++ (o.file.elim [] AppendFile.contents).take p.flushed

structure Inv (timebuf : Int → List Char) (l : Layout) (p : Pipeline) : Prop where
  history : LogConservation.Inv p.history
  describes : Describes l p.history
  started : p.output = none → p.history.log.point = .notStarted
  files : ∀ o, p.output = some o → RolledFiles.Inv timebuf (l.written.map List.flatten) o
  fresh : p.history.log.point = .notStarted → l.batches = [] ∧ l.written = []
  flushed : p.history.log.point = .test ∨ p.history.log.point = .finished →
    p.flushed = p.output.elim 0 openSize

theorem exists_groups_of_map {α β : Type} (f : α → β) {groups : List (List β)} {xs : List α}
    (h : groups.flatten = xs.map f) : ∃ gs : List (List α), gs.flatten = xs ∧ gs.map (·.map f) = groups := by
  induction groups generalizing xs with
  | nil =>
      have hnil : xs = [] := by simpa using h.symm
      exact ⟨[], by simp [hnil], rfl⟩
  | cons g groups ih =>
      rw [List.flatten_cons] at h
      obtain ⟨ys, zs, rfl, hy, hz⟩ := List.map_eq_append_iff.mp h.symm
      obtain ⟨gs, hflat, hmap⟩ := ih hz.symm
      exact ⟨ys :: gs, by simp [hflat], by simp [hy, hmap]⟩

theorem holds_lines {o : LogFile} {buffers : List (List (List Byte))} (h : Holds o (buffers.map List.flatten)) :
    Holds o buffers.flatten := by
  obtain ⟨groups, hflat, hfiles⟩ := h
  obtain ⟨gs, hgs, hmap⟩ := exists_groups_of_map List.flatten hflat
  refine ⟨gs.map List.flatten, ?_, ?_⟩
  · rw [← List.flatten_flatten, hgs]
  · rw [hfiles, ← hmap, List.map_map, List.map_map]
    apply List.map_congr_left
    intro g _
    exact (List.flatten_flatten).symm

section Layouts

variable {h : Logged} {l : Layout}

theorem Describes.rest_eq_nil (hd : Describes l h) (hu : unwritten h.log = []) : l.rest = [] := by
  have hr := hd.rest
  rw [hu] at hr
  simpa using hr

theorem Describes.stays {t : Logged} (hd : Describes l h) (hbatches : t.batches = h.batches) (hlines : t.lines = h.lines)
    (hbuffers : t.log.buffers = h.log.buffers) (hcurrent : t.log.currentBuffer = h.log.currentBuffer)
    (hunwritten : (unwritten t.log).map bytes = (unwritten h.log).map bytes)
    (hp : h.log.point ≠ .swapped) (hq : t.log.point ≠ .swapped) : Describes l t := by
  refine ⟨hbatches ▸ hd.batches, hbuffers ▸ hd.full, hcurrent ▸ hd.current, hlines ▸ hd.lines, ?_, ?_⟩
  · rw [hunwritten]
    exact hd.rest
  · have hk := hd.kept
    rw [keptOf, if_neg hp] at hk
    rw [keptOf, if_neg hq]
    exact hk

theorem Describes.swaps (hi : LogConservation.Inv h) (hd : Describes l h) (ht : h.log.thread = h.log.swap)
    (hw : h.log.buffersToWrite = []) (hp : h.log.point ≠ .swapped) :
    Describes ⟨l.batches ++ [l.full ++ [l.current]], [], [], l.written, l.full ++ [l.current]⟩ (h.next .thread) := by
  obtain ⟨hpoint, _, hwrite, hbuf, hcur, _, _⟩ := swap_frame h.log hw
  have hn : h.next .thread =
      ⟨h.log.swap, h.lines, h.batches ++ [(h.log.buffers ++ [h.log.currentBuffer]).map bytes]⟩ := by
    simp only [Logged.next, ht, hpoint, if_true, hwrite]
  have hun : unwritten h.log = [] := by
    simp only [unwritten, hw]
    split <;> simp
  have hbytes : (l.full ++ [l.current]).map List.flatten = (h.log.buffers ++ [h.log.currentBuffer]).map bytes := by
    simp only [List.map_append, hd.full, List.map_singleton, hd.current]
  have hk := hd.kept
  rw [keptOf, if_neg hp, hd.rest_eq_nil hun, List.append_nil] at hk
  rw [hn]
  refine ⟨?_, by simp [hbuf], ?_, ?_, ?_, ?_⟩
  · rw [List.map_append, hd.batches, List.map_singleton, hbytes]
  · simp only [hcur, hi.spare.2.1, List.flatten_nil]
  · simp [hd.lines]
  · simp only [unwritten, hpoint, hwrite]
    exact hbytes
  · simp only [keptOf, hpoint, if_true, List.dropLast_concat, List.getLast?_concat, Option.toList_some,
      List.flatten_singleton, hk]

theorem Describes.drops (hi : LogConservation.Inv h) (hd : Describes l h) (hp : h.log.point = .swapped)
    {s : AsyncLogging} (hs : s = { h.log with buffersToWrite := keep h.log.buffersToWrite, point := .writing 0 })
    (ht : h.log.thread = s) : Describes { l with rest := retained l.rest } (h.next .thread) := by
  obtain ⟨bs, hb⟩ := hi.last hp
  have hn : h.next .thread = ⟨s, h.lines, h.batches⟩ := by
    simp [Logged.next, ht, hs]
  have hbatches := hd.batches
  rw [hb] at hbatches
  obtain ⟨gs, g, hgs, _, hg⟩ := List.map_eq_append_iff.mp hbatches
  obtain ⟨last, rfl, hlast⟩ := List.map_eq_singleton_iff.mp hg
  have hun : unwritten h.log = h.log.buffersToWrite := by simp only [unwritten, hp]
  have hr := hd.rest
  rw [hun] at hr
  have hk := hd.kept
  rw [keptOf, if_pos hp, hgs, List.dropLast_concat, List.getLast?_concat, Option.toList_some,
    List.flatten_singleton] at hk
  have hlength : l.rest.length = last.length := by
    have he := congrArg List.length (hr.trans hlast.symm)
    simpa using he
  obtain ⟨hwritten, hrest⟩ := List.append_inj' hk hlength
  rw [hn, hs]
  refine ⟨hd.batches, hd.full, hd.current, hd.lines, ?_, ?_⟩
  · simp only [unwritten, List.drop_zero, keep_eq, ← retained_map, hr]
  · simp only [keptOf, reduceCtorEq, if_false, hgs, List.map_append, List.map_singleton, List.flatten_append,
      List.flatten_singleton, hwritten, hrest]

theorem Describes.writes (hd : Describes l h) {i : Nat} {b : LargeBuffer} (hp : h.log.point = .writing i)
    (ho : h.log.buffersToWrite[i]? = some (some b)) {t : Logged}
    (ht : t = ⟨{ h.log with output := h.log.output ++ b.data, point := .writing (i + 1) }, h.lines, h.batches⟩) :
    ∃ lines rest, l.rest = lines :: rest ∧ lines.flatten = b.data ∧
      Describes { l with written := l.written ++ [lines], rest } t := by
  obtain ⟨hlt, hget⟩ := List.getElem?_eq_some_iff.mp ho
  have hr := hd.rest
  simp only [unwritten, hp, List.drop_eq_getElem_cons hlt, hget, List.map_cons] at hr
  obtain ⟨lines, rest, hrest, hdata, hmap⟩ := List.map_eq_cons_iff.mp hr
  have hk := hd.kept
  rw [hrest, hp, keptOf, if_neg (by simp)] at hk
  refine ⟨lines, rest, hrest, hdata, ?_⟩
  rw [ht]
  refine ⟨hd.batches, hd.full, hd.current, hd.lines, hmap, ?_⟩
  rw [List.append_assoc, List.singleton_append, hk, keptOf, if_neg (by simp)]

theorem getD_data_of_spare {o : Option LargeBuffer} (ho : bytes o = []) : (o.getD .construct).data = [] := by
  cases o with
  | none => rfl
  | some b => exact ho

theorem Describes.append (hi : LogConservation.Inv h) (hd : Describes l h) {logline : List Byte}
    (hl : logline.length < kLargeBuffer) :
    ∃ full current, Describes { l with full, current } (h.next (.append logline)) := by
  obtain ⟨_, hpoint, hwrite, _, _, _⟩ := append_frame hi.shape logline
  have hun : unwritten (h.log.append logline) = unwritten h.log := by simp only [unwritten, hpoint, hwrite]
  have hrest : l.rest.map List.flatten = (unwritten (h.log.append logline)).map bytes := by
    rw [hun]
    exact hd.rest
  have hkept : l.written ++ l.rest = keptOf (h.log.append logline).point l.batches := by
    rw [hpoint]
    exact hd.kept
  obtain ⟨current, hc, ⟨hfit, ha⟩ | ha⟩ := append_cases hi.shape logline
  · refine ⟨l.full, l.current ++ [logline], hd.batches, ?_, ?_, ?_, hrest, hkept⟩
    · simp only [Logged.next, ha, hd.full]
    · have hcurrent := hd.current
      rw [hc] at hcurrent
      simp only [Logged.next, ha, bytes, Option.elim_some, FixedBuffer.append_data hfit, List.flatten_append,
        List.flatten_singleton, hcurrent]
    · simp only [Logged.next, hd.lines, List.append_assoc]
  · have hempty := getD_data_of_spare hi.spare.1
    have hfit : logline.length < (h.log.nextBuffer.getD .construct).avail := by
      rw [FixedBuffer.avail_of_empty hempty]
      exact hl
    refine ⟨l.full ++ [l.current], [logline], hd.batches, ?_, ?_, ?_, hrest, hkept⟩
    · have hcurrent := hd.current
      rw [hc] at hcurrent
      simp only [Logged.next, ha, List.map_append, hd.full, List.map_singleton, hcurrent]
    · simp only [Logged.next, ha, bytes, Option.elim_some, FixedBuffer.append_data hfit, hempty, List.nil_append,
        List.flatten_singleton]
    · simp [Logged.next, hd.lines]

/-- What one step of the thread does to the layout, with the buffer that it
passes to output.append. It gets to the test of the loop, or past it, only by a flush. -/
inductive Turn (l : Layout) (h : Logged) : Layout → Prop
  | keeps {l' : Layout} (hdue : due h.log = none) (hd : Describes l' (h.next .thread)) (hw : l'.written = l.written)
      (hfresh : (h.next .thread).log.point = .notStarted → h.log.point = .notStarted ∧ l' = l)
      (hflush : (h.next .thread).log.point = .test ∨ (h.next .thread).log.point = .finished →
        flushes h.log = true ∨ h.log.point = .finished) : Turn l h l'
  | writes {b : LargeBuffer} {lines : List (List Byte)} {rest : List (List (List Byte))} {i : Nat}
      (hdue : due h.log = some b) (hdata : lines.flatten = b.data)
      (hd : Describes { l with written := l.written ++ [lines], rest } (h.next .thread))
      (hq : (h.next .thread).log.point = .writing i) : Turn l h { l with written := l.written ++ [lines], rest }

theorem Describes.turn (hi : LogConservation.Inv h) (hd : Describes l h) : ∃ l', Turn l h l' := by
  have hstep := thread_step hi.shape.ready
  generalize ht : h.log.thread = s at hstep
  have hn : s.point ≠ .swapped → h.next .thread = ⟨s, h.lines, h.batches⟩ := fun hq => by
    simp only [Logged.next, ht, hq, if_false]
  have hpoint : (h.next .thread).log.point = s.point := by simp only [Logged.next, ht]
  cases hstep with
  | rests hp =>
      have hq : h.log.point ≠ .swapped := by rcases hp with hp | hp <;> simp [hp]
      have hdue : due h.log = none := by rcases hp with hp | hp <;> simp [due, hp]
      have hsame : h.next .thread = h := hn hq
      refine ⟨l, .keeps hdue (hsame.symm ▸ hd) rfl (fun he => ⟨hpoint ▸ he, rfl⟩) fun he => ?_⟩
      rw [hsame] at he
      rcases hp with hp | hp
      · simp [hp] at he
      · exact .inr hp
  | tests hp hw =>
      have hq : (if h.log.running then LogPoint.entered else .finished) ≠ .swapped := by split <;> simp
      have hd' : Describes l (h.next .thread) := by
        rw [hn hq]
        refine hd.stays rfl rfl rfl rfl ?_ (by simp [hp]) hq
        simp only [unwritten, hp, hw]
        split <;> simp
      refine ⟨l, .keeps (by simp [due, hp]) hd' rfl (fun he => ?_) fun he => ?_⟩
      · rw [hpoint] at he
        simp only at he
        split at he <;> cases he
      · cases hrun : h.log.running with
        | true => simp [hpoint, hrun] at he
        | false => exact .inl (by simp [flushes, hp, hrun])
  | waits hp =>
      have hd' : Describes l (h.next .thread) := by
        rw [hn (by simp)]
        refine hd.stays rfl rfl rfl rfl ?_ (by simp [hp]) (by simp)
        simp only [unwritten, hp]
      exact ⟨l, .keeps (by simp [due, hp]) hd' rfl (by simp [hpoint]) (by simp [hpoint])⟩
  | swaps hp hw =>
      have hq : h.log.point ≠ .swapped := by rcases hp with hp | hp <;> simp [hp]
      have hdue : due h.log = none := by rcases hp with hp | hp <;> simp [due, hp]
      have hswapped := (swap_frame h.log hw).1
      exact ⟨_, .keeps hdue (hd.swaps hi ht hw hq) rfl (by simp [hpoint, hswapped]) (by simp [hpoint, hswapped])⟩
  | drops hp =>
      exact ⟨_, .keeps (by simp [due, hp]) (hd.drops hi hp rfl ht) rfl (by simp [hpoint]) (by simp [hpoint])⟩
  | @writes i b hp ho =>
      obtain ⟨lines, rest, _, hdata, hd'⟩ := hd.writes hp ho (hn (by simp))
      exact ⟨_, .writes (by simp [due, hp, ho]) hdata hd' hpoint⟩
  | @recycles i hp ho =>
      have hd' : Describes l (h.next .thread) := by
        rw [hn (by simp)]
        refine hd.stays rfl rfl rfl rfl ?_ (by simp [hp]) (by simp)
        simp only [unwritten, hp, List.drop_eq_nil_of_le (List.getElem?_eq_none_iff.mp ho)]
      exact ⟨l, .keeps (by simp [due, hp, ho]) hd' rfl (by simp [hpoint]) fun _ => .inl (by simp [flushes, hp])⟩

end Layouts

section Steps

variable {timebuf : Int → List Char} {baseName : List Char} {rollSize : Int} {l : Layout} {p : Pipeline}

theorem construct_inv : Inv timebuf ⟨[], [], [], [], []⟩ .construct := by
  refine ⟨LogConservation.construct_inv, ⟨rfl, rfl, rfl, rfl, rfl, rfl⟩, fun _ => rfl, ?_, fun _ => ⟨rfl, rfl⟩, ?_⟩
  · simp [Pipeline.construct]
  · simp [Pipeline.construct, Logged.construct, AsyncLogging.construct]

theorem Inv.moves {l' : Layout} {t : Logged} {flushed : Nat} (h : Inv timebuf l p) (hi : LogConservation.Inv t)
    (hd : Describes l' t) (hw : l'.written = l.written) (hpoint : p.output = none → t.log.point = .notStarted)
    (hfresh : t.log.point = .notStarted → l'.batches = [] ∧ l'.written = [])
    (hflushed : t.log.point = .test ∨ t.log.point = .finished → flushed = p.output.elim 0 openSize) :
    Inv timebuf l' ⟨t, p.output, flushed⟩ := by
  refine ⟨hi, hd, hpoint, fun o ho => ?_, hfresh, hflushed⟩
  rw [hw]
  exact h.files o ho

theorem start_inv {now : Int} (h : Inv timebuf l p) (he : p.Enabled (.start now)) :
    Inv timebuf l (p.next timebuf baseName rollSize (.start now)) := by
  obtain ⟨hstart, hnow⟩ := he
  have hp : p.history.log.point = .notStarted := hstart
  have hi := LogConservation.step_inv p.history .start h.history hstart
  have hd : Describes l (p.history.next .start) := by
    refine h.describes.stays rfl rfl rfl rfl ?_ (by simp [hp]) ?_
    · simp [unwritten, hp, Logged.next, AsyncLogging.next, AsyncLogging.start]
    · simp [Logged.next, AsyncLogging.next, AsyncLogging.start]
  have hempty : openSize (.construct timebuf baseName rollSize flushInterval checkEveryM now) = 0 := by
    unfold LogFile.construct LogFile.rollFile
    rw [if_pos hnow]
    rfl
  refine ⟨hi, hd, ?_, fun o ho => ?_, ?_, fun _ => hempty.symm⟩
  · simp [Pipeline.next]
  · obtain rfl : _ = o := Option.some.inj ho
    rw [(h.fresh hp).2]
    exact RolledFiles.construct_inv timebuf baseName rollSize flushInterval checkEveryM hnow
  · simp [Pipeline.next, Logged.next, AsyncLogging.next, AsyncLogging.start]

theorem append_line_inv (h : Inv timebuf l p) {logline : List Byte} (hl : logline.length < kLargeBuffer) :
    ∃ l', Inv timebuf l' (p.next timebuf baseName rollSize (.append logline)) := by
  obtain ⟨_, hpoint, _⟩ := append_frame h.history.shape logline
  obtain ⟨full, current, hd⟩ := h.describes.append h.history hl
  refine ⟨_, h.moves (append_inv h.history hl) hd rfl ?_ ?_ ?_⟩
  · intro ho
    exact hpoint.trans (h.started ho)
  · intro hp
    exact h.fresh (hpoint.symm.trans hp)
  · intro hp
    simp only [Logged.next, hpoint] at hp
    exact h.flushed hp

theorem write_inv (h : Inv timebuf l p) {b : LargeBuffer} {o : LogFile} (hdue : due p.history.log = some b)
    (ho : p.output = some o) {io : Nat → Fwrite} (hio : ∀ k, 1 ≤ (io k).count ∧ (io k).err = false) (clock : Clock)
    (spill : Nat) : ∃ l', Inv timebuf l' (p.write timebuf b io clock spill o) := by
  obtain ⟨l', hturn⟩ := h.describes.turn h.history
  cases hturn with
  | keeps hnone => simp [hdue] at hnone
  | @writes b' lines rest i hdue' hdata hd hq =>
      obtain rfl : b = b' := by simpa [hdue] using hdue'
      obtain ⟨o', happend, hinv⟩ := RolledFiles.append_inv (h.files o ho) (e := ⟨lineOf b, io, clock⟩) hio le_rfl
      have hwrite : p.write timebuf b io clock spill o =
          ⟨p.history.next .thread, some o', min (max p.flushed spill) (openSize o')⟩ := by
        have ha : o.append timebuf b.data.length (lineOf b) io clock = some o' := happend
        simp only [Pipeline.write, ha]
      refine ⟨{ l with written := l.written ++ [lines], rest }, ?_⟩
      rw [hwrite]
      refine ⟨LogConservation.thread_inv h.history, hd, by simp, fun o'' ho'' => ?_, by simp [hq], by simp [hq]⟩
      obtain rfl : o' = o'' := Option.some.inj ho''
      rw [List.map_append, List.map_singleton, hdata]
      exact hinv

theorem thread_inv (h : Inv timebuf l p) {io : Nat → Fwrite} (hio : ∀ k, 1 ≤ (io k).count ∧ (io k).err = false)
    (clock : Clock) (spill : Nat) : ∃ l', Inv timebuf l' (p.thread timebuf io clock spill) := by
  cases hdue : due p.history.log with
  | some b =>
      have hpoint : p.history.log.point ≠ .notStarted := fun hp => by simp [due, hp] at hdue
      obtain ⟨o, ho⟩ := Option.ne_none_iff_exists'.mp fun ho => hpoint (h.started ho)
      simp only [Pipeline.thread, hdue, ho]
      exact write_inv h hdue ho hio clock spill
  | none =>
      obtain ⟨l', hturn⟩ := h.describes.turn h.history
      cases hturn with
      | writes hsome => simp [hdue] at hsome
      | keeps _ hd hw hfresh hflush =>
          have hi := LogConservation.thread_inv h.history
          have hstarted : p.output = none → (p.history.next .thread).log.point = .notStarted := fun ho => by
            simp [Logged.next, AsyncLogging.thread, h.started ho]
          have hbefore : (p.history.next .thread).log.point = .notStarted → l'.batches = [] ∧ l'.written = [] := by
            intro hp
            obtain ⟨hp', rfl⟩ := hfresh hp
            exact h.fresh hp'
          refine ⟨l', ?_⟩
          simp only [Pipeline.thread, hdue]
          split
          · exact h.moves hi hd hw hstarted hbefore fun _ => rfl
          · rename_i hno
            refine h.moves hi hd hw hstarted hbefore fun hp => ?_
            rcases hflush hp with hf | hf
            · exact absurd hf hno
            · exact h.flushed (.inr hf)

theorem step_inv (p : Pipeline) (e : Event) (h : ∃ l, Inv timebuf l p) (he : p.Enabled e) :
    ∃ l, Inv timebuf l (p.next timebuf baseName rollSize e) := by
  obtain ⟨l, h⟩ := h
  cases e with
  | start now => exact ⟨l, start_inv h he⟩
  | stop =>
      have hi := LogConservation.step_inv p.history .stop h.history he
      obtain ⟨h₁, h₂, h₃, h₄, h₅, h₆⟩ := h.describes
      exact ⟨l, h.moves hi ⟨h₁, h₂, h₃, h₄, h₅, h₆⟩ rfl h.started h.fresh h.flushed⟩
  | append logline => exact append_line_inv h he
  | thread io clock spill => exact thread_inv h he clock spill

theorem Inv.delivered (h : Inv timebuf l p) : Delivered l p :=
  ⟨h.describes, fun o ho => holds_lines (h.files o ho).holds, h.history.shape.sound, fun o ho => (h.files o ho).sound⟩

theorem contents_of_holds {o : LogFile} {lines : List (List Byte)} (h : Holds o lines) :
    (o.files.map AppendFile.contents).flatten = lines.flatten := by
  obtain ⟨groups, hflat, hfiles⟩ := h
  rw [hfiles, ← List.flatten_flatten, hflat]

theorem Inv.onDisk_eq (h : Inv timebuf l p)
    (hp : p.history.log.point = .test ∨ p.history.log.point = .finished) :
    onDisk p = (p.history.batches.map retained).flatten.flatten := by
  have hun : unwritten p.history.log = [] := by
    have hready := h.history.shape.ready
    rcases hp with hp | hp
    · simp only [Ready, hp] at hready
      simp only [unwritten, hp, hready.1]
    · simp only [Ready, hp] at hready
      simp only [unwritten, hp, hready]
  have hk := h.describes.kept
  rw [h.describes.rest_eq_nil hun, List.append_nil, keptOf, if_neg (by rcases hp with hp | hp <;> simp [hp])] at hk
  have hbatches : (p.history.batches.map retained).flatten = l.written.map List.flatten := by
    rw [hk, ← h.describes.batches, List.map_flatten, List.map_map, List.map_map]
    exact congrArg List.flatten (List.map_congr_left fun v _ => retained_map List.flatten v)
  cases ho : p.output with
  | none =>
      have hstart := h.started ho
      rcases hp with hp | hp <;> simp [hp] at hstart
  | some o =>
      have hflushed := h.flushed hp
      have hcontents := contents_of_holds (h.files o ho).holds
      rw [ho] at hflushed
      rw [hbatches, ← hcontents]
      cases hf : o.file with
      | none => simp [onDisk, ho, hf, LogFile.files]
      | some f =>
          have hsize : p.flushed = f.contents.length := by simpa [openSize, hf] using hflushed
          simp [onDisk, ho, hf, LogFile.files, hsize]

end Steps

/-- In every run each line is where its buffer is: the files hold whole lines,
in the order in which append took mutex_, and what is missing from them are the
lines of the dropped buffers and of those that are still to be written. -/
theorem lines_delivered_whole (timebuf : Int → List Char) (baseName : List Char) (rollSize : Int) (es : List Event)
    (he : Meets (Pipeline.next timebuf baseName rollSize) Pipeline.Enabled .construct es) :
    Always (Pipeline.next timebuf baseName rollSize) (fun p => ∃ l, Delivered l p) .construct es := by
  have hinv := always_of_step (P := fun p => ∃ l, Inv timebuf l p) step_inv ⟨_, construct_inv⟩ he
  exact always_mono (fun p ⟨l, h⟩ => ⟨l, h.delivered⟩) hinv

theorem rounds_end_on_disk (timebuf : Int → List Char) (baseName : List Char) (rollSize : Int) (es : List Event)
    (he : Meets (Pipeline.next timebuf baseName rollSize) Pipeline.Enabled .construct es) :
    Always (Pipeline.next timebuf baseName rollSize)
      (fun p => p.history.log.point = .test ∨ p.history.log.point = .finished →
        onDisk p = (p.history.batches.map retained).flatten.flatten) .construct es := by
  have hinv := always_of_step (P := fun p => ∃ l, Inv timebuf l p) step_inv ⟨_, construct_inv⟩ he
  exact always_mono (fun p ⟨l, h⟩ => h.onDisk_eq) hinv

def oneRound : List Event :=
  let byteByByte : Event := .thread (fun _ => ⟨1, false⟩) ⟨101, 101⟩ 0
  [.start 100, .append [1, 2], byteByByte, byteByByte, byteByByte, byteByByte, .append [3], byteByByte, byteByByte]

theorem oneRound_enabled :
    Meets (Pipeline.next (fun _ => []) "log".toList 1) Pipeline.Enabled .construct oneRound := by
  have hline : ∀ b : List Byte, b.length ≤ 2 → b.length < kLargeBuffer := fun b hb => hb.trans_lt (by decide)
  refine ⟨⟨rfl, by decide⟩, hline [1, 2] le_rfl, ?_, ?_, ?_, ?_, hline [3] (by decide), ?_, ?_, trivial⟩ <;>
    exact fun _ => ⟨le_rfl, rfl⟩

theorem lines_delivered_whole_one_round :
    Always (Pipeline.next (fun _ => []) "log".toList 1) (fun p => ∃ l, Delivered l p) .construct oneRound :=
  lines_delivered_whole _ _ _ _ oneRound_enabled

theorem rounds_end_on_disk_one_round :
    Always (Pipeline.next (fun _ => []) "log".toList 1)
      (fun p => p.history.log.point = .test ∨ p.history.log.point = .finished →
        onDisk p = (p.history.batches.map retained).flatten.flatten) .construct oneRound :=
  rounds_end_on_disk _ _ _ _ oneRound_enabled

end Webserver.LogPipeline
