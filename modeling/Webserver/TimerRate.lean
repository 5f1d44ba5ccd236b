import Webserver.TrueTime

namespace Webserver.TimerRate

open Runs TimerStore TimerFiring TrueTime

/-- What a Timer was created for and how often it has fired. The time last is
the reading for its latest firing, at first the one at its creation. -/
structure Meter where
  born : Int
  interval : Int
  repeats : Bool
  fires : Nat
  last : Int

def Meter.fired (read : Int) (m : Meter) : Meter := { m with fires := m.fires + 1, last := read }

/-- The meters are those of the latest Timer at each address. -/
structure Metered where
  timed : Timed
  meter : Pointer → Meter

namespace Metered

open Timed (Event)

def construct (now : Int) : Metered := ⟨.construct now, fun _ => ⟨now, 0, false, 0, now⟩⟩

def create (p : Pointer) (t interval : Int) (repeats : Bool) (s : Metered) : Pointer → Meter :=
  Function.update s.meter p ⟨t, interval, repeats, 0, t⟩

def next (s : Metered) (e : Event) : Metered :=
  { timed := s.timed.next e
    meter := match e with
      | .runAt p t _ => s.create p t 0 false
      | .runAfter p t _ => s.create p t 0 false
      | .runEvery p t interval repeats => s.create p t interval repeats
      | .callback => fun p =>
          if p ∈ (starts s.timed.loop .callback).map Entry.timer then Meter.fired s.timed.read (s.meter p)
          else s.meter p
      | .addTimerInLoop _ _ | .cancelInLoop _ | .fire | .handleRead _ | .endRead _ => s.meter }

def Enabled (s : Metered) (e : Event) : Prop := s.timed.Enabled e

instance (s : Metered) (e : Event) : Decidable (s.Enabled e) := inferInstanceAs (Decidable (s.timed.Enabled e))

def NoWrap (s : Metered) (e : Event) : Prop := TrueTime.NoWrap s.timed e

instance (s : Metered) (e : Event) : Decidable (s.NoWrap e) :=
  inferInstanceAs (Decidable (TrueTime.NoWrap s.timed e))

end Metered

open Metered
open Timed (Event)

/-- A callback is started no sooner than one interval after the one before, the
callback of a timer without repeats only once. -/
def Apart (s : Metered) (e : Event) : Prop :=
  ∀ it ∈ starts s.timed.loop (Timed.loopEvent e),
    (s.meter it.timer).last + (s.meter it.timer).interval ≤ s.timed.read ∧
      ((s.meter it.timer).repeats = false → (s.meter it.timer).fires = 0)

structure Paced (s : Metered) : Prop where
  rate : ∀ p, (s.meter p).born + (s.meter p).fires * (s.meter p).interval ≤ s.timed.now
  once : ∀ p, (s.meter p).repeats = false → (s.meter p).fires ≤ 1

def pending : Phase → List Entry
  | .idle => []
  | .calling _ _ rest => rest

def Ran (w : TimerLoop) (p : Pointer) : Prop :=
  p ∈ (batch w.phase).map Entry.timer ∧ p ∉ (pending w.phase).map Entry.timer

structure Inv (s : Metered) : Prop where
  timed : TrueTime.Inv s.timed
  ripe : Ripe s.timed
  clock : s.timed.read ≤ s.timed.now
  distinct : ((pending s.timed.loop.phase).map Entry.timer).Nodup
  made : ∀ p tm, s.timed.loop.queue.heap p = some tm →
    tm.delta = (s.meter p).interval ∧ tm.repeats = (s.meter p).repeats
  due : ∀ p tm, s.timed.loop.queue.heap p = some tm → ¬ Ran s.timed.loop p →
    (s.meter p).last + (s.meter p).interval ≤ s.timed.due p ∧
      ((s.meter p).repeats = false → (s.meter p).fires = 0)
  ran : ∀ p, Ran s.timed.loop p → (s.meter p).last = s.timed.read
  counted : ∀ p, (s.meter p).born + (s.meter p).fires * (s.meter p).interval ≤ (s.meter p).last ∧
    (s.meter p).last ≤ s.timed.now
  once : ∀ p, (s.meter p).repeats = false → (s.meter p).fires ≤ 1

variable {s : Metered} {p : Pointer}

theorem construct_inv (now : Int) : Inv (.construct now) := by
  have hheap : ∀ p, (Metered.construct now).timed.loop.queue.heap p = none := fun _ => rfl
  refine ⟨TrueTime.construct_inv now, ?_, Int.le_refl now, List.nodup_nil, ?_, ?_, ?_, ?_, ?_⟩
  · intro it hit
    cases hit
  · intro p tm htm
    rw [hheap] at htm
    cases htm
  · intro p tm htm
    rw [hheap] at htm
    cases htm
  · intro p hran
    cases hran.1
  · intro p
    simp [Metered.construct, Timed.construct]
  · intro p _
    exact Nat.zero_le 1

theorem not_ran_idle {w : TimerLoop} (h : w.phase = .idle) : ¬ Ran w p := by
  intro hran
  rw [Ran, h] at hran
  cases hran.1

theorem quiet_inv {e : Event} (h : Inv s) (he : s.Enabled e) (hw : s.NoWrap e) (hin : Inside (Timed.loopEvent e))
    (hc : ∀ p when delta repeats, Timed.loopEvent e ≠ .create p when delta repeats)
    (hphase : (s.next e).timed.loop.phase = s.timed.loop.phase) (hmeter : (s.next e).meter = s.meter)
    (hdue : (s.next e).timed.due = s.timed.due) (hread : (s.next e).timed.read = s.timed.read)
    (hnow : s.timed.now ≤ (s.next e).timed.now) : Inv (s.next e) := by
  have hheap : ∀ p tm, (s.next e).timed.loop.queue.heap p = some tm → s.timed.loop.queue.heap p = some tm := by
    intro p tm htm
    have hloop : (s.next e).timed.loop = s.timed.loop.next (Timed.loopEvent e) := Timed.next_loop _ _
    rw [hloop] at htm
    rcases TimerIds.step_heap_cases h.timed.sound he.1 (hc p) htm with ⟨hsame, _⟩ | ⟨_, _, _, _, hend, _⟩
    · exact hsame
    · rw [hend] at hin
      exact hin.elim
  have hran : ∀ p, Ran (s.next e).timed.loop p ↔ Ran s.timed.loop p := by
    intro p
    rw [Ran, Ran, hphase]
  constructor
  · exact TrueTime.step_inv s.timed e h.timed he
  · exact step_ripe e h.timed he hw h.ripe
  · rw [hread]
    exact Int.le_trans h.clock hnow
  · rw [hphase]
    exact h.distinct
  · intro p tm htm
    rw [hmeter]
    exact h.made p tm (hheap p tm htm)
  · intro p tm htm hnot
    rw [hmeter, hdue]
    exact h.due p tm (hheap p tm htm) fun hr => hnot ((hran p).mpr hr)
  · intro p hr
    rw [hmeter, hread]
    exact h.ran p ((hran p).mp hr)
  · intro p
    rw [hmeter]
    exact ⟨(h.counted p).1, Int.le_trans (h.counted p).2 hnow⟩
  · rw [hmeter]
    exact h.once

theorem create_inv {e : Event} {t time interval : Int} {repeats : Bool} (h : Inv s) (he : s.Enabled e)
    (hw : s.NoWrap e) {when : TimeStamp} (hloop : Timed.loopEvent e = .create p when interval repeats)
    (hmeter : (s.next e).meter = s.create p t interval repeats)
    (hdue : (s.next e).timed.due = Function.update s.timed.due p time)
    (hread : (s.next e).timed.read = s.timed.read) (hnow : (s.next e).timed.now = t) (ht : s.timed.now ≤ t)
    (htime : t + interval ≤ time) : Inv (s.next e) := by
  have hnext : (s.next e).timed.loop = s.timed.loop.next (.create p when interval repeats) := by
    rw [← hloop]
    exact Timed.next_loop _ _
  have hen : s.timed.loop.Enabled (.create p when interval repeats) := hloop ▸ he.1
  have hphase : (s.next e).timed.loop.phase = s.timed.loop.phase := by
    rw [hnext]
    rfl
  have hran : ∀ p', Ran (s.next e).timed.loop p' ↔ Ran s.timed.loop p' := by
    intro p'
    rw [Ran, Ran, hphase]
  have hfresh : ¬ Ran s.timed.loop p := by
    rintro ⟨hb, _⟩
    obtain ⟨it, hit, rfl⟩ := List.mem_map.mp hb
    obtain ⟨tm, htm⟩ := h.timed.sound.batch_alive hit
    exact created_ne hen htm rfl
  have hself : (s.next e).meter p = ⟨t, interval, repeats, 0, t⟩ := by
    rw [hmeter, Metered.create, Function.update_self]
  have hother : ∀ p', p' ≠ p → (s.next e).meter p' = s.meter p' := by
    intro p' hp
    rw [hmeter, Metered.create, Function.update_of_ne hp]
  have hheap : ∀ p' tm, p' ≠ p → (s.next e).timed.loop.queue.heap p' = some tm →
      s.timed.loop.queue.heap p' = some tm := by
    intro p' tm hp htm
    rw [hnext] at htm
    simpa only [TimerLoop.next, TimerQueue.create, Function.update_of_ne hp] using htm
  constructor
  · exact TrueTime.step_inv s.timed e h.timed he
  · exact step_ripe e h.timed he hw h.ripe
  · rw [hread, hnow]
    exact Int.le_trans h.clock ht
  · rw [hphase]
    exact h.distinct
  · intro p' tm htm
    by_cases hp : p' = p
    · subst hp
      rw [hnext] at htm
      simp only [TimerLoop.next, TimerQueue.create, Function.update_self, Option.some.injEq] at htm
      rw [hself, ← htm]
      exact ⟨rfl, rfl⟩
    · rw [hother p' hp]
      exact h.made p' tm (hheap p' tm hp htm)
  · intro p' tm htm hnot
    by_cases hp : p' = p
    · subst hp
      rw [hself, hdue, Function.update_self]
      exact ⟨htime, fun _ => rfl⟩
    · rw [hother p' hp, hdue, Function.update_of_ne hp]
      exact h.due p' tm (hheap p' tm hp htm) fun hr => hnot ((hran p').mpr hr)
  · intro p' hr
    have hp : p' ≠ p := by
      rintro rfl
      exact hfresh ((hran p').mp hr)
    rw [hother p' hp, hread]
    exact h.ran p' ((hran p').mp hr)
  · intro p'
    by_cases hp : p' = p
    · subst hp
      rw [hself, hnow]
      simp
    · rw [hother p' hp, hnow]
      exact ⟨(h.counted p').1, Int.le_trans (h.counted p').2 ht⟩
  · intro p' hrep
    by_cases hp : p' = p
    · subst hp
      rw [hself]
      exact Nat.zero_le 1
    · rw [hother p' hp] at hrep ⊢
      exact h.once p' hrep

theorem handleRead_inv {t : Int} (h : Inv s) (he : s.Enabled (.handleRead t)) (hw : s.NoWrap (.handleRead t)) :
    Inv (s.next (.handleRead t)) := by
  have hidle : s.timed.loop.phase = .idle := he.1
  have hnow : s.timed.now ≤ t := he.2
  have hinv := TrueTime.step_inv s.timed (.handleRead t) h.timed he
  have hheap : ∀ p, (s.next (.handleRead t)).timed.loop.queue.heap p = s.timed.loop.queue.heap p :=
    congrFun (beginRead_heap h.timed.sound hidle (.construct t))
  have hall : pending (s.next (.handleRead t)).timed.loop.phase = batch (s.next (.handleRead t)).timed.loop.phase := rfl
  have hnone : ∀ p, ¬ Ran (s.next (.handleRead t)).timed.loop p := by
    rintro p ⟨hb, hp⟩
    rw [hall] at hp
    exact hp hb
  constructor
  · exact hinv
  · exact step_ripe (.handleRead t) h.timed he hw h.ripe
  · exact Int.le_refl t
  · rw [hall]
    exact (List.nodup_append.mp hinv.sound.rooted.nodup).1
  · intro p tm htm
    rw [hheap] at htm
    exact h.made p tm htm
  · intro p tm htm _
    rw [hheap] at htm
    exact h.due p tm htm (not_ran_idle hidle)
  · intro p hr
    exact absurd hr (hnone p)
  · intro p
    exact ⟨(h.counted p).1, Int.le_trans (h.counted p).2 hnow⟩
  · exact h.once

theorem callback_facts (h : Inv s) (he : s.Enabled .callback) : ∃ expired now it rest tm,
    s.timed.loop.phase = .calling expired now (it :: rest) ∧
      s.timed.loop.next .callback = { s.timed.loop with phase := .calling expired now rest } ∧
      starts s.timed.loop .callback = [it] ∧ s.timed.loop.queue.heap it.timer = some tm ∧
      ¬ Ran s.timed.loop it.timer ∧ s.timed.due it.timer ≤ s.timed.read := by
  obtain ⟨expired, now, it, rest, hp, hn⟩ := callback_next h.timed.sound he.1
  have hmem : it ∈ batch s.timed.loop.phase := by
    rw [hp]
    exact h.timed.sound.rest expired now (it :: rest) hp List.mem_cons_self
  obtain ⟨tm, htm⟩ := h.timed.sound.batch_alive hmem
  refine ⟨expired, now, it, rest, tm, hp, hn, by simp [starts, hp], htm, ?_, h.ripe it hmem⟩
  rintro ⟨_, hout⟩
  rw [hp] at hout
  exact hout (by simp [pending])

theorem callback_apart (h : Inv s) (he : s.Enabled .callback) : Apart s .callback := by
  obtain ⟨expired, now, it, rest, tm, hp, hn, hstart, htm, hnot, hripe⟩ := callback_facts h he
  obtain ⟨hlast, hfires⟩ := h.due it.timer tm htm hnot
  intro it' hit
  have hit' : it' ∈ starts s.timed.loop .callback := hit
  rw [hstart, List.mem_singleton] at hit'
  subst hit'
  exact ⟨Int.le_trans hlast hripe, hfires⟩

theorem callback_inv (h : Inv s) (he : s.Enabled .callback) (hw : s.NoWrap .callback) : Inv (s.next .callback) := by
  obtain ⟨expired, now, it, rest, tm, hp, hn, hstart, htm, hnot, hripe⟩ := callback_facts h he
  obtain ⟨hlast, hfires⟩ := h.due it.timer tm htm hnot
  have hloop : (s.next .callback).timed.loop = { s.timed.loop with phase := .calling expired now rest } :=
    (Timed.next_loop _ _).trans hn
  have hdistinct := h.distinct
  rw [hp, pending, List.map_cons, List.nodup_cons] at hdistinct
  have hself : (s.next .callback).meter it.timer = Meter.fired s.timed.read (s.meter it.timer) := by
    simp [Metered.next, hstart]
  have hother : ∀ p, p ≠ it.timer → (s.next .callback).meter p = s.meter p := by
    intro p hne
    simp [Metered.next, hstart, hne]
  have hran : ∀ p, p ≠ it.timer → (Ran (s.next .callback).timed.loop p ↔ Ran s.timed.loop p) := by
    intro p hne
    simp [Ran, hloop, hp, pending, batch, hne]
  have hnow : it.timer ∈ (batch s.timed.loop.phase).map Entry.timer := by
    rw [hp]
    exact List.mem_map_of_mem (h.timed.sound.rest expired now (it :: rest) hp List.mem_cons_self)
  have hheap : (s.next .callback).timed.loop.queue.heap = s.timed.loop.queue.heap := by rw [hloop]
  constructor
  · exact TrueTime.step_inv s.timed .callback h.timed he
  · exact step_ripe .callback h.timed he hw h.ripe
  · exact h.clock
  · rw [hloop]
    exact hdistinct.2
  · intro p tm' htm'
    rw [hheap] at htm'
    by_cases hne : p = it.timer
    · subst hne
      rw [hself]
      exact h.made _ tm' htm'
    · rw [hother p hne]
      exact h.made p tm' htm'
  · intro p tm' htm' hnot'
    rw [hheap] at htm'
    by_cases hne : p = it.timer
    · subst hne
      refine absurd ⟨?_, ?_⟩ hnot'
      · rw [hloop]
        rw [hp] at hnow
        exact hnow
      · rw [hloop]
        exact hdistinct.1
    · rw [hother p hne]
      exact h.due p tm' htm' fun hr => hnot' ((hran p hne).mpr hr)
  · intro p hr
    by_cases hne : p = it.timer
    · subst hne
      rw [hself]
      rfl
    · rw [hother p hne]
      exact h.ran p ((hran p hne).mp hr)
  · intro p
    by_cases hne : p = it.timer
    · subst hne
      have hcount := (h.counted it.timer).1
      rw [hself]
      refine ⟨?_, h.clock⟩
      simp only [Meter.fired, Int.natCast_add, Int.natCast_one, Int.add_mul, Int.one_mul]
      omega
    · rw [hother p hne]
      exact h.counted p
  · intro p hrep
    by_cases hne : p = it.timer
    · subst hne
      rw [hself] at hrep ⊢
      simp [Meter.fired, hfires hrep]
    · rw [hother p hne] at hrep ⊢
      exact h.once p hrep

theorem endRead_inv {clock : Nat → Int} (h : Inv s) (he : s.Enabled (.endRead clock))
    (hw : s.NoWrap (.endRead clock)) : Inv (s.next (.endRead clock)) := by
  obtain ⟨expired, now, hp⟩ := TimerLoop.endRead_phase he.1
  have hloop : (s.next (.endRead clock)).timed.loop = s.timed.loop.next (Timed.loopEvent (.endRead clock)) :=
    Timed.next_loop _ _
  have hidle : (s.next (.endRead clock)).timed.loop.phase = .idle := by
    simp [hloop, Timed.loopEvent, TimerLoop.next, hp]
  -- a Timer that is alive afterwards was not in the batch, or repeats and was restarted
  have hcases : ∀ p tm, (s.next (.endRead clock)).timed.loop.queue.heap p = some tm →
      (s.timed.loop.queue.heap p = some tm ∧ p ∉ (batch s.timed.loop.phase).map Entry.timer) ∨
        ∃ tm₀, s.timed.loop.queue.heap p = some tm₀ ∧ tm.delta = tm₀.delta ∧ tm.repeats = tm₀.repeats ∧
          tm₀.repeats = true ∧ p ∈ (batch s.timed.loop.phase).map Entry.timer := by
    intro p tm htm
    rw [hloop] at htm
    rcases TimerIds.step_heap_cases h.timed.sound he.1 (by simp [Timed.loopEvent]) htm with
      ⟨hsame, hout⟩ | ⟨_, expired', now', tm₀, _, hp', hin, htm₀, hrep, rfl⟩
    · exact .inl ⟨hsame, hout _ rfl⟩
    · exact .inr ⟨tm₀, htm₀, rfl, rfl, hrep, by rw [hp']; exact hin⟩
  constructor
  · exact TrueTime.step_inv s.timed (.endRead clock) h.timed he
  · exact step_ripe (.endRead clock) h.timed he hw h.ripe
  · exact h.clock
  · rw [hidle]
    exact List.nodup_nil
  · intro p tm htm
    rcases hcases p tm htm with ⟨hsame, _⟩ | ⟨tm₀, htm₀, hdelta, hrep, _⟩
    · exact h.made p tm hsame
    · rw [hdelta, hrep]
      exact h.made p tm₀ htm₀
  · intro p tm htm _
    rcases hcases p tm htm with ⟨hsame, hout⟩ | ⟨tm₀, htm₀, _, _, hrep, hin⟩
    · have hdue := h.due p tm hsame fun hr => hout hr.1
      simpa only [Metered.next, Timed.next, if_neg hout] using hdue
    · have hlast := h.ran p ⟨hin, by rw [hp]; simp [pending]⟩
      obtain ⟨hinterval, hrepeats⟩ := h.made p tm₀ htm₀
      simp only [Metered.next, Timed.next, if_pos hin, Timed.dueAgain, htm₀, hlast, hinterval, ← hrepeats, hrep]
      exact ⟨Int.le_refl _, fun hf => by cases hf⟩
  · intro p hr
    exact absurd hr (not_ran_idle hidle)
  · exact h.counted
  · exact h.once

theorem step_inv (s : Metered) (e : Event) (h : Inv s) (he : s.Enabled e ∧ s.NoWrap e) : Inv (s.next e) := by
  obtain ⟨he, hw⟩ := he
  cases e with
  | runAt p t time =>
      obtain ⟨ht, htime⟩ := he.2
      exact create_inv h he hw rfl rfl rfl rfl rfl ht (by omega)
  | runAfter p t delay =>
      obtain ⟨ht, hdelay⟩ := he.2
      exact create_inv h he hw rfl rfl rfl rfl rfl ht (by omega)
  | runEvery p t interval repeats => exact create_inv h he hw rfl rfl rfl rfl rfl he.2.1 (Int.le_refl _)
  | addTimerInLoop p t => exact quiet_inv h he hw trivial (by simp [Timed.loopEvent]) rfl rfl rfl rfl he.2
  | cancelInLoop id => exact quiet_inv h he hw trivial (by simp [Timed.loopEvent]) rfl rfl rfl rfl (Int.le_refl _)
  | fire => exact quiet_inv h he hw trivial (by simp [Timed.loopEvent]) rfl rfl rfl rfl (Int.le_refl _)
  | handleRead t => exact handleRead_inv h he hw
  | callback => exact callback_inv h he hw
  | endRead clock => exact endRead_inv h he hw

theorem Inv.paced (h : Inv s) : Paced s :=
  ⟨fun p => Int.le_trans (h.counted p).1 (h.counted p).2, h.once⟩

theorem step_apart (s : Metered) (e : Event) (h : Inv s) (he : s.Enabled e ∧ s.NoWrap e) : Apart s e := by
  cases e with
  | callback => exact callback_apart h he.1
  | runAt _ _ _ | runAfter _ _ _ | runEvery _ _ _ _ | addTimerInLoop _ _ | cancelInLoop _ | fire | handleRead _
  | endRead _ =>
      intro it hit
      simp [starts, Timed.loopEvent] at hit

theorem always_paced (now : Int) (es : List Event) (he : Meets next Enabled (Metered.construct now) es)
    (hw : Meets next NoWrap (Metered.construct now) es) :
    Always next Paced (Metered.construct now) es ∧ Meets next Apart (Metered.construct now) es := by
  have hen := meets_and.mpr ⟨he, hw⟩
  exact ⟨always_mono (fun _ h => h.paced) (always_of_step step_inv (construct_inv now) hen),
    meets_of_step step_inv step_apart (construct_inv now) hen⟩

theorem always_paced_late :
    Always next Paced (Metered.construct 1000)
        [.runEvery 1 1000 500 true, .addTimerInLoop 1 1010, .fire, .handleRead 1600, .callback, .endRead fun _ => 1610,
          .fire, .handleRead 2100, .callback, .endRead fun _ => 2110] ∧
      Meets next Apart (Metered.construct 1000)
        [.runEvery 1 1000 500 true, .addTimerInLoop 1 1010, .fire, .handleRead 1600, .callback, .endRead fun _ => 1610,
          .fire, .handleRead 2100, .callback, .endRead fun _ => 2110] :=
  always_paced 1000 _ (by decide +kernel) (by decide +kernel)

end Webserver.TimerRate
