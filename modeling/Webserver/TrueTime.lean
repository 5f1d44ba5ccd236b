import Webserver.TimerIds

namespace Webserver.TrueTime

open Runs TimerQueue TimerStore TimerFrame TimerFiring

/-- The loop beside the true time, in microseconds since the epoch: the last
reading of the clock, the one of the last handleRead, and for each address the
time for which the Timer there was requested. -/
structure Timed where
  loop : TimerLoop
  now : Int
  read : Int
  due : Pointer → Int

namespace Timed

def construct (now : Int) : Timed := ⟨.construct, now, now, fun _ => 0⟩

/-- The calls of EventLoop and the steps of its TimerQueue, at a true time. The
delays are given as the whole microseconds that addTime makes of the seconds. -/
inductive Event
  | runAt (p : Pointer) (t time : Int)
  | runAfter (p : Pointer) (t delay : Int)
  | runEvery (p : Pointer) (t interval : Int) (repeats : Bool)
  | addTimerInLoop (p : Pointer) (t : Int)
  | cancelInLoop (id : ActiveTimer)
  | fire
  | handleRead (t : Int)
  | callback
  | endRead (clock : Nat → Int)

def loopEvent : Event → TimerLoop.Event
  | .runAt p _ time => .create p (.construct time) 0 false
  | .runAfter p t delay => .create p ((TimeStamp.construct t).addTime delay) 0 false
  | .runEvery p t interval repeats => .create p ((TimeStamp.construct t).addTime interval) interval repeats
  | .addTimerInLoop p t => .addTimerInLoop p (.construct t)
  | .cancelInLoop id => .cancelInLoop id
  | .fire => .fire
  | .handleRead t => .handleRead (.construct t)
  | .callback => .callback
  | .endRead clock => .endRead fun i => .construct (clock i)

def dueAgain (s : Timed) (p : Pointer) : Int :=
  match s.loop.queue.heap p with
  | some tm => s.read + tm.delta
  | none => s.due p

def next (s : Timed) (e : Event) : Timed :=
  let w := s.loop.next (loopEvent e)
  match e with
  | .runAt p t time => { s with loop := w, now := t, due := Function.update s.due p time }
  | .runAfter p t delay => { s with loop := w, now := t, due := Function.update s.due p (t + delay) }
  | .runEvery p t interval _ => { s with loop := w, now := t, due := Function.update s.due p (t + interval) }
  | .addTimerInLoop _ t => { s with loop := w, now := t }
  | .handleRead t => { s with loop := w, now := t, read := t }
  | .endRead _ =>
      { s with
        loop := w
        due := fun p => if p ∈ (batch s.loop.phase).map Entry.timer then s.dueAgain p else s.due p }
  | .cancelInLoop _ | .fire | .callback => { s with loop := w }

/-- The clock does not go back and the delays are not negative. -/
def Timely (s : Timed) : Event → Prop
  | .runAt _ t time => s.now ≤ t ∧ t ≤ time
  | .runAfter _ t delay => s.now ≤ t ∧ 0 ≤ delay
  | .runEvery _ t interval repeats => s.now ≤ t ∧ 0 ≤ interval ∧ (0 < interval → repeats = true)
  | .addTimerInLoop _ t | .handleRead t => s.now ≤ t
  | .cancelInLoop _ | .fire | .callback | .endRead _ => True

instance (s : Timed) (e : Event) : Decidable (s.Timely e) :=
  match e with
  | .runAt _ _ _ | .runAfter _ _ _ => inferInstanceAs (Decidable (_ ∧ _))
  | .runEvery _ _ _ _ => inferInstanceAs (Decidable (_ ∧ _ ∧ _))
  | .addTimerInLoop _ _ | .handleRead _ => inferInstanceAs (Decidable (_ ≤ _))
  | .cancelInLoop _ | .fire | .callback | .endRead _ => .isTrue trivial

def Enabled (s : Timed) (e : Event) : Prop := s.loop.Enabled (loopEvent e) ∧ s.Timely e

instance (s : Timed) (e : Event) : Decidable (s.Enabled e) := inferInstanceAs (Decidable (_ ∧ _))

theorem next_loop (s : Timed) (e : Event) : (s.next e).loop = s.loop.next (loopEvent e) := by
  cases e <;> rfl

end Timed

open Timed

def NotEarly (s : Timed) : Event → Prop
  | .handleRead t => ∀ it ∈ batch (s.next (.handleRead t)).loop.phase, s.due it.timer ≤ t
  | .callback => ∀ it ∈ starts s.loop .callback, s.due it.timer ≤ s.read
  | _ => True

def wraps (t : Int) : Int := t.bdiv (2 ^ 32)

/-- For each timer that a handleRead finds in the queue and that is not due yet,
less than one wrap for each 2 ^ 32 microseconds up to its time; so none, if
these are at most that many. -/
def NoWrap (s : Timed) : Event → Prop
  | .handleRead t => ∀ e ∈ s.loop.queue.timers, t < s.due e.timer →
      2 ^ 32 * (wraps (s.due e.timer) - wraps t) < s.due e.timer - t
  | _ => True

instance (s : Timed) (e : Event) : Decidable (NoWrap s e) :=
  match e with
  | .handleRead _ => inferInstanceAs (Decidable (∀ e ∈ s.loop.queue.timers, _ → _))
  | .runAt _ _ _ | .runAfter _ _ _ | .runEvery _ _ _ _ | .addTimerInLoop _ _ | .cancelInLoop _ | .fire | .callback
  | .endRead _ => .isTrue trivial

theorem addTime_construct (t delay : Int) : (TimeStamp.construct t).addTime delay = .construct (t + delay) :=
  congrArg TimeStamp.mk (Subtype.ext Int.bmod_add_bmod)

theorem stored_eq (t : Int) : (TimeStamp.construct t).microSecondSinceEpoch.val = t - 2 ^ 32 * wraps t := by
  have h := Int.bmod_add_bdiv t (2 ^ 32)
  simp only [TimeStamp.construct, CInt.ofInt, wraps]
  omega

theorem construct_le_iff (t u : Int) :
    TimeStamp.construct u ≤ .construct t ↔ u - t ≤ 2 ^ 32 * (wraps u - wraps t) := by
  have hle : TimeStamp.construct u ≤ .construct t ↔
      (TimeStamp.construct u).microSecondSinceEpoch.val ≤ (TimeStamp.construct t).microSecondSinceEpoch.val := Iff.rfl
  rw [hle, stored_eq, stored_eq]
  constructor <;> intro h <;> omega

structure Inv (s : Timed) : Prop where
  sound : Sound s.loop
  stamped : ∀ p tm, s.loop.queue.heap p = some tm → tm.expiration = .construct (s.due p)
  reading : ∀ expired now rest, s.loop.phase = .calling expired now rest → now = .construct s.read

variable {s : Timed}

theorem construct_inv (now : Int) : Inv (.construct now) := by
  refine ⟨construct_sound, ?_, ?_⟩
  · intro p tm htm
    simp [Timed.construct, TimerLoop.construct, TimerQueue.construct] at htm
  · intro expired now' rest hp
    simp [Timed.construct, TimerLoop.construct] at hp

theorem create_inv {t : Timed} {p : Pointer} {time delta : Int} {repeats : Bool} (h : Inv s)
    (he : s.loop.Enabled (.create p (.construct time) delta repeats))
    (hloop : t.loop = s.loop.next (.create p (.construct time) delta repeats))
    (hdue : t.due = Function.update s.due p time) (hread : t.read = s.read) : Inv t := by
  refine ⟨hloop ▸ step_sound _ _ h.sound he, ?_, ?_⟩
  · intro p' tm htm
    rw [hloop] at htm
    rw [hdue]
    by_cases hp : p' = p
    · subst hp
      simp only [TimerLoop.next, TimerQueue.create, Function.update_self, Option.some.injEq] at htm
      rw [Function.update_self, ← htm]
    · rw [Function.update_of_ne hp]
      exact h.stamped p' tm ((create_same hp _ delta repeats s.loop.queue).heap ▸ htm)
  · rw [hloop, hread]
    exact h.reading

theorem quiet_inv {t : Timed} {e : TimerLoop.Event} (h : Inv s) (he : s.loop.Enabled e)
    (hc : ∀ p when delta repeats, e ≠ .create p when delta repeats) (hend : ∀ clock, e ≠ .endRead clock)
    (hloop : t.loop = s.loop.next e) (hdue : t.due = s.due)
    (hreading : ∀ expired now rest, (s.loop.next e).phase = .calling expired now rest → now = .construct t.read) :
    Inv t := by
  refine ⟨hloop ▸ step_sound _ _ h.sound he, fun p tm htm => ?_, hloop ▸ hreading⟩
  rw [hloop] at htm
  rw [hdue]
  rcases TimerIds.step_heap_cases h.sound he (hc p) htm with ⟨hsame, _⟩ | ⟨clock, _, _, _, heq, _⟩
  · exact h.stamped p tm hsame
  · exact absurd heq (hend clock)

theorem endRead_inv {clock : Nat → Int} (h : Inv s) (he : s.loop.Enabled (loopEvent (.endRead clock))) :
    Inv (s.next (.endRead clock)) := by
  obtain ⟨expired, now, hp⟩ := TimerLoop.endRead_phase he
  refine ⟨step_sound _ _ h.sound he, fun p tm htm => ?_, fun expired' now' rest hp' => ?_⟩
  · have hcase := TimerIds.step_heap_cases h.sound he (by simp [loopEvent]) htm
    simp only [Timed.next]
    rcases hcase with ⟨hsame, hout⟩ | ⟨_, expired', now', tm₀, _, hp', hin, htm₀, hrep, rfl⟩
    · rw [if_neg (hout _ rfl)]
      exact h.stamped p tm hsame
    · rw [hp'] at hp ⊢
      cases hp
      have hbatch : p ∈ (batch (.calling expired now [])).map Entry.timer := hin
      rw [if_pos hbatch, dueAgain, htm₀]
      simp only [Timer.restart, hrep, if_true]
      rw [h.reading _ _ _ hp', addTime_construct]
  · simp [Timed.next, loopEvent, TimerLoop.next, hp] at hp'

theorem step_inv (s : Timed) (e : Event) (h : Inv s) (he : s.Enabled e) : Inv (s.next e) := by
  cases e with
  | runAt p t time => exact create_inv h he.1 rfl rfl rfl
  | runAfter p t delay =>
      have hen := he.1
      simp only [loopEvent, addTime_construct] at hen
      exact create_inv h hen (by simp only [Timed.next, loopEvent, addTime_construct]) rfl rfl
  | runEvery p t interval repeats =>
      have hen := he.1
      simp only [loopEvent, addTime_construct] at hen
      exact create_inv h hen (by simp only [Timed.next, loopEvent, addTime_construct]) rfl rfl
  | addTimerInLoop p t => exact quiet_inv h he.1 (by simp [loopEvent]) (by simp [loopEvent]) rfl rfl h.reading
  | cancelInLoop id => exact quiet_inv h he.1 (by simp [loopEvent]) (by simp [loopEvent]) rfl rfl h.reading
  | fire => exact quiet_inv h he.1 (by simp [loopEvent]) (by simp [loopEvent]) rfl rfl h.reading
  | handleRead t =>
      refine quiet_inv h he.1 (by simp [loopEvent]) (by simp [loopEvent]) rfl rfl fun expired now rest hp => ?_
      cases hp
      rfl
  | callback =>
      refine quiet_inv h he.1 (by simp [loopEvent]) (by simp [loopEvent]) rfl rfl fun expired now rest hp => ?_
      obtain ⟨expired', now', it, left, hp', hn⟩ := callback_next h.sound he.1
      have hphase : (s.loop.next .callback).phase = .calling expired' now' left := by rw [hn]
      rw [loopEvent, hphase] at hp
      cases hp
      exact h.reading _ _ _ hp'
  | endRead clock => exact endRead_inv h he.1

theorem taken_iff (h : Inv s) {t : Int} (he : s.loop.Enabled (.handleRead (.construct t))) {e : Entry} :
    e ∈ batch (s.next (.handleRead t)).loop.phase ↔
      e ∈ s.loop.queue.timers ∧ s.due e.timer - t ≤ 2 ^ 32 * (wraps (s.due e.timer) - wraps t) := by
  have hexp : e ∈ batch (s.next (.handleRead t)).loop.phase ↔ e ∈ s.loop.queue.timers ∧ e.when ≤ .construct t :=
    expired_iff (beginRead_rooted h.sound he)
  rw [hexp]
  apply and_congr_right
  intro hmem
  obtain ⟨tm, htm, hw, _⟩ := h.sound.rooted.entry e hmem
  rw [← hw, h.stamped e.timer tm htm, construct_le_iff]

theorem handleRead_notEarly_iff (h : Inv s) {t : Int} (he : s.loop.Enabled (.handleRead (.construct t))) :
    NotEarly s (.handleRead t) ↔ NoWrap s (.handleRead t) := by
  constructor
  · intro hearly e hmem hlate
    by_contra hwrap
    have hdue := hearly e ((taken_iff h he).mpr ⟨hmem, not_lt.mp hwrap⟩)
    omega
  · intro hwrap it hit
    obtain ⟨hmem, hstored⟩ := (taken_iff h he).mp hit
    by_contra hlate
    have hlt := hwrap it hmem (not_le.mp hlate)
    omega

def Ripe (s : Timed) : Prop := ∀ it ∈ batch s.loop.phase, s.due it.timer ≤ s.read

theorem inside_ripe {t : Timed} {e : TimerLoop.Event} (h : Inv s) (he : s.loop.Enabled e) (hin : Inside e)
    (hloop : t.loop = s.loop.next e) (hread : t.read = s.read)
    (hdue : ∀ it ∈ batch s.loop.phase, t.due it.timer = s.due it.timer) (hr : Ripe s) : Ripe t := by
  intro it hit
  rw [hloop, inside_batch h.sound he hin] at hit
  rw [hdue it hit, hread]
  exact hr it hit

theorem due_of_create {p : Pointer} {when : TimeStamp} {delta : Int} {repeats : Bool} (h : Inv s)
    (he : s.loop.Enabled (.create p when delta repeats)) (time : Int) {it : Entry} (hit : it ∈ batch s.loop.phase) :
    Function.update s.due p time it.timer = s.due it.timer := by
  obtain ⟨tm, htm⟩ := h.sound.batch_alive hit
  exact Function.update_of_ne (created_ne he htm) _ _

theorem step_ripe (e : Event) (h : Inv s) (he : s.Enabled e) (hw : NoWrap s e) (hr : Ripe s) : Ripe (s.next e) := by
  cases e with
  | runAt p t time =>
      exact inside_ripe h he.1 trivial rfl rfl (fun it hit => due_of_create h he.1 time hit) hr
  | runAfter p t delay =>
      exact inside_ripe h he.1 trivial rfl rfl (fun it hit => due_of_create h he.1 _ hit) hr
  | runEvery p t interval repeats =>
      exact inside_ripe h he.1 trivial rfl rfl (fun it hit => due_of_create h he.1 _ hit) hr
  | addTimerInLoop p t => exact inside_ripe h he.1 trivial rfl rfl (fun _ _ => rfl) hr
  | cancelInLoop id => exact inside_ripe h he.1 trivial rfl rfl (fun _ _ => rfl) hr
  | fire => exact inside_ripe h he.1 trivial rfl rfl (fun _ _ => rfl) hr
  | handleRead t => exact (handleRead_notEarly_iff h he.1).mpr hw
  | callback => exact inside_ripe h he.1 trivial rfl rfl (fun _ _ => rfl) hr
  | endRead clock =>
      intro it hit
      obtain ⟨expired, now, hp⟩ := TimerLoop.endRead_phase he.1
      simp [Timed.next, loopEvent, TimerLoop.next, hp, batch] at hit

theorem step_notEarly (e : Event) (h : Inv s) (he : s.Enabled e) (hw : NoWrap s e) (hr : Ripe s) : NotEarly s e := by
  cases e with
  | handleRead t => exact (handleRead_notEarly_iff h he.1).mpr hw
  | callback =>
      intro it hit
      obtain ⟨expired, now, first, rest, hp, _⟩ := callback_next h.sound he.1
      have hfirst : it = first := by simpa [starts, hp] using hit
      have hbatch := h.sound.rest expired now (first :: rest) hp List.mem_cons_self
      rw [hfirst]
      exact hr first (by rw [hp]; exact hbatch)
  | runAt _ _ _ | runAfter _ _ _ | runEvery _ _ _ _ | addTimerInLoop _ _ | cancelInLoop _ | fire | endRead _ => trivial

theorem never_early_iff_no_wrap (now : Int) (es : List Event) (he : Meets next Enabled (Timed.construct now) es) :
    Meets next NotEarly (Timed.construct now) es ↔ Meets next NoWrap (Timed.construct now) es := by
  constructor
  · intro h
    refine meets_of_step (fun s e hi hd => step_inv s e hi hd.1) (fun s e hi hd => ?_) (construct_inv now)
      (meets_and.mpr ⟨he, h⟩)
    cases e with
    | handleRead t => exact (handleRead_notEarly_iff hi hd.1.1).mp hd.2
    | runAt _ _ _ | runAfter _ _ _ | runEvery _ _ _ _ | addTimerInLoop _ _ | cancelInLoop _ | fire | callback
    | endRead _ => trivial
  · intro h
    refine meets_of_step (I := fun s => Inv s ∧ Ripe s)
      (fun s e hi hd => ⟨step_inv s e hi.1 hd.1, step_ripe e hi.1 hd.1 hd.2 hi.2⟩)
      (fun s e hi hd => step_notEarly e hi.1 hd.1 hd.2 hi.2) ⟨construct_inv now, ?_⟩ (meets_and.mpr ⟨he, h⟩)
    intro it hit
    simp [Timed.construct, TimerLoop.construct, batch] at hit

theorem never_early_repeating :
    Meets next NotEarly (Timed.construct 1000)
      [.runEvery 1 1000 500 true, .addTimerInLoop 1 1010, .fire, .handleRead 1600, .callback, .endRead fun _ => 1610,
        .fire, .handleRead 2100, .callback, .endRead fun _ => 2110] :=
  (never_early_iff_no_wrap 1000 _ (by decide +kernel)).mpr (by decide +kernel)

/-- A timer for two milliseconds later, one millisecond before the stored clock
turns negative: the first handleRead after it runs it at once. -/
theorem timer_across_wrap_is_early :
    ¬ ∀ (now : Int) (es : List Event), Meets next Enabled (Timed.construct now) es →
      Meets next NotEarly (Timed.construct now) es := by
  intro hall
  have h := hall (2 ^ 31 - 1000) [.runAfter 1 (2 ^ 31 - 1000) 2000, .addTimerInLoop 1 (2 ^ 31 - 1000), .fire,
    .handleRead (2 ^ 31 - 900), .callback] (by decide +kernel)
  exact absurd (h.2.2.2.2.1 ⟨.construct (2 ^ 31 + 1000), 1⟩ (by decide +kernel)) (by decide +kernel)

end Webserver.TrueTime
