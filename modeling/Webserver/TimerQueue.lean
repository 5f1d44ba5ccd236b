import Mathlib.Data.Finset.Max
import Mathlib.Data.Finset.Sort
import Mathlib.Data.Prod.Lex
import Webserver.TimeStamp

namespace Webserver

/-- Delays and intervals are seconds in a double; the model keeps what is made
of an interval, the int64_t of addTime and the sign test of the constructor. -/
structure Timer where
  expiration : TimeStamp
  delta : Int
  repeats : Bool
  sequence : Int

def Timer.restart (now : TimeStamp) (t : Timer) : Timer :=
  { t with expiration := if t.repeats then now.addTime t.delta else .invalid }

abbrev Pointer := Nat

def UINTPTR_MAX : Pointer := 2 ^ 64 - 1

structure Entry where
  when : TimeStamp
  timer : Pointer

def Entry.key (e : Entry) : TimeStamp ×ₗ Pointer := toLex (e.when, e.timer)

theorem Entry.key_injective : Function.Injective Entry.key := by
  rintro ⟨t, p⟩ ⟨u, q⟩ h
  simpa [Entry.key] using h

instance : LinearOrder Entry := LinearOrder.lift' Entry.key Entry.key_injective

theorem Entry.lt_iff (e f : Entry) : e < f ↔ e.when < f.when ∨ e.when = f.when ∧ e.timer < f.timer :=
  Prod.Lex.toLex_lt_toLex

theorem Entry.when_le {e f : Entry} (h : e ≤ f) : e.when ≤ f.when := by
  rcases h.lt_or_eq with h | rfl
  · rcases (Entry.lt_iff e f).mp h with h | h
    · exact h.le
    · exact h.1.le
  · exact le_rfl

abbrev ActiveTimer := Pointer × Int

inductive Timerfd
  | disarmed
  | armed
  | expired
deriving DecidableEq

structure Timespec where
  tv_sec : Int
  tv_nsec : Int
deriving DecidableEq

def howMuchTimeFromNow (when now : TimeStamp) : Timespec :=
  let microseconds := (CInt.ofInt (when.microSecondSinceEpoch.val - now.microSecondSinceEpoch.val)).val
  let microseconds := if microseconds < 100 then 100 else microseconds
  ⟨microseconds.tdiv TimeStamp.kMicroSecondsPerSecond,
    (microseconds.tmod TimeStamp.kMicroSecondsPerSecond) * 1000⟩

def Timerfd.settime (value : Timespec) : Timerfd := if value = ⟨0, 0⟩ then .disarmed else .armed

/-- The queue and the objects it points to, in a program with no other queue:
numCreated is the one static s_numCreated_. A set flag fault says that the queue
has used a Timer that was not alive. -/
structure TimerQueue where
  heap : Pointer → Option Timer
  numCreated : CInt
  timers : Finset Entry
  activeTimers : Finset ActiveTimer
  cancelingTimers : Finset ActiveTimer
  callingExpiredTimer : Bool
  timerfd : Timerfd
  fault : Bool

namespace TimerQueue

def construct : TimerQueue := ⟨fun _ => none, CInt.ofInt 0, ∅, ∅, ∅, false, .disarmed, false⟩

def withTimer (p : Pointer) (f : Timer → TimerQueue → TimerQueue) (q : TimerQueue) : TimerQueue :=
  match q.heap p with
  | some tm => f tm q
  | none => { q with fault := true }

def delete (p : Pointer) (q : TimerQueue) : TimerQueue := { q with heap := Function.update q.heap p none }

def create (p : Pointer) (when : TimeStamp) (delta : Int) (repeats : Bool) (q : TimerQueue) : TimerQueue :=
  { q with
    heap := Function.update q.heap p (some ⟨when, delta, repeats, q.numCreated.val⟩)
    numCreated := CInt.ofInt (q.numCreated.val + 1) }

def resetTimerfd (clock expiration : TimeStamp) (q : TimerQueue) : TimerQueue :=
  { q with timerfd := .settime (howMuchTimeFromNow expiration clock) }

def begin (q : TimerQueue) : Option Entry :=
  if h : q.timers.Nonempty then some (q.timers.min' h) else none

def earliestChanged (when : TimeStamp) (q : TimerQueue) : Bool :=
  match q.begin with
  | none => true
  | some it => when < it.when

def insert (p : Pointer) (tm : Timer) (q : TimerQueue) : TimerQueue :=
  { q with
    timers := Insert.insert ⟨tm.expiration, p⟩ q.timers
    activeTimers := Insert.insert (p, tm.sequence) q.activeTimers }

def addTimerInLoop (clock : TimeStamp) (p : Pointer) : TimerQueue → TimerQueue :=
  withTimer p fun tm q =>
    if q.earliestChanged tm.expiration then resetTimerfd clock tm.expiration (insert p tm q)
    else insert p tm q

def cancelInLoop (id : ActiveTimer) (q : TimerQueue) : TimerQueue :=
  if id ∈ q.activeTimers then
    withTimer id.1 (fun tm q =>
      { delete id.1 q with
        timers := q.timers.erase ⟨tm.expiration, id.1⟩
        activeTimers := q.activeTimers.erase id }) q
  else if q.callingExpiredTimer then { q with cancelingTimers := Insert.insert id q.cancelingTimers }
  else q

def readTimerfd (q : TimerQueue) : TimerQueue :=
  { q with timerfd := if q.timerfd = .expired then .disarmed else q.timerfd }

def deactivate (q : TimerQueue) (it : Entry) : TimerQueue :=
  withTimer it.timer (fun tm q => { q with activeTimers := q.activeTimers.erase (it.timer, tm.sequence) }) q

def getExpired (now : TimeStamp) (q : TimerQueue) : List Entry × TimerQueue :=
  let entry : Entry := ⟨now, UINTPTR_MAX⟩
  let expired := (q.timers.filter (· < entry)).sort (· ≤ ·)
  (expired, expired.foldl deactivate { q with timers := q.timers.filter (¬ · < entry) })

def beginRead (now : TimeStamp) (q : TimerQueue) : List Entry × TimerQueue :=
  let r := getExpired now (readTimerfd q)
  (r.1, { r.2 with callingExpiredTimer := true, cancelingTimers := ∅ })

def settle (now : TimeStamp) (it : Entry) : TimerQueue → TimerQueue :=
  withTimer it.timer fun tm q =>
    if tm.repeats ∧ (it.timer, tm.sequence) ∉ q.cancelingTimers then
      insert it.timer (tm.restart now) { q with heap := Function.update q.heap it.timer (some (tm.restart now)) }
    else delete it.timer q

def rearm (clock : TimeStamp) (s : TimerQueue × TimeStamp) : TimerQueue × TimeStamp :=
  let r := match s.1.begin with
    | none => s
    | some e => match s.1.heap e.timer with
      | some tm => (s.1, tm.expiration)
      | none => ({ s.1 with fault := true }, s.2)
  (if r.2.valid then resetTimerfd clock r.2 r.1 else r.1, r.2)

/-- Each round reads the clock anew; the readings are given by how many timers are left. -/
def resetLoop (now : TimeStamp) (clock : Nat → TimeStamp) :
    List Entry → TimerQueue × TimeStamp → TimerQueue × TimeStamp
  | [], s => s
  | it :: expired, s => resetLoop now clock expired (rearm (clock expired.length) (settle now it s.1, s.2))

def reset (now : TimeStamp) (clock : Nat → TimeStamp) (expired : List Entry) (q : TimerQueue) : TimerQueue :=
  (resetLoop now clock expired (q, .invalid)).1

def endRead (now : TimeStamp) (clock : Nat → TimeStamp) (expired : List Entry) (q : TimerQueue) : TimerQueue :=
  reset now clock expired { q with callingExpiredTimer := false }

/-- The loop of ~TimerQueue. The functors of addTimer that still wait are
destroyed with their loop and without having run. -/
def destroy (q : TimerQueue) : TimerQueue :=
  (q.timers.sort (· ≤ ·)).foldl (fun q timer => withTimer timer.timer (fun _ q => q.delete timer.timer) q) q

end TimerQueue

/-- Where the loop thread is with the queue: elsewhere, or in the loop of
handleRead over a batch, with the timers whose callbacks are still to start. -/
inductive Phase
  | idle
  | calling (expired : List Entry) (now : TimeStamp) (rest : List Entry)
deriving DecidableEq

/-- The queue in its program. Timers that addTimer has made wait for their addTimerInLoop. -/
structure TimerLoop where
  queue : TimerQueue
  phase : Phase
  waiting : List Pointer

namespace TimerLoop

def construct : TimerLoop := ⟨.construct, .idle, []⟩

inductive Event
  | create (p : Pointer) (when : TimeStamp) (delta : Int) (repeats : Bool)
  | addTimerInLoop (p : Pointer) (clock : TimeStamp)
  | cancelInLoop (id : ActiveTimer)
  | fire
  | handleRead (now : TimeStamp)
  | callback
  | endRead (clock : Nat → TimeStamp)

def next (w : TimerLoop) : Event → TimerLoop
  | .create p when delta repeats =>
      { w with queue := w.queue.create p when delta repeats, waiting := p :: w.waiting }
  | .addTimerInLoop p clock => { w with queue := w.queue.addTimerInLoop clock p, waiting := w.waiting.erase p }
  | .cancelInLoop id => { w with queue := w.queue.cancelInLoop id }
  | .fire => { w with queue := { w.queue with timerfd := .expired } }
  | .handleRead now =>
      let r := w.queue.beginRead now
      { w with queue := r.2, phase := .calling r.1 now r.1 }
  | .callback => match w.phase with
    | .calling expired now (it :: rest) =>
        { w with queue := w.queue.withTimer it.timer fun _ q => q, phase := .calling expired now rest }
    | _ => w
  | .endRead clock => match w.phase with
    | .calling expired now _ => { w with queue := w.queue.endRead now clock expired, phase := .idle }
    | .idle => w

/-- When a step can happen: new gives an address that is free, a timer is
inserted once, and handleRead goes through its loop before it ends. -/
def Enabled (w : TimerLoop) : Event → Prop
  | .create p _ _ _ => w.queue.heap p = none ∧ p < UINTPTR_MAX
  | .addTimerInLoop p _ => p ∈ w.waiting
  | .cancelInLoop _ => True
  | .fire => w.queue.timerfd = .armed
  | .handleRead _ => w.phase = .idle
  | .callback => match w.phase with
    | .calling _ _ (_ :: _) => True
    | _ => False
  | .endRead _ => match w.phase with
    | .calling _ _ [] => True
    | _ => False

instance (w : TimerLoop) (e : Event) : Decidable (w.Enabled e) :=
  match e with
  | .create _ _ _ _ => inferInstanceAs (Decidable (_ ∧ _))
  | .addTimerInLoop p _ => inferInstanceAs (Decidable (p ∈ w.waiting))
  | .cancelInLoop _ => .isTrue trivial
  | .fire => inferInstanceAs (Decidable (_ = _))
  | .handleRead _ => inferInstanceAs (Decidable (_ = _))
  | .callback => match h : w.phase with
    | .calling _ _ (_ :: _) => .isTrue (by simp [Enabled, h])
    | .calling _ _ [] => .isFalse (by simp [Enabled, h])
    | .idle => .isFalse (by simp [Enabled, h])
  | .endRead _ => match h : w.phase with
    | .calling _ _ (_ :: _) => .isFalse (by simp [Enabled, h])
    | .calling _ _ [] => .isTrue (by simp [Enabled, h])
    | .idle => .isFalse (by simp [Enabled, h])

theorem callback_phase {w : TimerLoop} (h : w.Enabled .callback) :
    ∃ expired now it rest, w.phase = .calling expired now (it :: rest) := by
  simp only [Enabled] at h
  split at h
  · exact ⟨_, _, _, _, ‹_›⟩
  · exact h.elim

theorem endRead_phase {w : TimerLoop} {clock : Nat → TimeStamp} (h : w.Enabled (.endRead clock)) :
    ∃ expired now, w.phase = .calling expired now [] := by
  simp only [Enabled] at h
  split at h
  · exact ⟨_, _, ‹_›⟩
  · exact h.elim

end TimerLoop

end Webserver
