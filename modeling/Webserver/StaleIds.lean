import Webserver.TimerIds

namespace Webserver.StaleIds

open Runs TimerQueue TimerStore TimerFrame TimerFiring TimerIds

/-- The queue with the TimerIds that addTimer has returned, each for the Timer it has made. -/
structure Issued where
  tracked : Tracked
  ids : Nat → Option ActiveTimer

namespace Issued

def construct : Issued := ⟨.construct, fun _ => none⟩

/-- addTimer is taken apart. After its new, the loop thread goes on with
addTimerInLoop and reads sequence() before it does anything else. Another thread
has addTimerInLoop queued, for the loop to execute at any time, and then reads;
stale is what it finds where there is no Timer any more. -/
inductive Event
  | newTimer (p : Pointer) (when : TimeStamp) (delta : Int) (repeats : Bool)
  | addTimerInLoop (inLoop : Bool) (p : Pointer) (clock : TimeStamp)
  | sequence (k : Nat) (stale : Int)
  | cancelInLoop (k : Nat)
  | fire
  | handleRead (now : TimeStamp)
  | callback
  | endRead (clock : Nat → TimeStamp)

def timer (s : Issued) (k : Nat) : Pointer := (s.tracked.idOf k).1

def timerId (s : Issued) (k : Nat) (stale : Int) : ActiveTimer :=
  (s.timer k, ((s.tracked.loop.queue.heap (s.timer k)).map Timer.sequence).getD stale)

def returns (k : Nat) (stale : Int) (s : Issued) : Issued :=
  { s with ids := Function.update s.ids k (some (s.timerId k stale)) }

def cancel (k : Nat) (id : ActiveTimer) (s : Issued) : Issued :=
  { s with tracked := { s.tracked with loop := s.tracked.loop.next (.cancelInLoop id), noted := k :: s.tracked.noted } }

def on (e : Tracked.Event) (s : Issued) : Issued := { s with tracked := s.tracked.next e }

def next (s : Issued) : Event → Issued
  | .newTimer p when delta repeats => s.on (.create p when delta repeats)
  | .addTimerInLoop inLoop p clock => match inLoop, s.tracked.serial p with
    | true, some k => (s.on (.addTimerInLoop p clock)).returns k 0
    | _, _ => s.on (.addTimerInLoop p clock)
  | .sequence k stale => s.returns k stale
  | .cancelInLoop k => match s.ids k with
    | some id => s.cancel k id
    | none => s
  | .fire => s.on .fire
  | .handleRead now => s.on (.handleRead now)
  | .callback => s.on .callback
  | .endRead clock => s.on (.endRead clock)

def Enabled (s : Issued) : Event → Prop
  | .newTimer p when delta repeats => s.tracked.Enabled (.create p when delta repeats)
  | .addTimerInLoop _ p clock => s.tracked.Enabled (.addTimerInLoop p clock)
  | .sequence k _ => k < s.tracked.made.length ∧ s.ids k = none
  | .cancelInLoop k => (s.ids k).isSome = true
  | .fire => s.tracked.Enabled .fire
  | .handleRead now => s.tracked.Enabled (.handleRead now)
  | .callback => s.tracked.Enabled .callback
  | .endRead clock => s.tracked.Enabled (.endRead clock)

instance (s : Issued) (e : Event) : Decidable (s.Enabled e) :=
  match e with
  | .newTimer _ _ _ _ | .addTimerInLoop _ _ _ | .fire | .handleRead _ | .callback | .endRead _ =>
      inferInstanceAs (Decidable (s.tracked.Enabled _))
  | .sequence _ _ => inferInstanceAs (Decidable (_ ∧ _))
  | .cancelInLoop k => inferInstanceAs (Decidable ((s.ids k).isSome = true))

end Issued

open Issued

/-- addTimer reads sequence() while the Timer that it has made is still alive. -/
def Fresh (s : Issued) : Event → Prop
  | .sequence k _ => s.tracked.serial (s.timer k) = some k ∧ (s.tracked.loop.queue.heap (s.timer k)).isSome = true
  | _ => True

instance (s : Issued) (e : Event) : Decidable (Fresh s e) :=
  match e with
  | .sequence _ _ => inferInstanceAs (Decidable (_ ∧ _))
  | .newTimer _ _ _ _ | .addTimerInLoop _ _ _ | .cancelInLoop _ | .fire | .handleRead _ | .callback | .endRead _ =>
      .isTrue trivial

def Precise (s : Issued) : Event → Prop
  | .cancelInLoop k => Harmless s.tracked k (s.next (.cancelInLoop k)).tracked.loop.queue
  | .endRead clock => Settles s.tracked (s.next (.endRead clock)).tracked.loop.queue
  | _ => True

def Genuine (s : Issued) : Prop := ∀ k id, s.ids k = some id → k < s.tracked.made.length ∧ s.tracked.idOf k = id

structure Inv (s : Issued) : Prop where
  tracked : TimerIds.Inv s.tracked
  noted : Noted s.tracked
  genuine : Genuine s

variable {s : Issued}

theorem timerId_eq (h : TimerIds.Inv s.tracked) {k : Nat} (hs : s.tracked.serial (s.timer k) = some k)
    (ha : (s.tracked.loop.queue.heap (s.timer k)).isSome = true) (stale : Int) :
    k < s.tracked.made.length ∧ s.timerId k stale = s.tracked.idOf k := by
  obtain ⟨tm, htm⟩ := Option.isSome_iff_exists.mp ha
  refine ⟨h.lt_made ⟨hs, htm⟩, ?_⟩
  rw [timerId, htm, h.idOf_eq ⟨hs, htm⟩]
  rfl

theorem Genuine.returns {k : Nat} {stale : Int} (h : Genuine s)
    (hk : k < s.tracked.made.length ∧ s.timerId k stale = s.tracked.idOf k) : Genuine (s.returns k stale) := by
  intro j id hj
  simp only [Issued.returns] at hj ⊢
  by_cases hjk : j = k
  · subst hjk
    rw [Function.update_self, Option.some.injEq] at hj
    exact ⟨hk.1, hk.2.symm.trans hj⟩
  · rw [Function.update_of_ne hjk] at hj
    exact h j id hj

theorem idOf_next (t : Tracked) (e : Tracked.Event) {k : Nat} (hk : k < t.made.length) :
    (t.next e).idOf k = t.idOf k := by
  cases e with
  | create p when delta repeats =>
      simp [Tracked.idOf, Tracked.next, List.getD_eq_getElem?_getD, List.getElem?_append_left hk]
  | addTimerInLoop _ _ | cancelInLoop _ | fire | handleRead _ | callback | endRead _ => rfl

theorem Inv.on (h : Inv s) (hn : s.tracked.made.length ≤ 2 ^ 32) {e : Tracked.Event} (he : s.tracked.Enabled e) :
    Inv (s.on e) := by
  refine ⟨step_inv s.tracked e h.tracked he, step_noted e h.tracked hn he h.noted, fun k id hk => ?_⟩
  obtain ⟨hlt, hid⟩ := h.genuine k id hk
  exact ⟨hlt.trans_le (made_le_next s.tracked e), (idOf_next s.tracked e hlt).trans hid⟩

theorem cancel_eq (h : Genuine s) {k : Nat} {id : ActiveTimer} (hk : s.ids k = some id) :
    s.next (.cancelInLoop k) = s.on (.cancelInLoop k) := by
  obtain ⟨_, rfl⟩ := h k id hk
  simp only [Issued.next, hk]
  rfl

theorem addTimerInLoop_inv {inLoop : Bool} {p : Pointer} {clock : TimeStamp} (h : Inv s)
    (hn : s.tracked.made.length ≤ 2 ^ 32) (he : s.tracked.Enabled (.addTimerInLoop p clock)) :
    Inv (s.next (.addTimerInLoop inLoop p clock)) := by
  have hon := h.on hn he
  obtain ⟨tm, htm⟩ := h.tracked.sound.waiting_alive he.1
  obtain ⟨k, hk, hmade⟩ := h.tracked.owner p tm htm
  obtain ⟨timerfd, heq⟩ := addTimerInLoop_cases clock htm
  cases inLoop with
  | false => exact hon
  | true =>
      have htimer : (s.on (.addTimerInLoop p clock)).timer k = p := by
        have hid := h.tracked.idOf_eq ⟨hk, htm⟩
        exact congrArg Prod.fst hid
      have halive : (s.on (.addTimerInLoop p clock)).tracked.loop.queue.heap p = some tm := by
        simp only [Issued.on, Tracked.next_loop, Tracked.loopEvent, TimerLoop.next, heq]
        exact htm
      simp only [Issued.next, hk]
      refine ⟨hon.tracked, hon.noted, hon.genuine.returns ?_⟩
      exact timerId_eq hon.tracked (htimer ▸ hk) (by rw [htimer, halive]; rfl) 0

theorem step_inv (s : Issued) (e : Event) (h : Inv s) (hn : s.tracked.made.length ≤ 2 ^ 32) (he : s.Enabled e)
    (hf : Fresh s e) : Inv (s.next e) := by
  cases e with
  | newTimer _ _ _ _ | fire | handleRead _ | callback | endRead _ => exact h.on hn he
  | addTimerInLoop inLoop p clock => exact addTimerInLoop_inv h hn he
  | sequence k stale => exact ⟨h.tracked, h.noted, h.genuine.returns (timerId_eq h.tracked hf.1 hf.2 stale)⟩
  | cancelInLoop k =>
      obtain ⟨id, hid⟩ := Option.isSome_iff_exists.mp he
      rw [cancel_eq h.genuine hid]
      exact h.on hn ⟨trivial, (h.genuine k id hid).1⟩

theorem step_precise (e : Event) (h : Inv s) (hn : s.tracked.made.length ≤ 2 ^ 32) (he : s.Enabled e) :
    Precise s e := by
  cases e with
  | cancelInLoop k =>
      obtain ⟨id, hid⟩ := Option.isSome_iff_exists.mp he
      rw [Precise, cancel_eq h.genuine hid]
      exact cancel_harmless h.tracked hn (h.genuine k id hid).1
  | endRead clock => exact end_settles h.tracked h.noted he.1
  | newTimer _ _ _ _ | addTimerInLoop _ _ _ | sequence _ _ | fire | handleRead _ | callback => trivial

theorem made_le (s : Issued) (e : Event) : s.tracked.made.length ≤ (s.next e).tracked.made.length := by
  cases e with
  | newTimer _ _ _ _ | fire | handleRead _ | callback | endRead _ => exact made_le_next s.tracked _
  | addTimerInLoop inLoop p clock =>
      simp only [Issued.next]
      split
      · exact made_le_next s.tracked (.addTimerInLoop p clock)
      · exact made_le_next s.tracked (.addTimerInLoop p clock)
  | sequence _ _ => exact le_rfl
  | cancelInLoop k =>
      simp only [Issued.next]
      split
      · exact le_rfl
      · exact le_rfl

theorem made_le_run (s : Issued) (es : List Event) : s.tracked.made.length ≤ (run next s es).tracked.made.length := by
  induction es generalizing s with
  | nil => exact le_rfl
  | cons e es ih => exact (made_le s e).trans (ih (s.next e))

theorem run_precise {es : List Event} (h : Inv s) (he : Meets next Enabled s es) (hf : Meets next Fresh s es)
    (hn : (run next s es).tracked.made.length ≤ 2 ^ 32) : Meets next Precise s es := by
  induction es generalizing s with
  | nil => trivial
  | cons e es ih =>
      have hn₀ : s.tracked.made.length ≤ 2 ^ 32 := (made_le_run s (e :: es)).trans hn
      exact ⟨step_precise e h hn₀ he.1, ih (step_inv s e h hn₀ he.1 hf.1) he.2 hf.2 hn⟩

/-- Where addTimer comes to read sequence() in time, an id concerns its own Timer only. -/
theorem stale_ids_are_harmless (es : List Event) (he : Meets next Enabled Issued.construct es)
    (hf : Meets next Fresh Issued.construct es)
    (hn : (run next Issued.construct es).tracked.made.length ≤ 2 ^ 32) : Meets next Precise Issued.construct es := by
  refine run_precise ⟨construct_inv, ?_, ?_⟩ he hf hn
  · intro it hit
    simp [Issued.construct, Tracked.construct, TimerLoop.construct, batch] at hit
  · intro k id hk
    cases hk

theorem stale_ids_are_harmless_reused_address :
    Meets next Precise Issued.construct
      [.newTimer 1 (.construct 500) 0 false, .addTimerInLoop false 1 (.construct 100), .sequence 0 0, .fire,
        .handleRead (.construct 600), .callback, .endRead fun _ => .construct 650,
        .newTimer 1 (.construct 700) 300 true, .addTimerInLoop true 1 (.construct 660), .cancelInLoop 0, .fire,
        .handleRead (.construct 800), .cancelInLoop 0, .callback, .endRead fun _ => .construct 850] :=
  stale_ids_are_harmless _ (by decide +kernel) (by decide +kernel) (by decide +kernel)

/-- A worker's timer runs and is deleted before the worker has read its sequence();
by then its address belongs to another timer. -/
def lateRead : List Event :=
  [.newTimer 1 (.construct 500) 0 false, .addTimerInLoop false 1 (.construct 100), .fire,
    .handleRead (.construct 600), .callback, .endRead fun _ => .construct 650, .newTimer 1 (.construct 900) 0 false,
    .addTimerInLoop true 1 (.construct 660), .sequence 0 0]

theorem late_read_cancels_another :
    ¬ ∀ es, Meets next Enabled Issued.construct es → (run next Issued.construct es).tracked.made.length ≤ 2 ^ 32 →
      Meets next Precise Issued.construct es := by
  intro hall
  have hprecise := hall (lateRead ++ [.cancelInLoop 0]) (by decide +kernel) (by decide +kernel)
  have hharmless : Harmless _ 0 _ := meets_iff.mp hprecise lateRead (.cancelInLoop 0) [] rfl
  have halive : ((run next Issued.construct lateRead).tracked.loop.queue.heap 1).isSome = true := by decide +kernel
  have hsame := hharmless.others 1 1 _ (by decide) ⟨by decide +kernel, (Option.some_get halive).symm⟩
  have hheap := congrArg Option.isSome hsame.heap
  revert hheap
  decide +kernel

end Webserver.StaleIds
