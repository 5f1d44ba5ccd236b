import Webserver.TimerFiring

namespace Webserver.TimerIds

open Runs TimerQueue TimerStore TimerFrame TimerFiring

/-- The loop with the address and the sequence number of every Timer, in the order
they were made. A Timer is known by its place in that order: serial gives the
Timer last made at an address, and noted those whose cancelInLoop was executed
since the last batch began. -/
structure Tracked where
  loop : TimerLoop
  made : List ActiveTimer
  serial : Pointer → Option Nat
  noted : List Nat

namespace Tracked

def construct : Tracked := ⟨.construct, [], fun _ => none, []⟩

inductive Event
  | create (p : Pointer) (when : TimeStamp) (delta : Int) (repeats : Bool)
  | addTimerInLoop (p : Pointer) (clock : TimeStamp)
  | cancelInLoop (k : Nat)
  | fire
  | handleRead (now : TimeStamp)
  | callback
  | endRead (clock : Nat → TimeStamp)

def idOf (s : Tracked) (k : Nat) : ActiveTimer := s.made.getD k (0, 0)

def loopEvent (s : Tracked) : Event → TimerLoop.Event
  | .create p when delta repeats => .create p when delta repeats
  | .addTimerInLoop p clock => .addTimerInLoop p clock
  | .cancelInLoop k => .cancelInLoop (s.idOf k)
  | .fire => .fire
  | .handleRead now => .handleRead now
  | .callback => .callback
  | .endRead clock => .endRead clock

def next (s : Tracked) (e : Event) : Tracked :=
  let w := s.loop.next (s.loopEvent e)
  match e with
  | .create p _ _ _ =>
      { s with
        loop := w
        made := s.made ++ [(p, s.loop.queue.numCreated.val)]
        serial := Function.update s.serial p (some s.made.length) }
  | .cancelInLoop k => { s with loop := w, noted := k :: s.noted }
  | .handleRead _ => { s with loop := w, noted := [] }
  | _ => { s with loop := w }

def Enabled (s : Tracked) (e : Event) : Prop :=
  s.loop.Enabled (s.loopEvent e) ∧ match e with
    | .cancelInLoop k => k < s.made.length
    | _ => True

instance (s : Tracked) (e : Event) : Decidable (s.Enabled e) :=
  match e with
  | .cancelInLoop k => inferInstanceAs (Decidable (_ ∧ k < s.made.length))
  | .create _ _ _ _ | .addTimerInLoop _ _ | .fire | .handleRead _ | .callback | .endRead _ =>
      inferInstanceAs (Decidable (_ ∧ True))

def At (s : Tracked) (k : Nat) (p : Pointer) (tm : Timer) : Prop :=
  s.serial p = some k ∧ s.loop.queue.heap p = some tm

theorem next_loop (s : Tracked) (e : Event) : (s.next e).loop = s.loop.next (s.loopEvent e) := by
  cases e <;> rfl

end Tracked

open Tracked

/-- What the k-th Timer's cancelInLoop is to do to the queue, and what it leaves alone. -/
structure Harmless (s : Tracked) (k : Nat) (q : TimerQueue) : Prop where
  removes : ∀ p tm, s.At k p tm → Present s.loop.queue p tm → Gone q p
  notes : ∀ it ∈ batch s.loop.phase, ∀ tm, s.At k it.timer tm → (it.timer, tm.sequence) ∈ q.cancelingTimers
  others : ∀ j p tm, j ≠ k → s.At j p tm → SameAt p s.loop.queue q

/-- The end of the batch puts back exactly the repeating Timers that were not cancelled themselves. -/
def Settles (s : Tracked) (q : TimerQueue) : Prop :=
  ∀ expired now rest, s.loop.phase = .calling expired now rest → ∀ it ∈ expired, ∀ k tm, s.At k it.timer tm →
    (tm.repeats = true ∧ k ∉ s.noted → Present q it.timer (tm.restart now)) ∧
      (¬ (tm.repeats = true ∧ k ∉ s.noted) → Gone q it.timer)

theorem ofInt_succ (n : Int) : CInt.ofInt ((CInt.ofInt n).val + 1) = CInt.ofInt (n + 1) :=
  Subtype.ext Int.bmod_add_bmod

/-- The counter comes back to a value only after 2 ^ 32 Timers. -/
theorem ofInt_injective {j k : Nat} (hj : j < 2 ^ 32) (hk : k < 2 ^ 32) (h : CInt.ofInt j = CInt.ofInt k) : j = k := by
  have hb := congrArg Subtype.val h
  simp only [CInt.ofInt] at hb
  have hje := Int.bmod_add_bdiv (j : Int) (2 ^ 32)
  have hke := Int.bmod_add_bdiv (k : Int) (2 ^ 32)
  rw [hb] at hje
  omega

variable {w : TimerLoop} {p : Pointer} {tm : Timer}

theorem resetLoop_numCreated {es : List Entry} {q : TimerQueue} {loose : List Pointer}
    (h : Rooted q (es.map Entry.timer ++ loose)) (now : TimeStamp) (clock : Nat → TimeStamp) (before : TimeStamp) :
    (resetLoop now clock es (q, before)).1.numCreated = q.numCreated := by
  induction es generalizing q before with
  | nil => rfl
  | cons it es ih =>
      have hs := h.settle now
      obtain ⟨tm, htm⟩ := h.alive it.timer (by simp)
      have hsettle : (q.settle now it).numCreated = q.numCreated := by
        simp only [settle, withTimer_eq htm]
        split <;> rfl
      have hrearm : (rearm (clock es.length) (q.settle now it, before)).1.numCreated = q.numCreated := by
        rw [hs.rearm_eq, ← hsettle]
        split <;> rfl
      exact (ih (hs.rearm _ _) _).trans hrearm

theorem step_numCreated {e : TimerLoop.Event} (h : Sound w) (he : w.Enabled e)
    (hc : ∀ p when delta repeats, e ≠ .create p when delta repeats) :
    (w.next e).queue.numCreated = w.queue.numCreated := by
  cases e with
  | create p when delta repeats => exact absurd rfl (hc p when delta repeats)
  | addTimerInLoop p clock =>
      obtain ⟨tm, htm⟩ := h.waiting_alive he
      obtain ⟨timerfd, heq⟩ := addTimerInLoop_cases clock htm
      simp only [TimerLoop.next, heq]
      rfl
  | cancelInLoop id => exact (cancelInLoop_trims h.rooted id).numCreated
  | fire => rfl
  | handleRead now =>
      obtain ⟨A, heq, _⟩ := getExpired_eq (beginRead_rooted h he) now
      simp only [TimerLoop.next, beginRead, heq]
      rfl
  | callback =>
      obtain ⟨expired, now, it, rest, _, hn⟩ := callback_next h he
      rw [hn]
  | endRead clock =>
      obtain ⟨expired, now, hp⟩ := TimerLoop.endRead_phase he
      rw [endRead_queue hp clock]
      exact resetLoop_numCreated (endRead_rooted h hp) now clock .invalid

theorem step_heap_cases {e : TimerLoop.Event} (h : Sound w) (he : w.Enabled e)
    (hc : ∀ when delta repeats, e ≠ .create p when delta repeats) (htm : (w.next e).queue.heap p = some tm) :
    (w.queue.heap p = some tm ∧ ∀ clock, e = .endRead clock → p ∉ (batch w.phase).map Entry.timer) ∨
      ∃ clock expired now tm₀, e = .endRead clock ∧ w.phase = .calling expired now [] ∧ p ∈ expired.map Entry.timer ∧
        w.queue.heap p = some tm₀ ∧ tm₀.repeats = true ∧ tm = tm₀.restart now := by
  cases e with
  | create p' when delta repeats =>
      have hne : p ≠ p' := fun heq => hc when delta repeats (by rw [heq])
      exact .inl ⟨(create_same hne when delta repeats w.queue).heap ▸ htm, by simp⟩
  | addTimerInLoop p' clock =>
      obtain ⟨tm', htm'⟩ := h.waiting_alive he
      obtain ⟨timerfd, heq⟩ := addTimerInLoop_cases clock htm'
      simp only [TimerLoop.next, heq] at htm
      exact .inl ⟨htm, by simp⟩
  | cancelInLoop id =>
      refine .inl ⟨?_, by simp⟩
      by_cases hid : id ∈ w.queue.activeTimers
      · by_cases hp : p = id.1
        · subst hp
          have hg := (cancelInLoop_gone h.rooted hid).heap
          simp only [TimerLoop.next] at htm
          simp [hg] at htm
        · obtain ⟨t, heq⟩ := cancelInLoop_active h.rooted hid
          simpa only [TimerLoop.next, heq, TimerQueue.delete, Function.update_of_ne hp] using htm
      · have hheap : (w.queue.cancelInLoop id).heap = w.queue.heap := by
          rw [cancelInLoop_inactive hid]
          split <;> rfl
        simpa only [TimerLoop.next, hheap] using htm
  | fire => exact .inl ⟨htm, by simp⟩
  | handleRead now =>
      rw [beginRead_heap h he now] at htm
      exact .inl ⟨htm, by simp⟩
  | callback =>
      obtain ⟨expired, now, it, rest, _, hn⟩ := callback_next h he
      rw [hn] at htm
      exact .inl ⟨htm, by simp⟩
  | endRead clock =>
      obtain ⟨expired, now, hp⟩ := TimerLoop.endRead_phase he
      by_cases hb : p ∈ expired.map Entry.timer
      · obtain ⟨it, hit, rfl⟩ := List.mem_map.mp hb
        have hit' : it ∈ batch w.phase := by
          rw [hp]
          exact hit
        obtain ⟨tm₀, htm₀⟩ := h.batch_alive hit'
        obtain ⟨hback, hgone⟩ := endRead_own h hp clock hit htm₀
        by_cases hret : tm₀.repeats = true ∧ (it.timer, tm₀.sequence) ∉ w.queue.cancelingTimers
        · have hheap := (hback hret).heap
          rw [htm, Option.some.injEq] at hheap
          exact .inr ⟨clock, expired, now, tm₀, rfl, hp, hb, htm₀, hret.1, hheap⟩
        · have hheap := (hgone hret).heap
          rw [htm] at hheap
          cases hheap
      · rw [(endRead_same h hp clock hb).heap] at htm
        refine .inl ⟨htm, fun _ _ => ?_⟩
        rw [hp]
        exact hb

theorem step_heap {e : TimerLoop.Event} (h : Sound w) (he : w.Enabled e)
    (hc : ∀ when delta repeats, e ≠ .create p when delta repeats) (htm : (w.next e).queue.heap p = some tm) :
    ∃ tm₀, w.queue.heap p = some tm₀ ∧ tm₀.sequence = tm.sequence := by
  rcases step_heap_cases h he hc htm with ⟨hsame, _⟩ | ⟨_, _, now, tm₀, _, _, _, htm₀, _, rfl⟩
  · exact ⟨tm, hsame, rfl⟩
  · exact ⟨tm₀, htm₀, rfl⟩

structure Inv (s : Tracked) : Prop where
  sound : Sound s.loop
  flagged : Flagged s.loop
  owner : ∀ p tm, s.loop.queue.heap p = some tm → ∃ k : Nat, s.serial p = some k ∧ s.made[k]? = some (p, tm.sequence)
  counter : s.loop.queue.numCreated = CInt.ofInt s.made.length
  numbered : ∀ (k : Nat) (id : ActiveTimer), s.made[k]? = some id → id.2 = (CInt.ofInt k).val

variable {s : Tracked}

theorem Inv.idOf_eq (h : Inv s) {k : Nat} (hat : s.At k p tm) : s.idOf k = (p, tm.sequence) := by
  obtain ⟨k', hk, hmade⟩ := h.owner p tm hat.2
  rw [hat.1, Option.some.injEq] at hk
  subst hk
  rw [idOf, List.getD_eq_getElem?_getD, hmade, Option.getD_some]

theorem Inv.lt_made (h : Inv s) {k : Nat} (hat : s.At k p tm) : k < s.made.length := by
  obtain ⟨k', hk, hmade⟩ := h.owner p tm hat.2
  rw [hat.1, Option.some.injEq] at hk
  subst hk
  exact (List.getElem?_eq_some_iff.mp hmade).1

theorem Inv.idOf_ne (h : Inv s) (hn : s.made.length ≤ 2 ^ 32) {j k : Nat} (hk : k < s.made.length) (hjk : j ≠ k)
    (hat : s.At j p tm) : s.idOf k ≠ (p, tm.sequence) := by
  intro heq
  have hj := h.lt_made hat
  rw [← h.idOf_eq hat, idOf, idOf, List.getD_eq_getElem?_getD, List.getD_eq_getElem?_getD,
    List.getElem?_eq_getElem hk, List.getElem?_eq_getElem hj, Option.getD_some, Option.getD_some] at heq
  have hnk := h.numbered k _ (List.getElem?_eq_getElem hk)
  have hnj := h.numbered j _ (List.getElem?_eq_getElem hj)
  rw [heq, hnj] at hnk
  exact hjk (ofInt_injective (hj.trans_le hn) (hk.trans_le hn) (Subtype.ext hnk))

theorem construct_inv : Inv .construct := by
  refine ⟨construct_sound, fun hp => absurd rfl hp, ?_, rfl, ?_⟩
  · intro p tm htm
    simp [Tracked.construct, TimerLoop.construct, TimerQueue.construct] at htm
  · intro k id hk
    simp [Tracked.construct] at hk

theorem create_inv {when : TimeStamp} {delta : Int} {repeats : Bool} (h : Inv s)
    (he : s.loop.Enabled (.create p when delta repeats)) : Inv (s.next (.create p when delta repeats)) := by
  refine ⟨step_sound _ _ h.sound he, step_flagged _ _ h.sound he h.flagged, ?_, ?_, ?_⟩
  · intro p' tm htm
    by_cases hp : p' = p
    · subst hp
      simp only [Tracked.next, loopEvent, TimerLoop.next, TimerQueue.create, Function.update_self,
        Option.some.injEq] at htm
      subst htm
      exact ⟨s.made.length, Function.update_self _ _ _, List.getElem?_concat_length⟩
    · have hsame := (create_same hp when delta repeats s.loop.queue).heap
      obtain ⟨k, hk, hmade⟩ := h.owner p' tm (hsame ▸ htm)
      refine ⟨k, ?_, ?_⟩
      · exact (Function.update_of_ne hp _ _).trans hk
      · simp only [Tracked.next]
        rw [List.getElem?_append_left (List.getElem?_eq_some_iff.mp hmade).1]
        exact hmade
  · simp only [Tracked.next, loopEvent, TimerLoop.next, TimerQueue.create, h.counter, ofInt_succ, List.length_append,
      List.length_singleton]
    rfl
  · intro k id hk
    simp only [Tracked.next] at hk
    rcases Nat.lt_or_ge k s.made.length with hlt | hge
    · rw [List.getElem?_append_left hlt] at hk
      exact h.numbered k id hk
    · obtain rfl : k = s.made.length := by
        have hlen := (List.getElem?_eq_some_iff.mp hk).1
        rw [List.length_append, List.length_singleton] at hlen
        omega
      rw [List.getElem?_concat_length, Option.some.injEq] at hk
      rw [← hk, h.counter]

theorem quiet_inv {t : Tracked} {e : TimerLoop.Event} (h : Inv s) (he : s.loop.Enabled e)
    (hc : ∀ p when delta repeats, e ≠ .create p when delta repeats) (hloop : t.loop = s.loop.next e)
    (hmade : t.made = s.made) (hserial : t.serial = s.serial) : Inv t := by
  have hnum := step_numCreated h.sound he hc
  refine ⟨hloop ▸ step_sound _ _ h.sound he, hloop ▸ step_flagged _ _ h.sound he h.flagged, ?_, ?_, ?_⟩
  · intro p tm htm
    rw [hloop] at htm
    obtain ⟨tm₀, htm₀, hseq⟩ := step_heap h.sound he (hc p) htm
    rw [hserial, hmade, ← hseq]
    exact h.owner p tm₀ htm₀
  · rw [hloop, hnum, hmade]
    exact h.counter
  · rw [hmade]
    exact h.numbered

theorem step_inv (s : Tracked) (e : Event) (h : Inv s) (he : s.Enabled e) : Inv (s.next e) := by
  cases e with
  | create p when delta repeats => exact create_inv h he.1
  | addTimerInLoop p clock => exact quiet_inv h he.1 (by simp [loopEvent]) rfl rfl rfl
  | cancelInLoop k => exact quiet_inv h he.1 (by simp [loopEvent]) rfl rfl rfl
  | fire => exact quiet_inv h he.1 (by simp [loopEvent]) rfl rfl rfl
  | handleRead now => exact quiet_inv h he.1 (by simp [loopEvent]) rfl rfl rfl
  | callback => exact quiet_inv h he.1 (by simp [loopEvent]) rfl rfl rfl
  | endRead clock => exact quiet_inv h he.1 (by simp [loopEvent]) rfl rfl rfl

/-- What reset will find cancelled are the Timers of the batch that were cancelled themselves. -/
def Noted (s : Tracked) : Prop :=
  ∀ it ∈ batch s.loop.phase, ∀ k tm, s.At k it.timer tm →
    ((it.timer, tm.sequence) ∈ s.loop.queue.cancelingTimers ↔ k ∈ s.noted)

theorem cancel_harmless (h : Inv s) (hn : s.made.length ≤ 2 ^ 32) {k : Nat} (hk : k < s.made.length) :
    Harmless s k (s.next (.cancelInLoop k)).loop.queue := by
  constructor
  · intro p tm hat hpres
    have hid := h.idOf_eq hat
    simp only [Tracked.next, loopEvent, TimerLoop.next, hid]
    exact cancelInLoop_gone h.sound.rooted hpres.active
  · intro it hit tm hat
    have hid := h.idOf_eq hat
    simp only [Tracked.next, loopEvent, TimerLoop.next, hid, cancel_batch h.sound h.flagged hit]
    exact Finset.mem_insert_self _ _
  · intro j p tm hjk hat
    apply cancelInLoop_same h.sound.rooted
    intro tm' htm'
    rw [hat.2, Option.some.injEq] at htm'
    subst htm'
    exact h.idOf_ne hn hk hjk hat

theorem inside_noted {t : Tracked} {e : TimerLoop.Event} (h : Inv s) (he : s.loop.Enabled e) (hin : Inside e)
    (hc : ∀ id, e ≠ .cancelInLoop id) (hloop : t.loop = s.loop.next e) (hnoted : t.noted = s.noted)
    (hserial : ∀ it ∈ batch s.loop.phase, t.serial it.timer = s.serial it.timer) (hs : Noted s) : Noted t := by
  intro it hit k tm hat
  rw [hloop, inside_batch h.sound he hin] at hit
  obtain ⟨tm₀, htm₀⟩ := h.sound.batch_alive hit
  have hsame := (inside_same h.sound he hin htm₀ (not_waiting_of_batch h.sound hit) (hc _)).1
  obtain ⟨hk, htm⟩ := hat
  rw [hloop, hsame.heap, htm₀, Option.some.injEq] at htm
  subst htm
  rw [hserial it hit] at hk
  rw [hloop, hsame.canceling tm₀ htm₀, hnoted]
  exact hs it hit k tm₀ ⟨hk, htm₀⟩

theorem step_noted (e : Event) (h : Inv s) (hn : s.made.length ≤ 2 ^ 32) (he : s.Enabled e) (hs : Noted s) :
    Noted (s.next e) := by
  cases e with
  | create p when delta repeats =>
      refine inside_noted h he.1 trivial (by simp [loopEvent]) rfl rfl (fun it hit => ?_) hs
      obtain ⟨tm, htm⟩ := h.sound.batch_alive hit
      exact Function.update_of_ne (created_ne he.1 htm) _ _
  | addTimerInLoop p clock => exact inside_noted h he.1 trivial (by simp [loopEvent]) rfl rfl (fun _ _ => rfl) hs
  | cancelInLoop k =>
      intro it hit j tm hat
      have hat' : s.At j it.timer tm := by
        refine ⟨hat.1, ?_⟩
        have hheap := hat.2
        simp only [Tracked.next, loopEvent, TimerLoop.next] at hheap
        by_cases hid : s.idOf k ∈ s.loop.queue.activeTimers
        · have hne : it.timer ≠ (s.idOf k).1 := by
            intro heq
            exact h.sound.batch_inactive hit (s.idOf k).2 (by rw [heq]; exact hid)
          obtain ⟨t, heq⟩ := cancelInLoop_active h.sound.rooted hid
          simpa [heq, TimerQueue.delete, Function.update_of_ne hne] using hheap
        · rw [cancelInLoop_inactive hid] at hheap
          split at hheap <;> exact hheap
      by_cases hjk : j = k
      · subst hjk
        exact iff_of_true ((cancel_harmless h hn he.2).notes it hit tm hat') (List.mem_cons_self)
      · have hsame := (cancel_harmless h hn he.2).others j it.timer tm hjk hat'
        rw [hsame.canceling tm hat'.2, hs it hit j tm hat']
        simp [Tracked.next, hjk]
  | fire => exact inside_noted h he.1 trivial (by simp [loopEvent]) rfl rfl (fun _ _ => rfl) hs
  | handleRead now =>
      intro it _ k tm _
      simp [Tracked.next, loopEvent, TimerLoop.next, beginRead]
  | callback => exact inside_noted h he.1 trivial (by simp [loopEvent]) rfl rfl (fun _ _ => rfl) hs
  | endRead clock =>
      intro it hit
      obtain ⟨expired, now, hp⟩ := TimerLoop.endRead_phase he.1
      simp [Tracked.next, loopEvent, TimerLoop.next, hp, batch] at hit

theorem end_settles (h : Inv s) (hs : Noted s) {clock : Nat → TimeStamp} (he : s.loop.Enabled (.endRead clock)) :
    Settles s (s.next (.endRead clock)).loop.queue := by
  obtain ⟨expired, now, hp⟩ := TimerLoop.endRead_phase he
  intro expired' now' rest hp' it hit k tm hat
  rw [hp] at hp'
  cases hp'
  rw [← hs it (by rw [hp]; exact hit) k tm hat]
  exact endRead_own h.sound hp clock hit hat.2

theorem made_le_next (s : Tracked) (e : Event) : s.made.length ≤ (s.next e).made.length := by
  cases e with
  | create p when delta repeats => simp [Tracked.next]
  | addTimerInLoop _ _ | cancelInLoop _ | fire | handleRead _ | callback | endRead _ => exact le_rfl

end Webserver.TimerIds
