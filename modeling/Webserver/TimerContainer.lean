import Webserver.TimerStore

namespace Webserver.TimerContainer

open Runs TimerQueue TimerStore

/-- The Timers that reset passes to delete for one timer of the batch. -/
def settleDeletes (it : Entry) (q : TimerQueue) : List Pointer :=
  match q.heap it.timer with
  | some tm => if tm.repeats ∧ (it.timer, tm.sequence) ∉ q.cancelingTimers then [] else [it.timer]
  | none => [it.timer]

def resetDeletes (now : TimeStamp) (clock : Nat → TimeStamp) : List Entry → TimerQueue × TimeStamp → List Pointer
  | [], _ => []
  | it :: expired, s =>
      settleDeletes it s.1 ++ resetDeletes now clock expired (rearm (clock expired.length) (settle now it s.1, s.2))

def deletes (w : TimerLoop) : TimerLoop.Event → List Pointer
  | .cancelInLoop id => if id ∈ w.queue.activeTimers then [id.1] else []
  | .endRead clock => match w.phase with
    | .calling expired now _ => resetDeletes now clock expired ({ w.queue with callingExpiredTimer := false }, .invalid)
    | .idle => []
  | _ => []

def creates : TimerLoop.Event → List Pointer
  | .create p _ _ _ => [p]
  | _ => []

structure Counted where
  loop : TimerLoop
  created : Pointer → Nat
  deleted : Pointer → Nat

namespace Counted

def construct : Counted := ⟨.construct, fun _ => 0, fun _ => 0⟩

def next (c : Counted) (e : TimerLoop.Event) : Counted :=
  ⟨c.loop.next e, fun p => c.created p + (creates e).count p, fun p => c.deleted p + (deletes c.loop e).count p⟩

def Enabled (c : Counted) (e : TimerLoop.Event) : Prop := c.loop.Enabled e

instance (c : Counted) (e : TimerLoop.Event) : Decidable (c.Enabled e) := inferInstanceAs (Decidable (c.loop.Enabled e))

end Counted

def live (q : TimerQueue) (p : Pointer) : Nat := if (q.heap p).isSome then 1 else 0

/-- The two sets index the same live timers, each once and under its own stamp
and number; the batch that is being run is alive and in neither; every Timer made
at an address is deleted before the next one, except the live one, and the
queue has used no dead one. -/
structure Represented (c : Counted) : Prop where
  paired : ∀ p, (∃ s, (p, s) ∈ c.loop.queue.activeTimers) ↔ ∃ t, ⟨t, p⟩ ∈ c.loop.queue.timers
  fields : ∀ p s t, (p, s) ∈ c.loop.queue.activeTimers → ⟨t, p⟩ ∈ c.loop.queue.timers →
    ∃ tm, c.loop.queue.heap p = some tm ∧ tm.sequence = s ∧ tm.expiration = t
  activeOnce : ∀ p s s', (p, s) ∈ c.loop.queue.activeTimers → (p, s') ∈ c.loop.queue.activeTimers → s = s'
  entryOnce : ∀ p t t', ⟨t, p⟩ ∈ c.loop.queue.timers → ⟨t', p⟩ ∈ c.loop.queue.timers → t = t'
  batchLive : ∀ e ∈ batch c.loop.phase, (c.loop.queue.heap e.timer).isSome
  batchApart : ∀ e ∈ batch c.loop.phase, (∀ s, (e.timer, s) ∉ c.loop.queue.activeTimers) ∧
    ∀ t, ⟨t, e.timer⟩ ∉ c.loop.queue.timers
  deletedOnce : ∀ p, c.created p = c.deleted p + live c.loop.queue p
  undisturbed : c.loop.queue.fault = false

variable {q : TimerQueue} {p : Pointer} {loose : List Pointer}

theorem Rooted.activeOnce (h : Rooted q loose) {s s' : Int} (hs : (p, s) ∈ q.activeTimers)
    (hs' : (p, s') ∈ q.activeTimers) : s = s' := by
  obtain ⟨tm, htm, hseq, _⟩ := h.active _ hs
  obtain ⟨tm', htm', hseq', _⟩ := h.active _ hs'
  rw [htm] at htm'
  obtain rfl : tm = tm' := by simpa using htm'
  exact hseq.symm.trans hseq'

theorem Rooted.fields (h : Rooted q loose) {s : Int} {t : TimeStamp} (hs : (p, s) ∈ q.activeTimers)
    (ht : ⟨t, p⟩ ∈ q.timers) : ∃ tm, q.heap p = some tm ∧ tm.sequence = s ∧ tm.expiration = t := by
  obtain ⟨tm, htm, hw, ha⟩ := h.entry _ ht
  exact ⟨tm, htm, Rooted.activeOnce h ha hs, hw⟩

theorem Rooted.paired (h : Rooted q loose) (p : Pointer) :
    (∃ s, (p, s) ∈ q.activeTimers) ↔ ∃ t, ⟨t, p⟩ ∈ q.timers := by
  constructor
  · rintro ⟨s, hs⟩
    obtain ⟨tm, _, _, he⟩ := h.active _ hs
    exact ⟨tm.expiration, he⟩
  · rintro ⟨t, ht⟩
    obtain ⟨tm, _, _, ha⟩ := h.entry _ ht
    exact ⟨tm.sequence, ha⟩

theorem live_congr {r : TimerQueue} (h : r.heap = q.heap) (p : Pointer) : live r p = live q p := by
  simp only [live, h]

theorem live_delete {p' : Pointer} (h : (q.heap p').isSome) (p : Pointer) :
    live q p = [p'].count p + live (q.delete p') p := by
  by_cases hp : p = p'
  · subst hp
    simp [live, TimerQueue.delete, h]
  · have hne : p' ≠ p := fun he => hp he.symm
    simp [live, TimerQueue.delete, hp, hne]

theorem live_settle {it : Entry} (h : Rooted q (it.timer :: loose)) (now : TimeStamp) (p : Pointer) :
    live q p = (settleDeletes it q).count p + live (q.settle now it) p := by
  obtain ⟨tm, htm⟩ := h.alive it.timer (by simp)
  simp only [settleDeletes, htm, TimerQueue.settle, withTimer_eq htm]
  split
  · by_cases hp : p = it.timer
    · subst hp
      simp [live, TimerQueue.insert, htm]
    · simp [live, TimerQueue.insert, hp]
  · exact live_delete (by simp [htm]) p

theorem rearm_heap (h : Rooted q loose) (clock before : TimeStamp) : (rearm clock (q, before)).1.heap = q.heap := by
  rw [h.rearm_eq]
  split
  · rfl
  · rfl

theorem live_resetLoop {es : List Entry} (h : Rooted q (es.map Entry.timer ++ loose)) (now : TimeStamp)
    (clock : Nat → TimeStamp) (before : TimeStamp) (p : Pointer) :
    live q p = (resetDeletes now clock es (q, before)).count p + live (resetLoop now clock es (q, before)).1 p := by
  induction es generalizing q before with
  | nil => simp [resetDeletes, TimerQueue.resetLoop]
  | cons it es ih =>
      have hs := h.settle now
      have hi := ih (hs.rearm (clock es.length) before) (rearm (clock es.length) (q.settle now it, before)).2
      rw [live_congr (rearm_heap hs (clock es.length) before)] at hi
      rw [live_settle h now p, hi, resetDeletes, List.count_append, Nat.add_assoc]
      rfl

theorem live_cancelInLoop (h : Rooted q loose) (id : ActiveTimer) (p : Pointer) :
    live q p = (if id ∈ q.activeTimers then [id.1] else []).count p + live (q.cancelInLoop id) p := by
  by_cases hid : id ∈ q.activeTimers
  · obtain ⟨tm, htm, _⟩ := h.active id hid
    obtain ⟨t, he⟩ := cancelInLoop_active h hid
    rw [he, if_pos hid]
    exact live_delete (by simp [htm]) p
  · rw [cancelInLoop_inactive hid, if_neg hid]
    split
    · simp [live]
    · simp

theorem live_getExpired (h : Rooted q loose) (now : TimeStamp) (p : Pointer) :
    live (q.getExpired now).2 p = live q p := by
  obtain ⟨A, heq, _⟩ := getExpired_eq h now
  rw [heq]
  rfl

theorem live_create (hfree : q.heap p = none) (when : TimeStamp) (delta : Int) (repeats : Bool) (p' : Pointer) :
    live q p' + [p].count p' = live (q.create p when delta repeats) p' := by
  by_cases hp : p' = p
  · subst hp
    simp [live, TimerQueue.create, hfree]
  · have hne : p ≠ p' := fun he => hp he.symm
    simp [live, TimerQueue.create, hp, hne]

theorem addTimerInLoop_heap (h : Rooted q loose) (hp : p ∈ loose) (clock : TimeStamp) :
    (q.addTimerInLoop clock p).heap = q.heap := by
  obtain ⟨tm, htm⟩ := h.alive p hp
  obtain ⟨timerfd, he⟩ := addTimerInLoop_cases clock htm
  rw [he]
  rfl

theorem live_quiet {w : TimerLoop} {e : TimerLoop.Event} (hc : creates e = []) (hd : deletes w e = [])
    (hh : ∀ p, live (w.next e).queue p = live w.queue p) (p : Pointer) :
    live w.queue p + (creates e).count p = (deletes w e).count p + live (w.next e).queue p := by
  rw [hc, hd, hh p]
  simp

theorem live_step {w : TimerLoop} {e : TimerLoop.Event} (h : Sound w) (he : w.Enabled e) (p : Pointer) :
    live w.queue p + (creates e).count p = (deletes w e).count p + live (w.next e).queue p := by
  cases e with
  | create p' when delta repeats =>
      rw [show deletes w (.create p' when delta repeats) = [] from rfl, List.count_nil, Nat.zero_add]
      exact live_create he.1 when delta repeats p
  | addTimerInLoop p' clock =>
      refine live_quiet rfl rfl (live_congr ?_) p
      exact addTimerInLoop_heap h.rooted (List.mem_append_right _ he) clock
  | cancelInLoop id => exact live_cancelInLoop h.rooted id p
  | fire => exact live_quiet rfl rfl (live_congr rfl) p
  | handleRead now =>
      have hr : Rooted w.queue.readTimerfd ((batch w.phase).map Entry.timer ++ w.waiting) :=
        h.rooted.congr rfl rfl rfl rfl
      have hl : ∀ p, live (w.next (.handleRead now)).queue p = live w.queue p := fun p =>
        (live_congr rfl p).trans ((live_getExpired hr now p).trans (live_congr rfl p))
      exact live_quiet rfl rfl hl p
  | callback =>
      obtain ⟨expired, now, it, rest, hp, hn⟩ := callback_next h he
      refine live_quiet rfl rfl (live_congr ?_) p
      rw [hn]
  | endRead clock =>
      obtain ⟨expired, now, hp⟩ := TimerLoop.endRead_phase he
      simp only [deletes, creates, TimerLoop.next, hp, List.count_nil, Nat.add_zero]
      exact live_resetLoop (endRead_rooted h hp) now clock .invalid p

structure Inv (c : Counted) : Prop where
  sound : Sound c.loop
  books : ∀ p, c.created p = c.deleted p + live c.loop.queue p

theorem construct_inv : Inv .construct := ⟨construct_sound, fun _ => rfl⟩

theorem step_inv (c : Counted) (e : TimerLoop.Event) (h : Inv c) (he : c.Enabled e) : Inv (c.next e) := by
  refine ⟨step_sound c.loop e h.sound he, fun p => ?_⟩
  have hb := h.books p
  have hs := live_step h.sound he p
  simp only [Counted.next]
  omega

theorem Inv.represented {c : Counted} (h : Inv c) : Represented c := by
  have hr := h.sound.rooted
  have hmem : ∀ e ∈ batch c.loop.phase, e.timer ∈ (batch c.loop.phase).map Entry.timer ++ c.loop.waiting :=
    fun e he => List.mem_append_left _ (List.mem_map_of_mem he)
  refine ⟨Rooted.paired hr, fun p s t => Rooted.fields hr, fun p s s' => Rooted.activeOnce hr, ?_, ?_, ?_, h.books,
    hr.sound⟩
  · intro p t t' ht ht'
    exact congrArg Entry.when (hr.entry_eq ht ht' rfl)
  · intro e he
    obtain ⟨tm, htm⟩ := hr.alive e.timer (hmem e he)
    simp [htm]
  · intro e he
    refine ⟨hr.apart e.timer (hmem e he), fun t ht => ?_⟩
    exact hr.apart_entry (hmem e he) ht rfl

/-- At every point where code of the loop thread can run, callbacks included, and
under any reuse of addresses. -/
theorem always_represented (es : List TimerLoop.Event) (he : Meets Counted.next Counted.Enabled .construct es) :
    Always Counted.next Represented .construct es :=
  always_mono (fun _ h => h.represented) (always_of_step step_inv construct_inv he)

theorem always_represented_reused_address :
    Always Counted.next Represented .construct
      [.create 1 (.construct 500) 700 true, .addTimerInLoop 1 (.construct 100), .create 2 (.construct 900) 0 false,
        .addTimerInLoop 2 (.construct 100), .fire, .handleRead (.construct 600), .callback, .cancelInLoop (1, 0),
        .endRead fun _ => .construct 650, .create 1 (.construct 800) 0 false, .addTimerInLoop 1 (.construct 700)] :=
  always_represented _ (by decide +kernel)

end Webserver.TimerContainer
