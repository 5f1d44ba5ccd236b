import Webserver.TimerStore

namespace Webserver.TimerArming

open Runs TimerQueue TimerStore

def Watched (w : TimerLoop) : Prop :=
  w.phase = .idle → w.queue.timers.Nonempty → w.queue.timerfd ≠ .disarmed

def returning (now : TimeStamp) (q : TimerQueue) (it : Entry) : Option TimeStamp :=
  match q.heap it.timer with
  | some tm =>
      if tm.repeats ∧ (it.timer, tm.sequence) ∉ q.cancelingTimers then some (tm.restart now).expiration
      else none
  | none => none

/-- The stamp that reset puts back before it first finds timers_ non-empty. -/
def firstReturning (now : TimeStamp) (q : TimerQueue) (expired : List Entry) : Option TimeStamp :=
  if q.timers.Nonempty then expired.head?.bind (returning now q) else (expired.filterMap (returning now q)).head?

/-- When reset sets the timerfd or has no need to: a timer that stays in timers_
needs a batch that is not empty, and all stamps that reset meets first are valid. -/
structure Arms (now : TimeStamp) (expired : List Entry) (q : TimerQueue) : Prop where
  batch : q.timers.Nonempty → expired ≠ []
  stamps : ∀ e ∈ q.timers, e.when.valid = true
  first : ∀ t ∈ firstReturning now q expired, t.valid = true

instance (now : TimeStamp) (expired : List Entry) (q : TimerQueue) : Decidable (Arms now expired q) :=
  decidable_of_iff ((q.timers.Nonempty → expired ≠ []) ∧ (∀ e ∈ q.timers, e.when.valid = true) ∧
      ∀ t ∈ firstReturning now q expired, t.valid = true)
    ⟨fun h => ⟨h.1, h.2.1, h.2.2⟩, fun h => ⟨h.batch, h.stamps, h.first⟩⟩

/-- The condition on the end of handleRead: a read that has left the timerfd
disarmed, with no callback that set it again, needs reset to do so. -/
def Rearmed (w : TimerLoop) : TimerLoop.Event → Prop
  | .endRead _ => match w.phase with
    | .calling expired now _ => w.queue.timerfd = .disarmed → Arms now expired w.queue
    | .idle => True
  | _ => True

instance (w : TimerLoop) (e : TimerLoop.Event) : Decidable (Rearmed w e) :=
  match e with
  | .endRead _ => match h : w.phase with
    | .calling expired now _ =>
        decidable_of_iff (w.queue.timerfd = .disarmed → Arms now expired w.queue) (by simp [Rearmed, h])
    | .idle => .isTrue (by simp [Rearmed, h])
  | .create _ _ _ _ | .addTimerInLoop _ _ | .cancelInLoop _ | .fire | .handleRead _ | .callback => .isTrue trivial

theorem howMuchTimeFromNow_ne_zero (when now : TimeStamp) : howMuchTimeFromNow when now ≠ ⟨0, 0⟩ := by
  simp only [howMuchTimeFromNow, ne_eq, Timespec.mk.injEq, TimeStamp.kMicroSecondsPerSecond]
  generalize (CInt.ofInt (when.microSecondSinceEpoch.val - now.microSecondSinceEpoch.val)).val = d
  have hm : 100 ≤ if d < 100 then 100 else d := by split <;> omega
  generalize (if d < 100 then 100 else d) = m at hm ⊢
  rintro ⟨hs, hn⟩
  have hd := Int.mul_tdiv_add_tmod m (1000 * 1000)
  rw [hs] at hd
  omega

theorem resetTimerfd_timerfd (clock expiration : TimeStamp) (q : TimerQueue) :
    (resetTimerfd clock expiration q).timerfd = .armed := by
  simp [resetTimerfd, Timerfd.settime, howMuchTimeFromNow_ne_zero]

variable {q : TimerQueue} {it : Entry} {loose : List Pointer} {now : TimeStamp}

theorem settle_spec (h : Rooted q (it.timer :: loose)) (now : TimeStamp) :
    (q.settle now it).timers = ((returning now q it).elim q.timers fun t => Insert.insert ⟨t, it.timer⟩ q.timers) ∧
      (q.settle now it).timerfd = q.timerfd ∧ (q.settle now it).cancelingTimers = q.cancelingTimers ∧
      ∀ p, p ≠ it.timer → (q.settle now it).heap p = q.heap p := by
  obtain ⟨tm, htm⟩ := h.alive it.timer (by simp)
  simp only [settle, withTimer_eq htm, returning, htm]
  split
  · exact ⟨rfl, rfl, rfl, fun p hp => Function.update_of_ne hp _ _⟩
  · exact ⟨rfl, rfl, rfl, fun p hp => Function.update_of_ne hp _ _⟩

theorem returning_settle (h : Rooted q (it.timer :: loose)) {it' : Entry} (hne : it'.timer ≠ it.timer) :
    returning now (q.settle now it) it' = returning now q it' := by
  obtain ⟨_, _, hc, hh⟩ := settle_spec h now
  simp only [returning, hc, hh _ hne]

theorem begin_valid_iff (hne : q.timers.Nonempty) (before : TimeStamp) :
    (q.begin.elim before Entry.when).valid = true ↔ ∀ e ∈ q.timers, e.when.valid = true := by
  obtain ⟨e, he, hb, hmin⟩ := begin_of_nonempty hne
  simp only [hb, Option.elim_some]
  exact ⟨fun hv f hf => TimeStamp.valid_of_le (Entry.when_le (hmin f hf)) hv, fun hv => hv e he⟩

theorem rearm_timerfd (h : Rooted q loose) (clock before : TimeStamp) :
    (rearm clock (q, before)).1.timerfd =
      if (q.begin.elim before Entry.when).valid then .armed else q.timerfd := by
  rw [h.rearm_eq]
  split
  · exact resetTimerfd_timerfd _ _ _
  · rfl

theorem rearm_timers (h : Rooted q loose) (clock before : TimeStamp) :
    (rearm clock (q, before)).1.timers = q.timers := by
  rw [h.rearm_eq]
  split
  · rfl
  · rfl

theorem resetLoop_awake {es : List Entry} (h : Rooted q (es.map Entry.timer ++ loose)) (now : TimeStamp)
    (clock : Nat → TimeStamp) (before : TimeStamp) (hq : q.timerfd ≠ .disarmed) :
    (resetLoop now clock es (q, before)).1.timerfd ≠ .disarmed := by
  induction es generalizing q before with
  | nil => exact hq
  | cons it es ih =>
      have hs := h.settle now
      apply ih (hs.rearm _ _)
      rw [rearm_timerfd hs, (settle_spec h now).2.1]
      split
      · simp
      · exact hq

theorem resetLoop_asleep {es : List Entry} (h : Rooted q (es.map Entry.timer ++ loose)) (now : TimeStamp)
    (clock : Nat → TimeStamp) (before : TimeStamp) (hq : q.timerfd = .disarmed) {e : Entry}
    (he : e ∈ q.timers) (hv : e.when.valid = false) :
    (resetLoop now clock es (q, before)).1.timers.Nonempty ∧
      (resetLoop now clock es (q, before)).1.timerfd = .disarmed := by
  induction es generalizing q before with
  | nil => exact ⟨⟨e, he⟩, hq⟩
  | cons it es ih =>
      have hs := h.settle now
      obtain ⟨ht, hfd, _, _⟩ := settle_spec h now
      have hmem : e ∈ (q.settle now it).timers := by
        rw [ht]
        cases returning now q it with
        | none => exact he
        | some t => exact Finset.mem_insert_of_mem he
      refine ih (hs.rearm _ _) _ ?_ ?_
      · rw [rearm_timerfd hs, if_neg, hfd, hq]
        rw [begin_valid_iff ⟨e, hmem⟩]
        intro hall
        simp [hall e hmem] at hv
      · rw [rearm_timers hs]; exact hmem

theorem firstReturning_cons_some {t : TimeStamp} (ht : returning now q it = some t) (es : List Entry) :
    firstReturning now q (it :: es) = some t := by
  simp [firstReturning, ht]

theorem firstReturning_cons_none {es : List Entry} (hn : returning now q it = none) (he : q.timers = ∅)
    (h : Rooted q (it.timer :: (es.map Entry.timer ++ loose))) :
    firstReturning now (q.settle now it) es = firstReturning now q (it :: es) := by
  have hs : (q.settle now it).timers = ∅ := by
    rw [(settle_spec h now).1, hn, he]
    rfl
  have hmap : es.filterMap (returning now (q.settle now it)) = es.filterMap (returning now q) := by
    refine List.filterMap_congr fun it' hm => returning_settle h fun hp => ?_
    exact (List.nodup_cons.mp h.nodup).1 (List.mem_append_left _ (hp ▸ List.mem_map_of_mem hm))
  simp [firstReturning, hs, he, hn, hmap]

theorem arms_cons_iff {es : List Entry} (h : Rooted q (it.timer :: loose))
    (hne : (q.settle now it).timers.Nonempty) :
    Arms now (it :: es) q ↔ ∀ e ∈ (q.settle now it).timers, e.when.valid = true := by
  have ht := (settle_spec h now).1
  rw [ht] at hne ⊢
  cases hr : returning now q it with
  | none =>
      rw [hr] at hne
      have hfirst : firstReturning now q (it :: es) = none := by
        simp only [firstReturning, show q.timers.Nonempty from hne, if_true, List.head?_cons, Option.bind_some, hr]
      exact ⟨fun ha => ha.stamps, fun hv => ⟨by simp, hv, by simp [hfirst]⟩⟩
  | some t =>
      have hfirst := firstReturning_cons_some hr es
      simp only [Option.elim_some, Finset.forall_mem_insert]
      exact ⟨fun ha => ⟨ha.first t hfirst, ha.stamps⟩, fun hv => ⟨by simp, hv.2, by simpa [hfirst] using hv.1⟩⟩

theorem resetLoop_watched_iff {es : List Entry} (h : Rooted q (es.map Entry.timer ++ loose)) (now : TimeStamp)
    (clock : Nat → TimeStamp) (before : TimeStamp) (hq : q.timerfd = .disarmed)
    (hb : q.timers = ∅ → before.valid = false) :
    ((resetLoop now clock es (q, before)).1.timers.Nonempty →
      (resetLoop now clock es (q, before)).1.timerfd ≠ .disarmed) ↔ Arms now es q := by
  induction es generalizing q before with
  | nil =>
      simp only [resetLoop, hq, ne_eq, not_true, imp_false, Finset.not_nonempty_iff_eq_empty]
      constructor
      · intro he
        exact ⟨by simp [he], by simp [he], by simp [firstReturning]⟩
      · intro ha
        by_contra hne
        exact ha.batch (Finset.nonempty_iff_ne_empty.mpr hne) rfl
  | cons it es ih =>
      have hs := h.settle now
      obtain ⟨ht, hfd, _, _⟩ := settle_spec h now
      simp only [resetLoop]
      by_cases hne : (q.settle now it).timers.Nonempty
      · rw [arms_cons_iff h hne]
        by_cases hall : ∀ e ∈ (q.settle now it).timers, e.when.valid = true
        · refine iff_of_true (fun _ => resetLoop_awake (hs.rearm _ _) _ _ _ ?_) hall
          rw [rearm_timerfd hs, if_pos ((begin_valid_iff hne before).mpr hall)]
          simp
        · refine iff_of_false (fun hw => ?_) hall
          push Not at hall
          obtain ⟨e, he, hv⟩ := hall
          have hoff : (rearm (clock es.length) (q.settle now it, before)).1.timerfd = .disarmed := by
            rw [rearm_timerfd hs, if_neg, hfd, hq]
            rw [begin_valid_iff hne]
            exact fun hv' => hv (hv' e he)
          obtain ⟨hn, hd⟩ := resetLoop_asleep (hs.rearm _ _) now clock
            (rearm (clock es.length) (q.settle now it, before)).2 hoff
            (by rw [rearm_timers hs]; exact he) (by simpa using hv)
          exact hw hn hd
      · have hempty := Finset.not_nonempty_iff_eq_empty.mp hne
        have hnone : returning now q it = none ∧ q.timers = ∅ := by
          rw [ht] at hempty
          cases hr : returning now q it with
          | none => exact ⟨rfl, by simpa [hr] using hempty⟩
          | some t => simp [hr] at hempty
        have hstay : rearm (clock es.length) (q.settle now it, before) = (q.settle now it, before) := by
          rw [hs.rearm_eq, begin_eq_none hempty]
          simp [hb hnone.2]
        rw [hstay, ih hs before (hfd.trans hq) (fun _ => hb hnone.2)]
        have hfirst := firstReturning_cons_none hnone.1 hnone.2 h
        constructor
        · intro ha
          exact ⟨by simp, by simp [hnone.2], hfirst ▸ ha.first⟩
        · intro ha
          exact ⟨by simp [hempty], by simp [hempty], hfirst.symm ▸ ha.first⟩

theorem addTimerInLoop_watched (clock : TimeStamp) {p : Pointer} {tm : Timer} (htm : q.heap p = some tm)
    (h : q.timers.Nonempty → q.timerfd ≠ .disarmed) : (q.addTimerInLoop clock p).timerfd ≠ .disarmed := by
  simp only [addTimerInLoop, withTimer_eq htm]
  split
  · rw [resetTimerfd_timerfd]
    simp
  · rename_i hc
    refine h (Finset.nonempty_iff_ne_empty.mpr fun he => hc ?_)
    simp [earliestChanged, begin_eq_none he]

theorem step_watched_iff (w : TimerLoop) (e : TimerLoop.Event) (h : Sound w) (he : w.Enabled e)
    (hw : Watched w) : Watched (w.next e) ↔ Rearmed w e := by
  cases e with
  | create p when delta repeats => exact iff_of_true hw trivial
  | addTimerInLoop p clock =>
      refine iff_of_true (fun hp _ => ?_) trivial
      obtain ⟨tm, htm⟩ := h.waiting_alive he
      exact addTimerInLoop_watched clock htm (hw hp)
  | cancelInLoop id =>
      have htrims := cancelInLoop_trims h.rooted id
      refine iff_of_true (fun hp hne => ?_) trivial
      simp only [TimerLoop.next] at hne ⊢
      rw [htrims.timerfd]
      exact hw hp (hne.mono htrims.timers)
  | fire => exact iff_of_true (fun _ _ => by simp [TimerLoop.next]) trivial
  | handleRead now => exact iff_of_true (fun hp => by simp [TimerLoop.next] at hp) trivial
  | callback =>
      obtain ⟨expired, now, it, rest, hp⟩ := TimerLoop.callback_phase he
      refine iff_of_true (fun hq => ?_) trivial
      simp [TimerLoop.next, hp] at hq
  | endRead clock =>
      obtain ⟨expired, now, hp⟩ := TimerLoop.endRead_phase he
      have hr := endRead_rooted h hp
      simp only [Watched, TimerLoop.next, Rearmed, hp, true_implies]
      by_cases hfd : w.queue.timerfd = .disarmed
      · have hiff := resetLoop_watched_iff hr now clock .invalid hfd (fun _ => by decide)
        refine hiff.trans ⟨fun ha _ => ⟨ha.batch, ha.stamps, ha.first⟩, fun ha => ?_⟩
        obtain ⟨hb, hs, hf⟩ := ha hfd
        exact ⟨hb, hs, hf⟩
      · exact iff_of_true (fun _ => resetLoop_awake hr now clock .invalid hfd) (fun hd => absurd hd hfd)

/-- In every run of the queue no timer is ever stalled between the steps of the
loop thread exactly if every end of handleRead rearms. -/
theorem always_watched_iff_rearmed (es : List TimerLoop.Event)
    (he : Meets TimerLoop.next TimerLoop.Enabled .construct es) :
    Always TimerLoop.next Watched .construct es ↔ Meets TimerLoop.next Rearmed .construct es :=
  always_iff_meets step_sound step_watched_iff construct_sound
    (fun _ hne => by simp [TimerLoop.construct, TimerQueue.construct] at hne) he

def seconds (n : Int) : TimeStamp := .construct (n * TimeStamp.kMicroSecondsPerSecond)

def repeated : List TimerLoop.Event :=
  [.create 1 (seconds 1) 2000000 true, .addTimerInLoop 1 (seconds 0), .create 2 (seconds 10) 0 false,
    .addTimerInLoop 2 (seconds 0), .fire, .handleRead (seconds 1), .callback, .endRead fun _ => seconds 1]

theorem always_watched_repeated : Always TimerLoop.next Watched .construct repeated :=
  (always_watched_iff_rearmed repeated (by decide +kernel)).mpr (by decide +kernel)

/-- The earlier of two timers is cancelled, but the timerfd still fires for it.
The batch is empty, and the later timer is left with a timerfd that is disarmed. -/
def firstCancelled : List TimerLoop.Event :=
  [.create 1 (seconds 1) 0 false, .addTimerInLoop 1 (seconds 0), .create 2 (seconds 10) 0 false,
    .addTimerInLoop 2 (seconds 0), .cancelInLoop (1, 0), .fire, .handleRead (seconds 1), .endRead fun _ => seconds 1]

theorem cancelled_first_stalls_second :
    Meets TimerLoop.next TimerLoop.Enabled .construct firstCancelled ∧
      ¬ Always TimerLoop.next Watched .construct firstCancelled := by
  refine ⟨by decide +kernel, fun h => ?_⟩
  exact h.last (by decide +kernel) (by decide +kernel) (by decide +kernel)

end Webserver.TimerArming
