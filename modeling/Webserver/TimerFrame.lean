import Webserver.TimerStore

namespace Webserver.TimerFrame

open TimerQueue TimerStore

/-- The two queues agree on the Timer at an address: the object, its places in
the two sets, and whether reset would find it cancelled. -/
structure SameAt (p : Pointer) (q r : TimerQueue) : Prop where
  heap : r.heap p = q.heap p
  entry : ∀ t, ⟨t, p⟩ ∈ r.timers ↔ ⟨t, p⟩ ∈ q.timers
  active : ∀ s, (p, s) ∈ r.activeTimers ↔ (p, s) ∈ q.activeTimers
  canceling : ∀ tm, q.heap p = some tm → ((p, tm.sequence) ∈ r.cancelingTimers ↔ (p, tm.sequence) ∈ q.cancelingTimers)

structure Present (q : TimerQueue) (p : Pointer) (tm : Timer) : Prop where
  heap : q.heap p = some tm
  entry : ⟨tm.expiration, p⟩ ∈ q.timers
  active : (p, tm.sequence) ∈ q.activeTimers

structure Gone (q : TimerQueue) (p : Pointer) : Prop where
  heap : q.heap p = none
  entry : ∀ t, ⟨t, p⟩ ∉ q.timers
  active : ∀ s, (p, s) ∉ q.activeTimers

variable {q r : TimerQueue} {p : Pointer} {tm : Timer} {loose : List Pointer}

theorem SameAt.refl (p : Pointer) (q : TimerQueue) : SameAt p q q :=
  ⟨rfl, fun _ => Iff.rfl, fun _ => Iff.rfl, fun _ _ => Iff.rfl⟩

theorem SameAt.trans {u : TimerQueue} (h : SameAt p q r) (k : SameAt p r u) : SameAt p q u :=
  ⟨k.heap.trans h.heap, fun t => (k.entry t).trans (h.entry t), fun s => (k.active s).trans (h.active s),
    fun tm htm => (k.canceling tm (h.heap.trans htm)).trans (h.canceling tm htm)⟩

theorem SameAt.of_eq (hheap : r.heap = q.heap) (htimers : r.timers = q.timers)
    (hactive : r.activeTimers = q.activeTimers) (hcanceling : r.cancelingTimers = q.cancelingTimers) :
    SameAt p q r :=
  ⟨by rw [hheap], by simp [htimers], by simp [hactive], by simp [hcanceling]⟩

theorem Present.same (h : Present q p tm) (hs : SameAt p q r) : Present r p tm :=
  ⟨hs.heap.trans h.heap, (hs.entry _).mpr h.entry, (hs.active _).mpr h.active⟩

theorem Gone.same (h : Gone q p) (hs : SameAt p q r) : Gone r p :=
  ⟨hs.heap.trans h.heap, fun t ht => h.entry t ((hs.entry t).mp ht), fun s ha => h.active s ((hs.active s).mp ha)⟩

theorem gone_of_free (h : Rooted q loose) (hfree : q.heap p = none) : Gone q p := by
  refine ⟨hfree, fun t ht => ?_, fun s hs => ?_⟩
  · obtain ⟨tm, htm, _⟩ := h.entry _ ht
    simp [hfree] at htm
  · obtain ⟨tm, htm, _⟩ := h.active _ hs
    simp [hfree] at htm

theorem create_same {p' : Pointer} (hne : p ≠ p') (when : TimeStamp) (delta : Int) (repeats : Bool) (q : TimerQueue) :
    SameAt p q (q.create p' when delta repeats) :=
  ⟨Function.update_of_ne hne _ _, fun _ => Iff.rfl, fun _ => Iff.rfl, fun _ _ => Iff.rfl⟩

theorem insert_same {p' : Pointer} (hne : p ≠ p') (tm : Timer) (q : TimerQueue) : SameAt p q (q.insert p' tm) :=
  ⟨rfl, fun t => by simp [TimerQueue.insert, hne], fun s => by simp [TimerQueue.insert, hne], fun _ _ => Iff.rfl⟩

theorem insert_present (h : q.heap p = some tm) : Present (q.insert p tm) p tm :=
  ⟨h, Finset.mem_insert_self _ _, Finset.mem_insert_self _ _⟩

theorem addTimerInLoop_same {p' : Pointer} (hne : p ≠ p') (clock : TimeStamp) (h : q.heap p' = some tm) :
    SameAt p q (q.addTimerInLoop clock p') := by
  obtain ⟨timerfd, he⟩ := addTimerInLoop_cases clock h
  rw [he]
  exact (insert_same hne tm q).trans (SameAt.of_eq rfl rfl rfl rfl)

theorem addTimerInLoop_present (clock : TimeStamp) (h : q.heap p = some tm) :
    Present (q.addTimerInLoop clock p) p tm := by
  obtain ⟨timerfd, he⟩ := addTimerInLoop_cases clock h
  rw [he]
  exact (insert_present h).same (SameAt.of_eq rfl rfl rfl rfl)

theorem cancelInLoop_gone (h : Rooted q loose) {id : ActiveTimer} (hid : id ∈ q.activeTimers) :
    Gone (q.cancelInLoop id) id.1 := by
  have hr := h.cancelInLoop id
  obtain ⟨t, he⟩ := cancelInLoop_active h hid
  apply gone_of_free hr
  rw [he]
  exact Function.update_self _ _ _

/-- The frame of cancelInLoop: nothing changes for a Timer that id is not the id of. -/
theorem cancelInLoop_same (h : Rooted q loose) {id : ActiveTimer}
    (hother : ∀ tm, q.heap p = some tm → id ≠ (p, tm.sequence)) : SameAt p q (q.cancelInLoop id) := by
  by_cases hid : id ∈ q.activeTimers
  · have hne : p ≠ id.1 := by
      rintro rfl
      obtain ⟨tm, htm, hs, _⟩ := h.active id hid
      exact hother tm htm (Prod.ext rfl hs.symm)
    obtain ⟨t, he⟩ := cancelInLoop_active h hid
    rw [he]
    refine ⟨Function.update_of_ne hne _ _, fun t => ?_, fun s => ?_, fun _ _ => Iff.rfl⟩
    · simp [hne]
    · have hpair : (p, s) ≠ id := fun heq => hne (congrArg Prod.fst heq)
      simp [hpair]
  · rw [cancelInLoop_inactive hid]
    split
    · refine ⟨rfl, fun _ => Iff.rfl, fun _ => Iff.rfl, fun tm htm => ?_⟩
      have hne : (p, tm.sequence) ≠ id := fun heq => hother tm htm heq.symm
      simp [hne]
    · exact .refl p q

theorem expired_iff (h : Rooted q loose) {now : TimeStamp} {e : Entry} :
    e ∈ (q.getExpired now).1 ↔ e ∈ q.timers ∧ e.when ≤ now := by
  rw [mem_expired]
  apply and_congr_right
  intro he
  obtain ⟨tm, htm, _⟩ := h.entry e he
  have hbound := h.bound _ _ htm
  rw [Entry.lt_iff]
  constructor
  · rintro (hlt | ⟨heq, _⟩)
    · exact hlt.le
    · exact heq.le
  · intro hle
    rcases hle.lt_or_eq with hlt | heq
    · exact .inl hlt
    · exact .inr ⟨heq, hbound⟩

theorem getExpired_present (h : Rooted q loose) {now : TimeStamp} (hp : Present q p tm)
    (hlate : ¬ tm.expiration ≤ now) : Present (q.getExpired now).2 p tm := by
  obtain ⟨A, he, hmem⟩ := getExpired_eq h now
  have hnot : (⟨tm.expiration, p⟩ : Entry) ∉ (q.getExpired now).1 := fun hin => hlate ((expired_iff h).mp hin).2
  rw [he]
  refine ⟨hp.heap, ?_, (hmem _).mpr ⟨hp.active, ?_⟩⟩
  · refine Finset.mem_filter.mpr ⟨hp.entry, fun hlt => hnot (mem_expired.mpr ⟨hp.entry, hlt⟩)⟩
  · intro e hein tm' htm' heq
    have hentry := ((expired_iff h).mp hein).1
    exact hnot (h.entry_eq hp.entry hentry (congrArg Prod.fst heq) ▸ hein)

theorem write_same {p' : Pointer} (hne : p ≠ p') (r : Option Timer) (q : TimerQueue) :
    SameAt p q { q with heap := Function.update q.heap p' r } :=
  ⟨Function.update_of_ne hne _ _, fun _ => Iff.rfl, fun _ => Iff.rfl, fun _ _ => Iff.rfl⟩

theorem settle_same {it : Entry} (h : q.heap it.timer = some tm) (hne : p ≠ it.timer) (now : TimeStamp) :
    SameAt p q (q.settle now it) := by
  simp only [settle, withTimer_eq h]
  split
  · exact (write_same hne (some (tm.restart now)) q).trans (insert_same hne _ _)
  · exact write_same hne none q

theorem settle_returns {it : Entry} (h : q.heap it.timer = some tm) (now : TimeStamp)
    (hr : tm.repeats = true ∧ (it.timer, tm.sequence) ∉ q.cancelingTimers) :
    Present (q.settle now it) it.timer (tm.restart now) := by
  rw [settle, withTimer_eq h, if_pos hr]
  exact insert_present (Function.update_self _ _ _)

theorem settle_gone {it : Entry} (h : Rooted q (it.timer :: loose)) (htm : q.heap it.timer = some tm) (now : TimeStamp)
    (hr : ¬ (tm.repeats = true ∧ (it.timer, tm.sequence) ∉ q.cancelingTimers)) :
    Gone (q.settle now it) it.timer := by
  apply gone_of_free (h.settle now)
  rw [settle, withTimer_eq htm, if_neg hr]
  exact Function.update_self _ _ _

theorem rearm_same (h : Rooted q loose) (p : Pointer) (clock before : TimeStamp) :
    SameAt p q (rearm clock (q, before)).1 := by
  rw [h.rearm_eq]
  split
  · exact .of_eq rfl rfl rfl rfl
  · exact .refl p q

theorem resetLoop_same {es : List Entry} (h : Rooted q (es.map Entry.timer ++ loose)) (hp : p ∉ es.map Entry.timer)
    (now : TimeStamp) (clock : Nat → TimeStamp) (before : TimeStamp) :
    SameAt p q (resetLoop now clock es (q, before)).1 := by
  induction es generalizing q before with
  | nil => exact .refl p q
  | cons it es ih =>
      rw [List.map_cons, List.mem_cons, not_or] at hp
      obtain ⟨tm, htm⟩ := h.alive it.timer (by simp)
      have hs := h.settle now
      have hround := (settle_same htm hp.1 now).trans (rearm_same hs p (clock es.length) before)
      exact hround.trans (ih (hs.rearm _ _) hp.2 _)

/-- What reset makes of a Timer of the batch. -/
theorem resetLoop_own {es : List Entry} (h : Rooted q (es.map Entry.timer ++ loose)) {it : Entry} (hit : it ∈ es)
    (htm : q.heap it.timer = some tm) (now : TimeStamp) (clock : Nat → TimeStamp) (before : TimeStamp) :
    (tm.repeats = true ∧ (it.timer, tm.sequence) ∉ q.cancelingTimers →
        Present (resetLoop now clock es (q, before)).1 it.timer (tm.restart now)) ∧
      (¬ (tm.repeats = true ∧ (it.timer, tm.sequence) ∉ q.cancelingTimers) →
        Gone (resetLoop now clock es (q, before)).1 it.timer) := by
  induction es generalizing q before with
  | nil => simp at hit
  | cons first es ih =>
      have hs := h.settle now
      have hround := rearm_same hs it.timer (clock es.length) before
      have hnodup : first.timer ∉ es.map Entry.timer := by
        have hnd := (List.nodup_cons.mp h.nodup).1
        exact fun hm => hnd (List.mem_append_left _ hm)
      rcases List.mem_cons.mp hit with rfl | hlater
      · have hrest := resetLoop_same (hs.rearm (clock es.length) before) hnodup now clock
          (rearm (clock es.length) (q.settle now it, before)).2
        have hsame := hround.trans hrest
        exact ⟨fun hr => (settle_returns htm now hr).same hsame, fun hr => (settle_gone h htm now hr).same hsame⟩
      · have hne : it.timer ≠ first.timer := fun he => hnodup (he ▸ List.mem_map_of_mem hlater)
        obtain ⟨tm', htm'⟩ := h.alive first.timer (by simp)
        have hsame := (settle_same htm' hne now).trans hround
        have hstep := ih (hs.rearm (clock es.length) before) hlater (hsame.heap.trans htm)
          (rearm (clock es.length) (q.settle now first, before)).2
        rw [hsame.canceling tm htm] at hstep
        exact hstep

end Webserver.TimerFrame
