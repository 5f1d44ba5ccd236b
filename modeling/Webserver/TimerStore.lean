import Webserver.Runs
import Webserver.TimerQueue

namespace Webserver.TimerStore

open TimerQueue

/-- The two sets of the queue hold the same live timers, and the loose ones are
live timers in neither set. -/
structure Rooted (q : TimerQueue) (loose : List Pointer) : Prop where
  entry : ∀ e ∈ q.timers, ∃ tm, q.heap e.timer = some tm ∧ tm.expiration = e.when ∧
    (e.timer, tm.sequence) ∈ q.activeTimers
  active : ∀ a ∈ q.activeTimers, ∃ tm, q.heap a.1 = some tm ∧ tm.sequence = a.2 ∧
    ⟨tm.expiration, a.1⟩ ∈ q.timers
  alive : ∀ p ∈ loose, ∃ tm, q.heap p = some tm
  apart : ∀ p ∈ loose, ∀ s, (p, s) ∉ q.activeTimers
  nodup : loose.Nodup
  bound : ∀ p tm, q.heap p = some tm → p < UINTPTR_MAX
  sound : q.fault = false

variable {q : TimerQueue} {p : Pointer} {tm : Timer} {loose : List Pointer}

theorem withTimer_eq (h : q.heap p = some tm) (f : Timer → TimerQueue → TimerQueue) :
    withTimer p f q = f tm q := by
  simp only [withTimer, h]

theorem begin_eq_none (h : q.timers = ∅) : q.begin = none := by
  simp [begin, h]

theorem begin_of_nonempty (h : q.timers.Nonempty) :
    ∃ e ∈ q.timers, q.begin = some e ∧ ∀ f ∈ q.timers, e ≤ f :=
  ⟨q.timers.min' h, q.timers.min'_mem h, by simp [begin, h], fun f hf => q.timers.min'_le f hf⟩

theorem Rooted.perm {loose' : List Pointer} (h : Rooted q loose) (hp : loose.Perm loose') : Rooted q loose' :=
  ⟨h.entry, h.active, fun p hm => h.alive p (hp.mem_iff.mpr hm), fun p hm => h.apart p (hp.mem_iff.mpr hm),
    hp.nodup_iff.mp h.nodup, h.bound, h.sound⟩

theorem Rooted.entry_eq (h : Rooted q loose) {e f : Entry} (he : e ∈ q.timers) (hf : f ∈ q.timers)
    (ht : e.timer = f.timer) : e = f := by
  obtain ⟨tm, htm, hw, _⟩ := h.entry e he
  obtain ⟨tm', htm', hw', _⟩ := h.entry f hf
  rw [ht, htm'] at htm
  obtain rfl : tm' = tm := by simpa using htm
  obtain ⟨t, p⟩ := e
  obtain ⟨t', p'⟩ := f
  simp_all

theorem Rooted.apart_entry (h : Rooted q loose) (hp : p ∈ loose) {e : Entry} (he : e ∈ q.timers) :
    e.timer ≠ p := by
  rintro rfl
  obtain ⟨tm, _, _, ha⟩ := h.entry e he
  exact h.apart _ hp _ ha

theorem construct_rooted : Rooted .construct [] := by
  refine ⟨?_, ?_, ?_, ?_, List.nodup_nil, ?_, rfl⟩ <;> simp [TimerQueue.construct]

theorem Rooted.update (h : Rooted q loose) {r : Option Timer} (hp : ∀ s, (p, s) ∉ q.activeTimers)
    (hb : r ≠ none → p < UINTPTR_MAX) (hl : p ∉ loose) :
    Rooted { q with heap := Function.update q.heap p r } loose := by
  have hentry : ∀ e ∈ q.timers, e.timer ≠ p := by
    rintro e he rfl
    obtain ⟨tm, _, _, ha⟩ := h.entry e he
    exact hp _ ha
  have hactive : ∀ a ∈ q.activeTimers, a.1 ≠ p := by
    rintro ⟨p', s⟩ ha rfl
    exact hp _ ha
  refine ⟨fun e he => ?_, fun a ha => ?_, fun p' hp' => ?_, h.apart, h.nodup, fun p' tm' htm => ?_, h.sound⟩
  · simpa only [Function.update_of_ne (hentry e he)] using h.entry e he
  · simpa only [Function.update_of_ne (hactive a ha)] using h.active a ha
  · have hne : p' ≠ p := fun he => hl (he ▸ hp')
    simpa only [Function.update_of_ne hne] using h.alive p' hp'
  · by_cases hne : p' = p
    · subst hne
      exact hb (by simp_all)
    · simp only [Function.update_of_ne hne] at htm
      exact h.bound p' tm' htm

theorem Rooted.tail (h : Rooted q (p :: loose)) : Rooted q loose :=
  ⟨h.entry, h.active, fun p hp => h.alive p (List.mem_cons_of_mem _ hp),
    fun p hp => h.apart p (List.mem_cons_of_mem _ hp), h.nodup.of_cons, h.bound, h.sound⟩

theorem Rooted.delete (h : Rooted q (p :: loose)) : Rooted (q.delete p) loose :=
  h.tail.update (h.apart p (by simp)) (by simp) (List.nodup_cons.mp h.nodup).1

theorem Rooted.write (h : Rooted q (p :: loose)) (tm : Timer) :
    Rooted { q with heap := Function.update q.heap p (some tm) } (p :: loose) := by
  obtain ⟨hpl, _⟩ := List.nodup_cons.mp h.nodup
  obtain ⟨tm₀, htm₀⟩ := h.alive p (by simp)
  have hu := h.tail.update (r := some tm) (h.apart p (by simp)) (fun _ => h.bound p tm₀ htm₀) hpl
  refine ⟨hu.entry, hu.active, ?_, h.apart, h.nodup, hu.bound, hu.sound⟩
  intro p' hp'
  rcases List.mem_cons.mp hp' with rfl | hp'
  · exact ⟨tm, by simp⟩
  · exact hu.alive p' hp'

theorem Rooted.create (h : Rooted q loose) (hfree : q.heap p = none) (hb : p < UINTPTR_MAX)
    (when : TimeStamp) (delta : Int) (repeats : Bool) :
    Rooted (q.create p when delta repeats) (p :: loose) := by
  have hpl : p ∉ loose := fun hp => by
    obtain ⟨tm, htm⟩ := h.alive p hp
    simp [hfree] at htm
  have hpa : ∀ s, (p, s) ∉ q.activeTimers := fun s ha => by
    obtain ⟨tm, htm, _⟩ := h.active _ ha
    simp [hfree] at htm
  have hu := h.update (r := some ⟨when, delta, repeats, q.numCreated.val⟩) hpa (fun _ => hb) hpl
  refine ⟨hu.entry, hu.active, ?_, ?_, List.nodup_cons.mpr ⟨hpl, h.nodup⟩, hu.bound, hu.sound⟩
  · intro p' hp'
    rcases List.mem_cons.mp hp' with rfl | hp'
    · exact ⟨_, Function.update_self _ _ _⟩
    · exact hu.alive p' hp'
  · intro p' hp'
    rcases List.mem_cons.mp hp' with rfl | hp'
    · exact hpa
    · exact h.apart p' hp'

theorem Rooted.insert (h : Rooted q (p :: loose)) (htm : q.heap p = some tm) :
    Rooted (q.insert p tm) loose := by
  obtain ⟨hpl, hnd⟩ := List.nodup_cons.mp h.nodup
  refine ⟨fun e he => ?_, fun a ha => ?_, h.tail.alive, fun p' hp' s ha => ?_, hnd, h.bound, h.sound⟩
  · rcases Finset.mem_insert.mp he with rfl | he
    · exact ⟨tm, htm, rfl, Finset.mem_insert_self _ _⟩
    · obtain ⟨tm', htm', hw, ha⟩ := h.entry e he
      exact ⟨tm', htm', hw, Finset.mem_insert_of_mem ha⟩
  · rcases Finset.mem_insert.mp ha with rfl | ha
    · exact ⟨tm, htm, rfl, Finset.mem_insert_self _ _⟩
    · obtain ⟨tm', htm', hs, he⟩ := h.active a ha
      exact ⟨tm', htm', hs, Finset.mem_insert_of_mem he⟩
  · rcases Finset.mem_insert.mp ha with he | ha
    · simp only [Prod.mk.injEq] at he
      exact hpl (he.1 ▸ hp')
    · exact h.tail.apart p' hp' s ha

theorem Rooted.congr {r : TimerQueue} (h : Rooted q loose) (hheap : r.heap = q.heap)
    (htimers : r.timers = q.timers) (hactive : r.activeTimers = q.activeTimers) (hfault : r.fault = q.fault) :
    Rooted r loose := by
  obtain ⟨h₁, h₂, h₃, h₄, h₅, h₆, h₇⟩ := h
  rw [← hheap, ← htimers, ← hactive] at *
  exact ⟨h₁, h₂, hheap ▸ h₃, h₄, h₅, h₆, hfault.trans h₇⟩

theorem addTimerInLoop_cases (clock : TimeStamp) (h : q.heap p = some tm) :
    ∃ timerfd, q.addTimerInLoop clock p = { q.insert p tm with timerfd := timerfd } := by
  simp only [TimerQueue.addTimerInLoop, withTimer_eq h]
  split
  · exact ⟨_, rfl⟩
  · exact ⟨_, rfl⟩

theorem Rooted.addTimerInLoop (h : Rooted q (p :: loose)) (clock : TimeStamp) :
    Rooted (q.addTimerInLoop clock p) loose := by
  obtain ⟨tm, htm⟩ := h.alive p (by simp)
  obtain ⟨timerfd, he⟩ := addTimerInLoop_cases clock htm
  rw [he]
  exact (h.insert htm).congr rfl rfl rfl rfl

theorem cancelInLoop_active (h : Rooted q loose) {id : ActiveTimer} (hid : id ∈ q.activeTimers) :
    ∃ t, q.cancelInLoop id =
      { q.delete id.1 with timers := q.timers.erase ⟨t, id.1⟩, activeTimers := q.activeTimers.erase id } := by
  obtain ⟨tm, htm, _⟩ := h.active id hid
  refine ⟨tm.expiration, ?_⟩
  simp only [TimerQueue.cancelInLoop, if_pos hid, withTimer_eq htm]

theorem cancelInLoop_inactive {id : ActiveTimer} (hid : id ∉ q.activeTimers) :
    q.cancelInLoop id =
      if q.callingExpiredTimer then { q with cancelingTimers := Insert.insert id q.cancelingTimers } else q := by
  rw [TimerQueue.cancelInLoop, if_neg hid]

/-- What cancelInLoop leaves alone, whatever the id is. -/
structure Trims (q r : TimerQueue) : Prop where
  timers : r.timers ⊆ q.timers
  timerfd : r.timerfd = q.timerfd
  numCreated : r.numCreated = q.numCreated
  calling : r.callingExpiredTimer = q.callingExpiredTimer
  canceling : q.cancelingTimers ⊆ r.cancelingTimers

theorem cancelInLoop_trims (h : Rooted q loose) (id : ActiveTimer) : Trims q (q.cancelInLoop id) := by
  by_cases hid : id ∈ q.activeTimers
  · obtain ⟨t, he⟩ := cancelInLoop_active h hid
    rw [he]
    exact ⟨Finset.erase_subset _ _, rfl, rfl, rfl, Finset.Subset.refl _⟩
  · rw [cancelInLoop_inactive hid]
    split
    · exact ⟨Finset.Subset.refl _, rfl, rfl, rfl, Finset.subset_insert _ _⟩
    · exact ⟨Finset.Subset.refl _, rfl, rfl, rfl, Finset.Subset.refl _⟩

theorem Rooted.cancelInLoop (h : Rooted q loose) (id : ActiveTimer) : Rooted (q.cancelInLoop id) loose := by
  simp only [TimerQueue.cancelInLoop]
  split
  · rename_i hid
    obtain ⟨tm, htm, hs, he⟩ := h.active id hid
    rw [withTimer_eq htm]
    have hl : id.1 ∉ loose := fun hl => h.apart _ hl _ hid
    have hne : ∀ e ∈ q.timers.erase ⟨tm.expiration, id.1⟩, e.timer ≠ id.1 := fun e hm ht =>
      (Finset.mem_erase.mp hm).1 (h.entry_eq (Finset.mem_erase.mp hm).2 he ht)
    have hna : ∀ a ∈ q.activeTimers.erase id, a.1 ≠ id.1 := fun a hm ht => by
      obtain ⟨tm', htm', hs', _⟩ := h.active a (Finset.mem_erase.mp hm).2
      rw [ht, htm] at htm'
      obtain rfl : tm = tm' := by simpa using htm'
      exact (Finset.mem_erase.mp hm).1 (Prod.ext ht (hs'.symm.trans hs))
    refine ⟨fun e hm => ?_, fun a hm => ?_, fun p hp => ?_, fun p hp s hm => ?_, h.nodup, fun p tm' hp => ?_,
      h.sound⟩
    · obtain ⟨tm', htm', hw, ha⟩ := h.entry e (Finset.mem_of_mem_erase hm)
      refine ⟨tm', by simpa [TimerQueue.delete, hne e hm] using htm', hw, Finset.mem_erase.mpr ⟨?_, ha⟩⟩
      exact fun heq => hne e hm (congrArg Prod.fst heq)
    · obtain ⟨tm', htm', hs', ht⟩ := h.active a (Finset.mem_of_mem_erase hm)
      refine ⟨tm', by simpa [TimerQueue.delete, hna a hm] using htm', hs', Finset.mem_erase.mpr ⟨?_, ht⟩⟩
      exact fun heq => hna a hm (congrArg Entry.timer heq)
    · have hp' : p ≠ id.1 := fun he => hl (he ▸ hp)
      simpa [TimerQueue.delete, hp'] using h.alive p hp
    · exact h.apart p hp s (Finset.mem_of_mem_erase hm)
    · by_cases hp' : p = id.1
      · simp [TimerQueue.delete, hp'] at hp
      · exact h.bound p tm' (by simpa [TimerQueue.delete, hp'] using hp)
  · split
    · exact h.congr rfl rfl rfl rfl
    · exact h

theorem foldl_deactivate (es : List Entry) (halive : ∀ e ∈ es, ∃ tm, q.heap e.timer = some tm) :
    ∃ A : Finset ActiveTimer, es.foldl deactivate q = { q with activeTimers := A } ∧
      ∀ a, a ∈ A ↔ a ∈ q.activeTimers ∧ ∀ e ∈ es, ∀ tm, q.heap e.timer = some tm → a ≠ (e.timer, tm.sequence) := by
  induction es generalizing q with
  | nil => exact ⟨q.activeTimers, rfl, by simp⟩
  | cons e es ih =>
      obtain ⟨tm, htm⟩ := halive e (by simp)
      have hd : deactivate q e = { q with activeTimers := q.activeTimers.erase (e.timer, tm.sequence) } :=
        withTimer_eq htm _
      obtain ⟨A, hA, hmem⟩ := @ih (deactivate q e) (by
        rw [hd]
        exact fun f hf => halive f (List.mem_cons_of_mem _ hf))
      refine ⟨A, by rw [List.foldl_cons, hA, hd], fun a => ?_⟩
      rw [hmem, hd, List.forall_mem_cons]
      simp only [Finset.mem_erase, htm, Option.some.injEq, forall_eq']
      tauto

theorem mem_expired {now : TimeStamp} {e : Entry} :
    e ∈ (getExpired now q).1 ↔ e ∈ q.timers ∧ e < ⟨now, UINTPTR_MAX⟩ := by
  simp [getExpired]

theorem getExpired_eq (h : Rooted q loose) (now : TimeStamp) :
    ∃ A : Finset ActiveTimer, (q.getExpired now).2 =
        { q with timers := q.timers.filter (¬ · < ⟨now, UINTPTR_MAX⟩), activeTimers := A } ∧
      ∀ a, a ∈ A ↔ a ∈ q.activeTimers ∧
        ∀ e ∈ (q.getExpired now).1, ∀ tm, q.heap e.timer = some tm → a ≠ (e.timer, tm.sequence) :=
  @foldl_deactivate { q with timers := q.timers.filter (¬ · < ⟨now, UINTPTR_MAX⟩) } (q.getExpired now).1
    fun e he => by
      obtain ⟨tm, htm, _⟩ := h.entry e (mem_expired.mp he).1
      exact ⟨tm, htm⟩

theorem Rooted.getExpired (h : Rooted q loose) (now : TimeStamp) :
    Rooted (q.getExpired now).2 ((q.getExpired now).1.map Entry.timer ++ loose) := by
  have hexp : ∀ e ∈ (q.getExpired now).1, e ∈ q.timers := fun e he => (mem_expired.mp he).1
  obtain ⟨A, heq, hmem⟩ := getExpired_eq h now
  rw [heq]
  have hout : ∀ e ∈ (q.getExpired now).1, ∀ s, (e.timer, s) ∉ A := fun e he s hs => by
    obtain ⟨tm, htm, hseq, _⟩ := h.active _ ((hmem _).mp hs).1
    exact ((hmem _).mp hs).2 e he tm htm (Prod.ext rfl hseq.symm)
  refine ⟨fun e he => ?_, fun a ha => ?_, fun p hp => ?_, fun p hp s hs => ?_, ?_, h.bound, h.sound⟩
  · obtain ⟨het, hlt⟩ := Finset.mem_filter.mp he
    obtain ⟨tm, htm, hw, ha⟩ := h.entry e het
    refine ⟨tm, htm, hw, (hmem _).mpr ⟨ha, fun f hf tm' htm' hne => ?_⟩⟩
    have hfe : e = f := h.entry_eq het (hexp f hf) (congrArg Prod.fst hne)
    exact hlt (hfe ▸ (mem_expired.mp hf).2)
  · obtain ⟨haq, hne⟩ := (hmem a).mp ha
    obtain ⟨tm, htm, hs, he⟩ := h.active a haq
    refine ⟨tm, htm, hs, Finset.mem_filter.mpr ⟨he, fun hlt => ?_⟩⟩
    exact hne _ (mem_expired.mpr ⟨he, hlt⟩) tm htm (Prod.ext rfl hs.symm)
  · rcases List.mem_append.mp hp with hp | hp
    · obtain ⟨e, he, rfl⟩ := List.mem_map.mp hp
      obtain ⟨tm, htm, _⟩ := h.entry e (hexp e he)
      exact ⟨tm, htm⟩
    · exact h.alive p hp
  · rcases List.mem_append.mp hp with hp | hp
    · obtain ⟨e, he, rfl⟩ := List.mem_map.mp hp
      exact hout e he s hs
    · exact h.apart p hp s ((hmem _).mp hs).1
  · refine List.Nodup.append ?_ h.nodup fun p hp hl => ?_
    · refine (Finset.sort_nodup _ _).map_on fun e he f hf ht => ?_
      exact h.entry_eq (hexp e he) (hexp f hf) ht
    · obtain ⟨e, he, rfl⟩ := List.mem_map.mp hp
      exact h.apart_entry hl (hexp e he) rfl

theorem Rooted.settle {it : Entry} (h : Rooted q (it.timer :: loose)) (now : TimeStamp) :
    Rooted (q.settle now it) loose := by
  obtain ⟨tm, htm⟩ := h.alive it.timer (by simp)
  simp only [TimerQueue.settle, withTimer_eq htm]
  split
  · exact (h.write (tm.restart now)).insert (Function.update_self _ _ _)
  · exact h.delete

theorem Rooted.rearm_eq (h : Rooted q loose) (clock before : TimeStamp) :
    rearm clock (q, before) =
      (if (q.begin.elim before Entry.when).valid then resetTimerfd clock (q.begin.elim before Entry.when) q
        else q, q.begin.elim before Entry.when) := by
  rcases q.timers.eq_empty_or_nonempty with he | hne
  · simp [rearm, begin_eq_none he]
  · obtain ⟨e, he, hb, _⟩ := begin_of_nonempty hne
    obtain ⟨tm, htm, hw, _⟩ := h.entry e he
    simp [rearm, hb, htm, hw]

theorem Rooted.rearm (h : Rooted q loose) (clock before : TimeStamp) :
    Rooted (rearm clock (q, before)).1 loose := by
  rw [h.rearm_eq]
  split
  · exact h.congr rfl rfl rfl rfl
  · exact h

theorem Rooted.resetLoop {es : List Entry} (h : Rooted q (es.map Entry.timer ++ loose)) (now : TimeStamp)
    (clock : Nat → TimeStamp) (before : TimeStamp) :
    Rooted (resetLoop now clock es (q, before)).1 loose := by
  induction es generalizing q before with
  | nil => exact h
  | cons it es ih => exact ih ((h.settle now).rearm _ _) _

def batch : Phase → List Entry
  | .idle => []
  | .calling expired _ _ => expired

/-- The representation invariant of the queue, at any point where code of the
loop thread can run. -/
structure Sound (w : TimerLoop) : Prop where
  rooted : Rooted w.queue ((batch w.phase).map Entry.timer ++ w.waiting)
  rest : ∀ expired now rest, w.phase = .calling expired now rest → rest ⊆ expired

theorem construct_sound : Sound .construct := ⟨construct_rooted, by simp [TimerLoop.construct]⟩

variable {w : TimerLoop}

theorem Sound.waiting_alive (h : Sound w) (hp : p ∈ w.waiting) : ∃ tm, w.queue.heap p = some tm :=
  h.rooted.alive p (List.mem_append_right _ hp)

theorem Sound.batch_alive (h : Sound w) {it : Entry} (hit : it ∈ batch w.phase) :
    ∃ tm, w.queue.heap it.timer = some tm :=
  h.rooted.alive it.timer (List.mem_append_left _ (List.mem_map_of_mem hit))

theorem Sound.batch_inactive (h : Sound w) {it : Entry} (hit : it ∈ batch w.phase) (s : Int) :
    (it.timer, s) ∉ w.queue.activeTimers :=
  h.rooted.apart it.timer (List.mem_append_left _ (List.mem_map_of_mem hit)) s

/-- new takes an address at which no Timer is. -/
theorem created_ne {p' : Pointer} {when : TimeStamp} {delta : Int} {repeats : Bool}
    (he : w.Enabled (.create p' when delta repeats)) (htm : w.queue.heap p = some tm) : p ≠ p' := by
  rintro rfl
  have hfree := he.1
  simp [htm] at hfree

theorem callback_next (h : Sound w) (he : w.Enabled .callback) :
    ∃ expired now it rest, w.phase = .calling expired now (it :: rest) ∧
      w.next .callback = { w with phase := .calling expired now rest } := by
  obtain ⟨expired, now, it, rest, hp⟩ := TimerLoop.callback_phase he
  have hit : it ∈ batch w.phase := by
    rw [hp]
    exact h.rest expired now (it :: rest) hp (by simp)
  obtain ⟨tm, htm⟩ := h.batch_alive hit
  refine ⟨expired, now, it, rest, hp, ?_⟩
  simp only [TimerLoop.next, hp, withTimer_eq htm]

theorem beginRead_rooted (h : Sound w) (hidle : w.phase = .idle) : Rooted w.queue.readTimerfd w.waiting := by
  have hr := h.rooted
  rw [hidle] at hr
  exact hr.congr rfl rfl rfl rfl

theorem endRead_rooted (h : Sound w) {expired : List Entry} {now : TimeStamp}
    (hp : w.phase = .calling expired now []) :
    Rooted { w.queue with callingExpiredTimer := false } (expired.map Entry.timer ++ w.waiting) := by
  have hr := h.rooted
  rw [hp] at hr
  exact hr.congr rfl rfl rfl rfl

theorem step_sound (w : TimerLoop) (e : TimerLoop.Event) (h : Sound w) (he : w.Enabled e) :
    Sound (w.next e) := by
  cases e with
  | create p when delta repeats =>
      exact ⟨(h.rooted.create he.1 he.2 when delta repeats).perm List.perm_middle.symm, h.rest⟩
  | addTimerInLoop p clock =>
      have hp : ((batch w.phase).map Entry.timer ++ w.waiting).Perm
          (p :: ((batch w.phase).map Entry.timer ++ w.waiting.erase p)) :=
        ((List.perm_cons_erase he).append_left _).trans List.perm_middle
      exact ⟨(h.rooted.perm hp).addTimerInLoop clock, h.rest⟩
  | cancelInLoop id => exact ⟨h.rooted.cancelInLoop id, h.rest⟩
  | fire => exact ⟨h.rooted.congr rfl rfl rfl rfl, h.rest⟩
  | handleRead now =>
      refine ⟨((beginRead_rooted h he).getExpired now).congr rfl rfl rfl rfl, ?_⟩
      rintro expired now' rest hp
      obtain ⟨rfl, _, rfl⟩ : _ ∧ _ ∧ _ := by simpa [TimerLoop.next] using hp
      exact List.Subset.refl _
  | callback =>
      obtain ⟨expired, now, it, rest, hp, hn⟩ := callback_next h he
      have hsub := h.rest _ _ _ hp
      have hr := h.rooted
      rw [hp] at hr
      rw [hn]
      refine ⟨hr, ?_⟩
      rintro expired' now' rest' hp'
      obtain ⟨rfl, _, rfl⟩ : _ ∧ _ ∧ _ := by simpa using hp'
      exact fun f hf => hsub (List.mem_cons_of_mem _ hf)
  | endRead clock =>
      obtain ⟨expired, now, hp⟩ := TimerLoop.endRead_phase he
      simp only [TimerLoop.next, hp]
      refine ⟨(endRead_rooted h hp).resetLoop now clock .invalid, ?_⟩
      rintro expired' now' rest' hp'
      cases hp'

end Webserver.TimerStore
