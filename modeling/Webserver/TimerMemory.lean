import Webserver.TimerFrame

namespace Webserver.TimerMemory

open Runs TimerQueue TimerStore TimerFrame

/-- Every live Timer is in timers_ or among the loose ones. -/
def Tracked (q : TimerQueue) (loose : List Pointer) : Prop :=
  ∀ p, q.heap p ≠ none → (∃ t, ⟨t, p⟩ ∈ q.timers) ∨ p ∈ loose

/-- A Timer is alive as long as it is in one of three places: in timers_, in the
batch that is being run, or on its way to addTimerInLoop. A queue that is
destroyed between its firings deletes each of its own Timers once, and those
that never got to it are what is left. -/
structure Accounted (w : TimerLoop) : Prop where
  live : ∀ p, w.queue.heap p ≠ none ↔ (∃ t, ⟨t, p⟩ ∈ w.queue.timers) ∨ p ∈ (batch w.phase).map Entry.timer ∨ p ∈ w.waiting
  queued : ∀ t p, ⟨t, p⟩ ∈ w.queue.timers → p ∉ (batch w.phase).map Entry.timer ∧ p ∉ w.waiting
  loose : ∀ p ∈ (batch w.phase).map Entry.timer, p ∉ w.waiting
  destroyed : w.phase = .idle →
    (destroy w.queue).fault = false ∧ ∀ p, (destroy w.queue).heap p ≠ none ↔ p ∈ w.waiting

variable {q r : TimerQueue} {p : Pointer} {tm : Timer} {loose : List Pointer}

theorem Tracked.congr (h : Tracked q loose) (hheap : r.heap = q.heap) (htimers : r.timers = q.timers) :
    Tracked r loose := by
  intro p hp
  rw [hheap] at hp
  rw [htimers]
  exact h p hp

theorem Tracked.perm {loose' : List Pointer} (h : Tracked q loose) (hp : ∀ p ∈ loose, p ∈ loose') :
    Tracked q loose' := fun p hlive => (h p hlive).imp id (hp p)

theorem Tracked.create (h : Tracked q loose) (when : TimeStamp) (delta : Int) (repeats : Bool) :
    Tracked (q.create p when delta repeats) (p :: loose) := by
  intro p' hlive
  by_cases hp : p' = p
  · exact .inr (hp ▸ List.mem_cons_self)
  · have hold : q.heap p' ≠ none := by simpa [TimerQueue.create, Function.update_of_ne hp] using hlive
    exact (h p' hold).imp id (List.mem_cons_of_mem p)

theorem Tracked.insert (h : Tracked q (p :: loose)) : Tracked (q.insert p tm) loose := by
  intro p' hlive
  by_cases hp : p' = p
  · exact .inl ⟨tm.expiration, hp ▸ Finset.mem_insert_self _ _⟩
  · rcases h p' hlive with ⟨t, ht⟩ | hl
    · exact .inl ⟨t, Finset.mem_insert_of_mem ht⟩
    · exact .inr ((List.mem_cons.mp hl).resolve_left hp)

theorem Tracked.addTimerInLoop (h : Tracked q (p :: loose)) (hr : Rooted q (p :: loose)) (clock : TimeStamp) :
    Tracked (q.addTimerInLoop clock p) loose := by
  obtain ⟨tm, htm⟩ := hr.alive p (by simp)
  obtain ⟨timerfd, he⟩ := addTimerInLoop_cases clock htm
  rw [he]
  exact h.insert.congr rfl rfl

theorem Tracked.same (h : Tracked q loose) (hs : SameAt p q r) (hlive : r.heap p ≠ none) :
    (∃ t, ⟨t, p⟩ ∈ r.timers) ∨ p ∈ loose := by
  rw [hs.heap] at hlive
  rcases h p hlive with ⟨t, ht⟩ | hl
  · exact .inl ⟨t, (hs.entry t).mpr ht⟩
  · exact .inr hl

theorem Tracked.cancelInLoop (h : Tracked q loose) (hr : Rooted q loose) (id : ActiveTimer) :
    Tracked (q.cancelInLoop id) loose := by
  by_cases hid : id ∈ q.activeTimers
  · intro p hlive
    by_cases hp : p = id.1
    · exact absurd (hp ▸ (cancelInLoop_gone hr hid).heap) hlive
    · refine h.same (cancelInLoop_same hr fun tm _ he => ?_) hlive
      exact hp (congrArg Prod.fst he).symm
  · rw [cancelInLoop_inactive hid]
    split
    · exact h.congr rfl rfl
    · exact h

theorem Tracked.getExpired (h : Tracked q loose) (hr : Rooted q loose) (now : TimeStamp) :
    Tracked (q.getExpired now).2 ((q.getExpired now).1.map Entry.timer ++ loose) := by
  obtain ⟨A, he, _⟩ := getExpired_eq hr now
  rw [he]
  intro p hlive
  rcases h p hlive with ⟨t, ht⟩ | hl
  · by_cases hlt : (⟨t, p⟩ : Entry) < ⟨now, UINTPTR_MAX⟩
    · have hexpired : (⟨t, p⟩ : Entry) ∈ (q.getExpired now).1 := mem_expired.mpr ⟨ht, hlt⟩
      exact .inr (List.mem_append_left _ (List.mem_map_of_mem hexpired))
    · exact .inl ⟨t, Finset.mem_filter.mpr ⟨ht, hlt⟩⟩
  · exact .inr (List.mem_append_right _ hl)

theorem Tracked.resetLoop {es : List Entry} (h : Tracked q (es.map Entry.timer ++ loose))
    (hr : Rooted q (es.map Entry.timer ++ loose)) (now : TimeStamp) (clock : Nat → TimeStamp) (before : TimeStamp) :
    Tracked (resetLoop now clock es (q, before)).1 loose := by
  intro p hlive
  by_cases hp : p ∈ es.map Entry.timer
  · obtain ⟨it, hit, rfl⟩ := List.mem_map.mp hp
    obtain ⟨tm, htm⟩ := hr.alive it.timer (List.mem_append_left _ hp)
    obtain ⟨hback, hgone⟩ := resetLoop_own hr hit htm now clock before
    by_cases hrepeat : tm.repeats = true ∧ (it.timer, tm.sequence) ∉ q.cancelingTimers
    · exact .inl ⟨_, (hback hrepeat).entry⟩
    · exact absurd (hgone hrepeat).heap hlive
  · rcases h.same (resetLoop_same hr hp now clock before) hlive with ht | hl
    · exact .inl ht
    · exact .inr ((List.mem_append.mp hl).resolve_left hp)

theorem deleteAll_eq {es : List Entry} (hnodup : (es.map Entry.timer).Nodup)
    (halive : ∀ e ∈ es, q.heap e.timer ≠ none) :
    (es.foldl (fun q timer => withTimer timer.timer (fun _ q => q.delete timer.timer) q) q).fault = q.fault ∧
      ∀ p, (es.foldl (fun q timer => withTimer timer.timer (fun _ q => q.delete timer.timer) q) q).heap p =
        if p ∈ es.map Entry.timer then none else q.heap p := by
  induction es generalizing q with
  | nil => simp
  | cons e es ih =>
      obtain ⟨hfirst, hrest⟩ := List.nodup_cons.mp hnodup
      obtain ⟨tm, htm⟩ := Option.ne_none_iff_exists'.mp (halive e (by simp))
      have halive' : ∀ f ∈ es, (q.delete e.timer).heap f.timer ≠ none := by
        intro f hf
        have hne : f.timer ≠ e.timer := fun he => hfirst (he ▸ List.mem_map_of_mem hf)
        simpa [TimerQueue.delete, hne] using halive f (List.mem_cons_of_mem _ hf)
      obtain ⟨hfault, hheap⟩ := ih hrest halive'
      rw [List.foldl_cons, withTimer_eq htm]
      refine ⟨hfault, fun p => ?_⟩
      rw [hheap p, List.map_cons]
      by_cases hp : p = e.timer
      · simp [TimerQueue.delete, hp]
      · simp [TimerQueue.delete, hp]

theorem destroy_leaves (h : Tracked q loose) (hr : Rooted q loose) :
    (destroy q).fault = false ∧ ∀ p, (destroy q).heap p ≠ none ↔ p ∈ loose := by
  have hmem : ∀ e ∈ q.timers.sort (· ≤ ·), e ∈ q.timers := fun e he => (Finset.mem_sort _).mp he
  have hnodup : ((q.timers.sort (· ≤ ·)).map Entry.timer).Nodup := by
    refine (Finset.sort_nodup _ _).map_on fun e he f hf ht => ?_
    exact hr.entry_eq (hmem e he) (hmem f hf) ht
  have halive : ∀ e ∈ q.timers.sort (· ≤ ·), q.heap e.timer ≠ none := by
    intro e he
    obtain ⟨tm, htm, _⟩ := hr.entry e (hmem e he)
    simp [htm]
  obtain ⟨hfault, hheap⟩ := deleteAll_eq hnodup halive
  refine ⟨hfault.trans hr.sound, fun p => ?_⟩
  rw [destroy, hheap p]
  constructor
  · intro hlive
    by_cases hp : p ∈ (q.timers.sort (· ≤ ·)).map Entry.timer
    · simp [hp] at hlive
    · rw [if_neg hp] at hlive
      rcases h p hlive with ⟨t, ht⟩ | hl
      · exact absurd (List.mem_map_of_mem (f := Entry.timer) ((Finset.mem_sort _).mpr ht)) hp
      · exact hl
  · intro hl
    have hp : p ∉ (q.timers.sort (· ≤ ·)).map Entry.timer := by
      rintro hp
      obtain ⟨e, he, rfl⟩ := List.mem_map.mp hp
      exact hr.apart_entry hl (hmem e he) rfl
    obtain ⟨tm, htm⟩ := hr.alive p hl
    simp [hp, htm]

structure Inv (w : TimerLoop) : Prop where
  sound : Sound w
  tracked : Tracked w.queue ((batch w.phase).map Entry.timer ++ w.waiting)

theorem construct_inv : Inv .construct := ⟨construct_sound, fun _ hp => absurd rfl hp⟩

theorem step_inv (w : TimerLoop) (e : TimerLoop.Event) (h : Inv w) (he : w.Enabled e) : Inv (w.next e) := by
  refine ⟨step_sound w e h.sound he, ?_⟩
  have ht := h.tracked
  have hr := h.sound.rooted
  cases e with
  | create p when delta repeats =>
      exact (ht.create when delta repeats).perm fun p' hp => List.perm_middle.symm.mem_iff.mp hp
  | addTimerInLoop p clock =>
      have hp : ((batch w.phase).map Entry.timer ++ w.waiting).Perm
          (p :: ((batch w.phase).map Entry.timer ++ w.waiting.erase p)) :=
        ((List.perm_cons_erase he).append_left _).trans List.perm_middle
      exact (ht.perm fun _ => hp.mem_iff.mp).addTimerInLoop (hr.perm hp) clock
  | cancelInLoop id => exact ht.cancelInLoop hr id
  | fire => exact ht.congr rfl rfl
  | handleRead now =>
      have hidle : w.phase = .idle := he
      rw [hidle] at ht
      have hread : Tracked w.queue.readTimerfd w.waiting := ht.congr rfl rfl
      exact (hread.getExpired (beginRead_rooted h.sound hidle) now).congr rfl rfl
  | callback =>
      obtain ⟨expired, now, it, rest, hp, hn⟩ := callback_next h.sound he
      rw [hp] at ht
      rw [hn]
      exact ht
  | endRead clock =>
      obtain ⟨expired, now, hp⟩ := TimerLoop.endRead_phase he
      have hrooted := endRead_rooted h.sound hp
      rw [hp] at ht
      have hcleared : Tracked { w.queue with callingExpiredTimer := false } (expired.map Entry.timer ++ w.waiting) :=
        ht.congr rfl rfl
      simp only [TimerLoop.next, hp]
      exact hcleared.resetLoop hrooted now clock .invalid

theorem Inv.accounted {w : TimerLoop} (h : Inv w) : Accounted w := by
  have hr := h.sound.rooted
  refine ⟨fun p => ⟨fun hlive => ?_, ?_⟩, fun t p ht => ⟨fun hb => ?_, fun hw => ?_⟩, fun p hb hw => ?_, fun hidle => ?_⟩
  · exact (h.tracked p hlive).imp id List.mem_append.mp
  · rintro (⟨t, ht⟩ | hb | hw)
    · obtain ⟨tm, htm, _⟩ := hr.entry _ ht
      simp [htm]
    · obtain ⟨tm, htm⟩ := hr.alive p (List.mem_append_left _ hb)
      simp [htm]
    · obtain ⟨tm, htm⟩ := hr.alive p (List.mem_append_right _ hw)
      simp [htm]
  · exact hr.apart_entry (List.mem_append_left _ hb) ht rfl
  · exact hr.apart_entry (List.mem_append_right _ hw) ht rfl
  · exact List.disjoint_of_nodup_append hr.nodup hb hw
  · have ht := h.tracked
    rw [hidle] at ht hr
    exact destroy_leaves ht hr

/-- In every run, and under any reuse of addresses, no Timer is forgotten: what
is alive is queued, in the batch or on its way, and ~TimerQueue frees the rest. -/
theorem timers_accounted_for (es : List TimerLoop.Event) (he : Meets TimerLoop.next TimerLoop.Enabled .construct es) :
    Always TimerLoop.next Accounted .construct es :=
  always_mono (fun _ h => h.accounted) (always_of_step step_inv construct_inv he)

theorem timers_accounted_for_one_waiting :
    Always TimerLoop.next Accounted .construct
      [.create 1 (.construct 500) 700 true, .addTimerInLoop 1 (.construct 100), .create 2 (.construct 900) 0 false,
        .addTimerInLoop 2 (.construct 100), .fire, .handleRead (.construct 600), .callback, .cancelInLoop (2, 1),
        .endRead fun _ => .construct 650, .create 2 (.construct 800) 0 false] :=
  timers_accounted_for _ (by decide +kernel)

end Webserver.TimerMemory
