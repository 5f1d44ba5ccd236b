import Webserver.TimerIds

namespace Webserver.TimerCancel

open Runs TimerQueue TimerStore TimerFrame TimerFiring TimerIds

/-- The Timer at an address will not be inserted any more: it is not waiting for
that, it is not in the queue, and if it is in the batch reset will delete it. -/
structure Doomed (w : TimerLoop) (p : Pointer) : Prop where
  waiting : p ∉ w.waiting
  entry : ∀ t, ⟨t, p⟩ ∉ w.queue.timers
  batch : ∀ it ∈ batch w.phase, it.timer = p → ∀ tm, w.queue.heap p = some tm →
    (p, tm.sequence) ∈ w.queue.cancelingTimers

variable {w : TimerLoop} {p : Pointer} {tm : Timer}

theorem Doomed.same {v : TimerLoop} (h : Doomed w p) (hs : SameAt p w.queue v.queue) (hw : p ∉ v.waiting)
    (hb : TimerStore.batch v.phase = TimerStore.batch w.phase) : Doomed v p := by
  refine ⟨hw, fun t ht => h.entry t ((hs.entry t).mp ht), fun it hit ht tm htm => ?_⟩
  rw [hb] at hit
  rw [hs.heap] at htm
  exact (hs.canceling tm htm).mpr (h.batch it hit ht tm htm)

theorem step_doomed {e : TimerLoop.Event} (h : Sound w) (he : w.Enabled e)
    (hc : ∀ when delta repeats, e ≠ .create p when delta repeats) (hd : Doomed w p) : Doomed (w.next e) p := by
  cases e with
  | create p' when delta repeats =>
      have hne : p ≠ p' := fun heq => hc when delta repeats (by rw [heq])
      exact hd.same (create_same hne when delta repeats w.queue) (by simp [TimerLoop.next, hne, hd.waiting]) rfl
  | addTimerInLoop p' clock =>
      have hne : p ≠ p' := fun heq => hd.waiting (heq ▸ he)
      obtain ⟨tm, htm⟩ := h.waiting_alive he
      exact hd.same (addTimerInLoop_same hne clock htm) (fun hm => hd.waiting (List.mem_of_mem_erase hm)) rfl
  | cancelInLoop id =>
      have htrims := cancelInLoop_trims h.rooted id
      refine ⟨hd.waiting, fun t ht => hd.entry t (htrims.timers ht), fun it hit ht tm htm => ?_⟩
      obtain ⟨tm₀, htm₀, hseq⟩ := step_heap h he hc htm
      rw [← hseq]
      exact htrims.canceling (hd.batch it hit ht tm₀ htm₀)
  | fire => exact hd.same (.of_eq rfl rfl rfl rfl) hd.waiting rfl
  | handleRead now =>
      obtain ⟨A, heq, _⟩ := getExpired_eq (beginRead_rooted h he) now
      refine ⟨hd.waiting, fun t ht => ?_, fun it hit ht => ?_⟩
      · simp only [TimerLoop.next, beginRead, heq] at ht
        exact hd.entry t (Finset.mem_of_mem_filter _ ht)
      · subst ht
        exact absurd ((expired_iff (beginRead_rooted h he)).mp hit).1 (hd.entry it.when)
  | callback =>
      obtain ⟨expired, now, it, rest, hp, hn⟩ := callback_next h he
      rw [hn]
      exact hd.same (.refl p w.queue) hd.waiting (by rw [hp]; rfl)
  | endRead clock =>
      obtain ⟨expired, now, hp⟩ := TimerLoop.endRead_phase he
      have hentry : ∀ t, ⟨t, p⟩ ∉ (w.next (.endRead clock)).queue.timers := by
        by_cases hb : p ∈ expired.map Entry.timer
        · obtain ⟨it, hit, rfl⟩ := List.mem_map.mp hb
          have hit' : it ∈ TimerStore.batch w.phase := by
            rw [hp]
            exact hit
          obtain ⟨tm, htm⟩ := h.batch_alive hit'
          have hnoted := hd.batch it hit' rfl tm htm
          exact ((endRead_own h hp clock hit htm).2 fun hret => hret.2 hnoted).entry
        · intro t ht
          exact hd.entry t (((endRead_same h hp clock hb).entry t).mp ht)
      have hidle : (w.next (.endRead clock)).phase = .idle := by simp only [TimerLoop.next, hp]
      refine ⟨?_, hentry, fun it hit => ?_⟩
      · simp only [TimerLoop.next, hp]
        exact hd.waiting
      · simp [hidle, TimerStore.batch] at hit

theorem cancel_doomed (h : Sound w) (hf : Flagged w) {id : ActiveTimer} (hw : p ∉ w.waiting)
    (hid : ∀ tm, w.queue.heap p = some tm → id = (p, tm.sequence)) : Doomed (w.next (.cancelInLoop id)) p := by
  have he : w.Enabled (.cancelInLoop id) := trivial
  cases hheap : w.queue.heap p with
  | none =>
      have hg := gone_of_free h.rooted hheap
      refine ⟨hw, fun t ht => hg.entry t ((cancelInLoop_trims h.rooted id).timers ht), fun it hit ht => ?_⟩
      subst ht
      obtain ⟨tm, htm⟩ := h.batch_alive hit
      simp [hheap] at htm
  | some tm =>
      obtain rfl := hid tm hheap
      by_cases hact : (p, tm.sequence) ∈ w.queue.activeTimers
      · have hg := cancelInLoop_gone h.rooted hact
        refine ⟨hw, hg.entry, fun it _ _ tm' htm' => ?_⟩
        have hnone := hg.heap
        simp only [TimerLoop.next] at htm'
        simp [hnone] at htm'
      · refine ⟨hw, fun t ht => hact ?_, fun it hit ht tm' htm' => ?_⟩
        · obtain ⟨tm', htm', _, ha⟩ := h.rooted.entry _ ((cancelInLoop_trims h.rooted _).timers ht)
          rw [hheap, Option.some.injEq] at htm'
          exact htm' ▸ ha
        · subst ht
          obtain ⟨tm₀, htm₀, hseq⟩ := step_heap h he (by simp) htm'
          rw [hheap, Option.some.injEq] at htm₀
          simp only [TimerLoop.next, cancel_batch h hf hit, ← hseq, htm₀]
          exact Finset.mem_insert_self _ _

def Inserted (s : Tracked) (k : Nat) : Prop := ∀ p ∈ s.loop.waiting, s.serial p ≠ some k

instance (s : Tracked) (k : Nat) : Decidable (Inserted s k) := inferInstanceAs (Decidable (∀ p ∈ _, _))

/-- A run with the Timers whose cancelInLoop was executed after they had been inserted. -/
structure Cancelling where
  tracked : Tracked
  cancelled : List Nat

namespace Cancelling

def construct : Cancelling := ⟨.construct, []⟩

def next (s : Cancelling) (e : Tracked.Event) : Cancelling :=
  ⟨s.tracked.next e, match e with
    | .cancelInLoop k => if Inserted s.tracked k then k :: s.cancelled else s.cancelled
    | _ => s.cancelled⟩

def Enabled (s : Cancelling) (e : Tracked.Event) : Prop := s.tracked.Enabled e

instance (s : Cancelling) (e : Tracked.Event) : Decidable (s.Enabled e) :=
  inferInstanceAs (Decidable (s.tracked.Enabled e))

end Cancelling

def remaining : Phase → List Entry
  | .idle => []
  | .calling _ _ rest => rest

def StartsLive (s : Cancelling) (e : Tracked.Event) : Prop :=
  ∀ it ∈ starts s.tracked.loop (s.tracked.loopEvent e), ∀ k, s.tracked.serial it.timer = some k → k ∉ s.cancelled

/-- A Timer is not cancelled while its callback is still to be started in the batch that is being run. -/
def NotAhead (s : Cancelling) : Tracked.Event → Prop
  | .cancelInLoop k => ∀ it ∈ remaining s.tracked.loop.phase, s.tracked.serial it.timer ≠ some k
  | _ => True

instance (s : Cancelling) (e : Tracked.Event) : Decidable (NotAhead s e) :=
  match e with
  | .cancelInLoop _ => inferInstanceAs (Decidable (∀ it ∈ _, _))
  | .create _ _ _ _ | .addTimerInLoop _ _ | .fire | .handleRead _ | .callback | .endRead _ => .isTrue trivial

structure CancelInv (s : Cancelling) : Prop where
  tracked : Inv s.tracked
  made : ∀ k ∈ s.cancelled, k < s.tracked.made.length
  doomed : ∀ k ∈ s.cancelled, ∀ p, s.tracked.serial p = some k → Doomed s.tracked.loop p
  passed : ∀ k ∈ s.cancelled, ∀ it ∈ remaining s.tracked.loop.phase, s.tracked.serial it.timer ≠ some k

theorem mem_starts {e : TimerLoop.Event} {it : Entry} (h : it ∈ starts w e) : it ∈ remaining w.phase := by
  cases e with
  | callback =>
      simp only [starts] at h
      split at h
      · rename_i hp
        rw [hp]
        exact List.mem_cons.mpr (.inl (List.mem_singleton.mp h))
      · simp at h
  | create _ _ _ _ | addTimerInLoop _ _ | cancelInLoop _ | fire | handleRead _ | endRead _ => simp [starts] at h

theorem remaining_next {e : TimerLoop.Event} (h : Sound w) (he : w.Enabled e) {it : Entry}
    (hit : it ∈ remaining (w.next e).phase) : it ∈ remaining w.phase ∨ it ∈ w.queue.timers := by
  cases e with
  | create _ _ _ _ | addTimerInLoop _ _ | cancelInLoop _ | fire => exact .inl hit
  | handleRead now => exact .inr ((expired_iff (beginRead_rooted h he)).mp hit).1
  | callback =>
      obtain ⟨expired, now, first, rest, hp, hn⟩ := callback_next h he
      rw [hn] at hit
      rw [hp]
      exact .inl (List.mem_cons_of_mem _ hit)
  | endRead clock =>
      obtain ⟨expired, now, hp⟩ := TimerLoop.endRead_phase he
      simp [TimerLoop.next, hp, remaining] at hit

theorem serial_next {s : Tracked} {e : Tracked.Event} {k : Nat} (hk : k < s.made.length)
    (hp : (s.next e).serial p = some k) :
    s.serial p = some k ∧ ∀ when delta repeats, s.loopEvent e ≠ .create p when delta repeats := by
  cases e with
  | create p' when delta repeats =>
      simp only [Tracked.next] at hp
      by_cases hne : p = p'
      · subst hne
        rw [Function.update_self, Option.some.injEq] at hp
        omega
      · rw [Function.update_of_ne hne] at hp
        refine ⟨hp, fun when delta repeats heq => hne ?_⟩
        simp only [Tracked.loopEvent, TimerLoop.Event.create.injEq] at heq
        exact heq.1.symm
  | addTimerInLoop _ _ | cancelInLoop _ | fire | handleRead _ | callback | endRead _ =>
      exact ⟨hp, by simp [Tracked.loopEvent]⟩

theorem doomed_next {s : Tracked} {e : Tracked.Event} (h : Inv s) (he : s.Enabled e) {k : Nat} (hk : k < s.made.length)
    (hd : ∀ p, s.serial p = some k → Doomed s.loop p) (hp : (s.next e).serial p = some k) :
    Doomed (s.next e).loop p := by
  obtain ⟨hold, hc⟩ := serial_next hk hp
  rw [Tracked.next_loop]
  exact step_doomed h.sound he.1 hc (hd p hold)

theorem cancel_next_doomed {s : Tracked} (h : Inv s) {k : Nat} (hi : Inserted s k) (hp : s.serial p = some k) :
    Doomed (s.next (.cancelInLoop k)).loop p := by
  rw [Tracked.next_loop]
  apply cancel_doomed h.sound h.flagged (fun hw => hi p hw hp)
  intro tm htm
  exact h.idOf_eq ⟨hp, htm⟩

theorem step_cancelInv (s : Cancelling) (e : Tracked.Event) (h : CancelInv s) (he : s.Enabled e ∧ NotAhead s e) :
    CancelInv (s.next e) := by
  have hlen := made_le_next s.tracked e
  have hold : ∀ k ∈ s.cancelled, k < (s.next e).tracked.made.length ∧
      (∀ p, (s.next e).tracked.serial p = some k → Doomed (s.next e).tracked.loop p) ∧
      ∀ it ∈ remaining (s.next e).tracked.loop.phase, (s.next e).tracked.serial it.timer ≠ some k := by
    intro k hk
    refine ⟨(h.made k hk).trans_le hlen, fun p hp => doomed_next h.tracked he.1 (h.made k hk) (h.doomed k hk) hp, ?_⟩
    intro it hit hp
    obtain ⟨hserial, _⟩ := serial_next (h.made k hk) hp
    simp only [Cancelling.next, Tracked.next_loop] at hit
    rcases remaining_next h.tracked.sound he.1.1 hit with hrest | htimers
    · exact h.passed k hk it hrest hserial
    · exact (h.doomed k hk it.timer hserial).entry it.when htimers
  have hnew : ∀ k ∈ (s.next e).cancelled, k ∈ s.cancelled ∨ e = .cancelInLoop k ∧ Inserted s.tracked k := by
    intro k hk
    cases e with
    | cancelInLoop j =>
        simp only [Cancelling.next] at hk
        split at hk
        · rename_i hi
          rcases List.mem_cons.mp hk with rfl | hk
          · exact .inr ⟨rfl, hi⟩
          · exact .inl hk
        · exact .inl hk
    | create _ _ _ _ | addTimerInLoop _ _ | fire | handleRead _ | callback | endRead _ => exact .inl hk
  refine ⟨step_inv s.tracked e h.tracked he.1, fun k hk => ?_, fun k hk => ?_, fun k hk => ?_⟩
  · rcases hnew k hk with hk | ⟨rfl, _⟩
    · exact (hold k hk).1
    · exact he.1.2
  · rcases hnew k hk with hk | ⟨rfl, hi⟩
    · exact (hold k hk).2.1
    · exact fun p hp => cancel_next_doomed h.tracked hi hp
  · rcases hnew k hk with hk | ⟨rfl, _⟩
    · exact (hold k hk).2.2
    · exact he.2

theorem startsLive (s : Cancelling) (e : Tracked.Event) (h : CancelInv s) : StartsLive s e :=
  fun it hit k hserial hk => h.passed k hk it (mem_starts hit) hserial

theorem cancelled_never_started (es : List Tracked.Event)
    (he : Meets Cancelling.next Cancelling.Enabled .construct es) (hc : Meets Cancelling.next NotAhead .construct es) :
    Meets Cancelling.next StartsLive .construct es := by
  refine meets_of_step step_cancelInv (fun s e h _ => startsLive s e h) ?_ (meets_and.mpr ⟨he, hc⟩)
  exact ⟨construct_inv, by simp [Cancelling.construct], by simp [Cancelling.construct], by simp [Cancelling.construct]⟩

theorem cancelled_never_started_self_cancel :
    Meets Cancelling.next StartsLive .construct
      [.create 1 (.construct 500) 700 true, .addTimerInLoop 1 (.construct 100), .create 2 (.construct 900) 0 false,
        .addTimerInLoop 2 (.construct 100), .fire, .handleRead (.construct 600), .callback, .cancelInLoop 0,
        .cancelInLoop 1, .endRead fun _ => .construct 650] :=
  cancelled_never_started _ (by decide +kernel) (by decide +kernel)

theorem next_handleRead {now : TimeStamp} {expired : List Entry}
    (he : (w.queue.timers.filter (· < ⟨now, UINTPTR_MAX⟩)).sort (· ≤ ·) = expired) :
    w.next (.handleRead now) =
      { w with
        queue := { expired.foldl deactivate
            { w.queue.readTimerfd with timers := w.queue.timers.filter (¬ · < ⟨now, UINTPTR_MAX⟩) } with
          callingExpiredTimer := true
          cancelingTimers := ∅ }
        phase := .calling expired now expired } := by
  subst he
  rfl

/-- Two timers are due; the callback of the first cancels the second, which is started nevertheless. -/
theorem cancelled_in_batch_still_started :
    ¬ ∀ es, Meets Cancelling.next Cancelling.Enabled .construct es →
      Meets Cancelling.next StartsLive .construct es := by
  intro hall
  let before : List Tracked.Event := [.create 1 (.construct 500) 0 false, .addTimerInLoop 1 (.construct 100),
    .create 2 (.construct 550) 0 false, .addTimerInLoop 2 (.construct 100), .fire]
  let s := run Cancelling.next .construct before
  have hfilter : s.tracked.loop.queue.timers.filter (· < ⟨.construct 600, UINTPTR_MAX⟩) =
      [(⟨.construct 500, 1⟩ : Entry), ⟨.construct 550, 2⟩].toFinset := by decide +kernel
  have hsort : (s.tracked.loop.queue.timers.filter (· < ⟨.construct 600, UINTPTR_MAX⟩)).sort (· ≤ ·) =
      [(⟨.construct 500, 1⟩ : Entry), ⟨.construct 550, 2⟩] := by
    rw [hfilter]
    exact (List.toFinset_sort _ (by decide +kernel)).mpr (by decide +kernel)
  have hread : s.next (.handleRead (.construct 600)) =
      ⟨{ s.tracked with loop := _, noted := [] }, s.cancelled⟩ :=
    congrArg (fun v => Cancelling.mk { s.tracked with loop := v, noted := [] } s.cancelled) (next_handleRead hsort)
  have hm := hall (before ++ [.handleRead (.construct 600), .callback, .cancelInLoop 1, .callback]) (by
    refine (meets_append _ _ _ _ _).mpr ⟨by decide +kernel, by decide +kernel, ?_⟩
    change Meets _ _ (s.next (.handleRead (.construct 600))) _
    rw [hread]
    decide +kernel)
  have hlast := ((meets_append _ _ _ _ _).mp hm).2.2
  change Meets _ _ (s.next (.handleRead (.construct 600))) _ at hlast
  rw [hread] at hlast
  exact absurd (hlast.2.2.1 ⟨.construct 550, 2⟩ (by decide +kernel) 1 (by decide +kernel)) (by decide +kernel)

end Webserver.TimerCancel
