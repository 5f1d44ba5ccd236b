import Webserver.TimerFrame

namespace Webserver.TimerFiring

open Runs TimerQueue TimerStore TimerFrame TimerLoop

def starts (w : TimerLoop) : Event → List Entry
  | .callback => match w.phase with
    | .calling _ _ (it :: _) => [it]
    | _ => []
  | _ => []

def started (w : TimerLoop) : List Event → List Entry
  | [] => []
  | e :: es => starts w e ++ started (w.next e) es

/-- What can happen inside a handleRead: the callbacks start, they add and cancel
timers, other threads make Timers, the timerfd expires. -/
def Inside : Event → Prop
  | .handleRead _ | .endRead _ => False
  | .create _ _ _ _ | .addTimerInLoop _ _ | .cancelInLoop _ | .fire | .callback => True

def firing (now : TimeStamp) (inside : List Event) (clock : Nat → TimeStamp) : List Event :=
  .handleRead now :: (inside ++ [.endRead clock])

/-- A timer that is added is looked up in the state in which its addTimerInLoop
runs; a timer is cancelled by a cancelInLoop with its address and number. -/
structure Exact (w : TimerLoop) (now : TimeStamp) (inside : List Event) (clock : Nat → TimeStamp) : Prop where
  due : ∀ e ∈ started w (firing now inside clock),
    e ∈ w.queue.timers ∧ e.when ≤ now ∧ ∃ tm, w.queue.heap e.timer = some tm ∧ tm.expiration = e.when
  ordered : (started w (firing now inside clock)).Pairwise (fun e f => e.when ≤ f.when)
  once : ((started w (firing now inside clock)).map Entry.timer).Nodup
  all : ∀ e ∈ w.queue.timers, e.when ≤ now → (started w (firing now inside clock)).count e = 1
  gone : ∀ e ∈ started w (firing now inside clock), ∀ tm, w.queue.heap e.timer = some tm →
    tm.repeats = false ∨ .cancelInLoop (e.timer, tm.sequence) ∈ inside →
    Gone (run next w (firing now inside clock)).queue e.timer
  again : ∀ e ∈ started w (firing now inside clock), ∀ tm, w.queue.heap e.timer = some tm →
    tm.repeats = true → .cancelInLoop (e.timer, tm.sequence) ∉ inside →
    Present (run next w (firing now inside clock)).queue e.timer { tm with expiration := now.addTime tm.delta }
  added : ∀ before p c later, inside = before ++ .addTimerInLoop p c :: later →
    ∀ tm, (run next w (.handleRead now :: before)).queue.heap p = some tm →
    .cancelInLoop (p, tm.sequence) ∉ later →
    Present (run next w (firing now inside clock)).queue p tm ∧
      p ∉ (started w (firing now inside clock)).map Entry.timer
  kept : ∀ p tm, Present w.queue p tm → now < tm.expiration → .cancelInLoop (p, tm.sequence) ∉ inside →
    Present (run next w (firing now inside clock)).queue p tm

variable {w : TimerLoop} {p : Pointer} {tm : Timer}

theorem started_append (w : TimerLoop) (ds es : List Event) :
    started w (ds ++ es) = started w ds ++ started (run next w ds) es := by
  induction ds generalizing w with
  | nil => rfl
  | cons d ds ih => simp [started, run, ih]

theorem run_sound {es : List Event} (h : Sound w) (he : Meets next Enabled w es) : Sound (run next w es) :=
  (always_of_step step_sound h he).last

def Flagged (w : TimerLoop) : Prop := w.phase ≠ .idle → w.queue.callingExpiredTimer = true

theorem step_flagged (w : TimerLoop) (e : Event) (h : Sound w) (he : w.Enabled e) (hf : Flagged w) :
    Flagged (w.next e) := by
  cases e with
  | create p when delta repeats => exact hf
  | addTimerInLoop p clock =>
      obtain ⟨tm, htm⟩ := h.waiting_alive he
      obtain ⟨timerfd, heq⟩ := addTimerInLoop_cases clock htm
      intro hp
      simp only [next, heq]
      exact hf hp
  | cancelInLoop id =>
      intro hp
      rw [next, (cancelInLoop_trims h.rooted id).calling]
      exact hf hp
  | fire => exact hf
  | handleRead now => exact fun _ => rfl
  | callback =>
      obtain ⟨expired, now, it, rest, hp, hn⟩ := callback_next h he
      rw [hn]
      intro _
      exact hf (by simp [hp])
  | endRead clock =>
      obtain ⟨expired, now, hp⟩ := endRead_phase he
      intro hidle
      simp [next, hp] at hidle

/-- A live Timer that is in the queue or in the batch is left alone inside a
handleRead by everything but its own cancelInLoop. -/
theorem inside_same {e : Event} (h : Sound w) (he : w.Enabled e) (hin : Inside e) (htm : w.queue.heap p = some tm)
    (hw : p ∉ w.waiting) (hc : e ≠ .cancelInLoop (p, tm.sequence)) :
    SameAt p w.queue (w.next e).queue ∧ p ∉ (w.next e).waiting := by
  cases e with
  | create p' when delta repeats =>
      have hne := created_ne he htm
      exact ⟨create_same hne when delta repeats w.queue, by simp [next, hne, hw]⟩
  | addTimerInLoop p' clock =>
      have hne : p ≠ p' := fun heq => hw (heq ▸ he)
      obtain ⟨tm', htm'⟩ := h.waiting_alive he
      exact ⟨addTimerInLoop_same hne clock htm', fun hm => hw (List.mem_of_mem_erase hm)⟩
  | cancelInLoop id =>
      refine ⟨cancelInLoop_same h.rooted fun tm' htm' heq => hc ?_, hw⟩
      rw [htm, Option.some.injEq] at htm'
      rw [heq, htm']
  | fire => exact ⟨.of_eq rfl rfl rfl rfl, hw⟩
  | handleRead now => exact hin.elim
  | callback =>
      obtain ⟨expired, now, it, rest, _, hn⟩ := callback_next h he
      rw [hn]
      exact ⟨.refl p w.queue, hw⟩
  | endRead clock => exact hin.elim

theorem inside_run_same {es : List Event} (h : Sound w) (he : Meets next Enabled w es) (hin : ∀ e ∈ es, Inside e)
    (htm : w.queue.heap p = some tm) (hw : p ∉ w.waiting) (hc : .cancelInLoop (p, tm.sequence) ∉ es) :
    SameAt p w.queue (run next w es).queue ∧ p ∉ (run next w es).waiting := by
  induction es generalizing w with
  | nil => exact ⟨.refl p w.queue, hw⟩
  | cons e es ih =>
      rw [List.mem_cons, not_or] at hc
      obtain ⟨hs, hw'⟩ := inside_same h he.1 (hin e (by simp)) htm hw (fun heq => hc.1 heq.symm)
      obtain ⟨hs', hw''⟩ := ih (step_sound w e h he.1) he.2 (fun d hd => hin d (by simp [hd])) (hs.heap.trans htm)
        hw' hc.2
      exact ⟨hs.trans hs', hw''⟩

theorem Present.not_waiting (h : Sound w) (hp : Present w.queue p tm) : p ∉ w.waiting :=
  fun hw => h.rooted.apart p (List.mem_append_right _ hw) _ hp.active

theorem Present.not_batch (h : Sound w) (hp : Present w.queue p tm) : p ∉ (batch w.phase).map Entry.timer :=
  fun hb => h.rooted.apart p (List.mem_append_left _ hb) _ hp.active

theorem inside_run_present {es : List Event} (h : Sound w) (he : Meets next Enabled w es) (hin : ∀ e ∈ es, Inside e)
    (hp : Present w.queue p tm) (hc : .cancelInLoop (p, tm.sequence) ∉ es) : Present (run next w es).queue p tm :=
  hp.same (inside_run_same h he hin hp.heap (Present.not_waiting h hp) hc).1

theorem inside_step_phase {e : Event} (h : Sound w) (he : w.Enabled e) (hin : Inside e) {expired rest : List Entry}
    {now : TimeStamp} (hp : w.phase = .calling expired now rest) :
    ∃ left, (w.next e).phase = .calling expired now left ∧ rest = starts w e ++ left := by
  cases e with
  | create p when delta repeats => exact ⟨rest, hp, rfl⟩
  | addTimerInLoop p clock => exact ⟨rest, hp, rfl⟩
  | cancelInLoop id => exact ⟨rest, hp, rfl⟩
  | fire => exact ⟨rest, hp, rfl⟩
  | handleRead now => exact hin.elim
  | callback =>
      obtain ⟨expired', now', it, left, hp', hn⟩ := callback_next h he
      rw [hp] at hp'
      cases hp'
      exact ⟨left, by rw [hn], by simp [starts, hp]⟩
  | endRead clock => exact hin.elim

theorem inside_batch {e : Event} (h : Sound w) (he : w.Enabled e) (hin : Inside e) :
    batch (w.next e).phase = batch w.phase := by
  cases e with
  | create _ _ _ _ | addTimerInLoop _ _ | cancelInLoop _ | fire => rfl
  | callback =>
      obtain ⟨expired, now, it, rest, hp, hn⟩ := callback_next h he
      rw [hn, hp]
      rfl
  | handleRead _ | endRead _ => exact hin.elim

theorem inside_phase {es : List Event} (h : Sound w) (he : Meets next Enabled w es) (hin : ∀ e ∈ es, Inside e)
    {expired rest : List Entry} {now : TimeStamp} (hp : w.phase = .calling expired now rest) :
    ∃ left, (run next w es).phase = .calling expired now left ∧ rest = started w es ++ left := by
  induction es generalizing w rest with
  | nil => exact ⟨rest, hp, rfl⟩
  | cons e es ih =>
      obtain ⟨left, hp', hrest⟩ := inside_step_phase h he.1 (hin e (by simp)) hp
      obtain ⟨left', hp'', hrest'⟩ := ih (step_sound w e h he.1) he.2 (fun d hd => hin d (by simp [hd])) hp'
      exact ⟨left', hp'', by rw [hrest, hrest', started, List.append_assoc]⟩

theorem not_waiting_of_batch (h : Sound w) {it : Entry} (hit : it ∈ batch w.phase) : it.timer ∉ w.waiting := by
  intro hw
  exact (List.nodup_append.mp h.rooted.nodup).2.2 it.timer (List.mem_map_of_mem hit) it.timer hw rfl

theorem cancel_batch (h : Sound w) (hf : Flagged w) {it : Entry} (hit : it ∈ batch w.phase) (s : Int) :
    w.queue.cancelInLoop (it.timer, s) =
      { w.queue with cancelingTimers := Insert.insert (it.timer, s) w.queue.cancelingTimers } := by
  have hcalling : w.phase ≠ .idle := by
    intro hidle
    simp [hidle, batch] at hit
  rw [cancelInLoop_inactive (h.batch_inactive hit s), if_pos (hf hcalling)]

/-- Inside a handleRead a Timer of the batch stays as it is, and reset will find
it cancelled exactly if it was before or a cancelInLoop with its id is executed. -/
theorem inside_run_batch {es : List Event} (h : Sound w) (hf : Flagged w) (he : Meets next Enabled w es)
    (hin : ∀ e ∈ es, Inside e) {it : Entry} (hit : it ∈ batch w.phase) (htm : w.queue.heap it.timer = some tm) :
    (run next w es).queue.heap it.timer = some tm ∧
      ((it.timer, tm.sequence) ∈ (run next w es).queue.cancelingTimers ↔
        (it.timer, tm.sequence) ∈ w.queue.cancelingTimers ∨ .cancelInLoop (it.timer, tm.sequence) ∈ es) := by
  induction es generalizing w with
  | nil => simp [run, htm]
  | cons e es ih =>
      have hbatch := inside_batch h he.1 (hin e (by simp))
      have hheap : (w.next e).queue.heap it.timer = some tm ∧
          ((it.timer, tm.sequence) ∈ (w.next e).queue.cancelingTimers ↔
            (it.timer, tm.sequence) ∈ w.queue.cancelingTimers ∨ e = .cancelInLoop (it.timer, tm.sequence)) := by
        by_cases hown : e = .cancelInLoop (it.timer, tm.sequence)
        · subst hown
          simp [next, cancel_batch h hf hit, htm]
        · obtain ⟨hs, _⟩ := inside_same h he.1 (hin e (by simp)) htm (not_waiting_of_batch h hit) hown
          simp [hs.heap, htm, hs.canceling tm htm, hown]
      have hrun := ih (step_sound w e h he.1) (step_flagged w e h he.1 hf) he.2 (fun d hd => hin d (by simp [hd]))
        (hbatch ▸ hit) hheap.1
      refine ⟨hrun.1, hrun.2.trans ?_⟩
      rw [hheap.2, List.mem_cons, or_assoc]
      exact or_congr_right (or_congr_left eq_comm)

theorem beginRead_heap (h : Sound w) (hidle : w.phase = .idle) (now : TimeStamp) :
    (w.next (.handleRead now)).queue.heap = w.queue.heap := by
  obtain ⟨A, heq, _⟩ := getExpired_eq (beginRead_rooted h hidle) now
  simp only [next, beginRead, heq]
  rfl

theorem beginRead_present (h : Sound w) (hidle : w.phase = .idle) {now : TimeStamp} (hp : Present w.queue p tm)
    (hlate : now < tm.expiration) : Present (w.next (.handleRead now)).queue p tm := by
  have hread : Present w.queue.readTimerfd p tm := hp.same (.of_eq rfl rfl rfl rfl)
  obtain ⟨hheap, hentry, hactive⟩ := getExpired_present (beginRead_rooted h hidle) hread (not_le.mpr hlate)
  exact ⟨hheap, hentry, hactive⟩

variable {expired : List Entry} {now : TimeStamp}

theorem endRead_queue (hp : w.phase = .calling expired now []) (clock : Nat → TimeStamp) :
    (w.next (.endRead clock)).queue =
      (resetLoop now clock expired ({ w.queue with callingExpiredTimer := false }, .invalid)).1 := by
  simp only [next, hp]
  rfl

theorem endRead_same (h : Sound w) (hp : w.phase = .calling expired now []) (clock : Nat → TimeStamp)
    (hout : p ∉ expired.map Entry.timer) : SameAt p w.queue (w.next (.endRead clock)).queue := by
  rw [endRead_queue hp clock]
  have hclear : SameAt p w.queue { w.queue with callingExpiredTimer := false } := .of_eq rfl rfl rfl rfl
  exact hclear.trans (resetLoop_same (endRead_rooted h hp) hout now clock .invalid)

theorem endRead_own (h : Sound w) (hp : w.phase = .calling expired now []) (clock : Nat → TimeStamp) {it : Entry}
    (hit : it ∈ expired) (htm : w.queue.heap it.timer = some tm) :
    (tm.repeats = true ∧ (it.timer, tm.sequence) ∉ w.queue.cancelingTimers →
        Present (w.next (.endRead clock)).queue it.timer (tm.restart now)) ∧
      (¬ (tm.repeats = true ∧ (it.timer, tm.sequence) ∉ w.queue.cancelingTimers) →
        Gone (w.next (.endRead clock)).queue it.timer) := by
  rw [endRead_queue hp clock]
  exact resetLoop_own (endRead_rooted h hp) hit htm now clock .invalid

theorem endRead_present (h : Sound w) (hp : w.phase = .calling expired now []) (clock : Nat → TimeStamp)
    (hpres : Present w.queue p tm) : Present (w.next (.endRead clock)).queue p tm := by
  have hout := Present.not_batch h hpres
  rw [hp] at hout
  exact hpres.same (endRead_same h hp clock hout)

theorem firing_parts {inside : List Event} {clock : Nat → TimeStamp} (h : Sound w)
    (he : Meets next Enabled w (firing now inside clock)) (hin : ∀ e ∈ inside, Inside e) :
    w.phase = .idle ∧ Sound (w.next (.handleRead now)) ∧ Meets next Enabled (w.next (.handleRead now)) inside ∧
      Sound (run next (w.next (.handleRead now)) inside) ∧
      (run next (w.next (.handleRead now)) inside).phase =
        .calling (w.queue.readTimerfd.getExpired now).1 now [] ∧
      started w (firing now inside clock) = (w.queue.readTimerfd.getExpired now).1 ∧
      run next w (firing now inside clock) = (run next (w.next (.handleRead now)) inside).next (.endRead clock) := by
  obtain ⟨hidle, hrest⟩ := he
  obtain ⟨hinside, hend, _⟩ := (meets_append next Enabled _ _ _).mp hrest
  have hs := step_sound w (.handleRead now) h hidle
  have hs' := run_sound hs hinside
  obtain ⟨left, hp, hbatch⟩ := inside_phase hs hinside hin
    (show (w.next (.handleRead now)).phase = .calling (w.queue.readTimerfd.getExpired now).1 now
      (w.queue.readTimerfd.getExpired now).1 from rfl)
  obtain ⟨expired', now', hp'⟩ := endRead_phase hend
  rw [hp] at hp'
  cases hp'
  rw [List.append_nil] at hbatch
  refine ⟨hidle, hs, hinside, hs', hp, ?_, ?_⟩
  · rw [firing, started, started_append, ← hbatch]
    simp [starts, started]
  · rw [firing, run, List.foldl_cons, List.foldl_append]
    rfl

theorem firing_exact (es : List Event) (hes : Meets next Enabled construct es) (now : TimeStamp) (inside : List Event)
    (hin : ∀ e ∈ inside, Inside e) (clock : Nat → TimeStamp)
    (he : Meets next Enabled (run next construct es) (firing now inside clock)) :
    Exact (run next construct es) now inside clock := by
  have h := run_sound construct_sound hes
  generalize run next construct es = w at he h ⊢
  obtain ⟨hidle, hs, hinside, hs', hp, hstarted, hrun⟩ := firing_parts h he hin
  have hread := beginRead_rooted h hidle
  have hheap := beginRead_heap h hidle now
  have hdue (e : Entry) : e ∈ (w.queue.readTimerfd.getExpired now).1 ↔ e ∈ w.queue.timers ∧ e.when ≤ now :=
    expired_iff hread
  have hnodup : ((w.queue.readTimerfd.getExpired now).1.map Entry.timer).Nodup :=
    (List.nodup_append.mp hs.rooted.nodup).1
  have hown {e : Entry} (hbatch : e ∈ (w.queue.readTimerfd.getExpired now).1) {tm : Timer}
      (htm : w.queue.heap e.timer = some tm) :=
    inside_run_batch hs (fun _ => rfl) hinside hin
      (show e ∈ batch (w.next (.handleRead now)).phase from hbatch) ((congrFun hheap _).trans htm)
  constructor
  · intro e hmem
    rw [hstarted] at hmem
    obtain ⟨htimers, hle⟩ := (hdue e).mp hmem
    obtain ⟨tm, htm, hw, _⟩ := h.rooted.entry e htimers
    exact ⟨htimers, hle, tm, htm, hw⟩
  · rw [hstarted]
    exact (Finset.pairwise_sort _ _).imp Entry.when_le
  · rw [hstarted]
    exact hnodup
  · intro e hmem hle
    rw [hstarted]
    exact List.count_eq_one_of_mem hnodup.of_map ((hdue e).mpr ⟨hmem, hle⟩)
  · intro e hmem tm htm hgone
    rw [hstarted] at hmem
    obtain ⟨hlive, hcancel⟩ := hown hmem htm
    rw [hrun]
    apply (endRead_own hs' hp clock hmem hlive).2
    rintro ⟨hrep, hnot⟩
    rcases hgone with hone | hc
    · simp [hone] at hrep
    · exact hnot (hcancel.mpr (.inr hc))
  · intro e hmem tm htm hrep hnot
    rw [hstarted] at hmem
    obtain ⟨hlive, hcancel⟩ := hown hmem htm
    have hback := (endRead_own hs' hp clock hmem hlive).1
      ⟨hrep, fun hc => (hcancel.mp hc).elim (by simp [next, beginRead]) hnot⟩
    rw [hrun]
    simpa [Timer.restart, hrep] using hback
  · rintro before p c later rfl tm htm hnot
    obtain ⟨hbefore, hadd, hlater⟩ := (meets_append next Enabled _ _ _).mp hinside
    have hsb := run_sound hs hbefore
    have hpres : Present ((run next (w.next (.handleRead now)) before).next (.addTimerInLoop p c)).queue p tm :=
      addTimerInLoop_present c htm
    have hsa := step_sound _ _ hsb hadd
    have hend := inside_run_present hsa hlater (fun d hd => hin d (by simp [hd])) hpres hnot
    have hlast : Present (run next (w.next (.handleRead now)) (before ++ .addTimerInLoop p c :: later)).queue p tm := by
      rw [run_append]
      exact hend
    rw [hrun, hstarted]
    refine ⟨endRead_present hs' hp clock hlast, ?_⟩
    have hout := Present.not_batch hs' hlast
    rw [hp] at hout
    exact hout
  · intro p tm hpres hlate hnot
    have hbegin := beginRead_present h hidle hpres hlate
    rw [hrun]
    exact endRead_present hs' hp clock (inside_run_present hs hinside hin hbegin hnot)

theorem firing_exact_self_cancel :
    Exact (run next construct [.create 1 (.construct 500) 700 true, .addTimerInLoop 1 (.construct 100),
        .create 2 (.construct 900) 0 false, .addTimerInLoop 2 (.construct 100)]) (.construct 600)
      [.callback, .create 3 (.construct 580) 0 false, .addTimerInLoop 3 (.construct 610), .cancelInLoop (1, 0),
        .cancelInLoop (2, 1)] (fun _ => .construct 620) :=
  firing_exact _ (by decide +kernel) _ _ (by simp [Inside]) _ (by decide +kernel)

end Webserver.TimerFiring
