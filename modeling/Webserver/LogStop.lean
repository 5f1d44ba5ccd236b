import Webserver.LogConservation

namespace Webserver.LogStop

open Runs AsyncLogging LogBuffers LogConservation

/-- The lines of h lie in the batches of a later t, whose buffers have been
passed to the output, the dropped ones apart. -/
structure Passed (h t : Logged) : Prop where
  batched : h.lines.flatten <+: t.batches.flatten.flatten
  output : t.log.output = (t.batches.map retained).flatten.flatten

def Heading (s : AsyncLogging) : Prop := s.point = .entered ∨ s.point = .waiting

def Active (s : AsyncLogging) : Prop := s.running = true → s.point ≠ .notStarted ∧ s.point ≠ .finished

inductive Moves (h t : Logged) : Prop
  | stays (hpoint : t.log.point = h.log.point) (hbatches : t.batches = h.batches)
  | tests (hpoint : h.log.point = .test) (hnext : t.log.point = if h.log.running then .entered else .finished)
      (hbatches : t.batches = h.batches)
  | waits (hpoint : h.log.point = .entered) (hnext : t.log.point = .waiting) (hbatches : t.batches = h.batches)
  | swaps (hpoint : Heading h.log) (hnext : t.log.point = .swapped)
      (hbatches : t.batches.flatten.flatten = h.lines.flatten)
  | writes (hpoint : h.log.point = .swapped ∨ ∃ i, h.log.point = .writing i)
      (hnext : t.log.point = .test ∨ ∃ i, t.log.point = .writing i) (hbatches : t.batches = h.batches)

theorem swap_moves {h : Logged} (hi : Inv h) (hp : Heading h.log) (ht : h.log.thread = h.log.swap)
    (hw : h.log.buffersToWrite = []) : Moves h (h.next .thread) := by
  obtain ⟨hpoint, _, hwrite, _⟩ := swap_frame h.log hw
  have hn : (h.next .thread).batches = h.batches ++ [(h.log.buffers ++ [h.log.currentBuffer]).map bytes] := by
    simp only [Logged.next, ht, hpoint, if_true, hwrite]
  refine .swaps hp (by simp only [Logged.next, ht, hpoint]) ?_
  simp [hn, hi.lines, pending]

theorem thread_moves {h : Logged} (hi : Inv h) : Moves h (h.next .thread) := by
  have hstep := thread_step hi.shape.ready
  generalize ht : h.log.thread = s at hstep
  have hbatches : s.point ≠ .swapped → (h.next .thread).batches = h.batches := fun hp => by
    simp only [Logged.next, ht, hp, if_false]
  have hpoint : (h.next .thread).log.point = s.point := by
    simp only [Logged.next, ht]
  cases hstep with
  | rests hp => exact .stays hpoint (hbatches (by rcases hp with hp | hp <;> simp [hp]))
  | tests hp => exact .tests hp hpoint (hbatches (by simp only; split <;> simp))
  | waits hp => exact .waits hp hpoint (hbatches (by simp))
  | swaps hp hw => exact swap_moves hi hp ht hw
  | drops hp => exact .writes (.inl hp) (.inr ⟨0, hpoint⟩) (hbatches (by simp))
  | writes hp => exact .writes (.inr ⟨_, hp⟩) (.inr ⟨_, hpoint⟩) (hbatches (by simp))
  | recycles hp => exact .writes (.inr ⟨_, hp⟩) (.inl hpoint) (hbatches (by simp))

theorem append_running {s : AsyncLogging} (hs : Shape s) (logline : List Byte) :
    (s.append logline).running = s.running := by
  obtain ⟨current, _, ⟨_, ha⟩ | ha⟩ := append_cases hs logline <;> rw [ha]

theorem swap_running (s : AsyncLogging) : s.swap.running = s.running := by
  simp only [swap]
  split
  · rfl
  · rfl

theorem thread_running {s : AsyncLogging} (hr : Ready s) : s.thread.running = s.running := by
  have hstep := thread_step hr
  generalize s.thread = t at hstep ⊢
  cases hstep with
  | swaps => exact swap_running s
  | rests | tests | waits | drops | writes | recycles => rfl

theorem step_active (h : Logged) (e : Event) (hi : Inv h) (ha : Active h.log) : Active (h.next e).log := by
  cases e with
  | start =>
      intro _
      simp [Logged.next, AsyncLogging.next, AsyncLogging.start]
  | stop =>
      intro hrun
      simp [Logged.next, AsyncLogging.next, AsyncLogging.stop] at hrun
  | append logline =>
      intro hrun
      simp only [Logged.next, append_running hi.shape] at hrun ⊢
      rw [(append_frame hi.shape logline).2.1]
      exact ha hrun
  | thread =>
      intro hrun
      have hrun : h.log.running = true := by
        simpa only [Logged.next, thread_running hi.shape.ready] using hrun
      cases thread_moves hi with
      | stays hpoint => rw [hpoint]; exact ha hrun
      | tests _ hnext => simp [hnext, hrun]
      | waits _ hnext | swaps _ hnext => simp [hnext]
      | writes _ hnext => rcases hnext with hnext | ⟨i, hnext⟩ <;> simp [hnext]

theorem stopped_step {u : Logged} {e : Event} (hi : Inv u) (hrun : u.log.running = false)
    (hp : u.log.point ≠ .notStarted) (he : u.Enabled e) :
    Moves u (u.next e) ∧ (u.next e).log.running = false ∧ u.lines <+: (u.next e).lines := by
  cases e with
  | start => exact absurd he hp
  | stop =>
      have hr : u.log.running = true := he
      simp [hrun] at hr
  | append logline =>
      refine ⟨.stays (append_frame hi.shape logline).2.1 rfl, ?_, List.prefix_append _ _⟩
      rw [← hrun]
      exact append_running hi.shape logline
  | thread => exact ⟨thread_moves hi, (thread_running hi.shape.ready).trans hrun, List.prefix_rfl⟩

structure Safe (h u : Logged) : Prop where
  inv : Inv u
  stopped : u.log.running = false
  started : u.log.point ≠ .notStarted
  lines : h.lines <+: u.lines
  batched : ¬ Heading u.log → h.lines.flatten <+: u.batches.flatten.flatten

structure Closing (h u : Logged) : Prop where
  inv : Inv u
  stopped : u.log.running = false
  started : u.log.point ≠ .notStarted
  past : ¬ Heading u.log
  batches : u.batches = h.batches

theorem step_safe (h u : Logged) (e : Event) (hs : Safe h u) (he : u.Enabled e) : Safe h (u.next e) := by
  obtain ⟨hm, hrun, hlines⟩ := stopped_step hs.inv hs.stopped hs.started he
  have hinv := step_inv u e hs.inv he
  have hmore := hs.lines.trans hlines
  cases hm with
  | stays hpoint hbatches =>
      refine ⟨hinv, hrun, hpoint ▸ hs.started, hmore, ?_⟩
      simp only [Heading, hpoint, hbatches]
      exact hs.batched
  | tests hpoint hnext hbatches =>
      rw [hs.stopped] at hnext
      refine ⟨hinv, hrun, by simp [hnext], hmore, fun _ => ?_⟩
      rw [hbatches]
      exact hs.batched (by simp [Heading, hpoint])
  | waits hpoint hnext =>
      exact ⟨hinv, hrun, by simp [hnext], hmore, fun hn => absurd (.inr hnext) hn⟩
  | swaps hpoint hnext hbatches =>
      refine ⟨hinv, hrun, by simp [hnext], hmore, fun _ => ?_⟩
      obtain ⟨rest, hrest⟩ := hs.lines
      rw [hbatches, ← hrest, List.flatten_append]
      exact List.prefix_append _ _
  | writes hpoint hnext hbatches =>
      refine ⟨hinv, hrun, ?_, hmore, fun _ => ?_⟩
      · rcases hnext with hnext | ⟨i, hnext⟩ <;> simp [hnext]
      · rw [hbatches]
        exact hs.batched (by rcases hpoint with hpoint | ⟨i, hpoint⟩ <;> simp [Heading, hpoint])

theorem step_closing (h u : Logged) (e : Event) (hc : Closing h u) (he : u.Enabled e) :
    Closing h (u.next e) := by
  obtain ⟨hm, hrun, _⟩ := stopped_step hc.inv hc.stopped hc.started he
  have hinv := step_inv u e hc.inv he
  cases hm with
  | stays hpoint hbatches =>
      refine ⟨hinv, hrun, hpoint ▸ hc.started, ?_, hbatches.trans hc.batches⟩
      simpa only [Heading, hpoint] using hc.past
  | tests hpoint hnext hbatches =>
      rw [hc.stopped] at hnext
      exact ⟨hinv, hrun, by simp [hnext], by simp [Heading, hnext], hbatches.trans hc.batches⟩
  | waits hpoint => exact absurd (.inl hpoint) hc.past
  | swaps hpoint => exact absurd hpoint hc.past
  | writes hpoint hnext hbatches =>
      refine ⟨hinv, hrun, ?_, ?_, hbatches.trans hc.batches⟩
      · rcases hnext with hnext | ⟨i, hnext⟩ <;> simp [hnext]
      · rcases hnext with hnext | ⟨i, hnext⟩ <;> simp [Heading, hnext]

theorem finished_output {t : Logged} (hi : Inv t) (hf : t.log.point = .finished) :
    t.log.output = (t.batches.map retained).flatten.flatten := by
  have hr := hi.shape.ready
  have hw := hi.written
  simp only [Ready, hf] at hr
  simpa only [survivors, unwritten, hf, hr, reduceCtorEq, if_false, List.map_nil, List.flatten_nil,
    List.append_nil] using hw

theorem not_prefix_of_pending {h : Logged} (hi : Inv h) (hp : pending h.log ≠ []) :
    ¬ h.lines.flatten <+: h.batches.flatten.flatten := by
  intro hpre
  have hlen := hpre.length_le
  rw [hi.lines, List.length_append] at hlen
  have hpos := List.length_pos_of_ne_nil hp
  omega

theorem run_inv {ds : List Event} (hd : Meets Logged.next Logged.Enabled .construct ds) :
    Inv (run Logged.next .construct ds) ∧ Active (run Logged.next .construct ds).log := by
  refine (always_of_step (P := fun h => Inv h ∧ Active h.log) ?_ ⟨construct_inv, ?_⟩ hd).last
  · rintro h e ⟨hi, ha⟩ he
    exact ⟨step_inv h e hi he, step_active h e hi ha⟩
  · intro hrun
    simp [Logged.construct, AsyncLogging.construct] at hrun

/-- stop loses no line exactly when it finds the thread on its way to a swap, or nothing pending. -/
theorem stop_passes_iff (ds es : List Event)
    (he : Meets Logged.next Logged.Enabled .construct (ds ++ .stop :: es))
    (hf : (run Logged.next .construct (ds ++ .stop :: es)).log.point = .finished) :
    Passed (run Logged.next .construct ds) (run Logged.next .construct (ds ++ .stop :: es)) ↔
      Heading (run Logged.next .construct ds).log ∨ pending (run Logged.next .construct ds).log = [] := by
  obtain ⟨hd, hstop, hes⟩ := (meets_append _ _ _ _ _).mp he
  rw [run_append] at hf ⊢
  obtain ⟨hi, ha⟩ := run_inv hd
  generalize run Logged.next .construct ds = h at hf hstop hes hi ha ⊢
  have hstarted : (h.next .stop).log.point ≠ .notStarted := (ha hstop).1
  have hi' := step_inv h .stop hi hstop
  change (run Logged.next (h.next .stop) es).log.point = .finished at hf
  change Passed h (run Logged.next (h.next .stop) es) ↔ _
  by_cases hheading : Heading h.log ∨ pending h.log = []
  · have hsafe : Safe h (h.next .stop) := by
      refine ⟨hi', rfl, hstarted, List.prefix_rfl, fun hn => ?_⟩
      rw [hi.lines, hheading.resolve_left hn, List.append_nil]
      exact List.prefix_rfl
    have ht := (always_of_step (step_safe h) hsafe hes).last
    exact iff_of_true ⟨ht.batched (by simp [Heading, hf]), finished_output ht.inv hf⟩ hheading
  · push Not at hheading
    have hclosing : Closing h (h.next .stop) := ⟨hi', rfl, hstarted, hheading.1, rfl⟩
    have ht := (always_of_step (step_closing h) hclosing hes).last
    refine iff_of_false (fun hp => ?_) (by tauto)
    exact not_prefix_of_pending hi hheading.2 (ht.batches ▸ hp.batched)

theorem stop_passes_waiting :
    Passed (run Logged.next .construct [.start, .thread, .thread, .append [65]])
      (run Logged.next .construct ([.start, .thread, .thread, .append [65]] ++
        .stop :: [.thread, .thread, .thread, .thread, .thread])) :=
  (stop_passes_iff [.start, .thread, .thread, .append [65]] [.thread, .thread, .thread, .thread, .thread]
    (by decide) (by decide)).mpr (.inl (.inr (by decide)))

/-- A line is appended before the thread looks at running_, which stop clears. -/
theorem stop_before_test_loses_line :
    Meets Logged.next Logged.Enabled .construct ([.start, .append [65]] ++ .stop :: [.thread]) ∧
      (run Logged.next .construct ([.start, .append [65]] ++ .stop :: [.thread])).log.point = .finished ∧
      ¬ Passed (run Logged.next .construct [.start, .append [65]])
        (run Logged.next .construct ([.start, .append [65]] ++ .stop :: [.thread])) := by
  refine ⟨by decide, by decide, fun h => ?_⟩
  have hb := h.batched.length_le
  revert hb
  decide

end Webserver.LogStop
