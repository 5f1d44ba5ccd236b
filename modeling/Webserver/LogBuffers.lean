import Webserver.AsyncLogging
import Webserver.Runs

namespace Webserver.LogBuffers

open AsyncLogging

/-- What threadFunc holds at each of its points. -/
def Ready (s : AsyncLogging) : Prop :=
  match s.point with
  | .notStarted | .finished => s.buffersToWrite = []
  | .test | .entered | .waiting => s.buffersToWrite = [] ∧ s.newBuffer1.isSome ∧ s.newBuffer2.isSome
  | .swapped | .writing _ => (∀ o ∈ s.buffersToWrite, o.isSome) ∧ s.newBuffer1 = none ∧
      (if s.newBuffer2.isNone then 2 else 1) ≤ s.buffersToWrite.length

structure Shape (s : AsyncLogging) : Prop where
  sound : s.fault = false
  current : s.currentBuffer.isSome
  full : ∀ o ∈ s.buffers, o.isSome
  next : s.nextBuffer = none → s.buffers ≠ []
  ready : Ready s

theorem construct_shape : Shape .construct := by
  refine ⟨rfl, rfl, ?_, ?_, rfl⟩ <;> simp [AsyncLogging.construct]

theorem append_cases {s : AsyncLogging} (h : Shape s) (logline : List Byte) :
    ∃ current, s.currentBuffer = some current ∧
      (logline.length < current.avail ∧
          s.append logline = { s with currentBuffer := some (current.append logline) } ∨
        s.append logline = { s with
          buffers := s.buffers ++ [some current]
          currentBuffer := some ((s.nextBuffer.getD .construct).append logline)
          nextBuffer := none }) := by
  obtain ⟨current, hc⟩ := Option.isSome_iff_exists.mp h.current
  refine ⟨current, hc, ?_⟩
  simp only [AsyncLogging.append, hc]
  split
  · rename_i ha
    exact .inl ⟨ha, rfl⟩
  · exact .inr rfl

theorem append_shape {s : AsyncLogging} (h : Shape s) (logline : List Byte) : Shape (s.append logline) := by
  obtain ⟨current, _, ⟨_, ha⟩ | ha⟩ := append_cases h logline
  · rw [ha]
    exact ⟨h.sound, rfl, h.full, h.next, h.ready⟩
  · rw [ha]
    refine ⟨h.sound, rfl, ?_, by simp, h.ready⟩
    intro o ho
    rcases List.mem_append.mp ho with ho | ho
    · exact h.full o ho
    · simp [List.mem_singleton.mp ho]

theorem swap_shape {s : AsyncLogging} (h : Shape s) (hw : s.buffersToWrite = []) (h₁ : s.newBuffer1.isSome)
    (h₂ : s.newBuffer2.isSome) : Shape s.swap := by
  have hall : ∀ o ∈ s.buffers ++ [s.currentBuffer], o.isSome := by
    intro o ho
    rcases List.mem_append.mp ho with ho | ho
    · exact h.full o ho
    · rw [List.mem_singleton.mp ho]
      exact h.current
  simp only [swap]
  split
  · rename_i hn
    have hpos : 0 < s.buffers.length := List.length_pos_of_ne_nil (h.next (by simpa using hn))
    refine ⟨h.sound, h₁, by simp [hw], fun he => ?_, hall, rfl, ?_⟩
    · simp [show s.newBuffer2 = none from he] at h₂
    · simp
      omega
  · rename_i hn
    refine ⟨h.sound, h₁, by simp [hw], fun he => ?_, hall, rfl, ?_⟩
    · simp [show s.nextBuffer = none from he] at hn
    · have hne : s.newBuffer2.isNone = false := by simpa using h₂
      simp [hne]

theorem keep_length {α : Type} (v : List α) : min 2 v.length ≤ (keep v).length := by
  by_cases hv : 25 < v.length
  · simp [keep, hv]
  · simp only [keep, hv, if_false]
    omega

theorem mem_of_mem_keep {α : Type} {v : List α} {a : α} (h : a ∈ keep v) : a ∈ v := by
  simp only [keep] at h
  split at h
  · exact List.mem_of_mem_take h
  · exact h

theorem refill_none {v : List (Option LargeBuffer)} (hv : ∀ o ∈ v, o.isSome) (hne : v ≠ []) :
    refill none v = (some .construct, v.dropLast, false) := by
  obtain ⟨u, o, rfl⟩ := (List.eq_nil_or_concat v).resolve_left hne
  obtain ⟨b, rfl⟩ := Option.isSome_iff_exists.mp (hv o (by simp))
  simp [refill, FixedBuffer.reset]

theorem recycle_eq {s : AsyncLogging} (hv : ∀ o ∈ s.buffersToWrite, o.isSome) (h₁ : s.newBuffer1 = none)
    (hlen : (if s.newBuffer2.isNone then 2 else 1) ≤ s.buffersToWrite.length) :
    s.recycle = { s with
      newBuffer1 := some .construct
      newBuffer2 := some (s.newBuffer2.getD .construct)
      buffersToWrite := []
      point := .test } := by
  have htake : (if 2 < s.buffersToWrite.length then s.buffersToWrite.take 2 else s.buffersToWrite) =
      s.buffersToWrite.take 2 := by
    split
    · rfl
    · exact (List.take_of_length_le (by omega)).symm
  have hvs : ∀ o ∈ s.buffersToWrite.take 2, o.isSome := fun o ho => hv o (List.mem_of_mem_take ho)
  have hne : s.buffersToWrite.take 2 ≠ [] := by
    apply List.ne_nil_of_length_pos
    rw [List.length_take]
    split at hlen <;> omega
  simp only [recycle, htake, h₁, refill_none hvs hne]
  cases h₂ : s.newBuffer2 with
  | some b => simp [refill]
  | none =>
      rw [h₂] at hlen
      have hlen₂ : 2 ≤ s.buffersToWrite.length := hlen
      have hvs' : ∀ o ∈ (s.buffersToWrite.take 2).dropLast, o.isSome := fun o ho =>
        hvs o ((List.dropLast_sublist _).subset ho)
      have hne' : (s.buffersToWrite.take 2).dropLast ≠ [] := by
        apply List.ne_nil_of_length_pos
        rw [List.length_dropLast, List.length_take]
        omega
      simp [refill_none hvs' hne']

/-- Everything that one step of threadFunc can do when no buffer is missing. -/
inductive ThreadStep (s : AsyncLogging) : AsyncLogging → Prop
  | rests (hp : s.point = .notStarted ∨ s.point = .finished) : ThreadStep s s
  | tests (hp : s.point = .test) (hw : s.buffersToWrite = []) :
      ThreadStep s { s with point := if s.running then .entered else .finished }
  | waits (hp : s.point = .entered) : ThreadStep s { s with point := .waiting }
  | swaps (hp : s.point = .entered ∨ s.point = .waiting) (hw : s.buffersToWrite = []) : ThreadStep s s.swap
  | drops (hp : s.point = .swapped) :
      ThreadStep s { s with buffersToWrite := keep s.buffersToWrite, point := .writing 0 }
  | writes {i : Nat} {b : LargeBuffer} (hp : s.point = .writing i) (ho : s.buffersToWrite[i]? = some (some b)) :
      ThreadStep s { s with output := s.output ++ b.data, point := .writing (i + 1) }
  | recycles {i : Nat} (hp : s.point = .writing i) (ho : s.buffersToWrite[i]? = none) :
      ThreadStep s { s with
        newBuffer1 := some .construct
        newBuffer2 := some (s.newBuffer2.getD .construct)
        buffersToWrite := []
        point := .test }

theorem thread_step {s : AsyncLogging} (hr : Ready s) : ThreadStep s s.thread := by
  simp only [Ready] at hr
  cases hp : s.point with
  | notStarted =>
      simp only [thread, hp]
      exact .rests (.inl hp)
  | finished =>
      simp only [thread, hp]
      exact .rests (.inr hp)
  | test =>
      rw [hp] at hr
      simp only [thread, hp]
      exact .tests hp hr.1
  | entered =>
      rw [hp] at hr
      simp only [thread, hp]
      split
      · exact .waits hp
      · exact .swaps (.inl hp) hr.1
  | waiting =>
      rw [hp] at hr
      simp only [thread, hp]
      exact .swaps (.inr hp) hr.1
  | swapped =>
      simp only [thread, hp]
      exact .drops hp
  | writing i =>
      rw [hp] at hr
      simp only [thread, hp]
      split
      · rename_i ho
        exact .writes hp ho
      · rename_i ho
        exact absurd (hr.1 none (List.mem_of_getElem? ho)) (by simp)
      · rename_i ho
        rw [recycle_eq hr.1 hr.2.1 hr.2.2]
        exact .recycles hp ho

theorem thread_shape {s : AsyncLogging} (h : Shape s) : Shape s.thread := by
  have hr := h.ready
  have hstep := thread_step hr
  simp only [Ready] at hr
  generalize s.thread = t at hstep ⊢
  cases hstep with
  | rests => exact h
  | tests hp =>
      rw [hp] at hr
      refine ⟨h.sound, h.current, h.full, h.next, ?_⟩
      cases hrun : s.running with
      | true => exact hr
      | false => exact hr.1
  | waits hp =>
      rw [hp] at hr
      exact ⟨h.sound, h.current, h.full, h.next, hr⟩
  | swaps hp hw =>
      rcases hp with hp | hp
      · rw [hp] at hr
        exact swap_shape h hw hr.2.1 hr.2.2
      · rw [hp] at hr
        exact swap_shape h hw hr.2.1 hr.2.2
  | drops hp =>
      rw [hp] at hr
      obtain ⟨hall, h₁, hlen⟩ := hr
      refine ⟨h.sound, h.current, h.full, h.next, fun o ho => hall o (mem_of_mem_keep ho), h₁, ?_⟩
      refine le_trans (le_min ?_ hlen) (keep_length s.buffersToWrite)
      split <;> omega
  | writes hp =>
      rw [hp] at hr
      exact ⟨h.sound, h.current, h.full, h.next, hr⟩
  | recycles => exact ⟨h.sound, h.current, h.full, h.next, rfl, rfl, rfl⟩

theorem step_shape (s : AsyncLogging) (e : Event) (h : Shape s) (he : e = .start → s.point = .notStarted) :
    Shape (s.next e) := by
  cases e with
  | start =>
      have hr := h.ready
      simp only [Ready, he rfl] at hr
      exact ⟨h.sound, h.current, h.full, h.next, hr, rfl, rfl⟩
  | stop => exact ⟨h.sound, h.current, h.full, h.next, h.ready⟩
  | append logline => exact append_shape h logline
  | thread => exact thread_shape h

end Webserver.LogBuffers
