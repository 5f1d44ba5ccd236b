import Webserver.LogBuffers

namespace Webserver.LogRecycling

open AsyncLogging LogBuffers Runs

/-- The thread is started once. Lines may have any length, and stop() may be called at any time. -/
def Interleaved (s : AsyncLogging) : Event → Prop
  | .start => s.point = .notStarted
  | _ => True

def resized (s : AsyncLogging) : List (Option LargeBuffer) :=
  if 2 < s.buffersToWrite.length then s.buffersToWrite.take 2 else s.buffersToWrite

/-- Steps are taken whole sections at a time, so mutex_ is free in every state. -/
structure NothingMissing (s : AsyncLogging) : Prop where
  current : s.currentBuffer.isSome
  spares : s.point = .test → s.newBuffer1.isSome ∧ s.newBuffer2.isSome
  written : ∀ i o, s.point = .writing i → s.buffersToWrite[i]? = some o → o.isSome
  -- after the last write, where a spare buffer is taken back only if it is missing
  firstBack : ∀ i, s.point = .writing i → s.buffersToWrite[i]? = none →
    s.newBuffer1 = none → resized s ≠ []
  secondBack : ∀ i, s.point = .writing i → s.buffersToWrite[i]? = none →
    s.newBuffer2 = none → (refill s.newBuffer1 (resized s)).2.1 ≠ []
  sound : s.fault = false

theorem resized_eq (s : AsyncLogging) : resized s = s.buffersToWrite.take 2 := by
  simp only [resized]
  split
  · rfl
  · exact (List.take_of_length_le (by omega)).symm

theorem ready_writing {s : AsyncLogging} {i : Nat} (h : Shape s) (hp : s.point = .writing i) :
    (∀ o ∈ s.buffersToWrite, o.isSome) ∧ s.newBuffer1 = none ∧
      (if s.newBuffer2.isNone then 2 else 1) ≤ s.buffersToWrite.length := by
  have hr := h.ready
  simpa only [Ready, hp] using hr

theorem resized_length {s : AsyncLogging} {i : Nat} (h : Shape s) (hp : s.point = .writing i) :
    (if s.newBuffer2.isNone then 2 else 1) ≤ (resized s).length := by
  rw [resized_eq, List.length_take]
  apply le_min
  · split <;> omega
  · exact (ready_writing h hp).2.2

theorem nothingMissing_of_shape (s : AsyncLogging) (h : Shape s) : NothingMissing s := by
  constructor
  case current => exact h.current
  case sound => exact h.sound
  case spares =>
    intro hp
    have hr := h.ready
    simp only [Ready, hp] at hr
    exact hr.2
  case written =>
    intro i o hp ho
    exact (ready_writing h hp).1 o (List.mem_of_getElem? ho)
  case firstBack =>
    intro i hp _ _
    have hlen := resized_length h hp
    apply List.ne_nil_of_length_pos
    split at hlen <;> omega
  case secondBack =>
    intro i hp _ h₂
    obtain ⟨hall, h₁, _⟩ := ready_writing h hp
    have hlen := resized_length h hp
    simp only [h₂, Option.isNone_none, if_true] at hlen
    have hv : ∀ o ∈ resized s, o.isSome := by
      intro o ho
      rw [resized_eq] at ho
      exact hall o (List.mem_of_mem_take ho)
    rw [h₁, refill_none hv (List.ne_nil_of_length_pos (by omega))]
    apply List.ne_nil_of_length_pos
    rw [List.length_dropLast]
    omega

theorem shape_always {es : List Event} (h : Meets AsyncLogging.next Interleaved .construct es) :
    Always AsyncLogging.next Shape .construct es := by
  apply always_of_step _ construct_shape h
  intro s e hs he
  apply step_shape s e hs
  rintro rfl
  exact he

theorem recycling_misses_nothing (es : List Event) (h : Meets AsyncLogging.next Interleaved .construct es) :
    Always AsyncLogging.next NothingMissing .construct es :=
  always_mono nothingMissing_of_shape (shape_always h)

def twoFull : List Event :=
  [.start, .append (List.replicate kLargeBuffer 65), .append (List.replicate kLargeBuffer 66),
    .thread, .thread, .thread, .thread, .thread, .thread, .thread, .thread]

theorem recycling_misses_nothing_two_full :
    Meets AsyncLogging.next Interleaved .construct twoFull ∧
      Always AsyncLogging.next NothingMissing .construct twoFull := by
  have h : Meets AsyncLogging.next Interleaved .construct twoFull :=
    ⟨rfl, trivial, trivial, trivial, trivial, trivial, trivial, trivial, trivial, trivial, trivial, trivial⟩
  exact ⟨h, recycling_misses_nothing twoFull h⟩

end Webserver.LogRecycling
