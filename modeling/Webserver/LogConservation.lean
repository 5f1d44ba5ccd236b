import Webserver.LogBuffers

namespace Webserver.LogConservation

open Runs AsyncLogging LogBuffers

/-- The logger with its history: the lines in the order in which append took
mutex_, and the contents of the batches that threadFunc has swapped out. -/
structure Logged where
  log : AsyncLogging
  lines : List (List Byte)
  batches : List (List (List Byte))

def bytes (o : Option LargeBuffer) : List Byte := o.elim [] FixedBuffer.data

namespace Logged

def construct : Logged := ⟨.construct, [], []⟩

def next (h : Logged) : Event → Logged
  | .append logline => { h with log := h.log.append logline, lines := h.lines ++ [logline] }
  | .thread =>
      { h with
        log := h.log.thread
        batches := if h.log.thread.point = .swapped then h.batches ++ [h.log.thread.buffersToWrite.map bytes]
          else h.batches }
  | e => { h with log := h.log.next e }

def Enabled (h : Logged) (e : Event) : Prop := h.log.Enabled e

instance (h : Logged) (e : Event) : Decidable (h.Enabled e) := inferInstanceAs (Decidable (h.log.Enabled e))

end Logged

def unwritten (s : AsyncLogging) : List (Option LargeBuffer) :=
  match s.point with
  | .writing i => s.buffersToWrite.drop i
  | _ => s.buffersToWrite

/-- Positions 2 and on of a batch of more than 25 buffers. -/
def isDropped (length position : Nat) : Bool := decide (25 < length) && decide (2 ≤ position)

def retained {α : Type} (batch : List α) : List α :=
  (batch.zipIdx.filter fun b => !isDropped batch.length b.2).map Prod.fst

/-- The batches without the buffers that were dropped from them. From a batch
that is still at point swapped nothing has been dropped. -/
def survivors (h : Logged) : List (List (List Byte)) :=
  if h.log.point = .swapped then h.batches.dropLast.map retained ++ h.batches.getLast?.toList
  else h.batches.map retained

def pending (s : AsyncLogging) : List Byte := (s.buffers.map bytes).flatten ++ bytes s.currentBuffer

structure Conserved (h : Logged) : Prop where
  lines : h.lines.flatten = h.batches.flatten.flatten ++ pending h.log
  order : h.log.output ++ ((unwritten h.log).map bytes).flatten ++ pending h.log =
    (survivors h).flatten.flatten ++ pending h.log
  spare : bytes h.log.nextBuffer = [] ∧ bytes h.log.newBuffer1 = [] ∧ bytes h.log.newBuffer2 = []

structure Inv (h : Logged) : Prop where
  shape : Shape h.log
  lines : h.lines.flatten = h.batches.flatten.flatten ++ pending h.log
  written : h.log.output ++ ((unwritten h.log).map bytes).flatten = (survivors h).flatten.flatten
  spare : bytes h.log.nextBuffer = [] ∧ bytes h.log.newBuffer1 = [] ∧ bytes h.log.newBuffer2 = []
  last : h.log.point = .swapped → ∃ bs, h.batches = bs ++ [h.log.buffersToWrite.map bytes]

theorem Inv.conserved {h : Logged} (hi : Inv h) : Conserved h :=
  ⟨hi.lines, by rw [hi.written], hi.spare⟩

theorem filter_zipIdx {α : Type} (n k : Nat) (v : List α) :
    ((v.zipIdx k).filter fun b => decide (b.2 < n)).map Prod.fst = v.take (n - k) := by
  induction v generalizing k with
  | nil => simp
  | cons a v ih =>
      rw [List.zipIdx_cons, List.filter_cons]
      by_cases hk : k < n
      · have hsub : n - k = (n - (k + 1)) + 1 := by omega
        simp only [hk, decide_true, if_true, List.map_cons, ih, hsub, List.take_succ_cons]
      · have hsub : n - k = 0 := by omega
        have hrest := ih (k + 1)
        rw [show n - (k + 1) = 0 by omega, List.take_zero] at hrest
        simp only [hk, decide_false, Bool.false_eq_true, if_false, hrest, hsub, List.take_zero]

theorem keep_eq {α : Type} (batch : List α) : keep batch = retained batch := by
  simp only [keep, retained]
  by_cases hl : 25 < batch.length
  · have hsame : (fun b : α × Nat => !isDropped batch.length b.2) = fun b => decide (b.2 < 2) := by
      funext b
      by_cases hb : b.2 < 2 <;> simp [isDropped, hl, hb]
      omega
    rw [if_pos hl, hsame, filter_zipIdx]
  · have hall : batch.zipIdx.filter (fun b => !isDropped batch.length b.2) = batch.zipIdx := by
      simp [isDropped, hl]
    rw [if_neg hl, hall, List.zipIdx_map_fst]
theorem retained_map {α β : Type} (f : α → β) (v : List α) : retained (v.map f) = (retained v).map f := by
  simp only [← keep_eq, keep, List.length_map]
  split
  · exact List.map_take.symm
  · rfl

theorem construct_inv : Inv .construct :=
  ⟨construct_shape, rfl, rfl, ⟨rfl, rfl, rfl⟩, by simp [Logged.construct, AsyncLogging.construct]⟩

theorem append_pending {s : AsyncLogging} (hs : Shape s) (hn : bytes s.nextBuffer = []) {logline : List Byte}
    (hl : logline.length < kLargeBuffer) : pending (s.append logline) = pending s ++ logline := by
  obtain ⟨current, hc, ⟨hfit, ha⟩ | ha⟩ := append_cases hs logline
  · rw [ha]
    simp only [pending, hc, bytes, Option.elim_some, FixedBuffer.append_data hfit, List.append_assoc]
  · have he : (s.nextBuffer.getD .construct).data = [] := by
      cases hb : s.nextBuffer with
      | none => rfl
      | some b => simpa [bytes, hb] using hn
    have hfit : logline.length < (s.nextBuffer.getD .construct).avail := by
      rw [FixedBuffer.avail_of_empty he]
      exact hl
    rw [ha]
    simp only [pending, hc, bytes, Option.elim_some, FixedBuffer.append_data hfit, he, List.map_append,
      List.flatten_append, List.map_cons, List.map_nil, List.flatten_cons, List.flatten_nil, List.append_nil,
      List.nil_append]

theorem append_frame {s : AsyncLogging} (hs : Shape s) (logline : List Byte) :
    (s.append logline).output = s.output ∧ (s.append logline).point = s.point ∧
      (s.append logline).buffersToWrite = s.buffersToWrite ∧ (s.append logline).newBuffer1 = s.newBuffer1 ∧
      (s.append logline).newBuffer2 = s.newBuffer2 ∧
      (bytes s.nextBuffer = [] → bytes (s.append logline).nextBuffer = []) := by
  obtain ⟨current, _, ⟨_, ha⟩ | ha⟩ := append_cases hs logline
  · rw [ha]
    exact ⟨rfl, rfl, rfl, rfl, rfl, id⟩
  · rw [ha]
    exact ⟨rfl, rfl, rfl, rfl, rfl, fun _ => rfl⟩

theorem append_inv {h : Logged} (hi : Inv h) {logline : List Byte} (hl : logline.length < kLargeBuffer) :
    Inv (h.next (.append logline)) := by
  obtain ⟨hout, hpoint, hwrite, h₁, h₂, hnext⟩ := append_frame hi.shape logline
  obtain ⟨hsp, hsp₁, hsp₂⟩ := hi.spare
  refine ⟨append_shape hi.shape logline, ?_, ?_, ⟨hnext hsp, h₁ ▸ hsp₁, h₂ ▸ hsp₂⟩, ?_⟩
  · simp only [Logged.next, append_pending hi.shape hsp hl, List.flatten_append, hi.lines, List.flatten_cons,
      List.flatten_nil, List.append_nil, List.append_assoc]
  · have hun : unwritten (h.log.append logline) = unwritten h.log := by simp only [unwritten, hpoint, hwrite]
    have hsur : survivors (h.next (.append logline)) = survivors h := by simp only [survivors, Logged.next, hpoint]
    rw [hsur]
    simp only [Logged.next, hun, hout]
    exact hi.written
  · simp only [Logged.next, hpoint, hwrite]
    exact hi.last

theorem swap_frame (s : AsyncLogging) (hw : s.buffersToWrite = []) :
    s.swap.point = .swapped ∧ s.swap.output = s.output ∧ s.swap.buffersToWrite = s.buffers ++ [s.currentBuffer] ∧
      s.swap.buffers = [] ∧ s.swap.currentBuffer = s.newBuffer1 ∧ s.swap.newBuffer1 = none ∧
      (s.swap.nextBuffer = s.nextBuffer ∧ s.swap.newBuffer2 = s.newBuffer2 ∨
        s.swap.nextBuffer = s.newBuffer2 ∧ s.swap.newBuffer2 = none) := by
  simp only [swap]
  split
  · exact ⟨rfl, rfl, rfl, hw, rfl, rfl, .inr ⟨rfl, rfl⟩⟩
  · exact ⟨rfl, rfl, rfl, hw, rfl, rfl, .inl ⟨rfl, rfl⟩⟩

theorem swap_inv {h : Logged} (hi : Inv h) (ht : h.log.thread = h.log.swap) (hw : h.log.buffersToWrite = [])
    (hp : h.log.point ≠ .swapped) (hshape : Shape h.log.swap) : Inv (h.next .thread) := by
  obtain ⟨hpoint, hout, hwrite, hbuf, hcur, h₁, hnext⟩ := swap_frame h.log hw
  obtain ⟨hsp, hsp₁, hsp₂⟩ := hi.spare
  have hn : h.next .thread =
      ⟨h.log.swap, h.lines, h.batches ++ [(h.log.buffers ++ [h.log.currentBuffer]).map bytes]⟩ := by
    simp only [Logged.next, ht, hpoint, if_true, hwrite]
  have hold := hi.written
  simp only [survivors, hp, if_false] at hold
  have hun : unwritten h.log = [] := by
    simp only [unwritten, hw]
    split <;> simp
  rw [hn]
  refine ⟨hshape, ?_, ?_, ⟨?_, by rw [h₁]; rfl, ?_⟩, fun _ => ⟨h.batches, by rw [hwrite]⟩⟩
  · simp [pending, hi.lines, hbuf, hcur, hsp₁, List.flatten_append]
  · have hun' : unwritten h.log.swap = h.log.buffers ++ [h.log.currentBuffer] := by
      simp only [unwritten, hpoint, hwrite]
    simp only [hun, List.map_nil, List.flatten_nil, List.append_nil] at hold
    simp only [survivors, hpoint, if_true, hout, hun', hold, List.dropLast_concat, List.getLast?_concat,
      Option.toList_some, List.flatten_append, List.flatten_singleton]
  · rcases hnext with ⟨he, _⟩ | ⟨he, _⟩ <;> simp [he, hsp, hsp₂]
  · rcases hnext with ⟨_, he⟩ | ⟨_, he⟩
    · rw [he, hsp₂]
    · rw [he]; rfl

theorem move_inv {h : Logged} {s : AsyncLogging} (hi : Inv h) (ht : h.log.thread = s) (hshape : Shape s)
    (hp : h.log.point ≠ .swapped) (hq : s.point ≠ .swapped) (hpend : pending s = pending h.log)
    (hout : s.output ++ ((unwritten s).map bytes).flatten =
      h.log.output ++ ((unwritten h.log).map bytes).flatten)
    (hspare : bytes s.nextBuffer = [] ∧ bytes s.newBuffer1 = [] ∧ bytes s.newBuffer2 = []) :
    Inv (h.next .thread) := by
  have hn : h.next .thread = ⟨s, h.lines, h.batches⟩ := by
    simp only [Logged.next, ht, hq, if_false]
  have hw := hi.written
  simp only [survivors, hp, if_false] at hw
  rw [hn]
  refine ⟨hshape, by rw [hpend]; exact hi.lines, ?_, hspare, fun he => absurd he hq⟩
  simp only [survivors, hq, if_false, hout, hw]

theorem drop_inv {h : Logged} {s : AsyncLogging} (hi : Inv h) (hp : h.log.point = .swapped) (hshape : Shape s)
    (hs : s = { h.log with buffersToWrite := keep h.log.buffersToWrite, point := .writing 0 })
    (ht : h.log.thread = s) : Inv (h.next .thread) := by
  obtain ⟨bs, hb⟩ := hi.last hp
  have hw := hi.written
  simp only [survivors, hp, if_true, hb, List.dropLast_concat, List.getLast?_concat, Option.toList_some, unwritten,
    List.flatten_append, List.flatten_singleton] at hw
  have hout : h.log.output = (bs.map retained).flatten.flatten := List.append_cancel_right hw
  have hn : h.next .thread = ⟨s, h.lines, h.batches⟩ := by
    simp [Logged.next, ht, hs]
  rw [hn]
  subst hs
  refine ⟨hshape, hi.lines, ?_, hi.spare, by simp⟩
  simp only [survivors, unwritten, reduceCtorEq, if_false, hb, List.map_append, List.map_cons, List.map_nil,
    keep_eq, retained_map, List.flatten_append, List.flatten_singleton, hout, List.drop_zero]

theorem thread_inv {h : Logged} (hi : Inv h) : Inv (h.next .thread) := by
  have hshape := thread_shape hi.shape
  have hstep := thread_step hi.shape.ready
  generalize ht : h.log.thread = s at hshape hstep
  cases hstep with
  | rests hp =>
      have hne : h.log.point ≠ .swapped := by rcases hp with hp | hp <;> simp [hp]
      exact move_inv hi ht hshape hne hne rfl rfl hi.spare
  | tests hp hw =>
      refine move_inv hi ht hshape (by simp [hp]) (by simp only; split <;> simp) rfl ?_ hi.spare
      simp only [unwritten, hp, hw]
      split <;> simp
  | waits hp =>
      refine move_inv hi ht hshape (by simp [hp]) (by simp) rfl ?_ hi.spare
      simp only [unwritten, hp]
  | swaps hp hw =>
      exact swap_inv hi ht hw (by rcases hp with hp | hp <;> simp [hp]) hshape
  | drops hp => exact drop_inv hi hp hshape rfl ht
  | @writes i b hp ho =>
      refine move_inv hi ht hshape (by simp [hp]) (by simp) rfl ?_ hi.spare
      obtain ⟨hlt, hget⟩ := List.getElem?_eq_some_iff.mp ho
      simp only [unwritten, hp, List.drop_eq_getElem_cons hlt, hget, List.map_cons, List.flatten_cons, bytes,
        Option.elim_some, List.append_assoc]
  | @recycles i hp ho =>
      obtain ⟨hsp, _, hsp₂⟩ := hi.spare
      have hun : unwritten h.log = [] := by
        simp only [unwritten, hp]
        exact List.drop_eq_nil_of_le (List.getElem?_eq_none_iff.mp ho)
      refine move_inv hi ht hshape (by simp [hp]) (by simp) rfl ?_ ⟨hsp, rfl, ?_⟩
      · rw [hun]
        rfl
      · cases h₂ : h.log.newBuffer2 with
        | none => rfl
        | some b => simpa [bytes, h₂] using hsp₂

theorem step_inv (h : Logged) (e : Event) (hi : Inv h) (he : h.Enabled e) : Inv (h.next e) := by
  cases e with
  | start =>
      have hr := hi.shape.ready
      have hp : h.log.point = .notStarted := he
      simp only [Ready, hp] at hr
      have hw := hi.written
      simp only [survivors, unwritten, hp, reduceCtorEq, if_false] at hw
      refine ⟨step_shape h.log .start hi.shape (fun _ => he), hi.lines, ?_, ⟨hi.spare.1, rfl, rfl⟩, ?_⟩
      · simpa only [Logged.next, AsyncLogging.next, AsyncLogging.start, survivors, unwritten, reduceCtorEq,
          if_false] using hw
      · simp [Logged.next, AsyncLogging.next, AsyncLogging.start]
  | stop =>
      have hshape := step_shape h.log .stop hi.shape (fun hs => Event.noConfusion hs)
      exact ⟨hshape, hi.lines, hi.written, hi.spare, hi.last⟩
  | append logline => exact append_inv hi he
  | thread => exact thread_inv hi

/-- At every point of every run, what was passed to the output, what is to be
written and what is pending are the lines without the buffers dropped from long batches. -/
theorem always_conserved (es : List Event) (he : Meets Logged.next Logged.Enabled .construct es) :
    Always Logged.next Conserved .construct es :=
  always_mono (fun _ => Inv.conserved) (always_of_step step_inv construct_inv he)

theorem always_conserved_one_round :
    Always Logged.next Conserved .construct
      [.start, .append [1, 2], .thread, .thread, .thread, .append [3], .thread, .thread, .thread] :=
  always_conserved _ (by decide)

end Webserver.LogConservation
