import Webserver.FunctorQueue

namespace Webserver.FunctorLatency

open Runs EventLoop
open FunctorQueue (Push Traced)

variable {F : Type}

/-- The functor queue with the number of Polls that the loop has begun, and for
each push how many there were at that time. -/
structure Timed (F : Type) where
  traced : Traced F
  polls : Nat
  stamps : List Nat

namespace Timed

def construct : Timed F := ⟨.construct, 0, []⟩

def next (t : Timed F) (e : Event F) : Timed F :=
  let t' := { t with traced := t.traced.next e }
  match e with
  | .testQuit => if t.traced.loop.quit then t' else { t' with polls := t.polls + 1 }
  | .queueInLoop _ _ => { t' with stamps := t.stamps ++ [t.polls] }
  | _ => t'

def Enabled (t : Timed F) (e : Event F) : Prop := t.traced.Enabled e

instance (t : Timed F) (e : Event F) : Decidable (t.Enabled e) := inferInstanceAs (Decidable (t.traced.Enabled e))

end Timed

structure Prompt (t : Timed F) : Prop where
  order : t.traced.executed.map Prod.snd <+: t.traced.pushed
  stamped : t.stamps.length = t.traced.pushed.length
  executed : ∀ i n, t.stamps[i]? = some n → n + 2 ≤ t.polls → i < t.traced.executed.length

def polling (point : LoopPoint) : Nat :=
  match point with
  | .poll | .handling => 1
  | .outside | .test | .entering | .running => 0

structure Inv (t : Timed F) : Prop where
  queue : FunctorQueue.Inv t.traced
  waiting : ∀ f ∈ t.traced.loop.pendingFunctors, f.round = t.traced.round ∨
    f.round + 1 = t.traced.round ∧ t.traced.loop.point = .entering
  batch : ∀ f ∈ t.traced.loop.functors, t.traced.round ≤ f.round + 1
  polls : t.polls = t.traced.round + polling t.traced.loop.point
  stamps : t.stamps = t.traced.pushed.map fun f => f.round + polling f.point

theorem construct_inv : Inv (.construct : Timed F) := by
  refine ⟨FunctorQueue.construct_inv, ?_, ?_, rfl, rfl⟩ <;>
    simp [Timed.construct, Traced.construct, EventLoop.construct]

theorem Inv.moves {t u : Timed F} (h : Inv t) (hq : FunctorQueue.Inv u.traced)
    (hpend : u.traced.loop.pendingFunctors = t.traced.loop.pendingFunctors)
    (hfun : ∀ f ∈ u.traced.loop.functors, f ∈ t.traced.loop.functors) (hround : u.traced.round = t.traced.round)
    (hpushed : u.traced.pushed = t.traced.pushed) (hstamps : u.stamps = t.stamps)
    (hentering : t.traced.loop.point = .entering → u.traced.loop.point = .entering)
    (hpolls : u.polls = t.traced.round + polling u.traced.loop.point) : Inv u := by
  refine ⟨hq, fun f hf => ?_, fun f hf => ?_, by rw [hround, hpolls], by rw [hstamps, hpushed, h.stamps]⟩
  · rw [hpend] at hf
    rw [hround]
    exact (h.waiting f hf).imp id fun hw => ⟨hw.1, hentering hw.2⟩
  · rw [hround]
    exact h.batch f (hfun f hf)

theorem queueInLoop_inv {t : Timed F} (h : Inv t) (inLoop : Bool) (cb : F)
    (hq : FunctorQueue.Inv (t.next (.queueInLoop inLoop cb)).traced) : Inv (t.next (.queueInLoop inLoop cb)) := by
  obtain ⟨hpend, hfun, hpoint⟩ := queueInLoop_frame inLoop (t.traced.push cb) t.traced.loop
  refine ⟨hq, ?_, ?_, ?_, ?_⟩
  · simp only [Timed.next, Traced.next, Traced.lift, EventLoop.next, hpend, hpoint]
    intro f hf
    rcases List.mem_append.mp hf with hf | hf
    · exact h.waiting f hf
    · rw [List.mem_singleton.mp hf]
      exact .inl rfl
  · simp only [Timed.next, Traced.next, Traced.lift, EventLoop.next, hfun]
    exact h.batch
  · simp only [Timed.next, Traced.next, Traced.lift, EventLoop.next, hpoint]
    exact h.polls
  · simp only [Timed.next, Traced.next, List.map_append, List.map_singleton, h.stamps, h.polls, Traced.push]

theorem step_inv (t : Timed F) (e : Event F) (h : Inv t) (he : t.Enabled e) : Inv (t.next e) := by
  have hq : FunctorQueue.Inv (t.traced.next e) := FunctorQueue.step_inv t.traced e h.queue he
  have hpolls := h.polls
  cases e with
  | enterLoop =>
      have hp : t.traced.loop.point = .outside := he
      rw [hp] at hpolls
      exact h.moves hq rfl (fun _ => id) rfl rfl rfl (by simp [hp]) hpolls
  | testQuit =>
      have hp : t.traced.loop.point = .test := he
      rw [hp] at hpolls
      cases hquit : t.traced.loop.quit with
      | true =>
          simp only [Timed.next, hquit, if_true]
          refine h.moves hq rfl (fun _ => id) rfl rfl rfl (by simp [hp]) ?_
          simp [Traced.next, Traced.lift, EventLoop.next, hquit, hpolls, polling]
      | false =>
          simp only [Timed.next, hquit, Bool.false_eq_true, if_false]
          refine h.moves hq rfl (fun _ => id) rfl rfl rfl (by simp [hp]) ?_
          simp [Traced.next, Traced.lift, EventLoop.next, hquit, hpolls, polling]
  | pollReturn woken =>
      have hp : t.traced.loop.point = .poll := he.1
      rw [hp] at hpolls
      exact h.moves hq rfl (fun _ => id) rfl rfl rfl (by simp [hp]) hpolls
  | handleRead => exact h.moves hq rfl (fun _ => id) rfl rfl rfl id hpolls
  | beginFunctors =>
      have hp : t.traced.loop.point = .handling := he.1
      have hempty : t.traced.loop.functors = [] := h.queue.idle (by simp [hp])
      rw [hp] at hpolls
      refine ⟨hq, fun f hf => .inr ⟨?_, rfl⟩, ?_, hpolls, h.stamps⟩
      · rcases h.waiting f hf with hw | ⟨_, hw⟩
        · exact congrArg (· + 1) hw
        · rw [hp] at hw
          cases hw
      · intro f hf
        simp [Timed.next, Traced.next, Traced.lift, EventLoop.next, hempty] at hf
  | swapFunctors =>
      have hp : t.traced.loop.point = .entering := he
      have hempty : t.traced.loop.functors = [] := h.queue.idle (by simp [hp])
      rw [hp] at hpolls
      refine ⟨hq, ?_, fun f hf => ?_, hpolls, h.stamps⟩
      · simp [Timed.next, Traced.next, Traced.lift, EventLoop.next, EventLoop.swapFunctors, hempty]
      · rcases h.waiting f hf with hw | ⟨hw, _⟩
        · exact hw ▸ Nat.le_succ _
        · exact Nat.le_of_eq hw.symm
  | runFunctor =>
      have hp : t.traced.loop.point = .running := he.1
      exact h.moves hq rfl (fun _ => List.mem_of_mem_tail) rfl rfl rfl (by simp [hp]) hpolls
  | endFunctors =>
      have hp : t.traced.loop.point = .running := he.1
      rw [hp] at hpolls
      exact h.moves hq rfl (fun _ => id) rfl rfl rfl (by simp [hp]) hpolls
  | queueInLoop inLoop cb => exact queueInLoop_inv h inLoop cb hq
  | quit inLoop => cases inLoop <;> exact h.moves hq rfl (fun _ => id) rfl rfl rfl id hpolls
  | wakeup pushed => cases pushed <;> exact h.moves hq rfl (fun _ => id) rfl rfl rfl id hpolls

theorem Inv.recent {t : Timed F} (h : Inv t) {f : Push F}
    (hf : f ∈ t.traced.loop.functors ++ t.traced.loop.pendingFunctors) :
    t.traced.round + polling t.traced.loop.point ≤ f.round + 1 := by
  rcases List.mem_append.mp hf with hf | hf
  · have hrunning : t.traced.loop.point = .running := by
      by_contra hp
      rw [h.queue.idle hp] at hf
      cases hf
    rw [hrunning]
    exact h.batch f hf
  · rcases h.waiting f hf with hw | ⟨hw, hp⟩
    · rw [hw]
      apply Nat.add_le_add_left
      cases t.traced.loop.point <;> decide
    · rw [hp, ← hw]
      exact Nat.le_refl _

theorem Inv.prompt {t : Timed F} (h : Inv t) : Prompt t := by
  have horder := h.queue.order
  rw [List.append_assoc] at horder
  refine ⟨⟨_, horder⟩, by rw [h.stamps, List.length_map], fun i n hn hlate => ?_⟩
  by_contra hi
  rw [h.stamps, ← horder, List.map_append, List.getElem?_append_right] at hn
  · obtain ⟨f, hf, rfl⟩ := List.mem_map.mp (List.mem_of_getElem? hn)
    have hrecent := h.recent hf
    have hpolls := h.polls
    omega
  · simpa using hi

/-- In every run: between a push and the execution of its functor the loop
begins at most one Poll, however many functors the functors push. -/
theorem always_prompt (es : List (Event F)) (he : Meets Timed.next Timed.Enabled .construct es) :
    Always Timed.next Prompt .construct es :=
  always_mono (fun _ h => h.prompt) (always_of_step step_inv construct_inv he)

theorem always_prompt_nested :
    Always Timed.next Prompt .construct
      [.queueInLoop true 'a', .enterLoop, .testQuit, .pollReturn false, .beginFunctors, .swapFunctors, .runFunctor,
        .queueInLoop true 'b', .endFunctors, .testQuit, .pollReturn true, .handleRead, .beginFunctors,
        .swapFunctors, .runFunctor, .endFunctors, .testQuit] :=
  always_prompt _ (by decide)

end Webserver.FunctorLatency
