import Webserver.EventLoop
import Webserver.Runs

namespace Webserver.FunctorQueue

open Runs EventLoop

/-- A functor as it was pushed: its place in the order of the pushes, and where
the loop was. Rounds are the calls of doPendingFunctors. -/
structure Push (F : Type) where
  functor : F
  number : Nat
  round : Nat
  point : LoopPoint
deriving DecidableEq

structure Traced (F : Type) where
  loop : EventLoop (Push F)
  round : Nat
  pushed : List (Push F)
  executed : List (Nat × Push F)

variable {F : Type}

namespace Traced

def construct : Traced F := ⟨.construct, 0, [], []⟩

def push (t : Traced F) (cb : F) : Push F := ⟨cb, t.pushed.length, t.round, t.loop.point⟩

def lift (t : Traced F) : Event F → Event (Push F)
  | .enterLoop => .enterLoop
  | .testQuit => .testQuit
  | .pollReturn woken => .pollReturn woken
  | .handleRead => .handleRead
  | .beginFunctors => .beginFunctors
  | .swapFunctors => .swapFunctors
  | .runFunctor => .runFunctor
  | .endFunctors => .endFunctors
  | .queueInLoop inLoop cb => .queueInLoop inLoop (t.push cb)
  | .quit inLoop => .quit inLoop
  | .wakeup pushed => .wakeup pushed

def next (t : Traced F) (e : Event F) : Traced F :=
  let t' := { t with loop := t.loop.next (t.lift e) }
  match e with
  | .beginFunctors => { t' with round := t.round + 1 }
  | .runFunctor => { t' with executed := t.executed ++ t.loop.functors.head?.toList.map (t.round, ·) }
  | .queueInLoop _ cb => { t' with pushed := t.pushed ++ [t.push cb] }
  | _ => t'

def Enabled (t : Traced F) (e : Event F) : Prop := t.loop.Enabled (t.lift e)

instance (t : Traced F) (e : Event F) : Decidable (t.Enabled e) := inferInstanceAs (Decidable (t.loop.Enabled _))

end Traced

structure InOrder (t : Traced F) : Prop where
  order : t.executed.map Prod.snd ++ t.loop.functors ++ t.loop.pendingFunctors = t.pushed
  once : (t.executed.map (·.2.number)).Nodup

def LaterFrom (points : List LoopPoint) (t : Traced F) : Prop :=
  ∀ e ∈ t.executed, e.2.point ∈ points → e.2.round ≠ e.1

structure Inv (t : Traced F) : Prop where
  order : t.executed.map Prod.snd ++ t.loop.functors ++ t.loop.pendingFunctors = t.pushed
  numbers : t.pushed.map Push.number = List.range t.pushed.length
  past : ∀ f ∈ t.pushed, f.round ≤ t.round
  idle : t.loop.point ≠ .running → t.loop.functors = []
  batch : ∀ f ∈ t.loop.functors, f.point = .running → f.round < t.round
  waiting : t.loop.point = .entering → ∀ f ∈ t.loop.pendingFunctors, f.point = .running → f.round < t.round
  executed : ∀ e ∈ t.executed, e.2.point = .running → e.2.round < e.1

theorem construct_inv : Inv (.construct : Traced F) := by
  refine ⟨rfl, rfl, ?_, fun _ => rfl, ?_, ?_, ?_⟩ <;> simp [Traced.construct, EventLoop.construct]

theorem Inv.of_frame {t u : Traced F} (h : Inv t) (hpend : u.loop.pendingFunctors = t.loop.pendingFunctors)
    (hfun : u.loop.functors = t.loop.functors) (hround : u.round = t.round) (hpushed : u.pushed = t.pushed)
    (hexec : u.executed = t.executed) (hrun : u.loop.point ≠ .running → t.loop.functors = [])
    (hent : u.loop.point = .entering → t.loop.point = .entering) : Inv u := by
  refine ⟨?_, ?_, ?_, ?_, ?_, ?_, ?_⟩
  · rw [hexec, hfun, hpend, hpushed]; exact h.order
  · rw [hpushed]; exact h.numbers
  · rw [hpushed, hround]; exact h.past
  · rw [hfun]; exact hrun
  · rw [hfun, hround]; exact h.batch
  · rw [hpend, hround]; exact fun hp => h.waiting (hent hp)
  · rw [hexec]; exact h.executed

theorem queueInLoop_inv {t : Traced F} (h : Inv t) (inLoop : Bool) (cb : F) :
    Inv (t.next (.queueInLoop inLoop cb)) := by
  obtain ⟨hpend, hfun, hpoint⟩ := queueInLoop_frame inLoop (t.push cb) t.loop
  refine ⟨?_, ?_, ?_, ?_, ?_, ?_, h.executed⟩
  · simp only [Traced.next, Traced.lift, EventLoop.next, hpend, hfun, ← h.order, List.append_assoc]
  · simp [Traced.next, h.numbers, Traced.push, List.range_succ]
  · intro f hf
    rcases List.mem_append.mp hf with hf | hf
    · exact h.past f hf
    · rw [List.mem_singleton.mp hf]
      exact Nat.le_refl _
  · simp only [Traced.next, Traced.lift, EventLoop.next, hfun, hpoint]
    exact h.idle
  · simp only [Traced.next, Traced.lift, EventLoop.next, hfun]
    exact h.batch
  · simp only [Traced.next, Traced.lift, EventLoop.next, hpend, hpoint]
    intro hp f hf hr
    rcases List.mem_append.mp hf with hf | hf
    · exact h.waiting hp f hf hr
    · rw [List.mem_singleton.mp hf] at hr
      simp [Traced.push, hp] at hr

theorem runFunctor_inv {t : Traced F} (h : Inv t) (hp : t.loop.point = .running) (hne : t.loop.functors ≠ []) :
    Inv (t.next .runFunctor) := by
  obtain ⟨f, fs, hf⟩ := List.exists_cons_of_ne_nil hne
  have ho := h.order
  rw [hf] at ho
  refine ⟨?_, h.numbers, h.past, ?_, ?_, ?_, ?_⟩
  · simpa [Traced.next, Traced.lift, EventLoop.next, hf] using ho
  · exact fun hn => absurd hp hn
  · exact fun g hg => h.batch g (List.mem_of_mem_tail hg)
  · exact fun he => by simp [Traced.next, Traced.lift, EventLoop.next, hp] at he
  · intro e he
    rcases List.mem_append.mp he with he | he
    · exact h.executed e he
    · simp only [hf, List.head?_cons, Option.toList_some, List.map_cons, List.map_nil, List.mem_singleton] at he
      subst he
      exact h.batch f (by simp [hf])

theorem step_inv (t : Traced F) (e : Event F) (h : Inv t) (he : t.Enabled e) : Inv (t.next e) := by
  cases e with
  | enterLoop =>
      have hp : t.loop.point = .outside := he
      exact h.of_frame rfl rfl rfl rfl rfl (fun _ => h.idle (by simp [hp])) (fun hq => by cases hq)
  | testQuit =>
      have hp : t.loop.point = .test := he
      refine h.of_frame rfl rfl rfl rfl rfl (fun _ => h.idle (by simp [hp])) fun hq => ?_
      simp only [Traced.next, Traced.lift, EventLoop.next] at hq
      split at hq <;> cases hq
  | pollReturn woken =>
      have hp : t.loop.point = .poll := he.1
      exact h.of_frame rfl rfl rfl rfl rfl (fun _ => h.idle (by simp [hp])) (fun hq => by cases hq)
  | handleRead => exact h.of_frame rfl rfl rfl rfl rfl h.idle id
  | beginFunctors =>
      have hp : t.loop.point = .handling := he.1
      have hempty : t.loop.functors = [] := h.idle (by simp [hp])
      have hpast : ∀ f ∈ t.pushed, f.round < t.round + 1 := fun f hf => Nat.lt_succ_of_le (h.past f hf)
      refine ⟨h.order, h.numbers, fun f hf => Nat.le_of_lt (hpast f hf), fun _ => hempty, ?_, ?_, h.executed⟩
      · exact fun f hf => absurd hf (by simp [Traced.next, Traced.lift, EventLoop.next, hempty])
      · intro _ f hf _
        apply hpast f
        rw [← h.order]
        exact List.mem_append_right _ hf
  | swapFunctors =>
      have hp : t.loop.point = .entering := he
      have hempty : t.loop.functors = [] := h.idle (by simp [hp])
      have ho := h.order
      refine ⟨?_, h.numbers, h.past, fun hn => absurd rfl hn, h.waiting hp,
        (fun hq => by cases hq), h.executed⟩
      simpa [Traced.next, Traced.lift, EventLoop.next, EventLoop.swapFunctors, hempty] using ho
  | runFunctor => exact runFunctor_inv h he.1 he.2
  | endFunctors => exact h.of_frame rfl rfl rfl rfl rfl (fun _ => he.2) (fun hq => by cases hq)
  | queueInLoop inLoop cb => exact queueInLoop_inv h inLoop cb
  | quit inLoop => cases inLoop <;> exact h.of_frame rfl rfl rfl rfl rfl h.idle id
  | wakeup pushed => cases pushed <;> exact h.of_frame rfl rfl rfl rfl rfl h.idle id

theorem Inv.inOrder {t : Traced F} (h : Inv t) : InOrder t := by
  refine ⟨h.order, ?_⟩
  have hsub : (t.executed.map (·.2.number)).Sublist (t.pushed.map Push.number) := by
    rw [← h.order, List.append_assoc, List.map_append, List.map_map]
    exact List.sublist_append_left _ _
  apply hsub.nodup
  rw [h.numbers]
  exact List.nodup_range

/-- In every run the functors are executed once and in the order of their
pushes, and never in the batch during which they were pushed. -/
theorem always_in_order (es : List (Event F)) (he : Meets Traced.next Traced.Enabled .construct es) :
    Always Traced.next (fun t => InOrder t ∧ LaterFrom [.running] t) .construct es := by
  refine always_mono (fun t h => ⟨h.inOrder, fun e hm hp => ?_⟩) (always_of_step step_inv construct_inv he)
  exact Nat.ne_of_lt (h.executed e hm (by simpa using hp))

theorem always_in_order_nested :
    Always Traced.next (fun t => InOrder t ∧ LaterFrom [.running] t) .construct
      [.queueInLoop true 'a', .enterLoop, .testQuit, .pollReturn false, .beginFunctors, .swapFunctors, .runFunctor,
        .queueInLoop true 'b', .endFunctors, .testQuit, .pollReturn true, .handleRead, .beginFunctors,
        .swapFunctors, .runFunctor] :=
  always_in_order _ (by decide)

/-- Another thread pushes when doPendingFunctors has been entered and has not yet
taken mutex_: the functor is run in this very call. -/
theorem push_before_swap_same_batch :
    Meets Traced.next Traced.Enabled .construct
        [.enterLoop, .testQuit, .pollReturn false, .beginFunctors, .queueInLoop false 'a', .swapFunctors, .runFunctor] ∧
      ¬ Always Traced.next (LaterFrom [.entering, .running]) .construct
        [.enterLoop, .testQuit, .pollReturn false, .beginFunctors, .queueInLoop false 'a', .swapFunctors,
          .runFunctor] := by
  refine ⟨by decide, fun h => ?_⟩
  have hl := h.last
  unfold LaterFrom at hl
  revert hl
  decide

end Webserver.FunctorQueue
