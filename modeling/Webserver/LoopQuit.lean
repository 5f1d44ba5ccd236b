import Webserver.FunctorQueue
import Webserver.TcpConnection

namespace Webserver.LoopQuit

open Runs FunctorQueue

variable {F : Type}

/-- A loop with the queueInLoop calls of other threads that have pushed, by the
numbers of their functors, and not returned from wakeup. -/
structure Calls (F : Type) where
  traced : Traced F
  unfinished : List Nat

namespace Calls

def construct : Calls F := ⟨.construct, []⟩

inductive Event (F : Type)
  | step (e : EventLoop.Event F)
  | finish (i : Nat)

def begins (s : Calls F) : EventLoop.Event F → List Nat
  | .queueInLoop false _ => [s.traced.pushed.length]
  | _ => []

def next (s : Calls F) : Event F → Calls F
  | .step e => ⟨s.traced.next e, s.unfinished ++ s.begins e⟩
  | .finish i => ⟨s.traced.next (.wakeup true), s.unfinished.eraseIdx i⟩

def base : Event F → EventLoop.Event F
  | .step e => e
  | .finish _ => .wakeup true

def finishes : EventLoop.Event F → Bool
  | .wakeup pushed => pushed
  | _ => false

def Enabled (s : Calls F) : Event F → Prop
  | .step e => finishes e = false ∧ s.traced.Enabled e
  | .finish i => i < s.unfinished.length ∧ s.traced.Enabled (.wakeup true)

instance (s : Calls F) (e : Event F) : Decidable (s.Enabled e) :=
  match e with
  | .step _ | .finish _ => inferInstanceAs (Decidable (_ ∧ _))

def point (s : Calls F) : LoopPoint := s.traced.loop.point

end Calls

def Completed (s : Calls F) (f : Push F) : Prop := f ∈ s.traced.pushed ∧ f.number ∉ s.unfinished

def Executed (s : Calls F) (f : Push F) : Prop := f ∈ s.traced.executed.map Prod.snd

/-- The loop has made its last swap before the next test of quit_. -/
def Swapped (s : Calls F) : Prop := s.point = .running ∨ s.point = .test

/-- No functor whose call is over waits for a swap that does not come any more. -/
def Drains (s : Calls F) : Prop :=
  Swapped s → ∀ f ∈ s.traced.loop.pendingFunctors, f.number ∈ s.unfinished

instance (s : Calls F) : Decidable (Swapped s) := inferInstanceAs (Decidable (_ ∨ _))

instance (s : Calls F) : Decidable (Drains s) := inferInstanceAs (Decidable (Swapped s → _))

def taken (t : Traced F) : Nat := t.executed.length + t.loop.functors.length

theorem number_split {as bs : List (Push F)}
    (h : (as ++ bs).map Push.number = List.range (as ++ bs).length) :
    (∀ f ∈ as, f.number < as.length) ∧ ∀ f ∈ bs, as.length ≤ f.number := by
  rw [List.map_append, List.length_append, List.range_add] at h
  obtain ⟨ha, hb⟩ := List.append_inj h (by simp)
  refine ⟨fun f hf => ?_, fun f hf => ?_⟩
  · have hm : f.number ∈ List.range as.length := ha ▸ List.mem_map_of_mem hf
    simpa using hm
  · have hm : f.number ∈ (List.range bs.length).map (as.length + ·) := hb ▸ List.mem_map_of_mem hf
    obtain ⟨i, _, hi⟩ := List.mem_map.mp hm
    omega

theorem taken_split {t : Traced F} (h : Inv t) :
    (∀ f ∈ t.executed.map Prod.snd ++ t.loop.functors, f.number < taken t) ∧
      ∀ f ∈ t.loop.pendingFunctors, taken t ≤ f.number := by
  have hn := h.numbers
  rw [← h.order] at hn
  simpa only [taken, List.length_append, List.length_map] using number_split hn

theorem pushed_length_le (t : Traced F) (e : EventLoop.Event F) :
    t.pushed.length ≤ (t.next e).pushed.length := by
  cases e <;> simp [Traced.next]

structure Late (n : Nat) (t : Traced F) : Prop where
  inv : Inv t
  quit : t.loop.quit = true
  swapped : t.loop.point = .running ∨ t.loop.point = .test
  taken : taken t = n

structure Early (n : Nat) (t : Traced F) : Prop where
  inv : Inv t
  quit : t.loop.quit = true
  ahead : (t.loop.point = .poll ∨ t.loop.point = .handling ∨ t.loop.point = .entering) ∧ n ≤ t.pushed.length ∨
    (t.loop.point = .running ∨ t.loop.point = .test) ∧ n ≤ LoopQuit.taken t

theorem taken_swapFunctors {t : Traced F} (hi : Inv t) (hp : t.loop.point = .entering) :
    taken (t.next .swapFunctors) = t.pushed.length := by
  have hempty : t.loop.functors = [] := hi.idle (by simp [hp])
  have ho := congrArg List.length hi.order
  simp only [hempty, List.append_nil, List.length_append, List.length_map] at ho
  simpa [taken, Traced.next, Traced.lift, EventLoop.next, EventLoop.swapFunctors] using ho

theorem taken_next {t : Traced F} {e : EventLoop.Event F} (he : t.Enabled e) (hp : t.loop.point ≠ .entering) :
    taken (t.next e) = taken t := by
  cases e with
  | swapFunctors => exact absurd he hp
  | runFunctor =>
      obtain ⟨f, fs, hf⟩ := List.exists_cons_of_ne_nil he.2
      simp only [taken, Traced.next, Traced.lift, EventLoop.next, hf, List.length_append, List.head?_cons,
        Option.toList_some, List.map_cons, List.map_nil, List.length_cons, List.length_nil, List.tail_cons]
      omega
  | queueInLoop inLoop cb =>
      obtain ⟨_, hfun, _⟩ := EventLoop.queueInLoop_frame inLoop (t.push cb) t.loop
      simp only [taken, Traced.next, Traced.lift, EventLoop.next, hfun]
  | quit inLoop => cases inLoop <;> rfl
  | wakeup pushed => cases pushed <;> rfl
  | enterLoop | testQuit | pollReturn | handleRead | beginFunctors | endFunctors => rfl

theorem traced_quit_next {t : Traced F} {e : EventLoop.Event F} (he : t.Enabled e) (hp : t.loop.point ≠ .outside)
    (hq : t.loop.quit = true) : (t.next e).loop.quit = true := by
  have hn : (t.next e).loop = t.loop.next (t.lift e) := by
    cases e <;> rfl
  rw [hn]
  apply EventLoop.quit_next _ hq
  intro hl
  simp only [Traced.Enabled, hl] at he
  exact hp he

theorem point_queueInLoop (t : Traced F) (inLoop : Bool) (cb : F) :
    (t.next (.queueInLoop inLoop cb)).loop.point = t.loop.point :=
  (EventLoop.queueInLoop_frame inLoop (t.push cb) t.loop).2.2

theorem Late.step {n : Nat} {t : Traced F} {e : EventLoop.Event F} (h : Late n t) (he : t.Enabled e)
    (ho : (t.next e).loop.point ≠ .outside) : Late n (t.next e) := by
  have hrun : t.loop.point ≠ .outside := by
    rcases h.swapped with hp | hp <;> simp [hp]
  have hent : t.loop.point ≠ .entering := by
    rcases h.swapped with hp | hp <;> simp [hp]
  refine ⟨step_inv t e h.inv he, traced_quit_next he hrun h.quit, ?_, (taken_next he hent).trans h.taken⟩
  cases e with
  | enterLoop => exact absurd he hrun
  | testQuit => simp [Traced.next, Traced.lift, EventLoop.next, h.quit] at ho
  | pollReturn woken =>
      have hp : t.loop.point = .poll := he.1
      rcases h.swapped with hq | hq <;> simp [hp] at hq
  | handleRead => exact h.swapped
  | beginFunctors =>
      have hp : t.loop.point = .handling := he.1
      rcases h.swapped with hq | hq <;> simp [hp] at hq
  | swapFunctors => exact absurd he hent
  | runFunctor => exact h.swapped
  | endFunctors => exact .inr rfl
  | queueInLoop inLoop cb =>
      rw [point_queueInLoop]
      exact h.swapped
  | quit inLoop => cases inLoop <;> exact h.swapped
  | wakeup pushed => cases pushed <;> exact h.swapped

theorem Early.step {n : Nat} {t : Traced F} {e : EventLoop.Event F} (h : Early n t) (he : t.Enabled e)
    (ho : (t.next e).loop.point ≠ .outside) : Early n (t.next e) := by
  rcases h.ahead with ⟨hp, hn⟩ | ⟨hp, hn⟩
  · have hrun : t.loop.point ≠ .outside := by
      rcases hp with hp | hp | hp <;> simp [hp]
    have hl := Nat.le_trans hn (pushed_length_le t e)
    refine ⟨step_inv t e h.inv he, traced_quit_next he hrun h.quit, ?_⟩
    cases e with
    | enterLoop => exact absurd he hrun
    | testQuit => simp [Traced.next, Traced.lift, EventLoop.next, h.quit] at ho
    | pollReturn woken => exact .inl ⟨.inr (.inl rfl), hl⟩
    | handleRead => exact .inl ⟨hp, hl⟩
    | beginFunctors => exact .inl ⟨.inr (.inr rfl), hl⟩
    | swapFunctors =>
        refine .inr ⟨.inl rfl, ?_⟩
        rw [taken_swapFunctors h.inv he]
        exact hn
    | runFunctor =>
        have hq : t.loop.point = .running := he.1
        rcases hp with hp | hp | hp <;> simp [hp] at hq
    | endFunctors =>
        have hq : t.loop.point = .running := he.1
        rcases hp with hp | hp | hp <;> simp [hp] at hq
    | queueInLoop inLoop cb =>
        rw [point_queueInLoop]
        exact .inl ⟨hp, hl⟩
    | quit inLoop => cases inLoop <;> exact .inl ⟨hp, hl⟩
    | wakeup pushed => cases pushed <;> exact .inl ⟨hp, hl⟩
  · have hlate := Late.step ⟨h.inv, h.quit, hp, rfl⟩ he ho
    exact ⟨hlate.inv, hlate.quit, .inr ⟨hlate.swapped, hlate.taken ▸ hn⟩⟩

theorem next_traced (s : Calls F) (e : Calls.Event F) : (s.next e).traced = s.traced.next (Calls.base e) := by
  cases e <;> rfl

theorem enabled_base {s : Calls F} {e : Calls.Event F} (he : s.Enabled e) : s.traced.Enabled (Calls.base e) := by
  cases e with
  | step e => exact he.2
  | finish i => exact he.2

theorem run_inv {s : Calls F} {es : List (Calls.Event F)} (h : Inv s.traced) (he : Meets Calls.next Calls.Enabled s es) :
    Inv (run Calls.next s es).traced := by
  apply (always_of_step (P := fun s : Calls F => Inv s.traced) (fun s e hs he => ?_) h he).last
  rw [next_traced]
  exact step_inv _ _ hs (enabled_base he)

theorem run_keeps {P : Traced F → Prop}
    (hstep : ∀ (t : Traced F) e, P t → t.Enabled e → (t.next e).loop.point ≠ .outside → P (t.next e))
    {s : Calls F} {es : List (Calls.Event F)} (hs : P s.traced) (he : Meets Calls.next Calls.Enabled s es)
    (ho : Always Calls.next (fun s => s.point ≠ .outside) s es) : P (run Calls.next s es).traced := by
  apply (always_of_step (P := fun s : Calls F => P s.traced) (fun s e hs he => ?_) hs
    (meets_and.mpr ⟨he, ho.meets_next⟩)).last
  obtain ⟨he, hp⟩ := he
  simp only [Calls.point, next_traced] at hp
  rw [next_traced]
  exact hstep _ _ hs (enabled_base he) hp

theorem executed_iff {s : Calls F} {f : Push F} (h : Inv s.traced) (hp : s.point = .test) (hf : f ∈ s.traced.pushed) :
    Executed s f ↔ f.number < taken s.traced := by
  have hempty : s.traced.loop.functors = [] := h.idle (fun hr => by simp [Calls.point, hr] at hp)
  obtain ⟨hlt, hge⟩ := taken_split h
  have ho := h.order
  rw [hempty, List.append_nil] at ho hlt
  refine ⟨hlt f, fun hn => ?_⟩
  rw [← ho] at hf
  rcases List.mem_append.mp hf with hm | hm
  · exact hm
  · exact absurd (hge f hm) (Nat.not_le_of_lt hn)

theorem pushed_next (t : Traced F) (e : EventLoop.Event F) {f : Push F} (hf : f ∈ t.pushed) : f ∈ (t.next e).pushed := by
  cases e with
  | queueInLoop inLoop cb => exact List.mem_append_left _ hf
  | _ => exact hf

theorem pushed_run (s : Calls F) (es : List (Calls.Event F)) {f : Push F} (hf : f ∈ s.traced.pushed) :
    f ∈ (run Calls.next s es).traced.pushed := by
  apply (always_of_step (P := fun s : Calls F => f ∈ s.traced.pushed) (fun s e hs _ => ?_) hf
    (meets_true s es)).last
  rw [next_traced]
  exact pushed_next _ _ hs

theorem quit_loop (s : Calls F) (inLoop : Bool) :
    let t := (s.next (.step (.quit inLoop))).traced
    t.loop.quit = true ∧ t.loop.point = s.point ∧ t.pushed = s.traced.pushed ∧ taken t = taken s.traced := by
  cases inLoop <;> exact ⟨rfl, rfl, rfl, rfl⟩

theorem executed_iff_of_swapped {s : Calls F} {es : List (Calls.Event F)} {inLoop : Bool} (hi : Inv s.traced)
    (he : Meets Calls.next Calls.Enabled s (.step (.quit inLoop) :: es))
    (ho : Always Calls.next (fun s => s.point ≠ .outside) s (.step (.quit inLoop) :: es))
    (hret : (run Calls.next s (.step (.quit inLoop) :: es)).point = .test) (hs : Swapped s) {f : Push F}
    (hf : f ∈ s.traced.pushed) :
    Executed (run Calls.next s (.step (.quit inLoop) :: es)) f ↔ f ∉ s.traced.loop.pendingFunctors := by
  obtain ⟨hq, hp, _, ht⟩ := quit_loop s inLoop
  have hlate : Late (taken s.traced) (s.next (.step (.quit inLoop))).traced := by
    refine ⟨step_inv _ _ hi (enabled_base he.1), hq, ?_, ht⟩
    rw [hp]
    exact hs
  have hend := run_keeps (fun t e h => h.step) hlate he.2 ho.2
  have hx := executed_iff hend.inv hret (pushed_run s (.step (.quit inLoop) :: es) hf)
  rw [hend.taken] at hx
  obtain ⟨hlt, hge⟩ := taken_split hi
  rw [← hi.order] at hf
  constructor
  · intro h hm
    exact absurd (hge f hm) (Nat.not_le_of_lt (hx.mp h))
  · intro hn
    rcases List.mem_append.mp hf with hm | hm
    · exact hx.mpr (hlt f hm)
    · exact absurd hm hn

theorem executed_of_not_swapped {s : Calls F} {es : List (Calls.Event F)} {inLoop : Bool} (hi : Inv s.traced)
    (he : Meets Calls.next Calls.Enabled s (.step (.quit inLoop) :: es))
    (ho : Always Calls.next (fun s => s.point ≠ .outside) s (.step (.quit inLoop) :: es))
    (hret : (run Calls.next s (.step (.quit inLoop) :: es)).point = .test) (hs : ¬ Swapped s) {f : Push F}
    (hf : f ∈ s.traced.pushed) : Executed (run Calls.next s (.step (.quit inLoop) :: es)) f := by
  obtain ⟨hq, hp, hpu, _⟩ := quit_loop s inLoop
  have hout : s.point ≠ .outside := ho.1
  have hearly : Early s.traced.pushed.length (s.next (.step (.quit inLoop))).traced := by
    refine ⟨step_inv _ _ hi (enabled_base he.1), hq, .inl ⟨?_, Nat.le_of_eq (congrArg List.length hpu.symm)⟩⟩
    rw [hp]
    simp only [Swapped, not_or] at hs
    cases hc : s.point <;> simp_all
  have hend := run_keeps (fun t e h => h.step) hearly he.2 ho.2
  apply (executed_iff hend.inv hret (pushed_run s (.step (.quit inLoop) :: es) hf)).mpr
  rcases hend.ahead with ⟨hq, _⟩ | ⟨_, hn⟩
  · rcases hq with hq | hq | hq <;> exact absurd (hq.symm.trans hret) (by simp)
  · have hlt : f.number < s.traced.pushed.length := by
      have hm := List.mem_map_of_mem (f := Push.number) hf
      rw [hi.numbers] at hm
      simpa using hm
    exact Nat.lt_of_lt_of_le hlt hn

/-- For every run in which quit() is called while loop() runs, and which goes on to
the test of quit_ that ends loop(): the functors whose queueInLoop was over by
then are all executed, if and only if none of them waited behind the last swap. -/
theorem executed_before_return_iff_drains (ds es : List (Calls.Event F)) (inLoop : Bool)
    (he : Meets Calls.next Calls.Enabled .construct (ds ++ .step (.quit inLoop) :: es))
    (hrun : Always Calls.next (fun s => s.point ≠ .outside) (run Calls.next .construct ds) (.step (.quit inLoop) :: es))
    (hret : (run Calls.next .construct (ds ++ .step (.quit inLoop) :: es)).point = .test) :
    (∀ f, Completed (run Calls.next .construct ds) f →
      Executed (run Calls.next .construct (ds ++ .step (.quit inLoop) :: es)) f) ↔
    Drains (run Calls.next .construct ds) := by
  obtain ⟨hd, he⟩ := (meets_append Calls.next _ _ _ _).mp he
  rw [run_append] at hret ⊢
  have hi : Inv (run Calls.next (.construct : Calls F) ds).traced := run_inv construct_inv hd
  by_cases hs : Swapped (run Calls.next .construct ds)
  · constructor
    · intro h _ f hm
      have hf : f ∈ (run Calls.next .construct ds).traced.pushed := by
        rw [← hi.order]
        exact List.mem_append_right _ hm
      by_contra hn
      exact (executed_iff_of_swapped hi he hrun hret hs hf).mp (h f ⟨hf, hn⟩) hm
    · intro h f hf
      exact (executed_iff_of_swapped hi he hrun hret hs hf.1).mpr fun hm => hf.2 (h hs f hm)
  · refine ⟨fun _ hw => absurd hw hs, fun _ f hf => ?_⟩
    exact executed_of_not_swapped hi he hrun hret hs hf.1

theorem executed_before_return_polling :
    Executed (run Calls.next .construct
      ([.step (.queueInLoop false 'a'), .finish 0, .step .enterLoop, .step .testQuit, .step (.queueInLoop false 'b')] ++
        .step (.quit false) :: [.step (.wakeup false), .step (.pollReturn true), .step .handleRead, .step .beginFunctors,
          .step .swapFunctors, .step .runFunctor, .step (.queueInLoop true 'c'), .step .runFunctor,
          .step .endFunctors])) ⟨'a', 0, 0, .outside⟩ :=
  (executed_before_return_iff_drains _ _ false (by decide) (by decide) (by decide)).mpr (by decide) _
    (by unfold Completed; decide)

/-- The base thread queues connectDestroyed and quits the loop while the loop runs
the batch before: the loop ends with connectDestroyed still pending. -/
theorem quit_drops_connectDestroyed :
    let ds := [.step .enterLoop, .step .testQuit, .step (.pollReturn false), .step .beginFunctors, .step .swapFunctors,
      .step (.queueInLoop false Functor.connectDestroyed), .finish 0]
    let es := [.step (.quit false), .step (.wakeup false), .step .endFunctors]
    Meets Calls.next Calls.Enabled .construct (ds ++ es) ∧
      Always Calls.next (fun s => s.point ≠ .outside) (run Calls.next .construct ds) es ∧
      (run Calls.next .construct (ds ++ es)).point = .test ∧
      ¬ ∀ f, Completed (run Calls.next .construct ds) f → Executed (run Calls.next .construct (ds ++ es)) f := by
  refine ⟨by decide, by decide, by decide, fun h => ?_⟩
  have hx := h ⟨.connectDestroyed, 0, 1, .running⟩ (by unfold Completed; decide)
  unfold Executed at hx
  revert hx
  decide

end Webserver.LoopQuit
