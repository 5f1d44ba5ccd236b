import Webserver.LoopStart

namespace Webserver.LateWakeup

open Runs EventLoopThread
open LoopStart (quits Unquit Reliable)

variable {F : Type}

/-- ~EventLoopThread sets quit_, the thread comes to its end and takes the loop with it,
and quit() wakes that loop up. -/
def overtaken : List (Event F) := [.quit, .clear, .wakeup]

structure History (es : List (Event F)) (s : EventLoopThread F) : Prop where
  inv : LoopStart.Inv s
  unquit : Unquit s
  ended : s.thread = .ended ↔ .clear ∈ es
  called : s.QuitCalled → .quit ∈ es
  order : .clear ∈ es → [Event.quit, .clear].Sublist es
  joined : s.owner = .destroyed → s.thread = .ended

theorem construct_history : History [] (.construct : EventLoopThread F) := by
  refine ⟨LoopStart.construct_inv, fun _ => ⟨rfl, ?_, ?_⟩, ?_, ?_, ?_, ?_⟩
  · simp [EventLoopThread.construct]
  · simp [EventLoopThread.construct]
  · simp [EventLoopThread.construct]
  · simp [EventLoopThread.construct, QuitCalled]
  · simp
  · simp [EventLoopThread.construct]

theorem History.same {es : List (Event F)} {s t : EventLoopThread F} {e : Event F} (h : History es s)
    (hinv : LoopStart.Inv t) (hunquit : Unquit t) (he : e ≠ .clear) (hthread : t.thread = .ended ↔ s.thread = .ended)
    (hcalled : t.QuitCalled → s.QuitCalled ∨ e = .quit) (hjoined : t.owner = .destroyed → t.thread = .ended) :
    History (es ++ [e]) t := by
  have hclear : .clear ∈ es ++ [e] ↔ .clear ∈ es := by simp [he.symm]
  refine ⟨hinv, hunquit, ?_, fun hq => ?_, fun hc => ?_, hjoined⟩
  · rw [hthread, hclear, h.ended]
  · rcases hcalled hq with hq | rfl
    · exact List.mem_append_left _ (h.called hq)
    · exact List.mem_append_right _ (List.mem_singleton_self _)
  · exact (h.order (hclear.mp hc)).trans (List.sublist_append_left _ _)

theorem hosts_alive {s : EventLoopThread F} {e : EventLoop.Event F} (he : s.Hosts e) :
    s.thread ≠ .ended ∧ s.threadAfter e ≠ .ended := by
  cases e with
  | enterLoop =>
      have ht : s.thread = .published := he
      simp [ht, threadAfter]
  | testQuit =>
      have ht : s.thread = .looping := he
      simp only [threadAfter, ht]
      split
      · simp
      · simp
  | pollReturn woken | handleRead | beginFunctors | swapFunctors | runFunctor | endFunctors =>
      have ht : s.thread = .looping := he
      simp [threadAfter, ht]
  | queueInLoop inLoop cb =>
      cases inLoop with
      | true => rcases he with ht | ht <;> simp [threadAfter, ht]
      | false => exact ⟨he.2, he.2⟩
  | quit inLoop =>
      cases inLoop with
      | true => rcases he with ht | ht <;> simp [threadAfter, ht]
      | false => exact ⟨he.2, he.2⟩
  | wakeup pushed => exact ⟨he.2, he.2⟩

theorem step_history {es : List (Event F)} {s : EventLoopThread F} {e : Event F} (h : History es s)
    (he : s.Enabled e ∧ quits e = false) : History (es ++ [e]) (s.next e) := by
  have hinv := LoopStart.step_inv s e h.inv he.1
  have hunquit := LoopStart.step_unquit s e h.unquit he
  obtain ⟨he, _⟩ := he
  cases e with
  | startLoop =>
      have ho : s.owner = .created := he
      have ht := h.inv.thread.created ho
      refine h.same hinv hunquit (by simp) ?_ ?_ ?_
      · simp [EventLoopThread.next, ht]
      · simp [EventLoopThread.next, QuitCalled]
      · simp [EventLoopThread.next]
  | startLoopReturn =>
      refine h.same hinv hunquit (by simp) Iff.rfl ?_ ?_
      · simp [EventLoopThread.next, QuitCalled]
      · simp [EventLoopThread.next]
  | destroy =>
      have ho : s.owner = .started := he
      have hpublished := h.inv.pointer.mpr ((LoopStart.reliable h.inv h.unquit).pointer (.inl ho)).1
      refine h.same hinv hunquit (by simp) Iff.rfl ?_ ?_
      · simp [EventLoopThread.next, QuitCalled, hpublished]
      · simp [EventLoopThread.next, hpublished]
  | quit =>
      refine h.same hinv hunquit (by simp) Iff.rfl (fun _ => .inr rfl) ?_
      simp [EventLoopThread.next]
  | wakeup =>
      refine h.same hinv hunquit (by simp) Iff.rfl (fun _ => .inl (.inl he.1)) ?_
      simp [EventLoopThread.next]
  | join => exact h.same hinv hunquit (by simp) Iff.rfl (fun _ => .inl (.inr (.inl he.1))) fun _ => he.2
  | publish =>
      have ht : s.thread = .initializing := he
      refine h.same hinv hunquit (by simp) ?_ (fun hq => .inl hq) fun ho => ?_
      · simp [EventLoopThread.next, ht]
      · have hended := h.joined ho
        rw [ht] at hended
        cases hended
  | loop e =>
      obtain ⟨halive, hafter⟩ := hosts_alive he.1
      refine h.same hinv hunquit (by simp) ?_ (fun hq => .inl hq) fun ho => absurd (h.joined ho) halive
      exact iff_of_false hafter halive
  | clear =>
      have hcalled : s.QuitCalled := by
        by_contra hn
        exact (h.unquit hn).2.1 he
      refine ⟨hinv, hunquit, ?_, fun _ => List.mem_append_left _ (h.called hcalled), fun _ => ?_, fun _ => rfl⟩
      · simp [EventLoopThread.next]
      · exact List.Sublist.append (List.singleton_sublist.mpr (h.called hcalled)) (List.Sublist.refl [Event.clear])

theorem sublist_append_singleton {α : Type} {l es : List α} {a : α} :
    (l ++ [a]).Sublist es ↔ ∃ ds fs, es = ds ++ a :: fs ∧ l.Sublist ds := by
  rw [List.append_sublist_iff]
  constructor
  · rintro ⟨ds, fs, rfl, hl, ha⟩
    obtain ⟨us, vs, rfl⟩ := List.append_of_mem (List.singleton_sublist.mp ha)
    exact ⟨ds ++ us, vs, by rw [List.append_assoc], hl.trans (List.sublist_append_left _ _)⟩
  · rintro ⟨ds, fs, rfl, hl⟩
    exact ⟨ds, a :: fs, rfl, hl, List.singleton_sublist.mpr List.mem_cons_self⟩

theorem wakes_dead_loop_iff (es : List (Event F)) (he : Meets next Enabled .construct es)
    (hes : ∀ e ∈ es, quits e = false) :
    (Meets next (fun s e => e = .wakeup → s.thread ≠ .ended) .construct es ↔ ¬ overtaken.Sublist es) ∧
      Always next (fun s => s.owner = .destroyed → s.thread = .ended) .construct es := by
  have hmeets : Meets next (fun s e => s.Enabled e ∧ quits e = false) .construct es :=
    meets_and.mpr ⟨he, meets_of_forall _ hes⟩
  have hpast : ∀ ds fs, es = ds ++ fs → History ds (run next .construct ds) := by
    rintro ds fs rfl
    exact history_of_step (fun _ _ _ h he => step_history h he) construct_history
      ((meets_append _ _ _ _ _).mp hmeets).1
  constructor
  · rw [meets_iff, show overtaken = [Event.quit, .clear] ++ [(.wakeup : Event F)] from rfl, sublist_append_singleton]
    constructor
    · rintro h ⟨ds, fs, hds, hl⟩
      have hended := (hpast ds _ hds).ended.mpr (hl.subset (by simp))
      exact h ds .wakeup fs hds rfl hended
    · rintro h ds _ fs hds rfl hended
      have hhistory := hpast ds _ hds
      exact h ⟨ds, fs, hds, hhistory.order (hhistory.ended.mp hended)⟩
  · have hall := always_of_step (P := fun s : EventLoopThread F => ∃ ds, History ds s)
      (fun s e h he => ⟨_, step_history h.choose_spec he⟩) ⟨[], construct_history⟩ hmeets
    exact always_mono (fun s h => h.choose_spec.joined) hall

theorem wakes_dead_loop_iff_overtaken :
    let es : List (Event Char) := [.startLoop, .publish, .startLoopReturn, .loop .enterLoop, .loop .testQuit,
      .loop (.pollReturn false), .loop .beginFunctors, .loop .swapFunctors, .loop .endFunctors, .destroy, .quit,
      .loop .testQuit, .clear, .wakeup, .join]
    (Meets next (fun s e => e = .wakeup → s.thread ≠ .ended) .construct es ↔ ¬ overtaken.Sublist es) ∧
      Always next (fun s => s.owner = .destroyed → s.thread = .ended) .construct es :=
  wakes_dead_loop_iff _ (by decide) (by simp [quits])

end Webserver.LateWakeup
