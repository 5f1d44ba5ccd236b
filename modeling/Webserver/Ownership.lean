import Webserver.CrossThread
import Webserver.Runs

namespace Webserver.Ownership

open Runs TcpConnection CrossThread
open ConnectionLife (Call Caller admits leaves finishCall)

def owns : Functor → Bool
  | .forceCloseInLoop | .connectDestroyed | .writeCompleteCallback => true
  | .sendInLoop _ | .shutdownInLoop | .startReadInLoop | .stopReadInLoop => false

/-- The functors of shutdown, startRead and stopRead, which are bound to this. -/
def bare : Functor → Bool
  | .shutdownInLoop | .startReadInLoop | .stopReadInLoop => true
  | .sendInLoop _ | .forceCloseInLoop | .connectDestroyed | .writeCompleteCallback => false

/-- A connection with the pointers to it. Its own loop has the functors of the
running batch, those that have run first, since all are destroyed together at
the end of doPendingFunctors; in the base loop the removeConnectionInLoop
functors are counted, those that wait, are left in the batch and have run. -/
structure Owned (T P : Type) where
  shared : Shared T P
  ran : List Functor
  rest : List Functor
  holds : T → Bool
  registered : Bool
  removals : Nat
  removalsLeft : Nat
  removalsRan : Nat
  inBaseLoop : Bool

inductive Event (T : Type)
  | acquire (t : T)
  | drop (t : T)
  | conn (e : CrossThread.Event T)
  | swapFunctors
  | functor (r : WriteResult)
  | endFunctors
  | swapRemovals
  | removal
  | endRemovals

variable {T P : Type}

namespace Owned

def pending (s : Owned T P) : List Functor := s.shared.hosted.pendingFunctors

def setHosted (h : Hosted P) (s : Owned T P) : Owned T P := { s with shared := { s.shared with hosted := h } }

def removeConnectionInLoop (s : Owned T P) : Owned T P :=
  { s.setHosted (queueInLoop .connectDestroyed s.shared.hosted) with registered := false }

def removeConnection (s : Owned T P) : Owned T P :=
  if s.inBaseLoop then s.removeConnectionInLoop else { s with removals := s.removals + 1 }

def move (x : Shared T P) (s : Owned T P) : Owned T P :=
  if s.shared.hosted.trace.count .closeCallback < x.hosted.trace.count .closeCallback then
    { s with shared := x }.removeConnection
  else { s with shared := x }

end Owned

def execute (r : WriteResult) (x : Shared T P) : Functor → Shared T P
  | .connectDestroyed => beginDestroyed x.hosted x
  | f => { x with hosted := runFunctor r x.hosted f }

def next [DecidableEq T] (s : Owned T P) : Event T → Owned T P
  | .acquire t => { s with holds := Function.update s.holds t true }
  | .drop t => { s with holds := Function.update s.holds t false }
  | .conn e => s.move (CrossThread.next s.shared e)
  | .swapFunctors => { s.setHosted { s.shared.hosted with pendingFunctors := [] } with rest := s.pending }
  | .functor r => match s.rest with
    | [] => s
    | f :: fs => { s with ran := s.ran ++ [f], rest := fs }.move (execute r s.shared f)
  | .endFunctors => { s with ran := [] }
  | .swapRemovals => { s with removals := 0, removalsLeft := s.removals }
  | .removal =>
      { s.removeConnectionInLoop with removalsLeft := s.removalsLeft - 1, removalsRan := s.removalsRan + 1 }
  | .endRemovals => { s with removalsRan := 0 }

def Alive (s : Owned T P) : Prop :=
  s.registered = true ∨ 0 < s.removals + s.removalsLeft + s.removalsRan ∨ (∃ t, s.holds t = true) ∨
    ∃ f ∈ s.pending ++ s.ran ++ s.rest, owns f = true

/-- What a step of the connection is made with: the pointer of the thread that
calls, or on the loop's thread the one that guards the callback. -/
def Guarded (s : Owned T P) : CrossThread.Event T → Prop
  | .test t _ | .store t | .finish t => s.holds t = true
  | .loopCall _ _ | .delayedClose | .readEvent _ | .writeEvent _ => Alive s
  | .destroyEnd => True
  | .functor _ | .queueDestroyed | .destroyInLoop => False

def Enabled (s : Owned T P) : Event T → Prop
  | .acquire t => s.holds t = false ∧ Alive s
  | .drop t => s.holds t = true ∧ (s.shared.callers t).isIdle = true
  | .conn e => Guarded s e ∧ CrossThread.Enabled s.shared e
  | .swapFunctors => s.ran = [] ∧ s.rest = [] ∧ s.shared.destroying = none
  | .functor _ => s.rest ≠ [] ∧ s.shared.destroying = none
  | .endFunctors => s.rest = [] ∧ s.shared.destroying = none
  | .swapRemovals => s.removalsLeft = 0 ∧ s.removalsRan = 0
  | .removal => 0 < s.removalsLeft
  | .endRemovals => s.removalsLeft = 0

def OnLive (s : Owned T P) : Event T → Prop
  | .functor _ => (∃ f, s.rest.head? = some f ∧ bare f = true) → Alive s
  | _ => True

def Lasting (s : Owned T P) : Prop :=
  s.registered = true ∨ 0 < s.removals + s.removalsLeft ∨ (∃ t, s.holds t = true) ∨ ∃ f ∈ s.pending, owns f = true

structure Covered (s : Owned T P) : Prop where
  waiting : (∃ f ∈ s.pending, bare f = true) → Lasting s
  running : (∃ f ∈ s.rest, bare f = true) → Lasting s ∨ ∃ f ∈ s.ran ++ s.rest, owns f = true

/-- A user drops its pointer only if the bare functors that wait stay covered. -/
def Careful [DecidableEq T] (s : Owned T P) : Event T → Prop
  | .drop t => Covered { s with holds := Function.update s.holds t false }
  | _ => True

def start (self : P) (poller : EpollPoller P) (fd : Int) (callback inBaseLoop : Bool) : Owned T P :=
  ⟨CrossThread.start self poller fd callback, [], [], fun _ => false, true, 0, 0, 0, inBaseLoop⟩

section Steps

theorem Lasting.alive {s : Owned T P} (h : Lasting s) : Alive s := by
  rcases h with h | h | h | ⟨f, hf, ho⟩
  · exact .inl h
  · exact .inr (.inl (Nat.lt_add_right _ h))
  · exact .inr (.inr (.inl h))
  · refine .inr (.inr (.inr ⟨f, ?_, ho⟩))
    simp [hf]

theorem Covered.onLive {s : Owned T P} (h : Covered s) (e : Event T) : OnLive s e := by
  cases e with
  | functor r =>
      rintro ⟨f, hf, hb⟩
      have hr : f ∈ s.rest := List.mem_of_mem_head? hf
      rcases h.running ⟨f, hr, hb⟩ with hl | ⟨g, hg, ho⟩
      · exact hl.alive
      · refine .inr (.inr (.inr ⟨g, ?_, ho⟩))
        rw [List.append_assoc]
        exact List.mem_append_right _ hg
  | acquire | drop | conn | swapFunctors | endFunctors | swapRemovals | removal | endRemovals => trivial

theorem Covered.grow {s t : Owned T P} (h : Covered s) (hlast : Lasting s → Lasting t)
    (hpending : ∀ f ∈ t.pending, bare f = true → f ∈ s.pending ∨ Lasting t) (hrest : ∀ f ∈ t.rest, f ∈ s.rest)
    (hbatch : ∀ f ∈ s.ran ++ s.rest, f ∈ t.ran ++ t.rest) : Covered t := by
  constructor
  · rintro ⟨f, hf, hb⟩
    rcases hpending f hf hb with hs | hl
    · exact hlast (h.waiting ⟨f, hs, hb⟩)
    · exact hl
  · rintro ⟨f, hf, hb⟩
    rcases h.running ⟨f, hrest f hf, hb⟩ with hl | ⟨g, hg, ho⟩
    · exact .inl (hlast hl)
    · exact .inr ⟨g, hbatch g hg, ho⟩

theorem removeConnectionInLoop_lasting (s : Owned T P) : Lasting s.removeConnectionInLoop := by
  refine .inr (.inr (.inr ⟨.connectDestroyed, ?_, rfl⟩))
  simp [Owned.removeConnectionInLoop, Owned.setHosted, Owned.pending, queueInLoop]

theorem removeConnection_lasting (s : Owned T P) : Lasting s.removeConnection := by
  simp only [Owned.removeConnection]
  split
  · exact removeConnectionInLoop_lasting s
  · exact .inr (.inl (by show 0 < s.removals + 1 + s.removalsLeft; omega))

theorem move_batch (x : Shared T P) (s : Owned T P) : (s.move x).ran = s.ran ∧ (s.move x).rest = s.rest := by
  simp only [Owned.move, Owned.removeConnection]
  split
  · split
    · exact ⟨rfl, rfl⟩
    · exact ⟨rfl, rfl⟩
  · exact ⟨rfl, rfl⟩

theorem move_lasting {x : Shared T P} {s : Owned T P} {ws : List Functor}
    (hw : x.hosted.pendingFunctors = s.pending ++ ws) (hl : Lasting s) : Lasting (s.move x) := by
  simp only [Owned.move]
  split
  · exact removeConnection_lasting _
  · rcases hl with hl | hl | hl | ⟨f, hf, ho⟩
    · exact .inl hl
    · exact .inr (.inl hl)
    · exact .inr (.inr (.inl hl))
    · refine .inr (.inr (.inr ⟨f, ?_, ho⟩))
      rw [show Owned.pending { s with shared := x } = s.pending ++ ws from hw]
      exact List.mem_append_left _ hf

theorem move_pending {x : Shared T P} {s : Owned T P} {f : Functor} (hf : f ∈ (s.move x).pending)
    (hb : bare f = true) : f ∈ x.hosted.pendingFunctors := by
  revert hf
  simp only [Owned.move, Owned.removeConnection]
  split
  · split
    · intro hf
      rcases List.mem_append.mp hf with hf | hf
      · exact hf
      · rw [List.mem_singleton.mp hf] at hb
        cases hb
    · exact id
  · exact id

theorem move_covered {x : Shared T P} {s : Owned T P} (h : Covered s) {ws : List Functor}
    (hw : x.hosted.pendingFunctors = s.pending ++ ws)
    (hnew : (∀ f ∈ ws, bare f = false) ∨ ∃ t, s.holds t = true) : Covered (s.move x) := by
  obtain ⟨hran, hrest⟩ := move_batch x s
  refine h.grow (move_lasting hw) (fun f hf hb => ?_) (by rw [hrest]; exact fun _ => id)
    (by rw [hran, hrest]; exact fun _ => id)
  have hx := move_pending hf hb
  rw [hw] at hx
  rcases List.mem_append.mp hx with hx | hx
  · exact .inl hx
  · rcases hnew with hnew | hheld
    · rw [hnew f hx] at hb
      cases hb
    · exact .inr (move_lasting hw (.inr (.inr (.inl hheld))))

theorem pushes_covered {x : Shared T P} {s : Owned T P} (h : Covered s) (hp : Pushes s.shared.hosted x.hosted) :
    Covered (s.move x) := by
  obtain ⟨ws, hw, hws⟩ := hp
  refine move_covered h hw (.inl fun f hf => ?_)
  rcases hws f hf with rfl | rfl
  · rfl
  · rfl

theorem functor_covered {s : Owned T P} (h : Covered s) {f : Functor} {fs : List Functor} (hr : s.rest = f :: fs)
    (r : WriteResult) : Covered ({ s with ran := s.ran ++ [f], rest := fs }.move (execute r s.shared f)) := by
  have hpop : Covered { s with ran := s.ran ++ [f], rest := fs } := by
    refine h.grow id (fun g hg _ => .inl hg) (fun g hg => ?_) (fun g hg => ?_)
    · rw [hr]
      exact List.mem_cons_of_mem f hg
    · rw [hr] at hg
      simpa using hg
  refine pushes_covered hpop ?_
  cases f with
  | connectDestroyed => exact pushes_of_eq rfl
  | sendInLoop | shutdownInLoop | forceCloseInLoop | startReadInLoop | stopReadInLoop | writeCompleteCallback =>
      exact runFunctor_pushes r s.shared.hosted _

theorem start_covered (self : P) (poller : EpollPoller P) (fd : Int) (callback inBaseLoop : Bool) :
    Covered (start self poller fd callback inBaseLoop : Owned T P) :=
  ⟨fun _ => .inl rfl, fun _ => .inl (.inl rfl)⟩

end Steps

variable [DecidableEq T]

theorem finishCall_pending (h : Hosted P) (c : ConnectionLife.Call) :
    ∃ ws, (finishCall h c).pendingFunctors = h.pendingFunctors ++ ws := by
  cases c with
  | forceCloseWithDelay => exact ⟨[], (List.append_nil _).symm⟩
  | send | shutdown | forceClose | startRead | stopRead => exact ⟨_, rfl⟩

theorem conn_covered {s : Owned T P} (h : Covered s) {e : CrossThread.Event T} (he : Guarded s e) :
    Covered (s.move (CrossThread.next s.shared e)) := by
  cases e with
  | test t c =>
      refine pushes_covered h (pushes_of_eq ?_)
      simp only [CrossThread.next]
      split
      · rfl
      · rfl
  | store t =>
      refine pushes_covered h (pushes_of_eq ?_)
      simp only [CrossThread.next]
      split
      · rfl
      · rfl
  | finish t =>
      have hx : ∃ ws, (CrossThread.next s.shared (.finish t)).hosted.pendingFunctors = s.pending ++ ws := by
        simp only [CrossThread.next]
        split
        · exact finishCall_pending s.shared.hosted _
        · exact finishCall_pending s.shared.hosted _
        · exact ⟨[], (List.append_nil _).symm⟩
      obtain ⟨ws, hw⟩ := hx
      exact move_covered h hw (.inr ⟨t, he⟩)
  | loopCall c r => exact pushes_covered h (loopCall_pushes r s.shared.hosted c)
  | delayedClose =>
      obtain ⟨ws, hw, hws⟩ := forceClose_pushes
        { s.shared.hosted with delayedCloses := s.shared.hosted.delayedCloses - 1 }
      exact pushes_covered h ⟨ws, hw, hws⟩
  | readEvent r => exact pushes_covered h (handleRead_pushes r s.shared.hosted)
  | writeEvent r => exact pushes_covered h (handleWrite_steady r s.shared.hosted).pushes
  | destroyEnd =>
      refine pushes_covered h (pushes_of_eq ?_)
      simp only [CrossThread.next]
      split
      · split
        · rfl
        · rfl
      · rfl
  | functor | queueDestroyed | destroyInLoop => exact absurd he id

theorem step_covered (s : Owned T P) (e : Event T) (h : Covered s) (he : Enabled s e ∧ Careful s e) :
    Covered (next s e) := by
  obtain ⟨hen, hcareful⟩ := he
  cases e with
  | acquire t =>
      refine h.grow (fun hl => ?_) (fun f hf _ => .inl hf) (fun _ => id) (fun _ => id)
      exact .inr (.inr (.inl ⟨t, Function.update_self ..⟩))
  | drop t => exact hcareful
  | conn e => exact conn_covered h hen.1
  | swapFunctors =>
      constructor
      · rintro ⟨f, hf, _⟩
        cases hf
      · rintro ⟨f, hf, hb⟩
        rcases h.waiting ⟨f, hf, hb⟩ with hl | hl | hl | ⟨g, hg, ho⟩
        · exact .inl (.inl hl)
        · exact .inl (.inr (.inl hl))
        · exact .inl (.inr (.inr (.inl hl)))
        · exact .inr ⟨g, List.mem_append_right _ hg, ho⟩
  | functor r =>
      simp only [next]
      split
      · exact h
      · rename_i f fs hr
        exact functor_covered h hr r
  | endFunctors =>
      refine ⟨h.waiting, ?_⟩
      rintro ⟨f, hf, _⟩
      rw [show (next s .endFunctors).rest = s.rest from rfl, hen.1] at hf
      cases hf
  | swapRemovals =>
      refine h.grow (fun hl => ?_) (fun f hf _ => .inl hf) (fun _ => id) (fun _ => id)
      rcases hl with hl | hl | hl
      · exact .inl hl
      · refine .inr (.inl ?_)
        show 0 < 0 + s.removals
        rw [hen.1] at hl
        omega
      · exact .inr (.inr hl)
  | removal =>
      have hl : Lasting (next s .removal) := by
        refine .inr (.inr (.inr ⟨.connectDestroyed, ?_, rfl⟩))
        simp [next, Owned.removeConnectionInLoop, Owned.setHosted, Owned.pending, queueInLoop]
      exact h.grow (fun _ => hl) (fun _ _ _ => .inr hl) (fun _ => id) (fun _ => id)
  | endRemovals => exact ⟨h.waiting, h.running⟩

/-- Whatever the threads and the loops do, a queued shutdownInLoop,
startReadInLoop or stopReadInLoop runs on a live connection, as long as every
user is careful with its last pointer. -/
theorem meets_on_live (self : P) (poller : EpollPoller P) (fd : Int) (callback inBaseLoop : Bool) (es : List (Event T))
    (he : Meets next Enabled (start self poller fd callback inBaseLoop) es)
    (hc : Meets next Careful (start self poller fd callback inBaseLoop) es) :
    Meets next OnLive (start self poller fd callback inBaseLoop) es :=
  meets_of_step step_covered (fun _ e h _ => h.onLive e) (start_covered self poller fd callback inBaseLoop)
    (meets_and.mpr ⟨he, hc⟩)

theorem meets_on_live_registered :
    Meets next OnLive (start () .construct 7 true false : Owned Unit Unit)
      [.acquire (), .conn (.test () .stopRead), .conn (.finish ()), .drop (), .conn (.readEvent (.received [])),
        .swapRemovals, .removal, .endRemovals, .swapFunctors, .functor (.wrote 0)] := by
  refine meets_on_live () .construct 7 true false _ ?_ ?_
  · exact ⟨⟨rfl, .inl rfl⟩, ⟨rfl, rfl⟩, ⟨rfl, rfl⟩, ⟨rfl, rfl⟩, ⟨.inl rfl, rfl⟩, ⟨rfl, rfl⟩, Nat.zero_lt_one, rfl,
      ⟨rfl, rfl, rfl⟩, ⟨by decide +kernel, rfl⟩, trivial⟩
  · exact ⟨trivial, trivial, trivial, ⟨fun _ => .inl rfl, fun _ => .inl (.inl rfl)⟩, trivial, trivial, trivial, trivial,
      trivial, trivial, trivial⟩

/-- A user calls stopRead while the loop is in the batch of connectDestroyed, and drops its pointer. -/
theorem stopRead_runs_on_dead :
    let es : List (Event Unit) := [.acquire (), .conn (.readEvent (.received [])), .swapRemovals, .removal,
      .endRemovals, .swapFunctors, .conn (.test () .stopRead), .conn (.finish ()), .drop (), .functor (.wrote 0),
      .conn .destroyEnd, .endFunctors, .swapFunctors, .functor (.wrote 0)]
    Meets next Enabled (start () .construct 7 true false : Owned Unit Unit) es ∧
      ¬ Meets next OnLive (start () .construct 7 true false : Owned Unit Unit) es := by
  refine ⟨?_, fun h => ?_⟩
  · exact ⟨⟨rfl, .inl rfl⟩, ⟨.inl rfl, rfl⟩, ⟨rfl, rfl⟩, Nat.zero_lt_one, rfl, ⟨rfl, rfl, rfl⟩, ⟨rfl, rfl⟩, ⟨rfl, rfl⟩,
      ⟨rfl, rfl⟩, ⟨by decide +kernel, rfl⟩, ⟨trivial, rfl⟩, ⟨rfl, rfl⟩, ⟨rfl, rfl, rfl⟩,
      ⟨by decide +kernel, rfl⟩, trivial⟩
  · obtain ⟨_, _, _, _, _, _, _, _, _, _, _, _, _, hlast, _⟩ := h
    rcases hlast ⟨.stopReadInLoop, rfl, rfl⟩ with hr | hr | ⟨t, ht⟩ | ⟨f, hf, ho⟩
    · cases hr
    · exact absurd hr (by decide +kernel)
    · cases ht
    · have hone : f ∈ [Functor.stopReadInLoop] := hf
      rw [List.mem_singleton.mp hone] at ho
      cases ho

end Webserver.Ownership
