import Webserver.CrossThread

namespace Webserver.GracefulShutdown

open Runs TcpConnection CrossThread
open ConnectionLife (Call Caller admits leaves applyCall finishCall)
open OutputStream (isWriting_enableWriting isWriting_disableWriting directWrite_conn queueWriteComplete_conn)

variable {T P : Type}

/-- The calls and loop steps of a connection that nobody closes. -/
def inScope : Event T → Bool
  | .test _ (.send _) | .test _ .shutdown | .store _ | .finish _ => true
  | .loopCall (.send _) _ | .loopCall .shutdown _ | .functor _ | .writeEvent _ => true
  | _ => false

def Steps (s : Shared T P) (e : Event T) : Prop := Enabled s e ∧ inScope e = true

instance (s : Shared T P) (e : Event T) : Decidable (Steps s e) := inferInstanceAs (Decidable (_ ∧ _))

@[simp]
def isShutdownWrite : Effect → Bool
  | .shutdownWrite _ => true
  | _ => false

def isWrite : Effect → Bool
  | .write _ _ => true
  | _ => false

def Quiet (es : List Effect) : Prop := ∀ e ∈ es, isShutdownWrite e = false

@[simp]
theorem quiet_nil : Quiet [] := by
  simp [Quiet]

@[simp]
theorem quiet_cons (e : Effect) (es : List Effect) : Quiet (e :: es) ↔ isShutdownWrite e = false ∧ Quiet es :=
  List.forall_mem_cons

def WriteClosed (h : Hosted P) : Prop := ∃ unsent, .shutdownWrite unsent ∈ h.trace

/-- A message was accepted and has not been given to sendInLoop: it waits in the
queue, or its thread is still to push it. -/
def OnTheWay (s : Shared T P) : Prop :=
  (∃ m, .sendInLoop m ∈ s.hosted.pendingFunctors) ∨ ∃ t m, s.callers t = .tested (.send m)

/-- No write follows the close of the write side; before it all accepted messages
went to sendInLoop, and all bytes were offered to the socket. -/
structure Graceful (s : Shared T P) : Prop where
  silent : s.hosted.trace.Pairwise fun e f => isShutdownWrite e = true → isWrite f = false
  taken : WriteClosed s.hosted → ¬ OnTheWay s
  offered : ∀ unsent, .shutdownWrite unsent ∈ s.hosted.trace → unsent = []

def Empties (h : Hosted P) : WriteResult → Prop
  | .wrote n => 0 < min n h.conn.outputBuffer.readable.length ∧
      h.conn.outputBuffer.readableBytes ≤ min n h.conn.outputBuffer.readable.length
  | .failed _ => False

def Closes (s : Shared T P) : Event T → Prop
  | .functor _ => s.hosted.pendingFunctors.head? = some .shutdownInLoop ∧ s.hosted.conn.channel.isWriting = false
  | .loopCall .shutdown _ => s.hosted.conn.state = .kConnected ∧ s.hosted.conn.channel.isWriting = false
  | .writeEvent r =>
      s.hosted.conn.channel.isWriting = true ∧ s.hosted.conn.state = .kDisconnecting ∧ Empties s.hosted r
  | _ => False

def Waits (s : Shared T P) (e : Event T) : Prop := Closes s e → ¬ OnTheWay s

def Coupled (h : Hosted P) : Prop := h.conn.channel.isWriting = false → h.conn.outputBuffer.readableBytes = 0

theorem directWrite_quiet (data : List Byte) (r : WriteResult) (h : Hosted P) :
    ∃ es, (directWrite data r h).1.trace = h.trace ++ es ∧ Quiet es := by
  cases r with
  | failed e => exact ⟨[.write data 0], rfl, by simp⟩
  | wrote n =>
      simp only [directWrite]
      split
      · simp only [queueWriteComplete]
        split
        · exact ⟨[.write data (min n data.length), .queueWriteComplete h.conn.outputBuffer.readable],
            by simp [emit, TcpConnection.queueInLoop], by simp⟩
        · exact ⟨[.write data (min n data.length)], rfl, by simp⟩
      · exact ⟨[.write data (min n data.length)], rfl, by simp⟩

theorem bufferOutput_isWriting (rest : List Byte) (h : Hosted P) :
    (bufferOutput rest h).conn.channel.isWriting = true := by
  simp only [bufferOutput]
  split
  · assumption
  · exact isWriting_enableWriting _ _

theorem bufferOutput_trace (rest : List Byte) (h : Hosted P) : (bufferOutput rest h).trace = h.trace := by
  simp only [bufferOutput]
  split
  · rfl
  · rfl

theorem sendInLoop_quiet (data : List Byte) (r : WriteResult) (h : Hosted P) :
    ∃ es, (sendInLoop data r h).trace = h.trace ++ es ∧ Quiet es := by
  apply sendInLoop_rule (Q := fun k => ∃ es, k.trace = h.trace ++ es ∧ Quiet es)
  · exact ⟨[], by simp, by simp⟩
  · exact directWrite_quiet data r h
  · intro rest k hk
    rwa [bufferOutput_trace]

theorem sendInLoop_coupled {h : Hosted P} (hc : Coupled h) (data : List Byte) (r : WriteResult) :
    Coupled (sendInLoop data r h) := by
  apply sendInLoop_rule hc
  · simpa only [Coupled, directWrite_conn] using hc
  · intro rest k _ hw
    rw [bufferOutput_isWriting] at hw
    cases hw

theorem readable_of_readableBytes {b : Buffer} (h : b.readableBytes = 0) : b.readable = [] := by
  rw [Buffer.readableBytes] at h
  rw [Buffer.readable, Segments.window_eq_take_drop, h]
  rfl

theorem shutdownInLoop_closes {h : Hosted P} (hc : Coupled h) (hw : h.conn.channel.isWriting = false) :
    shutdownInLoop h = emit (.shutdownWrite []) h := by
  simp [shutdownInLoop, hw, readable_of_readableBytes (hc hw)]

theorem shutdownInLoop_coupled {h : Hosted P} (hc : Coupled h) : Coupled (shutdownInLoop h) := by
  simpa only [Coupled, OutputStream.shutdownInLoop_conn] using hc

theorem queueWriteComplete_quiet (h : Hosted P) :
    ∃ es, (queueWriteComplete h).trace = h.trace ++ es ∧ Quiet es := by
  simp only [queueWriteComplete]
  split
  · exact ⟨[.queueWriteComplete h.conn.outputBuffer.readable], rfl, by simp⟩
  · exact ⟨[], by simp, by simp⟩

theorem afterWrite_empties {h : Hosted P} {n : Nat} (hn : h.conn.outputBuffer.readableBytes ≤ n) :
    ∃ es, (afterWrite n h).trace = h.trace ++ es ++ (if h.conn.state = .kDisconnecting then [.shutdownWrite []] else []) ∧
      Quiet es ∧ (afterWrite n h).conn.channel.isWriting = false ∧
      Coupled (afterWrite n h) := by
  have hr : h.conn.outputBuffer.retrieve n = h.conn.outputBuffer.retrieveAll := by
    simp [Buffer.retrieve, Nat.not_lt_of_le hn]
  have hz : h.conn.outputBuffer.retrieveAll.readableBytes = 0 := by
    simp [Buffer.readableBytes, Buffer.retrieveAll]
  generalize hk : onChannel Channel.disableWriting (setOutput h.conn.outputBuffer.retrieveAll h) = k
  have hkw : k.conn.channel.isWriting = false := by
    rw [← hk]
    exact isWriting_disableWriting _ _
  have hkb : k.conn.outputBuffer.readableBytes = 0 := by
    rw [← hk]
    exact hz
  have hks : k.conn.state = h.conn.state := by
    rw [← hk]
    rfl
  have hkt : k.trace = h.trace := by
    rw [← hk]
    rfl
  have ha : afterWrite n h = if (queueWriteComplete k).conn.state = .kDisconnecting then
      shutdownInLoop (queueWriteComplete k) else queueWriteComplete k := by
    simp only [afterWrite, hr, ← hk]
    exact if_pos hz
  obtain ⟨es, ht, hes⟩ := queueWriteComplete_quiet k
  have hq := queueWriteComplete_conn k
  have hc : Coupled (queueWriteComplete k) := fun _ => by
    rw [hq]
    exact hkb
  rw [ha, hq, hks]
  refine ⟨es, ?_⟩
  split
  · rw [shutdownInLoop_closes hc (by rw [hq]; exact hkw)]
    refine ⟨by simp [emit, ht, hkt], hes, ?_, hc⟩
    simpa only [emit, hq] using hkw
  · refine ⟨by simp [ht, hkt], hes, ?_, hc⟩
    rw [hq]
    exact hkw

theorem afterWrite_leaves {h : Hosted P} {n : Nat} (hn : n < h.conn.outputBuffer.readableBytes) :
    afterWrite n h = setOutput (h.conn.outputBuffer.retrieve n) h := by
  have hr : h.conn.outputBuffer.retrieve n =
      { h.conn.outputBuffer with readerIndex := h.conn.outputBuffer.readerIndex + n } := by
    simp [Buffer.retrieve, hn]
  simp only [afterWrite]
  apply if_neg
  simp only [setOutput, hr, Buffer.readableBytes] at hn ⊢
  omega

theorem handleWrite_open {h : Hosted P} (hw : h.conn.channel.isWriting = true) {r : WriteResult}
    (he : ¬ Empties h r) :
    ∃ es, (handleWrite r h).trace = h.trace ++ es ∧ Quiet es ∧
      (handleWrite r h).conn.channel.isWriting = true := by
  simp only [handleWrite, hw, if_true]
  cases r with
  | failed e => exact ⟨_, rfl, by simp, hw⟩
  | wrote n =>
      simp only
      split
      · rename_i hn
        rw [@afterWrite_leaves P (emit _ h) _ (Nat.lt_of_not_le fun hle => he ⟨hn, hle⟩)]
        exact ⟨_, rfl, by simp, hw⟩
      · exact ⟨_, rfl, by simp, hw⟩

theorem handleWrite_empties {h : Hosted P} (hw : h.conn.channel.isWriting = true) {r : WriteResult}
    (he : Empties h r) :
    ∃ es, (handleWrite r h).trace = h.trace ++ es ++
        (if h.conn.state = .kDisconnecting then [.shutdownWrite []] else []) ∧
      Quiet es ∧ (handleWrite r h).conn.channel.isWriting = false ∧
      Coupled (handleWrite r h) := by
  simp only [handleWrite, hw, if_true]
  cases r with
  | failed e => exact he.elim
  | wrote n =>
      simp only [he.1, if_true]
      generalize hm : min n h.conn.outputBuffer.readable.length = m at he ⊢
      have hb := he.2
      rw [hm] at hb
      obtain ⟨es, ht, hes, hrest⟩ := @afterWrite_empties P (emit (.write h.conn.outputBuffer.readable m) h) _ hb
      refine ⟨.write h.conn.outputBuffer.readable m :: es, ?_, ?_, hrest⟩
      · rw [ht, show (emit (.write h.conn.outputBuffer.readable m) h).trace =
          h.trace ++ [.write h.conn.outputBuffer.readable m] from rfl]
        simp only [List.append_assoc, List.cons_append]
        rfl
      · simpa using hes

theorem handleWrite_idle {h : Hosted P} (hw : h.conn.channel.isWriting = false) (r : WriteResult) :
    handleWrite r h = h := by
  simp [handleWrite, hw]

theorem handleWrite_coupled {h : Hosted P} (hc : Coupled h) (r : WriteResult) : Coupled (handleWrite r h) := by
  cases hw : h.conn.channel.isWriting with
  | false => rwa [handleWrite_idle hw]
  | true =>
      by_cases he : Empties h r
      · obtain ⟨_, _, _, _, hk⟩ := handleWrite_empties hw he
        exact hk
      · obtain ⟨_, _, _, hk⟩ := handleWrite_open hw he
        intro hf
        rw [hk] at hf
        cases hf

structure Usual (s : Shared T P) : Prop where
  state : s.hosted.conn.state = .kConnected ∨ s.hosted.conn.state = .kDisconnecting
  coupled : Coupled s.hosted
  functors : ∀ f ∈ s.hosted.pendingFunctors, (∃ m, f = .sendInLoop m) ∨ f = .writeCompleteCallback ∨
    f = .shutdownInLoop ∧ s.hosted.conn.state = .kDisconnecting
  tested : ∀ t c, s.callers t = .tested c → (∃ m, c = .send m) ∨ c = .shutdown
  stored : ∀ t c, s.callers t = .stored c → c = .shutdown ∧ s.hosted.conn.state = .kDisconnecting

def pop (s : Shared T P) (fs : List Functor) : Hosted P := { s.hosted with pendingFunctors := fs }

theorem Usual.of_steady {s : Shared T P} (hu : Usual s) {k : Hosted P} (hs : Steady s.hosted k) (hc : Coupled k) :
    Usual { s with hosted := k } := by
  refine ⟨?_, hc, ?_, hu.tested, ?_⟩
  · simpa only [hs.state] using hu.state
  · intro f hf
    simp only [hs.state]
    by_cases hw : f = .writeCompleteCallback
    · exact .inr (.inl hw)
    · exact hu.functors f ((hs.mem_pending hw).mp hf)
  · simpa only [hs.state] using hu.stored

theorem Usual.pop {s : Shared T P} (hu : Usual s) {f : Functor} {fs : List Functor}
    (hp : s.hosted.pendingFunctors = f :: fs) : Usual { s with hosted := pop s fs } :=
  ⟨hu.state, hu.coupled, fun g hg => hu.functors g (by rw [hp]; exact List.mem_cons_of_mem _ hg), hu.tested, hu.stored⟩

theorem Usual.queue {s : Shared T P} (hu : Usual s) (f : Functor) (hf : (∃ m, f = .sendInLoop m) ∨
    f = .writeCompleteCallback ∨ f = .shutdownInLoop ∧ s.hosted.conn.state = .kDisconnecting) :
    Usual { s with hosted := queueInLoop f s.hosted } := by
  refine ⟨hu.state, hu.coupled, fun g hg => ?_, hu.tested, hu.stored⟩
  rcases List.mem_append.mp hg with hg | hg
  · exact hu.functors g hg
  · rw [List.mem_singleton.mp hg]
    exact hf

theorem Usual.setState {s : Shared T P} (hu : Usual s) : Usual { s with hosted := setState .kDisconnecting s.hosted } := by
  refine ⟨.inr rfl, hu.coupled, fun f hf => ?_, hu.tested, fun t c hc => ⟨(hu.stored t c hc).1, rfl⟩⟩
  exact (hu.functors f hf).imp id (Or.imp id fun h => ⟨h.1, rfl⟩)

theorem onTheWay_steady {s : Shared T P} {k : Hosted P} (hs : Steady s.hosted k) :
    OnTheWay { s with hosted := k } ↔ OnTheWay s := by
  simp only [OnTheWay, hs.mem_pending (show Functor.sendInLoop _ ≠ .writeCompleteCallback by simp)]

theorem onTheWay_pop {s : Shared T P} {f : Functor} {fs : List Functor} (hp : s.hosted.pendingFunctors = f :: fs)
    (h : OnTheWay { s with hosted := pop s fs }) : OnTheWay s := by
  rcases h with ⟨m, hm⟩ | h
  · left
    rw [hp]
    exact ⟨m, List.mem_cons_of_mem _ hm⟩
  · exact .inr h

theorem onTheWay_pop_iff {s : Shared T P} {f : Functor} {fs : List Functor} (hp : s.hosted.pendingFunctors = f :: fs)
    (hf : ∀ m, f ≠ .sendInLoop m) : OnTheWay { s with hosted := pop s fs } ↔ OnTheWay s := by
  refine ⟨onTheWay_pop hp, fun h => ?_⟩
  rcases h with ⟨m, hm⟩ | h
  · rw [hp] at hm
    rcases List.mem_cons.mp hm with rfl | hm
    · exact absurd rfl (hf m)
    · exact .inl ⟨m, hm⟩
  · exact .inr h

structure Settled (s : Shared T P) : Prop where
  usual : Usual s
  graceful : Graceful s
  closed : WriteClosed s.hosted → s.hosted.conn.channel.isWriting = false ∧ s.hosted.conn.state = .kDisconnecting

theorem Quiet.not_closes {es : List Effect} (h : Quiet es) (unsent : List Byte) : .shutdownWrite unsent ∉ es :=
  fun hm => by simpa using h _ hm

theorem silent_append {trace es : List Effect}
    (hs : trace.Pairwise fun e f => isShutdownWrite e = true → isWrite f = false) (hes : Quiet es)
    (hw : (∃ unsent, .shutdownWrite unsent ∈ trace) → es = []) :
    (trace ++ es).Pairwise fun e f => isShutdownWrite e = true → isWrite f = false := by
  rw [List.pairwise_append]
  refine ⟨hs, ?_, ?_⟩
  · apply List.pairwise_of_forall_mem_list
    intro e he f _ hc
    rw [hes e he] at hc
    cases hc
  · intro e he f hf hc
    cases e with
    | shutdownWrite unsent => simp [hw ⟨unsent, he⟩] at hf
    | _ => cases hc

theorem silent_closes {trace : List Effect}
    (hs : trace.Pairwise fun e f => isShutdownWrite e = true → isWrite f = false) (unsent : List Byte) :
    (trace ++ [Effect.shutdownWrite unsent]).Pairwise fun e f => isShutdownWrite e = true → isWrite f = false := by
  rw [List.pairwise_append]
  refine ⟨hs, List.pairwise_singleton _ _, ?_⟩
  intro e _ f hf _
  rw [List.mem_singleton.mp hf]
  rfl

theorem start_settled (self : P) (poller : EpollPoller P) (fd : Int) (callback : Bool) :
    Settled (start self poller fd callback : Shared T P) := by
  have htr : (established self poller fd callback).trace = [.connectionCallback .kConnected] := rfl
  have hno : ¬ WriteClosed (established self poller fd callback) := by
    rintro ⟨unsent, hm⟩
    simp [htr] at hm
  refine ⟨⟨.inl rfl, fun _ => rfl, ?_, ?_, ?_⟩, ⟨?_, fun hx => absurd hx hno, ?_⟩, fun hx => absurd hx hno⟩
  · exact fun f hf => absurd hf (by simp [start, established, connectEstablished, emit, onChannel, setState])
  · exact fun t c hc => by simp [start] at hc
  · exact fun t c hc => by simp [start] at hc
  · exact List.pairwise_singleton _ _
  · exact fun unsent hm => absurd ⟨unsent, hm⟩ hno

variable [DecidableEq T]

theorem functor_cases {s : Shared T P} (hu : Usual s) (r : WriteResult) :
    (s.hosted.pendingFunctors = [] ∧ next s (.functor r) = s) ∨
    (∃ m fs, s.hosted.pendingFunctors = .sendInLoop m :: fs ∧
      next s (.functor r) = { s with hosted := sendInLoop m r (pop s fs) }) ∨
    (∃ fs, s.hosted.pendingFunctors = .writeCompleteCallback :: fs ∧
      next s (.functor r) = { s with hosted := pop s fs }) ∨
    ∃ fs, s.hosted.pendingFunctors = .shutdownInLoop :: fs ∧ s.hosted.conn.state = .kDisconnecting ∧
      next s (.functor r) = { s with hosted := shutdownInLoop (pop s fs) } := by
  cases hp : s.hosted.pendingFunctors with
  | nil => exact .inl ⟨rfl, by simp [next, hp]⟩
  | cons f fs =>
      have hf := hu.functors f (by simp [hp])
      rcases hf with ⟨m, rfl⟩ | rfl | ⟨rfl, hst⟩
      · exact .inr (.inl ⟨m, fs, rfl, by simp [next, hp, runFunctor, pop]⟩)
      · exact .inr (.inr (.inl ⟨fs, rfl, by simp [next, hp, runFunctor, pop]⟩))
      · exact .inr (.inr (.inr ⟨fs, rfl, hst, by simp [next, hp, runFunctor, pop]⟩))

theorem Usual.setCaller {s : Shared T P} (hu : Usual s) (t : T) (c : Caller)
    (ht : ∀ d, c = .tested d → (∃ m, d = .send m) ∨ d = .shutdown)
    (hs : ∀ d, c = .stored d → d = .shutdown ∧ s.hosted.conn.state = .kDisconnecting) : Usual (s.setCaller t c) := by
  refine ⟨hu.state, hu.coupled, hu.functors, fun t' d hd => ?_, fun t' d hd => ?_⟩
  · by_cases h : t' = t
    · subst h
      exact ht d (by simpa [Shared.setCaller] using hd)
    · exact hu.tested t' d (by simpa [Shared.setCaller, h] using hd)
  · by_cases h : t' = t
    · subst h
      exact hs d (by simpa [Shared.setCaller] using hd)
    · exact hu.stored t' d (by simpa [Shared.setCaller, h] using hd)

theorem store_eq {s : Shared T P} (hu : Usual s) {t : T} (he : Enabled s (.store t)) :
    s.callers t = .tested .shutdown ∧
      next s (.store t) = { s.setCaller t (.stored .shutdown) with hosted := setState .kDisconnecting s.hosted } := by
  cases hc : s.callers t with
  | idle | stored => simp [Enabled, hc, Caller.canStore] at he
  | tested c =>
      rcases hu.tested t c hc with ⟨m, rfl⟩ | rfl
      · simp [Enabled, hc, Caller.canStore, leaves] at he
      · exact ⟨rfl, by simp [next, hc]⟩

theorem finish_cases {s : Shared T P} (hu : Usual s) {t : T} (he : Enabled s (.finish t)) :
    (∃ m, s.callers t = .tested (.send m) ∧
      next s (.finish t) = { s.setCaller t .idle with hosted := queueInLoop (.sendInLoop m) s.hosted }) ∨
    s.callers t = .stored .shutdown ∧ s.hosted.conn.state = .kDisconnecting ∧
      next s (.finish t) = { s.setCaller t .idle with hosted := queueInLoop .shutdownInLoop s.hosted } := by
  cases hc : s.callers t with
  | idle => simp [Enabled, hc, Caller.canFinish] at he
  | tested c =>
      rcases hu.tested t c hc with ⟨m, rfl⟩ | rfl
      · exact .inl ⟨m, rfl, by simp [next, hc, finishCall]⟩
      · simp [Enabled, hc, Caller.canFinish, leaves] at he
  | stored c =>
      obtain ⟨rfl, hst⟩ := hu.stored t c hc
      exact .inr ⟨rfl, hst, by simp [next, hc, finishCall]⟩

theorem loopCall_cases {s : Shared T P} {c : Call} {r : WriteResult} (hs : inScope (.loopCall c r : Event T) = true) :
    (s.hosted.conn.state ≠ .kConnected ∧ next s (.loopCall c r) = s) ∨
    (∃ m, c = .send m ∧ s.hosted.conn.state = .kConnected ∧
      next s (.loopCall c r) = { s with hosted := sendInLoop m r s.hosted }) ∨
    c = .shutdown ∧ s.hosted.conn.state = .kConnected ∧
      next s (.loopCall c r) = { s with hosted := shutdownInLoop (setState .kDisconnecting s.hosted) } := by
  by_cases hst : s.hosted.conn.state = .kConnected
  · cases c with
    | send m => exact .inr (.inl ⟨m, rfl, hst, by simp [next, applyCall, send, runInLoop, runFunctor, hst]⟩)
    | shutdown => exact .inr (.inr ⟨rfl, hst, by simp [next, applyCall, shutdown, runInLoop, runFunctor, hst]⟩)
    | forceClose | forceCloseWithDelay | startRead | stopRead => cases hs
  · refine .inl ⟨hst, ?_⟩
    cases c with
    | send m => simp [next, applyCall, send, hst]
    | shutdown => simp [next, applyCall, shutdown, hst]
    | forceClose | forceCloseWithDelay | startRead | stopRead => cases hs

theorem test_cases {s : Shared T P} {t : T} {c : Call} (hs : inScope (.test t c : Event T) = true) :
    next s (.test t c) = s ∨ s.hosted.conn.state = .kConnected ∧ ((∃ m, c = .send m) ∨ c = .shutdown) ∧
      next s (.test t c) = s.setCaller t (.tested c) := by
  by_cases hst : s.hosted.conn.state = .kConnected
  · cases c with
    | send m => exact .inr ⟨hst, .inl ⟨m, rfl⟩, by simp [next, admits, hst]⟩
    | shutdown => exact .inr ⟨hst, .inr rfl, by simp [next, admits, hst]⟩
    | forceClose | forceCloseWithDelay | startRead | stopRead => cases hs
  · left
    cases c with
    | send m => simp [next, admits, hst]
    | shutdown => simp [next, admits, hst]
    | forceClose | forceCloseWithDelay | startRead | stopRead => cases hs

theorem step_usual (s : Shared T P) (e : Event T) (hu : Usual s) (he : Steps s e) : Usual (next s e) := by
  obtain ⟨he, hs⟩ := he
  cases e with
  | test t c =>
      rcases test_cases (s := s) hs with hn | ⟨_, hc, hn⟩
      · rwa [hn]
      · rw [hn]
        exact hu.setCaller t _ (fun d hd => by cases hd; exact hc) (by simp)
  | store t =>
      obtain ⟨_, hn⟩ := store_eq hu he
      rw [hn]
      exact hu.setState.setCaller t _ (by simp) (fun d hd => by cases hd; exact ⟨rfl, rfl⟩)
  | finish t =>
      rcases finish_cases hu he with ⟨m, _, hn⟩ | ⟨_, hst, hn⟩
      · rw [hn]
        exact (hu.queue _ (.inl ⟨m, rfl⟩)).setCaller t _ (by simp) (by simp)
      · rw [hn]
        exact (hu.queue _ (.inr (.inr ⟨rfl, hst⟩))).setCaller t _ (by simp) (by simp)
  | loopCall c r =>
      rcases loopCall_cases (s := s) hs with ⟨_, hn⟩ | ⟨m, _, _, hn⟩ | ⟨_, _, hn⟩
      · rwa [hn]
      · rw [hn]
        exact hu.of_steady (sendInLoop_steady m r s.hosted) (sendInLoop_coupled hu.coupled m r)
      · rw [hn]
        exact hu.setState.of_steady (shutdownInLoop_steady _) (shutdownInLoop_coupled hu.setState.coupled)
  | functor r =>
      rcases functor_cases hu r with ⟨_, hn⟩ | ⟨m, fs, hp, hn⟩ | ⟨fs, hp, hn⟩ | ⟨fs, hp, _, hn⟩
      · rwa [hn]
      · rw [hn]
        exact (hu.pop hp).of_steady (sendInLoop_steady m r _) (sendInLoop_coupled (hu.pop hp).coupled m r)
      · rw [hn]
        exact hu.pop hp
      · rw [hn]
        exact (hu.pop hp).of_steady (shutdownInLoop_steady _) (shutdownInLoop_coupled (hu.pop hp).coupled)
  | writeEvent r => exact hu.of_steady (handleWrite_steady r s.hosted) (handleWrite_coupled hu.coupled r)
  | delayedClose | readEvent | queueDestroyed | destroyInLoop | destroyEnd => cases hs

theorem callers_of_setCaller {s : Shared T P} {t t' : T} {c : Caller} {m : List Byte} (hc : ∀ m, c ≠ .tested (.send m))
    (h : (s.setCaller t c).callers t' = .tested (.send m)) : s.callers t' = .tested (.send m) := by
  by_cases ht : t' = t
  · subst ht
    exact absurd (by simpa [Shared.setCaller] using h) (hc m)
  · simpa [Shared.setCaller, ht] using h

theorem step_leaving {s : Shared T P} {e : Event T} (hu : Usual s) (he : Steps s e)
    (hst : s.hosted.conn.state = .kDisconnecting) :
    (next s e).hosted.conn.state = .kDisconnecting ∧ (OnTheWay (next s e) → OnTheWay s) := by
  obtain ⟨he, hs⟩ := he
  have hne : s.hosted.conn.state ≠ .kConnected := by simp [hst]
  cases e with
  | test t c =>
      rcases test_cases (s := s) hs with hn | ⟨hc, _⟩
      · rw [hn]
        exact ⟨hst, id⟩
      · exact absurd hc hne
  | store t =>
      obtain ⟨_, hn⟩ := store_eq hu he
      rw [hn]
      refine ⟨rfl, Or.imp id ?_⟩
      rintro ⟨t', m, hm⟩
      exact ⟨t', m, callers_of_setCaller (by simp) hm⟩
  | finish t =>
      rcases finish_cases hu he with ⟨m, hc, hn⟩ | ⟨_, _, hn⟩
      · rw [hn]
        exact ⟨hst, fun _ => .inr ⟨t, m, hc⟩⟩
      · rw [hn]
        refine ⟨hst, Or.imp ?_ ?_⟩
        · rintro ⟨m, hm⟩
          exact ⟨m, by simpa [TcpConnection.queueInLoop] using hm⟩
        · rintro ⟨t', m, hm⟩
          exact ⟨t', m, callers_of_setCaller (by simp) hm⟩
  | loopCall c r =>
      rcases loopCall_cases (s := s) hs with ⟨_, hn⟩ | ⟨_, _, hc, _⟩ | ⟨_, hc, _⟩
      · rw [hn]
        exact ⟨hst, id⟩
      · exact absurd hc hne
      · exact absurd hc hne
  | functor r =>
      rcases functor_cases hu r with ⟨_, hn⟩ | ⟨m, fs, hp, hn⟩ | ⟨fs, hp, hn⟩ | ⟨fs, hp, _, hn⟩
      · rw [hn]
        exact ⟨hst, id⟩
      · rw [hn]
        have hk := sendInLoop_steady m r (pop s fs)
        refine ⟨hk.state.trans hst, fun h => onTheWay_pop hp ?_⟩
        exact (onTheWay_steady (s := { s with hosted := pop s fs }) hk).mp h
      · rw [hn]
        exact ⟨hst, onTheWay_pop hp⟩
      · rw [hn]
        have hk := shutdownInLoop_steady (pop s fs)
        refine ⟨hk.state.trans hst, fun h => onTheWay_pop hp ?_⟩
        exact (onTheWay_steady (s := { s with hosted := pop s fs }) hk).mp h
  | writeEvent r =>
      have hk := handleWrite_steady r s.hosted
      exact ⟨hk.state.trans hst, (onTheWay_steady hk).mp⟩
  | delayedClose | readEvent | queueDestroyed | destroyInLoop | destroyEnd => cases hs

theorem step_closes {s : Shared T P} {e : Event T} (hu : Usual s) (he : Steps s e) (hc : Closes s e) :
    (∃ es, (next s e).hosted.trace = s.hosted.trace ++ es ++ [.shutdownWrite []] ∧ Quiet es ∧
        (s.hosted.conn.channel.isWriting = false → es = [])) ∧
      (next s e).hosted.conn.channel.isWriting = false ∧ (next s e).hosted.conn.state = .kDisconnecting ∧
      (OnTheWay (next s e) ↔ OnTheWay s) := by
  obtain ⟨he, hs⟩ := he
  cases e with
  | functor r =>
      obtain ⟨hp, hw⟩ := hc
      rcases functor_cases hu r with ⟨hq, _⟩ | ⟨m, fs, hq, _⟩ | ⟨fs, hq, _⟩ | ⟨fs, hq, hst, hn⟩
      · simp [hq] at hp
      · simp [hq] at hp
      · simp [hq] at hp
      · rw [hn, onTheWay_steady (s := { s with hosted := pop s fs }) (shutdownInLoop_steady _),
          shutdownInLoop_closes (hu.pop hq).coupled hw]
        exact ⟨⟨[], by simp [emit, pop], by simp, fun _ => rfl⟩, hw, hst, onTheWay_pop_iff hq (by simp)⟩
  | loopCall c r =>
      rcases loopCall_cases (s := s) hs with ⟨hst, _⟩ | ⟨m, rfl, _⟩ | ⟨rfl, hst, hn⟩
      · cases c <;> simp [Closes, hst] at hc
      · exact hc.elim
      · rw [hn, onTheWay_steady (s := { s with hosted := setState .kDisconnecting s.hosted }) (shutdownInLoop_steady _),
          shutdownInLoop_closes hu.setState.coupled hc.2]
        exact ⟨⟨[], by simp [emit, setState], by simp, fun _ => rfl⟩, hc.2, rfl, Iff.rfl⟩
  | writeEvent r =>
      obtain ⟨hw, hst, hem⟩ := hc
      obtain ⟨es, ht, hes, hk, _⟩ := handleWrite_empties hw hem
      rw [if_pos hst] at ht
      have hsy := handleWrite_steady r s.hosted
      exact ⟨⟨es, ht, hes, fun hf => by simp [hw] at hf⟩, hk, hsy.state.trans hst, onTheWay_steady hsy⟩
  | test | store | finish | delayedClose | readEvent | queueDestroyed | destroyInLoop | destroyEnd => exact hc.elim

theorem step_open {s : Shared T P} {e : Event T} (hu : Usual s) (he : Steps s e) (hc : ¬ Closes s e) :
    ∃ es, (next s e).hosted.trace = s.hosted.trace ++ es ∧ Quiet es ∧
      (s.hosted.conn.channel.isWriting = false → s.hosted.conn.state = .kDisconnecting → ¬ OnTheWay s →
        es = [] ∧ (next s e).hosted.conn.channel.isWriting = false) := by
  obtain ⟨he, hs⟩ := he
  have hsame : ∀ k : Hosted P, k.trace = s.hosted.trace → k.conn.channel = s.hosted.conn.channel →
      ∃ es, k.trace = s.hosted.trace ++ es ∧ Quiet es ∧
        (s.hosted.conn.channel.isWriting = false → s.hosted.conn.state = .kDisconnecting → ¬ OnTheWay s →
          es = [] ∧ k.conn.channel.isWriting = false) := by
    intro k ht hch
    exact ⟨[], by simp [ht], by simp, fun hw _ _ => ⟨rfl, by rwa [hch]⟩⟩
  cases e with
  | test t c =>
      rcases test_cases (s := s) hs with hn | ⟨_, _, hn⟩
      · rw [hn]
        exact hsame _ rfl rfl
      · rw [hn]
        exact hsame _ rfl rfl
  | store t =>
      obtain ⟨_, hn⟩ := store_eq hu he
      rw [hn]
      exact hsame _ rfl rfl
  | finish t =>
      rcases finish_cases hu he with ⟨m, _, hn⟩ | ⟨_, _, hn⟩
      · rw [hn]
        exact hsame _ rfl rfl
      · rw [hn]
        exact hsame _ rfl rfl
  | loopCall c r =>
      rcases loopCall_cases (s := s) hs with ⟨_, hn⟩ | ⟨m, _, hst, hn⟩ | ⟨rfl, hst, hn⟩
      · rw [hn]
        exact hsame _ rfl rfl
      · rw [hn]
        obtain ⟨es, ht, hes⟩ := sendInLoop_quiet m r s.hosted
        exact ⟨es, ht, hes, fun _ hd => by simp [hst] at hd⟩
      · have hw : s.hosted.conn.channel.isWriting = true := by simpa [Closes, hst] using hc
        have hk : shutdownInLoop (setState .kDisconnecting s.hosted) = setState .kDisconnecting s.hosted := if_pos hw
        rw [hn, hk]
        exact hsame _ rfl rfl
  | functor r =>
      rcases functor_cases hu r with ⟨_, hn⟩ | ⟨m, fs, hp, hn⟩ | ⟨fs, hp, hn⟩ | ⟨fs, hp, _, hn⟩
      · rw [hn]
        exact hsame _ rfl rfl
      · rw [hn]
        obtain ⟨es, ht, hes⟩ := sendInLoop_quiet m r (pop s fs)
        refine ⟨es, ht, hes, fun _ _ hno => absurd (.inl ⟨m, ?_⟩) hno⟩
        simp [hp]
      · rw [hn]
        exact hsame _ rfl rfl
      · have hw : s.hosted.conn.channel.isWriting = true := by simpa [Closes, hp] using hc
        have hk : shutdownInLoop (pop s fs) = pop s fs := if_pos hw
        rw [hn, hk]
        exact hsame _ rfl rfl
  | writeEvent r =>
      by_cases hw : s.hosted.conn.channel.isWriting = true
      · by_cases hem : Empties s.hosted r
        · obtain ⟨es, ht, hes, _⟩ := handleWrite_empties hw hem
          have hst : s.hosted.conn.state ≠ .kDisconnecting := fun hst => hc ⟨hw, hst, hem⟩
          rw [if_neg hst, List.append_nil] at ht
          exact ⟨es, ht, hes, fun hf => by simp [hw] at hf⟩
        · obtain ⟨es, ht, hes, _⟩ := handleWrite_open hw hem
          exact ⟨es, ht, hes, fun hf => by simp [hw] at hf⟩
      · have hk : next s (.writeEvent r) = s := by
          simp only [next, handleWrite_idle (by simpa using hw)]
        rw [hk]
        exact hsame _ rfl rfl
  | delayedClose | readEvent | queueDestroyed | destroyInLoop | destroyEnd => cases hs

theorem step_settled (s : Shared T P) (e : Event T) (h : Settled s) (he : Steps s e ∧ Waits s e) :
    Settled (next s e) := by
  obtain ⟨he, hwait⟩ := he
  obtain ⟨hu, hg, hcl⟩ := h
  suffices h : Graceful (next s e) ∧ (WriteClosed (next s e).hosted →
      (next s e).hosted.conn.channel.isWriting = false ∧ (next s e).hosted.conn.state = .kDisconnecting) from
    ⟨step_usual s e hu he, h.1, h.2⟩
  by_cases hc : Closes s e
  · obtain ⟨⟨es, ht, hes, hnil⟩, hw, hst, hway⟩ := step_closes hu he hc
    refine ⟨⟨?_, fun _ => ?_, ?_⟩, fun _ => ⟨hw, hst⟩⟩
    · rw [ht]
      exact silent_closes (silent_append hg.silent hes fun hx => hnil (hcl hx).1) []
    · rw [hway]
      exact hwait hc
    · intro unsent hm
      rw [ht, List.mem_append, List.mem_append] at hm
      rcases hm with (hm | hm) | hm
      · exact hg.offered unsent hm
      · exact absurd hm (hes.not_closes unsent)
      · simpa using hm
  · obtain ⟨es, ht, hes, hkeep⟩ := step_open hu he hc
    have hback : WriteClosed (next s e).hosted → WriteClosed s.hosted := by
      rintro ⟨unsent, hm⟩
      rw [ht, List.mem_append] at hm
      exact ⟨unsent, hm.resolve_right (hes.not_closes unsent)⟩
    have hstay : WriteClosed s.hosted → es = [] ∧ (next s e).hosted.conn.channel.isWriting = false := fun hx =>
      hkeep (hcl hx).1 (hcl hx).2 (hg.taken hx)
    refine ⟨⟨?_, fun hx => ?_, ?_⟩, fun hx => ?_⟩
    · rw [ht]
      exact silent_append hg.silent hes fun hx => (hstay hx).1
    · exact fun hway => hg.taken (hback hx) ((step_leaving hu he (hcl (hback hx)).2).2 hway)
    · intro unsent hm
      rw [ht, List.mem_append] at hm
      exact hg.offered unsent (hm.resolve_right (hes.not_closes unsent))
    · exact ⟨(hstay (hback hx)).2, (step_leaving hu he (hcl (hback hx)).2).1⟩

/-- In every run of sends and shutdowns on any threads: the shutdown is graceful
throughout, if and only if each step that closes the write side does so when no
accepted message is on its way. -/
theorem always_graceful_iff_waits (self : P) (poller : EpollPoller P) (fd : Int) (callback : Bool)
    (es : List (Event T)) (he : Meets next Steps (start self poller fd callback) es) :
    Always next Graceful (start self poller fd callback) es ↔ Meets next Waits (start self poller fd callback) es := by
  have hs := start_settled (T := T) self poller fd callback
  constructor
  · intro ha
    refine meets_of_step (D := fun s e => Steps s e ∧ Graceful (next s e)) (fun s e hu he => step_usual s e hu he.1)
      (fun s e hu he hc => ?_) hs.usual (meets_and.mpr ⟨he, ha.meets_next⟩)
    obtain ⟨⟨_, ht, _⟩, _, _, hway⟩ := step_closes hu he.1 hc
    rw [← hway]
    exact he.2.taken ⟨[], by simp [ht]⟩
  · intro hw
    exact always_mono (fun _ h => h.graceful) (always_of_step step_settled hs (meets_and.mpr ⟨he, hw⟩))

theorem always_graceful_sent_first :
    Always next Graceful (start () .construct 7 true : Shared Unit Unit)
      [.test () (.send [1, 2]), .finish (), .functor (.wrote 1), .loopCall .shutdown (.wrote 0), .writeEvent (.wrote 1)] := by
  apply (always_graceful_iff_waits () .construct 7 true _ (by decide +kernel)).mpr
  refine ⟨fun h => h.elim, fun h => h.elim, fun h => absurd h.1 (by decide +kernel),
    fun h => absurd h.2 (by decide +kernel), fun _ hway => ?_, trivial⟩
  rcases hway with ⟨m, hm⟩ | ⟨t, m, hm⟩
  · exact absurd hm (List.eq_nil_iff_forall_not_mem.mp (by decide +kernel) _)
  · cases hm

/-- A worker's message waits in the queue while the loop thread calls shutdown():
the write side is closed at once, and the message is written after that. -/
theorem queued_send_written_after_shutdown :
    let es : List (Event Bool) :=
      [.test false (.send [1]), .finish false, .loopCall .shutdown (.wrote 0), .functor (.wrote 1)]
    Meets next Steps (start () .construct 7 false) es ∧ ¬ Always next Graceful (start () .construct 7 false) es := by
  refine ⟨by decide +kernel, fun h => ?_⟩
  exact absurd h.last.silent (by decide +kernel)

end Webserver.GracefulShutdown
