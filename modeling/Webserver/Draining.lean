import Webserver.ConnectionSteps
import Webserver.StreamLink

namespace Webserver.Draining

open Runs TcpConnection
open ConnectionSteps (filed)
open OutputStream (State Event Intact Fits accepted next)
open GracefulShutdown (WriteClosed Empties)
open StreamLink (idle_of_empty empty_of_idle next_trace writeClosed_next)

variable {P : Type}

def silent : Event → Bool
  | .sendInLoop _ _ => false
  | .handleWrite _ | .shutdownInLoop | .startReadInLoop | .stopReadInLoop | .disconnecting => true

def progresses : Event → Bool
  | .handleWrite (.wrote n) => 0 < n
  | _ => false

def Armed (h : Hosted P) : Prop :=
  filed h ∧ (h.conn.channel.events ≠ .zero → h.conn.channel.index = .kAdded)

def Watched (h : Hosted P) : Prop :=
  ∃ mask, h.poller.kernel h.conn.channel.fd = some (mask, h.self) ∧ mask.pollout = true

def Closing (s : State P) : Prop :=
  s.1.conn.state = .kDisconnecting ∧ (s.1.conn.outputBuffer.readable ≠ [] ∨ WriteClosed s.1)

section Armed

variable {h : Hosted P}

theorem onChannel_armed (f : PollMask → PollMask) (hf : filed h) : Armed (onChannel (Channel.setEvents f) h) := by
  refine ⟨(Bookkeeping.setEvents_spec f hf).1, fun hne => ?_⟩
  have hev : (onChannel (Channel.setEvents f) h).conn.channel.events = f h.conn.channel.events :=
    Bookkeeping.setEvents_events f h.self (h.conn.channel, h.poller)
  have hindex : (onChannel (Channel.setEvents f) h).conn.channel.index =
      if h.conn.channel.index = .kAdded ∧ f h.conn.channel.events = .zero then .kDeleted else .kAdded :=
    Bookkeeping.updateChannel_index h.self ({ h.conn.channel with events := f h.conn.channel.events }, h.poller)
  rw [hev] at hne
  rw [hindex, if_neg fun hz => hne hz.2]

theorem queueWriteComplete_armed (ha : Armed h) : Armed (queueWriteComplete h) := by
  simp only [queueWriteComplete]
  split
  · exact ha
  · exact ha

theorem directWrite_armed (ha : Armed h) (data : List Byte) (r : WriteResult) : Armed (directWrite data r h).1 := by
  cases r with
  | failed e => exact ha
  | wrote n =>
      simp only [directWrite]
      split
      · exact queueWriteComplete_armed ha
      · exact ha

theorem bufferOutput_armed (ha : Armed h) (rest : List Byte) : Armed (bufferOutput rest h) := by
  simp only [bufferOutput]
  split
  · exact ha
  · exact onChannel_armed _ (h := setOutput (h.conn.outputBuffer.append rest) h) ha.1

theorem shutdownInLoop_armed (ha : Armed h) : Armed (shutdownInLoop h) := by
  simp only [shutdownInLoop]
  split
  · exact ha
  · exact ha

theorem afterWrite_armed (ha : Armed h) (n : Nat) : Armed (afterWrite n h) := by
  have hoff : Armed (queueWriteComplete (onChannel Channel.disableWriting
      (setOutput (h.conn.outputBuffer.retrieve n) h))) :=
    queueWriteComplete_armed (onChannel_armed _ (h := setOutput (h.conn.outputBuffer.retrieve n) h) ha.1)
  simp only [afterWrite]
  split
  · split
    · exact shutdownInLoop_armed hoff
    · exact hoff
  · exact ha

theorem handleWrite_armed (ha : Armed h) (r : WriteResult) : Armed (handleWrite r h) := by
  simp only [handleWrite]
  split
  · cases r with
    | failed e => exact ha
    | wrote n =>
        simp only
        split
        · exact afterWrite_armed (h := emit _ h) ha _
        · exact ha
  · exact ha

theorem next_armed {s : State P} (ha : Armed s.1) (e : Event) : Armed (next s e).1 := by
  cases e with
  | sendInLoop data r =>
      exact sendInLoop_rule ha (directWrite_armed ha data r) fun rest k hk => bufferOutput_armed hk rest
  | handleWrite r => exact handleWrite_armed ha r
  | shutdownInLoop => exact shutdownInLoop_armed ha
  | startReadInLoop =>
      simp only [next, startReadInLoop]
      split
      · exact onChannel_armed _ ha.1
      · exact ha
  | stopReadInLoop =>
      simp only [next, stopReadInLoop]
      split
      · exact onChannel_armed _ ha.1
      · exact ha
  | disconnecting => exact ha

theorem Armed.watched (ha : Armed h) (hw : h.conn.channel.isWriting = true) : Watched h := by
  have hout : h.conn.channel.events.pollout = true := by
    simpa [Channel.isWriting, PollMask.meets, Channel.kWriteEvent, PollMask.zero] using hw
  have hne : h.conn.channel.events ≠ .zero := by
    intro hz
    simp [hz, PollMask.zero] at hout
  exact ⟨h.conn.channel.events, ((Bookkeeping.Consistent.iffs ha.1).2.2.mp (ha.2 hne)).2, hout⟩

theorem established_armed (self : P) {poller : EpollPoller P} {fd : Int} (callback : Bool)
    (hnew : poller.channels fd = none ∧ poller.kernel fd = none) : Armed (established self poller fd callback) :=
  onChannel_armed _ (h := setState .kConnected ⟨self, TcpConnection.construct fd callback, poller, [], 0, []⟩) hnew

end Armed

section Steps

variable {s : State P}

theorem afterWrite_outputBuffer (n : Nat) (h : Hosted P) :
    (afterWrite n h).conn.outputBuffer = h.conn.outputBuffer.retrieve n := by
  simp only [afterWrite]
  split
  · split
    · rw [OutputStream.shutdownInLoop_conn, OutputStream.queueWriteComplete_conn]
      rfl
    · rw [OutputStream.queueWriteComplete_conn]
      rfl
  · rfl

theorem handleWrite_readable (hs : Intact s) (r : WriteResult) :
    (handleWrite r s.1).conn.outputBuffer.readable =
      match r with
      | .wrote n => s.1.conn.outputBuffer.readable.drop n
      | .failed _ => s.1.conn.outputBuffer.readable := by
  cases hw : s.1.conn.channel.isWriting with
  | false =>
      have hempty := empty_of_idle hs hw
      rw [GracefulShutdown.handleWrite_idle hw]
      cases r with
      | wrote n => simp [hempty]
      | failed e => rfl
  | true =>
      simp only [handleWrite, hw, if_true]
      cases r with
      | failed e => rfl
      | wrote n =>
          have hdrop : s.1.conn.outputBuffer.readable.drop (min n s.1.conn.outputBuffer.readable.length) =
              s.1.conn.outputBuffer.readable.drop n := by
            rcases Nat.le_total n s.1.conn.outputBuffer.readable.length with hle | hle
            · rw [Nat.min_eq_left hle]
            · rw [Nat.min_eq_right hle, List.drop_length, List.drop_eq_nil_of_le hle]
          simp only
          split
          · rw [afterWrite_outputBuffer]
            exact (hs.wellFormed.readable_retrieve _).trans hdrop
          · rename_i hzero
            rw [Nat.eq_zero_of_not_pos hzero] at hdrop
            exact hdrop

theorem silent_next (hs : Intact s) {e : Event} (he : silent e = true) :
    (next s e).2 = s.2 ∧
      (next s e).1.conn.outputBuffer.readable.length ≤ s.1.conn.outputBuffer.readable.length ∧
      (progresses e = true → (next s e).1.conn.outputBuffer.readable.length ≤
        s.1.conn.outputBuffer.readable.length - 1) := by
  cases e with
  | sendInLoop data r => cases he
  | handleWrite r =>
      have hr : (next s (.handleWrite r)).1.conn.outputBuffer.readable = _ := handleWrite_readable hs r
      refine ⟨rfl, ?_⟩
      rw [hr]
      cases r with
      | wrote n =>
          simp only [progresses, decide_eq_true_eq, List.length_drop]
          omega
      | failed e => simp [progresses]
  | shutdownInLoop => simp [next, OutputStream.shutdownInLoop_conn, progresses]
  | startReadInLoop =>
      simp only [next, startReadInLoop]
      split <;> simp [setReading, onChannel, progresses]
  | stopReadInLoop =>
      simp only [next, stopReadInLoop]
      split <;> simp [setReading, onChannel, progresses]
  | disconnecting => simp [next, setState, progresses]

theorem silent_fits {e : Event} (he : silent e = true) : Fits s e := by
  cases e with
  | sendInLoop data r => cases he
  | handleWrite | shutdownInLoop | startReadInLoop | stopReadInLoop | disconnecting => trivial

theorem silent_state (hst : s.1.conn.state = .kDisconnecting) {e : Event} (he : silent e = true) :
    (next s e).1.conn.state = .kDisconnecting := by
  cases e with
  | sendInLoop data r => cases he
  | handleWrite r => exact (ConnectionSteps.handleWrite_mild r s.1).state.trans hst
  | shutdownInLoop => exact (ConnectionSteps.shutdownInLoop_mild s.1).state.trans hst
  | startReadInLoop => exact (ConnectionSteps.startReadInLoop_mild s.1).state.trans hst
  | stopReadInLoop => exact (ConnectionSteps.stopReadInLoop_mild s.1).state.trans hst
  | disconnecting => rfl

theorem closing_next (hs : Intact s) (hc : Closing s) {e : Event} (he : silent e = true) : Closing (next s e) := by
  refine ⟨silent_state hc.1 he, ?_⟩
  rcases hc.2 with hne | hclosed
  · cases e with
    | sendInLoop data r => cases he
    | handleWrite r =>
        have hw : s.1.conn.channel.isWriting = true := hs.coupled.mpr hne
        by_cases hem : Empties s.1 r
        · obtain ⟨es, ht, _⟩ := GracefulShutdown.handleWrite_empties hw hem
          refine .inr ⟨[], ?_⟩
          have hmem : Effect.shutdownWrite [] ∈ (handleWrite r s.1).trace := by simp [ht, hc.1]
          exact hmem
        · obtain ⟨_, _, _, hstill⟩ := GracefulShutdown.handleWrite_open hw hem
          exact .inl ((OutputStream.handleWrite_intact hs r).coupled.mp hstill)
    | shutdownInLoop => exact .inl (by simpa only [next, OutputStream.shutdownInLoop_conn] using hne)
    | startReadInLoop =>
        refine .inl ?_
        simp only [next, startReadInLoop]
        split <;> exact hne
    | stopReadInLoop =>
        refine .inl ?_
        simp only [next, stopReadInLoop]
        split <;> exact hne
    | disconnecting => exact .inl hne
  · exact .inr (writeClosed_next hclosed e)

theorem shutdownInLoop_closing (hs : Intact s) (hst : s.1.conn.state = .kDisconnecting) :
    Closing (next s .shutdownInLoop) := by
  refine ⟨silent_state hst rfl, ?_⟩
  cases hw : s.1.conn.channel.isWriting with
  | true =>
      refine .inl ?_
      simp only [next, OutputStream.shutdownInLoop_conn]
      exact hs.coupled.mp hw
  | false =>
      refine .inr ⟨s.1.conn.outputBuffer.readable, ?_⟩
      simp [next, shutdownInLoop, hw, emit]

theorem run_closing (hs : Intact s) (hst : s.1.conn.state = .kDisconnecting) {es : List Event}
    (hes : ∀ e ∈ es, silent e = true) (hc : .shutdownInLoop ∈ es ∨ Closing s) : Closing (run next s es) := by
  induction es generalizing s with
  | nil => exact hc.resolve_left (by simp)
  | cons e es ih =>
      have he := hes e (by simp)
      have hnext := OutputStream.step_intact s e hs (silent_fits he)
      refine ih hnext (silent_state hst he) (fun d hd => hes d (List.mem_cons_of_mem _ hd)) ?_
      rcases hc with hm | hc
      · rcases List.mem_cons.mp hm with rfl | hm
        · exact .inr (shutdownInLoop_closing hs hst)
        · exact .inl hm
      · exact .inr (closing_next hs hc he)

end Steps

def start (self : P) (poller : EpollPoller P) (fd : Int) (callback : Bool) : State P :=
  (established self poller fd callback, [])

/-- What becomes of a state when the events es follow: all bytes that waited are
written, the kernel watches for write events as long as any wait, and the write
side is closed if shutdown() was called before. -/
structure Drains (s : State P) (es : List Event) : Prop where
  output : (run next s es).1.conn.outputBuffer.readable = []
  idle : (run next s es).1.conn.channel.isWriting = false
  written : accepted (run next s es).1.trace = s.2
  watched : Always next (fun u => u.1.conn.outputBuffer.readable ≠ [] → Watched u.1) s es
  closed : s.1.conn.state = .kDisconnecting → .shutdownInLoop ∈ es ∨ s.1.conn.outputBuffer.readable ≠ [] →
    WriteClosed (run next s es).1

theorem emptied_of_enough {s : State P} (hs : Intact s) {es : List Event} (hes : ∀ e ∈ es, silent e = true)
    (henough : s.1.conn.outputBuffer.readable.length ≤ es.countP progresses) :
    (run next s es).1.conn.outputBuffer.readable = [] ∧ Intact (run next s es) ∧ (run next s es).2 = s.2 := by
  have hmeets : Meets next (fun (_ : State P) e => silent e = true) s es := meets_of_forall s hes
  have hstep : ∀ (u : State P) (e : Event), Intact u ∧ u.2 = s.2 → silent e = true →
      Intact (next u e) ∧ (next u e).2 = s.2 := fun u e hu he =>
    ⟨OutputStream.step_intact u e hu.1 (silent_fits he), (silent_next hu.1 he).1.trans hu.2⟩
  have hrank := rank_run_le (fun u : State P => u.1.conn.outputBuffer.readable.length) progresses hstep
    (fun u e hu he => (silent_next hu.1 he).2.1) (fun u e hu he => (silent_next hu.1 he).2.2) ⟨hs, rfl⟩ hmeets
  have hend := (always_of_step hstep ⟨hs, rfl⟩ hmeets).last
  refine ⟨?_, hend⟩
  apply List.eq_nil_of_length_eq_zero
  omega

theorem drains_of_enough {s : State P} (hs : Intact s) (ha : Armed s.1) {es : List Event}
    (hes : ∀ e ∈ es, silent e = true) (henough : s.1.conn.outputBuffer.readable.length ≤ es.countP progresses) :
    Drains s es := by
  obtain ⟨hempty, hend, hsent⟩ := emptied_of_enough hs hes henough
  have hconserved := hend.conserved
  rw [hempty, List.append_nil] at hconserved
  have hstep : ∀ (u : State P) (e : Event), Intact u ∧ Armed u.1 → silent e = true →
      Intact (next u e) ∧ Armed (next u e).1 := fun u e hu he =>
    ⟨OutputStream.step_intact u e hu.1 (silent_fits he), next_armed hu.2 e⟩
  have hwatched := always_of_step hstep ⟨hs, ha⟩ (meets_of_forall s hes)
  refine ⟨hempty, idle_of_empty hend hempty, hconserved.trans hsent, ?_, fun hst hcalled => ?_⟩
  · exact always_mono (fun u hu hne => hu.2.watched (hu.1.coupled.mpr hne)) hwatched
  · have hclosing := run_closing hs hst hes (hcalled.imp id fun hne => ⟨hst, .inl hne⟩)
    exact hclosing.2.resolve_left fun hne => hne hempty

end Webserver.Draining
