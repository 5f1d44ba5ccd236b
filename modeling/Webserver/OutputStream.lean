import Webserver.Bookkeeping
import Webserver.TcpConnection

namespace Webserver.OutputStream

open Runs TcpConnection

variable {P : Type}

def acceptedBy : Effect → List Byte
  | .write data n => data.take n
  | _ => []

def accepted (trace : List Effect) : List Byte := trace.flatMap acceptedBy

def Drained : Effect → Prop
  | .shutdownWrite unsent => unsent = []
  | .queueWriteComplete unsent => unsent = []
  | _ => True

inductive Event
  | sendInLoop (data : List Byte) (r : WriteResult)
  | handleWrite (r : WriteResult)
  | shutdownInLoop
  | startReadInLoop
  | stopReadInLoop
  | disconnecting

def Direct (h : Hosted P) : Prop := !h.conn.channel.isWriting ∧ h.conn.outputBuffer.readableBytes = 0

instance (h : Hosted P) : Decidable (Direct h) := inferInstanceAs (Decidable (_ ∧ _))

def faulty : WriteResult → Bool
  | .wrote _ => false
  | .failed e => e = .epipe ∨ e = .econnreset

def buffered (data : List Byte) (r : WriteResult) (h : Hosted P) : List Byte :=
  if Direct h then if faulty r then [] else data.drop (directWrite data r h).2.1 else data

/-- The part that counts as sent: all of it, unless the direct write failed with
EPIPE or ECONNRESET. -/
def kept (data : List Byte) (r : WriteResult) (h : Hosted P) : List Byte :=
  if Direct h ∧ faulty r then [] else data

abbrev State (P : Type) := Hosted P × List Byte

def next (s : State P) : Event → State P
  | .sendInLoop data r => (sendInLoop data r s.1, s.2 ++ kept data r s.1)
  | .handleWrite r => (handleWrite r s.1, s.2)
  | .shutdownInLoop => (shutdownInLoop s.1, s.2)
  | .startReadInLoop => (startReadInLoop s.1, s.2)
  | .stopReadInLoop => (stopReadInLoop s.1, s.2)
  | .disconnecting => (setState .kDisconnecting s.1, s.2)

def Fits (s : State P) : Event → Prop
  | .sendInLoop data r => (buffered data r s.1).length ≤ s.1.conn.outputBuffer.writeableBytes
  | _ => True

structure Intact (s : State P) : Prop where
  connected : s.1.conn.state = .kConnected ∨ s.1.conn.state = .kDisconnecting
  wellFormed : s.1.conn.outputBuffer.WellFormed
  conserved : accepted s.1.trace ++ s.1.conn.outputBuffer.readable = s.2
  coupled : s.1.conn.channel.isWriting = true ↔ s.1.conn.outputBuffer.readable ≠ []
  drained : ∀ e ∈ s.1.trace, Drained e

theorem accepted_append (xs ys : List Effect) : accepted (xs ++ ys) = accepted xs ++ accepted ys := by
  simp [accepted]

theorem isWriting_enableWriting (self : P) (s : Channel × EpollPoller P) :
    (Channel.enableWriting self s).1.isWriting = true := by
  rw [Channel.isWriting, Channel.enableWriting, Bookkeeping.setEvents_events]
  exact Channel.union_kWriteEvent_meets _

theorem isWriting_disableWriting (self : P) (s : Channel × EpollPoller P) :
    (Channel.disableWriting self s).1.isWriting = false := by
  rw [Channel.isWriting, Channel.disableWriting, Bookkeeping.setEvents_events]
  exact PollMask.minus_not_meets _ _

theorem isWriting_enableReading (self : P) (s : Channel × EpollPoller P) :
    (Channel.enableReading self s).1.isWriting = s.1.isWriting := by
  rw [Channel.isWriting, Channel.enableReading, Bookkeeping.setEvents_events]
  exact PollMask.union_meets_of_disjoint _ rfl

theorem isWriting_disableReading (self : P) (s : Channel × EpollPoller P) :
    (Channel.disableReading self s).1.isWriting = s.1.isWriting := by
  rw [Channel.isWriting, Channel.disableReading, Bookkeeping.setEvents_events]
  exact PollMask.minus_meets_of_disjoint _ rfl

theorem queueWriteComplete_conn (h : Hosted P) : (queueWriteComplete h).conn = h.conn := by
  simp only [queueWriteComplete]
  split <;> rfl

theorem queueWriteComplete_trace (h : Hosted P) :
    ∃ es, (queueWriteComplete h).trace = h.trace ++ es ∧ accepted es = [] ∧
      (h.conn.outputBuffer.readable = [] → ∀ e ∈ es, Drained e) := by
  simp only [queueWriteComplete]
  split
  · refine ⟨[.queueWriteComplete h.conn.outputBuffer.readable], rfl, rfl, ?_⟩
    intro hr e he
    rw [List.mem_singleton.mp he]
    exact hr
  · exact ⟨[], by simp, rfl, by simp⟩

theorem shutdownInLoop_conn (h : Hosted P) : (shutdownInLoop h).conn = h.conn := by
  simp only [shutdownInLoop]
  split <;> rfl

theorem shutdownInLoop_trace (h : Hosted P) :
    ∃ es, (shutdownInLoop h).trace = h.trace ++ es ∧ accepted es = [] ∧
      ((h.conn.channel.isWriting = false → h.conn.outputBuffer.readable = []) → ∀ e ∈ es, Drained e) := by
  simp only [shutdownInLoop]
  split
  · exact ⟨[], by simp, rfl, by simp⟩
  · rename_i hw
    refine ⟨[.shutdownWrite h.conn.outputBuffer.readable], rfl, rfl, ?_⟩
    intro hr e he
    rw [List.mem_singleton.mp he]
    exact hr (by simpa using hw)

theorem directWrite_conn (data : List Byte) (r : WriteResult) (h : Hosted P) :
    (directWrite data r h).1.conn = h.conn := by
  cases r with
  | failed e => rfl
  | wrote n =>
      simp only [directWrite]
      split
      · exact queueWriteComplete_conn _
      · rfl

theorem directWrite_fault (data : List Byte) (r : WriteResult) (h : Hosted P) :
    (directWrite data r h).2.2 = faulty r := by
  cases r <;> rfl

theorem directWrite_trace (data : List Byte) (r : WriteResult) (h : Hosted P) :
    ∃ es, (directWrite data r h).1.trace = h.trace ++ es ∧
      accepted es = data.take (directWrite data r h).2.1 ∧
      (h.conn.outputBuffer.readable = [] → ∀ e ∈ es, Drained e) := by
  cases r with
  | failed e => exact ⟨[.write data 0], rfl, rfl, by simp [Drained]⟩
  | wrote n =>
      simp only [directWrite]
      split
      · obtain ⟨es, ht, ha, hd⟩ := queueWriteComplete_trace (emit (.write data (min n data.length)) h)
        refine ⟨.write data (min n data.length) :: es, ?_, ?_, ?_⟩
        · rw [ht]; simp [emit]
        · rw [← List.singleton_append, accepted_append, ha]; simp [accepted, acceptedBy]
        · intro hr
          exact List.forall_mem_cons.mpr ⟨trivial, hd hr⟩
      · refine ⟨[.write data (min n data.length)], rfl, ?_, by simp [Drained]⟩
        simp [accepted, acceptedBy]

theorem directWrite_faulty (data : List Byte) {r : WriteResult} (h : Hosted P) (hr : faulty r = true) :
    (directWrite data r h).2.1 = 0 := by
  cases r with
  | failed e => rfl
  | wrote n => cases hr

theorem directWrite_intact {s : State P} (hs : Intact s) (hd : Direct s.1) (data : List Byte)
    (r : WriteResult) :
    Intact ((directWrite data r s.1).1, s.2 ++ data.take (directWrite data r s.1).2.1) := by
  have hnil : s.1.conn.outputBuffer.readable = [] := by
    apply List.eq_nil_of_length_eq_zero
    rw [hs.wellFormed.length_readable, hd.2]
  obtain ⟨es, ht, ha, hdr⟩ := directWrite_trace data r s.1
  have hc := hs.conserved
  rw [hnil, List.append_nil] at hc
  refine ⟨?_, ?_, ?_, ?_, ?_⟩
  · simpa only [directWrite_conn] using hs.connected
  · simpa only [directWrite_conn] using hs.wellFormed
  · simp only [directWrite_conn, ht, accepted_append, ha, hnil, List.append_nil, hc]
  · simpa only [directWrite_conn] using hs.coupled
  · simp only [ht]
    exact List.forall_mem_append.mpr ⟨hs.drained, hdr hnil⟩

theorem bufferOutput_intact {s : State P} (hs : Intact s) {rest : List Byte} (hrest : 0 < rest.length)
    (hfit : rest.length ≤ s.1.conn.outputBuffer.writeableBytes) :
    Intact (bufferOutput rest s.1, s.2 ++ rest) := by
  have hr := hs.wellFormed.readable_append hfit
  have hne : s.1.conn.outputBuffer.readable ++ rest ≠ [] := by
    intro h
    rw [List.append_eq_nil_iff] at h
    simp [h.2] at hrest
  have hc : accepted s.1.trace ++ (s.1.conn.outputBuffer.readable ++ rest) = s.2 ++ rest := by
    rw [← List.append_assoc, hs.conserved]
  have hw := (hs.wellFormed.append_iff rest).mpr hfit
  simp only [bufferOutput]
  split
  · rename_i hwriting
    refine ⟨hs.connected, hw, ?_, ?_, hs.drained⟩
    · simpa only [setOutput, hr] using hc
    · simpa only [setOutput, hr, hne, ne_eq, not_false_eq_true, iff_true] using hwriting
  · refine ⟨hs.connected, hw, ?_, ?_, hs.drained⟩
    · simpa only [setOutput, onChannel, hr] using hc
    · simp only [setOutput, onChannel, isWriting_enableWriting, hr, ne_eq, hne, not_false_eq_true]

theorem sendInLoop_intact {s : State P} (hs : Intact s) (data : List Byte) (r : WriteResult)
    (hfit : (buffered data r s.1).length ≤ s.1.conn.outputBuffer.writeableBytes) :
    Intact (sendInLoop data r s.1, s.2 ++ kept data r s.1) := by
  have hst : s.1.conn.state ≠ .kDisconnected := by
    rcases hs.connected with h | h <;> simp [h]
  by_cases hd : Direct s.1
  · have hw := directWrite_intact hs hd data r
    have hdir : (!s.1.conn.channel.isWriting) = true ∧ s.1.conn.outputBuffer.readableBytes = 0 := hd
    simp only [sendInLoop, hst, if_false, if_pos hdir, directWrite_fault]
    cases hf : faulty r with
    | true =>
        rw [directWrite_faulty data s.1 hf] at hw
        simpa [kept, hd, hf] using hw
    | false =>
        simp only [buffered, hd, hf, if_true, Bool.false_eq_true, if_false] at hfit
        simp only [kept, hf, Bool.false_eq_true, and_false, if_false, Bool.not_false, true_and]
        by_cases hrest : 0 < (data.drop (directWrite data r s.1).2.1).length
        · rw [if_pos hrest]
          have hb := bufferOutput_intact hw hrest (by simpa only [directWrite_conn] using hfit)
          rwa [List.append_assoc, List.take_append_drop] at hb
        · rw [if_neg hrest]
          have hall : data.take (directWrite data r s.1).2.1 = data := by
            rw [List.length_drop] at hrest
            exact List.take_of_length_le (by omega)
          rwa [hall] at hw
  · have hdir : ¬ ((!s.1.conn.channel.isWriting) = true ∧ s.1.conn.outputBuffer.readableBytes = 0) := hd
    simp only [buffered, hd, if_false] at hfit
    simp only [sendInLoop, hst, if_false, if_neg hdir, kept, hd, false_and, List.drop_zero,
      Bool.not_false, true_and]
    by_cases hrest : 0 < data.length
    · rw [if_pos hrest]
      exact bufferOutput_intact hs hrest hfit
    · have hnil : data = [] := List.eq_nil_of_length_eq_zero (by omega)
      rw [if_neg hrest, hnil, List.append_nil]
      exact hs

theorem shutdownInLoop_intact {s : State P} (hs : Intact s) : Intact (shutdownInLoop s.1, s.2) := by
  obtain ⟨es, ht, ha, hd⟩ := shutdownInLoop_trace s.1
  have hidle : s.1.conn.channel.isWriting = false → s.1.conn.outputBuffer.readable = [] := by
    intro hw
    by_contra hne
    rw [hs.coupled.mpr hne] at hw
    cases hw
  refine ⟨?_, ?_, ?_, ?_, ?_⟩
  · simpa only [shutdownInLoop_conn] using hs.connected
  · simpa only [shutdownInLoop_conn] using hs.wellFormed
  · simpa only [shutdownInLoop_conn, ht, accepted_append, ha, List.append_nil] using hs.conserved
  · simpa only [shutdownInLoop_conn] using hs.coupled
  · simp only [ht]
    exact List.forall_mem_append.mpr ⟨hs.drained, hd hidle⟩

theorem queueWriteComplete_intact {s : State P} (hs : Intact s)
    (hnil : s.1.conn.outputBuffer.readable = []) : Intact (queueWriteComplete s.1, s.2) := by
  obtain ⟨es, ht, ha, hd⟩ := queueWriteComplete_trace s.1
  refine ⟨?_, ?_, ?_, ?_, ?_⟩
  · simpa only [queueWriteComplete_conn] using hs.connected
  · simpa only [queueWriteComplete_conn] using hs.wellFormed
  · simpa only [queueWriteComplete_conn, ht, accepted_append, ha, List.append_nil] using hs.conserved
  · simpa only [queueWriteComplete_conn] using hs.coupled
  · simp only [ht]
    exact List.forall_mem_append.mpr ⟨hs.drained, hd hnil⟩

theorem afterWrite_intact {s : State P} (hs : Intact s) (hw : s.1.conn.channel.isWriting = true) (n : Nat) :
    Intact (afterWrite n (emit (.write s.1.conn.outputBuffer.readable n) s.1), s.2) := by
  have hr := hs.wellFormed.readable_retrieve n
  have hwf := hs.wellFormed.retrieve n
  have hd : ∀ e ∈ s.1.trace ++ [Effect.write s.1.conn.outputBuffer.readable n], Drained e :=
    List.forall_mem_append.mpr ⟨hs.drained, by simp [Drained]⟩
  have hc : accepted (s.1.trace ++ [Effect.write s.1.conn.outputBuffer.readable n]) ++
      s.1.conn.outputBuffer.readable.drop n = s.2 := by
    rw [accepted_append, List.append_assoc]
    simpa [accepted, acceptedBy] using hs.conserved
  simp only [afterWrite]
  split
  · rename_i hzero
    have hnil : (s.1.conn.outputBuffer.retrieve n).readable = [] := by
      apply List.eq_nil_of_length_eq_zero
      rw [hwf.length_readable]
      exact hzero
    have hi : Intact (onChannel Channel.disableWriting (setOutput (s.1.conn.outputBuffer.retrieve n)
        (emit (.write s.1.conn.outputBuffer.readable n) s.1)), s.2) := by
      refine ⟨hs.connected, hwf, ?_, ?_, hd⟩
      · simpa only [onChannel, setOutput, emit, hr] using hc
      · simp [onChannel, setOutput, emit, isWriting_disableWriting, hnil]
    have hq := queueWriteComplete_intact hi hnil
    have hshut := shutdownInLoop_intact hq
    split
    · exact hshut
    · exact hq
  · rename_i hpos
    refine ⟨hs.connected, hwf, ?_, ?_, hd⟩
    · simpa only [setOutput, emit, hr] using hc
    · have hne : (s.1.conn.outputBuffer.retrieve n).readable ≠ [] := by
        intro hnil
        apply hpos
        change (s.1.conn.outputBuffer.retrieve n).readableBytes = 0
        rw [← hwf.length_readable, hnil]
        rfl
      simpa only [setOutput, emit, hne, ne_eq, not_false_eq_true, iff_true] using hw

theorem handleWrite_intact {s : State P} (hs : Intact s) (r : WriteResult) :
    Intact (handleWrite r s.1, s.2) := by
  have hnone : Intact (emit (.write s.1.conn.outputBuffer.readable 0) s.1, s.2) := by
    refine ⟨hs.connected, hs.wellFormed, ?_, hs.coupled, ?_⟩
    · simpa [emit, accepted_append, accepted, acceptedBy] using hs.conserved
    · exact List.forall_mem_append.mpr ⟨hs.drained, by simp [Drained]⟩
  simp only [handleWrite]
  split
  · rename_i hw
    cases r with
    | failed e => exact hnone
    | wrote n =>
        simp only
        split
        · exact afterWrite_intact hs hw _
        · rename_i hzero
          have hz : min n s.1.conn.outputBuffer.readable.length = 0 := by omega
          rw [hz]
          exact hnone
  · exact hs

theorem startReadInLoop_intact {s : State P} (hs : Intact s) : Intact (startReadInLoop s.1, s.2) := by
  simp only [startReadInLoop]
  split
  · refine ⟨hs.connected, hs.wellFormed, hs.conserved, ?_, hs.drained⟩
    simpa only [setReading, onChannel, isWriting_enableReading] using hs.coupled
  · exact hs

theorem stopReadInLoop_intact {s : State P} (hs : Intact s) : Intact (stopReadInLoop s.1, s.2) := by
  simp only [stopReadInLoop]
  split
  · refine ⟨hs.connected, hs.wellFormed, hs.conserved, ?_, hs.drained⟩
    simpa only [setReading, onChannel, isWriting_disableReading] using hs.coupled
  · exact hs

theorem step_intact (s : State P) (e : Event) (hs : Intact s) (hfit : Fits s e) : Intact (next s e) := by
  cases e with
  | sendInLoop data r => exact sendInLoop_intact hs data r hfit
  | handleWrite r => exact handleWrite_intact hs r
  | shutdownInLoop => exact shutdownInLoop_intact hs
  | startReadInLoop => exact startReadInLoop_intact hs
  | stopReadInLoop => exact stopReadInLoop_intact hs
  | disconnecting => exact ⟨.inr rfl, hs.wellFormed, hs.conserved, hs.coupled, hs.drained⟩

theorem established_intact (self : P) (poller : EpollPoller P) (fd : Int) (callback : Bool) :
    Intact (established self poller fd callback, []) := by
  refine ⟨.inl rfl, Buffer.construct_wellFormed Buffer.kInitialSize, ?_, ?_, ?_⟩
  · exact Buffer.construct_readable Buffer.kInitialSize
  · have hw : (Channel.construct fd).isWriting = false := rfl
    simp only [established, connectEstablished, emit, onChannel, setState, isWriting_enableReading,
      TcpConnection.construct, Buffer.construct_readable, hw, ne_eq, not_true_eq_false, Bool.false_eq_true]
  · simp [established, connectEstablished, emit, onChannel, setState, Drained]

end Webserver.OutputStream
