import Webserver.GracefulShutdown
import Webserver.OutputStream
import Webserver.Receiving

namespace Webserver.StreamLink

open Runs TcpConnection
open OutputStream (Intact Fits accepted accepted_append)
open GracefulShutdown (WriteClosed Quiet Empties)

variable {P Q : Type}

/-- Two connections at the ends of one TCP stream, in one direction: the sender
with the messages that count as sent, how many of the bytes that its socket took
have come out at the other end, and what the receiver's callbacks have consumed. -/
structure Link (P Q : Type) where
  sender : OutputStream.State P
  delivered : Nat
  receiver : Hosted Q
  consumed : List Byte

inductive Event
  | sender (e : OutputStream.Event)
  | deliver (n : Nat)
  | endOfStream
  | consume (len : Nat)

def answer : OutputStream.Event → Option WriteResult
  | .sendInLoop _ r | .handleWrite r => some r
  | .shutdownInLoop | .startReadInLoop | .stopReadInLoop | .disconnecting => none

namespace Link

def wire (l : Link P Q) : List Byte := (accepted l.sender.1.trace).drop l.delivered

def input (l : Link P Q) : Buffer := l.receiver.conn.inputBuffer

def output (l : Link P Q) : Buffer := l.sender.1.conn.outputBuffer

def next (l : Link P Q) : Event → Link P Q
  | .sender e => { l with sender := OutputStream.next l.sender e }
  | .deliver n =>
      { l with
        delivered := l.delivered + n
        receiver := handleRead (.received (l.wire.take n)) l.receiver }
  | .endOfStream => { l with receiver := handleRead (.received []) l.receiver }
  | .consume len =>
      let r := l.input.retrieveAsString len
      { l with consumed := l.consumed ++ r.1, receiver := setInput r.2 l.receiver }

/-- When a step can happen. The kernel delivers what was written, in order, and
reports the end of the stream after all of it; it refuses to write once the
write side is closed. Both Buffers have room for what comes, and the callbacks
take no more than is there. -/
def Enabled (l : Link P Q) : Event → Prop
  | .sender e => Fits l.sender e ∧ (WriteClosed l.sender.1 → ∀ r, answer e = some r → r = .failed .epipe)
  | .deliver n => 0 < n ∧ n ≤ l.wire.length ∧ n ≤ l.input.writeableBytes
  | .endOfStream => WriteClosed l.sender.1 ∧ l.wire = []
  | .consume len => len ≤ l.input.readableBytes

def start (sender : Hosted P) (receiver : Hosted Q) : Link P Q := ⟨(sender, []), 0, receiver, []⟩

end Link

/-- No byte is lost, duplicated or out of place from end to end, and who sees the
end of the stream has been given everything. -/
structure Lossless (l : Link P Q) : Prop where
  stream : l.consumed ++ l.input.readable ++ l.wire ++ l.output.readable = l.sender.2
  ended : .closeCallback ∈ l.receiver.trace → l.consumed ++ l.input.readable = l.sender.2

structure Inv (l : Link P Q) : Prop where
  sender : Intact l.sender
  closed : WriteClosed l.sender.1 → l.output.readable = []
  behind : l.delivered ≤ (accepted l.sender.1.trace).length
  wellFormed : l.input.WellFormed
  stream : l.consumed ++ l.input.readable = (accepted l.sender.1.trace).take l.delivered
  ended : .closeCallback ∈ l.receiver.trace → WriteClosed l.sender.1 ∧ l.wire = []

section Sender

variable {s : OutputStream.State P}

theorem idle_of_empty (h : Intact s) (he : s.1.conn.outputBuffer.readable = []) :
    s.1.conn.channel.isWriting = false := by
  cases hw : s.1.conn.channel.isWriting with
  | false => rfl
  | true => exact absurd he (h.coupled.mp hw)

theorem empty_of_idle (h : Intact s) (hw : s.1.conn.channel.isWriting = false) :
    s.1.conn.outputBuffer.readable = [] := by
  by_contra he
  rw [h.coupled.mpr he] at hw
  cases hw

theorem handleWrite_trace (h : Hosted P) (r : WriteResult) : ∃ es, (handleWrite r h).trace = h.trace ++ es := by
  cases hw : h.conn.channel.isWriting with
  | false => exact ⟨[], by rw [GracefulShutdown.handleWrite_idle hw, List.append_nil]⟩
  | true =>
      by_cases he : Empties h r
      · obtain ⟨es, ht, _⟩ := GracefulShutdown.handleWrite_empties hw he
        exact ⟨_, ht.trans (List.append_assoc _ _ _)⟩
      · obtain ⟨es, ht, _⟩ := GracefulShutdown.handleWrite_open hw he
        exact ⟨es, ht⟩

theorem next_trace (s : OutputStream.State P) (e : OutputStream.Event) :
    ∃ es, (OutputStream.next s e).1.trace = s.1.trace ++ es := by
  cases e with
  | sendInLoop data r =>
      obtain ⟨es, ht, _⟩ := GracefulShutdown.sendInLoop_quiet data r s.1
      exact ⟨es, ht⟩
  | handleWrite r => exact handleWrite_trace s.1 r
  | shutdownInLoop =>
      obtain ⟨es, ht, _⟩ := OutputStream.shutdownInLoop_trace s.1
      exact ⟨es, ht⟩
  | startReadInLoop =>
      refine ⟨[], ?_⟩
      simp only [OutputStream.next, startReadInLoop]
      split <;> simp [setReading, onChannel]
  | stopReadInLoop =>
      refine ⟨[], ?_⟩
      simp only [OutputStream.next, stopReadInLoop]
      split <;> simp [setReading, onChannel]
  | disconnecting => exact ⟨[], by simp [OutputStream.next, setState]⟩

theorem writeClosed_next (h : WriteClosed s.1) (e : OutputStream.Event) : WriteClosed (OutputStream.next s e).1 := by
  obtain ⟨es, ht⟩ := next_trace s e
  obtain ⟨unsent, hu⟩ := h
  refine ⟨unsent, ?_⟩
  rw [ht]
  exact List.mem_append_left _ hu

theorem not_closed_of_quiet {h k : Hosted P} {es : List Effect} (ht : k.trace = h.trace ++ es) (hq : Quiet es)
    (hc : WriteClosed k) : WriteClosed h := by
  obtain ⟨unsent, hu⟩ := hc
  rw [ht] at hu
  rcases List.mem_append.mp hu with hu | hu
  · exact ⟨unsent, hu⟩
  · exact absurd (hq _ hu) (by simp)

theorem closed_next (h : Intact s) (he : s.1.conn.outputBuffer.readable = [])
    {e : OutputStream.Event} (ha : ∀ r, answer e = some r → r = .failed .epipe) :
    (OutputStream.next s e).1.conn.outputBuffer = s.1.conn.outputBuffer ∧ (OutputStream.next s e).2 = s.2 := by
  have hidle := idle_of_empty h he
  cases e with
  | sendInLoop data r =>
      obtain rfl := ha r rfl
      have hdirect : OutputStream.Direct s.1 := by
        refine ⟨by simp [hidle], ?_⟩
        rw [← h.wellFormed.length_readable, he]
        rfl
      have hsend : sendInLoop data (.failed .epipe) s.1 = emit (.write data 0) s.1 := by
        have hst : s.1.conn.state ≠ .kDisconnected := by
          rcases h.connected with hst | hst <;> simp [hst]
        have hif : (!s.1.conn.channel.isWriting) = true ∧ s.1.conn.outputBuffer.readableBytes = 0 := hdirect
        simp [sendInLoop, hst, hif, directWrite]
      refine ⟨?_, ?_⟩
      · simp only [OutputStream.next, hsend, emit]
      · simp [OutputStream.next, OutputStream.kept, hdirect, OutputStream.faulty]
  | handleWrite r => exact ⟨by rw [OutputStream.next, GracefulShutdown.handleWrite_idle hidle], rfl⟩
  | shutdownInLoop => exact ⟨by rw [OutputStream.next, OutputStream.shutdownInLoop_conn], rfl⟩
  | startReadInLoop =>
      refine ⟨?_, rfl⟩
      simp only [OutputStream.next, startReadInLoop]
      split <;> rfl
  | stopReadInLoop =>
      refine ⟨?_, rfl⟩
      simp only [OutputStream.next, stopReadInLoop]
      split <;> rfl
  | disconnecting => exact ⟨rfl, rfl⟩

theorem closing_next {e : OutputStream.Event} (hn : Intact (OutputStream.next s e))
    (hopen : ¬ WriteClosed s.1) (hc : WriteClosed (OutputStream.next s e).1) :
    (OutputStream.next s e).1.conn.outputBuffer.readable = [] := by
  apply empty_of_idle hn
  cases e with
  | sendInLoop data r =>
      obtain ⟨es, ht, hq⟩ := GracefulShutdown.sendInLoop_quiet data r s.1
      exact absurd (not_closed_of_quiet ht hq hc) hopen
  | handleWrite r =>
      cases hw : s.1.conn.channel.isWriting with
      | false =>
          rw [OutputStream.next, GracefulShutdown.handleWrite_idle hw] at hc
          exact absurd hc hopen
      | true =>
          by_cases he : Empties s.1 r
          · obtain ⟨_, _, _, hidle, _⟩ := GracefulShutdown.handleWrite_empties hw he
            exact hidle
          · obtain ⟨es, ht, hq, _⟩ := GracefulShutdown.handleWrite_open hw he
            exact absurd (not_closed_of_quiet ht hq hc) hopen
  | shutdownInLoop =>
      cases hw : s.1.conn.channel.isWriting with
      | false =>
          simp only [OutputStream.next, OutputStream.shutdownInLoop_conn]
          exact hw
      | true =>
          have hsame : shutdownInLoop s.1 = s.1 := by simp [shutdownInLoop, hw]
          rw [OutputStream.next, hsame] at hc
          exact absurd hc hopen
  | startReadInLoop =>
      refine absurd (not_closed_of_quiet ?_ GracefulShutdown.quiet_nil hc) hopen
      simp only [OutputStream.next, startReadInLoop]
      split <;> simp [setReading, onChannel]
  | stopReadInLoop =>
      refine absurd (not_closed_of_quiet ?_ GracefulShutdown.quiet_nil hc) hopen
      simp only [OutputStream.next, stopReadInLoop]
      split <;> simp [setReading, onChannel]
  | disconnecting => exact absurd hc hopen

end Sender

section Steps

variable {l : Link P Q}

theorem sender_inv (h : Inv l) {e : OutputStream.Event} (he : l.Enabled (.sender e)) : Inv (l.next (.sender e)) := by
  obtain ⟨hfit, hanswer⟩ := he
  have hn := OutputStream.step_intact l.sender e h.sender hfit
  obtain ⟨es, ht⟩ := next_trace l.sender e
  have hacc : accepted (OutputStream.next l.sender e).1.trace = accepted l.sender.1.trace ++ accepted es := by
    rw [ht, accepted_append]
  have hbehind : l.delivered ≤ (accepted (OutputStream.next l.sender e).1.trace).length := by
    rw [hacc, List.length_append]
    exact h.behind.trans (Nat.le_add_right _ _)
  have hclosed : WriteClosed l.sender.1 → (OutputStream.next l.sender e).1.conn.outputBuffer.readable = [] ∧
      accepted (OutputStream.next l.sender e).1.trace = accepted l.sender.1.trace := by
    intro hc
    have hempty := h.closed hc
    obtain ⟨hsame, hsent⟩ := closed_next h.sender hempty (hanswer hc)
    have hempty' : (OutputStream.next l.sender e).1.conn.outputBuffer.readable = [] := by
      rw [hsame]
      exact hempty
    have hbefore := h.sender.conserved
    have hafter := hn.conserved
    rw [show l.sender.1.conn.outputBuffer.readable = [] from hempty, List.append_nil] at hbefore
    rw [hempty', List.append_nil, hsent] at hafter
    exact ⟨hempty', hafter.trans hbefore.symm⟩
  refine ⟨hn, fun hc => ?_, hbehind, h.wellFormed, ?_, fun hm => ?_⟩
  · by_cases hold : WriteClosed l.sender.1
    · exact (hclosed hold).1
    · exact closing_next hn hold hc
  · simp only [Link.next, hacc, List.take_append_of_le_length h.behind]
    exact h.stream
  · obtain ⟨hc, hw⟩ := h.ended hm
    refine ⟨writeClosed_next hc e, ?_⟩
    rw [Link.wire] at hw ⊢
    simp only [Link.next, (hclosed hc).2]
    exact hw

theorem deliver_inv (h : Inv l) {n : Nat} (he : l.Enabled (.deliver n)) : Inv (l.next (.deliver n)) := by
  obtain ⟨hpos, hwire, hroom⟩ := he
  have hlength : (l.wire.take n).length = n := List.length_take_of_le hwire
  have hfit : (l.wire.take n).length ≤ l.input.writeableBytes := hlength.trans_le hroom
  obtain ⟨b, bs, hbytes⟩ := List.exists_cons_of_length_pos (l := l.wire.take n) (by omega)
  have hread : handleRead (.received (l.wire.take n)) l.receiver =
      emit .messageCallback (setInput (l.input.append (l.wire.take n)) l.receiver) := by
    rw [← Receiving.readFd_of_le hfit, hbytes]
    rfl
  have hnext : l.next (.deliver n) =
      { l with
        delivered := l.delivered + n
        receiver := emit .messageCallback (setInput (l.input.append (l.wire.take n)) l.receiver) } := by
    rw [← hread]
    rfl
  rw [hnext]
  refine ⟨h.sender, h.closed, ?_, (h.wellFormed.append_iff _).mpr hfit, ?_, fun hm => ?_⟩
  · rw [Link.wire, List.length_drop] at hwire
    have hbehind := h.behind
    simp only
    omega
  · have hr : (l.input.append (l.wire.take n)).readable = l.input.readable ++ l.wire.take n :=
      h.wellFormed.readable_append hfit
    simp only [Link.input, emit, setInput] at hr ⊢
    rw [hr, ← List.append_assoc, List.take_add, ← h.stream]
    rfl
  · have hold : .closeCallback ∈ l.receiver.trace := by simpa [emit, setInput] using hm
    rw [(h.ended hold).2] at hwire
    exact absurd hwire (Nat.not_le.mpr hpos)

theorem endOfStream_inv (h : Inv l) (he : l.Enabled .endOfStream) : Inv (l.next .endOfStream) := by
  have hinput : (l.next .endOfStream).input = l.input := by
    simp [Link.next, Link.input, handleRead, handleClose, emit, onChannel, setState]
  refine ⟨h.sender, h.closed, h.behind, ?_, ?_, fun _ => he⟩
  · rw [hinput]
    exact h.wellFormed
  · rw [hinput]
    exact h.stream

theorem retrieveAsString_within {b : Buffer} {len : Nat} (h : len ≤ b.readableBytes) :
    (b.retrieveAsString len).1 = b.readable.take len := by
  have hmin : min len (b.writerIndex - b.readerIndex) = len := Nat.min_eq_left h
  rw [Buffer.readable, Segments.window_eq_take_drop, List.take_take, hmin]
  rfl

theorem consume_inv (h : Inv l) {len : Nat} (he : l.Enabled (.consume len)) : Inv (l.next (.consume len)) := by
  refine ⟨h.sender, h.closed, h.behind, h.wellFormed.retrieve len, ?_, h.ended⟩
  have hr : (l.input.retrieve len).readable = l.input.readable.drop len := h.wellFormed.readable_retrieve len
  calc l.consumed ++ (l.input.retrieveAsString len).1 ++ (l.input.retrieve len).readable
      = l.consumed ++ l.input.readable.take len ++ l.input.readable.drop len := by
        rw [retrieveAsString_within he, hr]
    _ = l.consumed ++ l.input.readable := by rw [List.append_assoc, List.take_append_drop]
    _ = (accepted l.sender.1.trace).take l.delivered := h.stream

theorem step_inv (l : Link P Q) (e : Event) (h : Inv l) (he : l.Enabled e) : Inv (l.next e) := by
  cases e with
  | sender e => exact sender_inv h he
  | deliver n => exact deliver_inv h he
  | endOfStream => exact endOfStream_inv h he
  | consume len => exact consume_inv h he

theorem Inv.lossless (h : Inv l) : Lossless l := by
  have hsent : accepted l.sender.1.trace ++ l.output.readable = l.sender.2 := h.sender.conserved
  have hall : l.consumed ++ l.input.readable ++ l.wire = accepted l.sender.1.trace := by
    rw [h.stream, Link.wire, List.take_append_drop]
  refine ⟨by rw [hall, hsent], fun hm => ?_⟩
  obtain ⟨hc, hw⟩ := h.ended hm
  rw [hw, List.append_nil] at hall
  rw [hall, ← hsent, h.closed hc, List.append_nil]

end Steps

theorem start_inv (self : P) (other : Q) (poller : EpollPoller P) (poller' : EpollPoller Q) (fd fd' : Int)
    (callback callback' : Bool) :
    Inv (.start (established self poller fd callback) (established other poller' fd' callback')) := by
  have hempty : (Buffer.construct Buffer.kInitialSize).readable = [] := Buffer.construct_readable _
  refine ⟨OutputStream.established_intact self poller fd callback, fun _ => hempty, Nat.zero_le _,
    Buffer.construct_wellFormed Buffer.kInitialSize, hempty, fun hm => ?_⟩
  simp [Link.start, established, connectEstablished, emit, onChannel, setState] at hm

end Webserver.StreamLink
