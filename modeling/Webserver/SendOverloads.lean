import Webserver.OutputStream

namespace Webserver

variable {P : Type}

/-- send(Buffer*), with the buffer as it is left. Off the loop thread the bytes are
taken out of the buffer into a functor that nobody is given. -/
def TcpConnection.sendBuffer (inLoop : Bool) (buf : Buffer) (r : WriteResult) (h : Hosted P) : Buffer × Hosted P :=
  if h.conn.state = .kConnected then
    if inLoop then (buf.retrieveAll, sendInLoop buf.readable r h)
    else (buf.retrieveAllAsString.2, h)
  else (buf, h)

namespace SendOverloads

open TcpConnection OutputStream

def runFunctors (answers : Nat → WriteResult) : List Functor → Hosted P → Hosted P
  | [], h => h
  | f :: fs, h => runFunctors (fun i => answers (i + 1)) fs (runFunctor (answers 0) h f)

/-- The connection once all functors that wait in its loop have run, the socket
answering the same whichever functors they are. -/
def settle (answers : Nat → WriteResult) (h : Hosted P) : Hosted P :=
  runFunctors answers h.pendingFunctors { h with pendingFunctors := [] }

def stream (h : Hosted P) : List Byte := accepted h.trace ++ h.conn.outputBuffer.readable

def HandedOver (inLoop : Bool) (buf : Buffer) (r : WriteResult) (h k : Hosted P) : Prop :=
  if inLoop then k = sendInLoop buf.readable r h
  else k.pendingFunctors = h.pendingFunctors ++ [.sendInLoop buf.readable]

structure Agree (inLoop : Bool) (buf : Buffer) (r : WriteResult) (answers : Nat → WriteResult) (h : Hosted P) : Prop where
  effect : stream (settle answers (sendBuffer inLoop buf r h).2) = stream (settle answers (send inLoop buf.readable r h))
  emptied : h.conn.state = .kConnected → (sendBuffer inLoop buf r h).1.readable = [] → buf.readable ≠ [] →
    HandedOver inLoop buf r h (sendBuffer inLoop buf r h).2

theorem readable_retrieveAllAsString (b : Buffer) : b.retrieveAllAsString.2.readable = [] := by
  simp only [Buffer.retrieveAllAsString, Buffer.retrieveAsString, Buffer.retrieve, Nat.lt_irrefl, if_false]
  exact Buffer.readable_retrieveAll b

theorem runFunctors_append (answers : Nat → WriteResult) (fs : List Functor) (f : Functor) (h : Hosted P) :
    runFunctors answers (fs ++ [f]) h = runFunctor (answers fs.length) (runFunctors answers fs h) f := by
  induction fs generalizing answers h with
  | nil => rfl
  | cons g fs ih => exact ih _ _

theorem stream_sendInLoop_nil (r : WriteResult) (h : Hosted P) : stream (sendInLoop [] r h) = stream h := by
  simp only [sendInLoop]
  split
  · rfl
  · split
    · obtain ⟨es, ht, ha, _⟩ := directWrite_trace [] r h
      simp only [List.take_nil] at ha
      simp [stream, directWrite_conn, ht, accepted_append, ha]
    · simp

theorem agree_of_empty {buf : Buffer} (r : WriteResult) (answers : Nat → WriteResult) {h : Hosted P}
    (hc : h.conn.state = .kConnected) (he : buf.readable = []) : Agree false buf r answers h := by
  refine ⟨?_, fun _ _ hne => absurd he hne⟩
  have hs : send false buf.readable r h = queueInLoop (.sendInLoop []) h := by
    simp [send, runInLoop, hc, he]
  have hb : (sendBuffer false buf r h).2 = h := by
    simp [sendBuffer, hc]
  rw [hs, hb]
  simp only [settle, TcpConnection.queueInLoop, runFunctors_append, runFunctor, stream_sendInLoop_nil]

theorem not_agree_off_loop {buf : Buffer} (r : WriteResult) (answers : Nat → WriteResult) {h : Hosted P}
    (hc : h.conn.state = .kConnected) (hne : buf.readable ≠ []) : ¬ Agree false buf r answers h := by
  intro ha
  have hb : sendBuffer false buf r h = (buf.retrieveAllAsString.2, h) := by
    simp [sendBuffer, hc]
  have hh := ha.emptied hc (by rw [hb]; exact readable_retrieveAllAsString buf) hne
  simp [HandedOver, hb] at hh

theorem agree_in_loop (buf : Buffer) (r : WriteResult) (answers : Nat → WriteResult) {h : Hosted P}
    (hc : h.conn.state = .kConnected) : Agree true buf r answers h := by
  have hb : sendBuffer true buf r h = (buf.retrieveAll, sendInLoop buf.readable r h) := by
    simp [sendBuffer, hc]
  refine ⟨?_, fun _ _ _ => ?_⟩
  · simp [hb, send, runInLoop, runFunctor, hc]
  · simp [HandedOver, hb]

theorem agree_iff (inLoop : Bool) (buf : Buffer) (r : WriteResult) (answers : Nat → WriteResult) (h : Hosted P) :
    Agree inLoop buf r answers h ↔ (h.conn.state = .kConnected → inLoop = true ∨ buf.readable = []) := by
  by_cases hc : h.conn.state = .kConnected
  · cases inLoop with
    | true => exact ⟨fun _ _ => .inl rfl, fun _ => agree_in_loop buf r answers hc⟩
    | false =>
        constructor
        · intro ha _
          by_contra hn
          exact not_agree_off_loop r answers hc (fun he => hn (.inr he)) ha
        · intro hd
          rcases hd hc with hf | he
          · cases hf
          · exact agree_of_empty r answers hc he
  · refine ⟨fun _ hn => absurd hn hc, fun _ => ⟨?_, fun hn => absurd hn hc⟩⟩
    simp [sendBuffer, send, hc]

theorem cross_thread_buffer_lost :
    let buf := (Buffer.construct 0).append [1, 2, 3]
    let conn := established () .construct 7 false
    stream (settle (fun _ => .wrote 3) (sendBuffer false buf (.wrote 3) conn).2) = [] ∧
      stream (settle (fun _ => .wrote 3) (send false buf.readable (.wrote 3) conn)) = [1, 2, 3] ∧
      ¬ Agree false buf (.wrote 3) (fun _ => .wrote 3) conn := by
  have hr : ((Buffer.construct 0).append [1, 2, 3]).readable = [1, 2, 3] := by
    rw [(Buffer.construct_wellFormed 0).readable_append (by decide +kernel), Buffer.construct_readable]
    rfl
  refine ⟨by decide +kernel, by decide +kernel, not_agree_off_loop _ _ rfl (by simp [hr])⟩

end SendOverloads

end Webserver
