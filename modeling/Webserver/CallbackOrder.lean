import Webserver.ConnectionRule
import Webserver.FinalState

namespace Webserver.CallbackOrder

open Runs TcpConnection ConnectionLife ConnectionSteps FinalState
open ConnectionRule (Kept)

variable {P : Type}

def isCallback : Effect → Bool
  | .connectionCallback _ | .messageCallback | .closeCallback => true
  | .write _ _ | .shutdownWrite _ | .queueWriteComplete _ | .enterHandleClose | .returnConnectDestroyed => false

def callbacks (h : Hosted P) : List Effect := h.trace.filter isCallback

def receives : Event P → Bool
  | .readEvent (.received (_ :: _)) => true
  | _ => false

/-- First the connection is told to be up, then there is a message for each read,
and as soon as it is disconnected it is told to be down, and to the server that it
has closed unless the server itself destroys it; and that was all. -/
structure Told (n : Nat) (s : Life P) : Prop where
  up : s.hosted.conn.state ≠ .kDisconnected →
    callbacks s.hosted = .connectionCallback .kConnected :: List.replicate n .messageCallback
  down : s.hosted.conn.state = .kDisconnected →
    ∃ tail ∈ [[Effect.connectionCallback .kDisconnected], [.connectionCallback .kDisconnected, .closeCallback]],
      callbacks s.hosted = .connectionCallback .kConnected :: List.replicate n .messageCallback ++ tail

def Grows (h k : Hosted P) : Prop := ∃ es, k.trace = h.trace ++ es ∧ .messageCallback ∉ es

theorem Grows.of_trace {h k : Hosted P} (ht : k.trace = h.trace) : Grows h k := ⟨[], by simp [ht], by simp⟩

theorem Grows.trans {h k l : Hosted P} (hk : Grows h k) (kl : Grows k l) : Grows h l := by
  obtain ⟨es, hes, hm⟩ := hk
  obtain ⟨fs, hfs, hm'⟩ := kl
  exact ⟨es ++ fs, by rw [hfs, hes, List.append_assoc], by simp [hm, hm']⟩

theorem grows_kept : Kept (Grows (P := P)) where
  refl _ := .of_trace rfl
  trans := .trans
  emit e h he := ⟨[e], rfl, by simpa using he.symm⟩
  quiet _ _ _ _ _ _ := .of_trace rfl
  enableWriting _ := .of_trace rfl
  disableWriting _ := .of_trace rfl
  disableReading _ := .of_trace rfl
  disableAll _ := .of_trace rfl
  remove _ := .of_trace rfl

theorem startReadInLoop_grows (h : Hosted P) : Grows h (startReadInLoop h) := by
  simp only [startReadInLoop]
  split
  · exact .of_trace rfl
  · exact .of_trace rfl

theorem step_grows (s : Life P) {e : Event P} (he : receives e = false) : Grows s.hosted (next s e).hosted := by
  refine grows_kept.next_of_others (fun _ _ => .of_trace rfl) s (fun b bs hb => ?_) (.inl startReadInLoop_grows)
  rw [hb] at he
  cases he

theorem callbacks_of_life {h k : Hosted P} {l : List Effect} (hg : Grows h k) (hlife : lifeTrace k = lifeTrace h ++ l) :
    callbacks k = callbacks h ++ l.filter isCallback := by
  obtain ⟨es, ht, hm⟩ := hg
  have hl : es.filter isLife = l := by
    rw [lifeTrace, lifeTrace, ht, List.filter_append] at hlife
    exact List.append_cancel_left hlife
  have hfilter : es.filter isCallback = l.filter isCallback := by
    rw [← hl, List.filter_filter]
    refine List.filter_congr fun e he => ?_
    cases e with
    | messageCallback => exact absurd he hm
    | write _ _ | shutdownWrite _ | queueWriteComplete _ | connectionCallback _ | closeCallback | enterHandleClose
    | returnConnectDestroyed => rfl
  rw [callbacks, ht, List.filter_append, hfilter]
  rfl

theorem eq_receives {e : Event P} (he : receives e = true) : ∃ b bs, e = .readEvent (.received (b :: bs)) := by
  unfold receives at he
  split at he
  · exact ⟨_, _, rfl⟩
  · cases he

theorem Told.same {n : Nat} {s t : Life P} (h : Told n s) (hcall : callbacks t.hosted = callbacks s.hosted)
    (hstate : t.hosted.conn.state = .kDisconnected ↔ s.hosted.conn.state = .kDisconnected) : Told n t := by
  constructor
  · intro hd
    rw [hcall]
    exact h.up (mt hstate.mpr hd)
  · intro hd
    rw [hcall]
    exact h.down (hstate.mp hd)

theorem Told.ends {n : Nat} {s t : Life P} (h : Told n s) (hbefore : s.hosted.conn.state ≠ .kDisconnected)
    {l : List Effect} (hcall : callbacks t.hosted = callbacks s.hosted ++ l.filter isCallback)
    (hstate : t.hosted.conn.state = .kDisconnected) (hl : l = closing ∨ l = [.connectionCallback .kDisconnected]) :
    Told n t := by
  refine ⟨fun hd => absurd hstate hd, fun _ => ?_⟩
  rw [hcall, h.up hbefore]
  rcases hl with rfl | rfl
  · exact ⟨[.connectionCallback .kDisconnected, .closeCallback], by simp, rfl⟩
  · exact ⟨[.connectionCallback .kDisconnected], by simp, rfl⟩

theorem step_receives {n : Nat} {s : Life P} {e : Event P} (hended : Ended s) (he : Enabled s e)
    (hr : receives e = true) (h : Told n s) : Told (n + 1) (next s e) := by
  obtain ⟨b, bs, rfl⟩ := eq_receives hr
  have hlive : s.hosted.conn.state ≠ .kDisconnected := by
    intro hd
    obtain ⟨_, revents, ha, hm⟩ := he
    have hp := hended.drained hd
    simp [pendingRead, ha, hm] at hp
  have hcall : callbacks (next s (.readEvent (.received (b :: bs)))).hosted =
      callbacks s.hosted ++ [.messageCallback] := by
    simp [callbacks, next, handleRead, emit, setInput, isCallback]
  refine ⟨fun _ => ?_, fun hd => absurd hd hlive⟩
  rw [hcall, h.up hlive, List.cons_append, List.replicate_succ']

theorem step_told {n : Nat} {s : Life P} {e : Event P} (hended : Ended s) (he : Enabled s e) (ho : Orderly s e)
    (hr : receives e = false) (h : Told n s) : Told n (next s e) := by
  have hg := step_grows s hr
  have hquiet : lifeTrace (next s e).hosted = lifeTrace s.hosted →
      callbacks (next s e).hosted = callbacks s.hosted := by
    intro hlife
    have hcall := callbacks_of_life hg (l := []) (by rw [hlife, List.append_nil])
    rw [hcall, List.filter_nil, List.append_nil]
  cases step_kind s e with
  | mild hlife hstate | begins _ hlife hstate | skip _ _ hlife hstate =>
      exact h.same (hquiet hlife) (by rw [hstate])
  | leaving hbefore hlife hstate =>
      have hne : s.hosted.conn.state ≠ .kDisconnected := by
        rcases hbefore with hb | hb <;> simp [hb]
      exact h.same (hquiet hlife) (by simp [hstate, hne])
  | store hevent hlife hstate =>
      obtain ⟨t, rfl⟩ := hevent
      have hne : s.hosted.conn.state ≠ .kDisconnected := ho.late
      exact h.same (hquiet hlife) (by simp [hstate, hne])
  | close hevent hlife hstate =>
      have hne : s.hosted.conn.state ≠ .kDisconnected := by
        intro hd
        rcases hevent with hev | ⟨hn, _⟩
        · exact no_end_of_stream hended he hd hev
        · exact hn hd
      exact h.ends hne (callbacks_of_life hg hlife) hstate (.inl rfl)
  | notify _ hbefore hlife hstate =>
      exact h.ends (hended.found hbefore) (callbacks_of_life hg hlife) hstate (.inr rfl)
  | finish _ _ hlife hstate =>
      have hcall := callbacks_of_life hg hlife
      exact h.same (by simpa [isCallback] using hcall) (by rw [hstate])

theorem run_told {n : Nat} {s : Life P} {es : List (Event P)} (hended : Ended s) (h : Told n s)
    (hC : Meets next (fun s e => Enabled s e ∧ Orderly s e) s es) : Told (n + es.countP receives) (run next s es) := by
  induction es generalizing n s with
  | nil => exact h
  | cons e es ih =>
      have hnext := step_ended s e hended hC.1
      cases hr : receives e with
      | true =>
          rw [List.countP_cons_of_pos hr, Nat.add_comm _ 1, ← Nat.add_assoc]
          exact ih hnext (step_receives hended hC.1.1 hr h) hC.2
      | false =>
          rw [List.countP_cons_of_neg (by simp [hr])]
          exact ih hnext (step_told hended hC.1.1 hC.1.2 hr h) hC.2

/-- In any orderly use of a connection, its callbacks come in their order, with
one message for each read, and none is missing for the state it is in. -/
theorem callbacks_in_order (self : P) (fd : Int) (callback : Bool) (es : List (Event P))
    (he : Meets next Enabled (start self fd callback) es) (ho : Meets next Orderly (start self fd callback) es) :
    Told (es.countP receives) (run next (start self fd callback) es) := by
  have hstart : Told 0 (start self fd callback) :=
    ⟨fun _ => rfl, fun hd => absurd hd (by simp [start, established, connectEstablished, setState, onChannel, emit])⟩
  have hrun := run_told (start_ended self fd callback) hstart (meets_and.mpr ⟨he, ho⟩)
  rwa [Nat.zero_add] at hrun

def readThenClose : List (Event Unit) :=
  .poll { PollMask.zero with pollin := true } :: .readEvent (.received [1, 2]) :: .writeEvent (.wrote 0) :: peerClose

theorem readThenClose_enabled : Meets next Enabled (start () 7 false) readThenClose := by
  refine ⟨⟨rfl, rfl, Channel.kReadEvent, rfl, by decide⟩, ⟨rfl, _, rfl, rfl⟩, ⟨rfl, _, rfl, rfl⟩,
    ⟨rfl, rfl, Channel.kReadEvent, rfl, by decide⟩, ⟨rfl, _, rfl, rfl⟩, ⟨rfl, _, rfl, rfl⟩, trivial, ⟨rfl, rfl⟩,
    ⟨false, rfl⟩, rfl, trivial⟩

theorem readThenClose_orderly : Meets next Orderly (start () 7 false) readThenClose := by
  refine ⟨.of_quiet (by simp [Executes]) id, .of_quiet (by simp [Executes]) id, .of_quiet (by simp [Executes]) id,
    .of_quiet (by simp [Executes]) id, .of_quiet (by simp [Executes]) id, .of_quiet (by simp [Executes]) id,
    .of_quiet (by simp [Executes]) id, ⟨?_, ?_, ?_, ?_, id⟩, .of_quiet (by simp [Executes]) id,
    .of_quiet (by simp [Executes]) id, trivial⟩
  · intro hx
    exact absurd (show some Functor.connectDestroyed = some .startReadInLoop from hx) (by decide)
  · intro hx
    exact absurd (show some Functor.connectDestroyed = some .stopReadInLoop from hx) (by decide)
  · intro _ hstate
    cases hstate
  · intro _
    rfl

theorem callbacks_in_order_one_read :
    Told (readThenClose.countP receives) (run next (start () 7 false) readThenClose) :=
  callbacks_in_order () 7 false readThenClose readThenClose_enabled readThenClose_orderly

end Webserver.CallbackOrder
