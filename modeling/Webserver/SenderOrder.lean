import Webserver.CrossThread

namespace Webserver.SenderOrder

open Runs TcpConnection CrossThread
open ConnectionLife (Call Caller admits leaves applyCall finishCall)
open OutputStream (accepted acceptedBy accepted_append Drained Direct Intact buffered faulty kept)

/-- A message with its thread, where none is the loop's own. -/
abbrev Message (T : Type) := Option T × List Byte

/-- A connection with the messages that were sent so far, in the order of the
calls, those that wait in the queue, and those that sendInLoop has taken whole
before a direct write failed for good. -/
structure Tagged (T P : Type) where
  shared : Shared T P
  sent : List (Message T)
  waiting : List (Message T)
  passed : List (Message T)
  faulted : Bool

variable {T P : Type}

def bytes (ms : List (Message T)) : List Byte := (ms.map Prod.snd).flatten

theorem bytes_append_singleton (ms : List (Message T)) (w : Message T) : bytes (ms ++ [w]) = bytes ms ++ w.2 := by
  simp [bytes]

namespace Tagged

def hosted (s : Tagged T P) : Hosted P := s.shared.hosted

def execute (m : Message T) (r : WriteResult) (s : Tagged T P) : Tagged T P :=
  if s.hosted.conn.state = .kDisconnected then s
  else if Direct s.hosted ∧ faulty r = true then { s with faulted := true }
  else if s.faulted then s
  else { s with passed := s.passed ++ [m] }

def setHosted (h : Hosted P) (s : Tagged T P) : Tagged T P := { s with shared := { s.shared with hosted := h } }

end Tagged

def handOf (t : T) (c : Caller) : List (Message T) :=
  match c.call with
  | some (.send m) => [(some t, m)]
  | _ => []

theorem handOf_nil {t : T} {x : Caller} {c : Call} (hcall : x.call = some c) (hc : ∀ m, c ≠ .send m) :
    handOf t x = [] := by
  simp only [handOf, hcall]
  cases c with
  | send m => exact absurd rfl (hc m)
  | shutdown | forceClose | forceCloseWithDelay | startRead | stopRead => rfl

theorem execute_shared (m : Message T) (r : WriteResult) (s : Tagged T P) (h : Hosted P) :
    { s.execute m r with shared := { s.shared with hosted := h } } = (s.execute m r).setHosted h := by
  have hs : (s.execute m r).shared = s.shared := by
    simp only [Tagged.execute]
    split
    · rfl
    · split
      · rfl
      · split
        · rfl
        · rfl
  rw [Tagged.setHosted, hs]

theorem execute_setHosted (m : Message T) (r : WriteResult) (s : Tagged T P) {h : Hosted P}
    (hc : h.conn = s.hosted.conn) : (s.setHosted h).execute m r = (s.execute m r).setHosted h := by
  have hd : Direct h = Direct s.hosted := by
    simp only [Direct, hc]
  have hh : (s.setHosted h).hosted = h := rfl
  simp only [Tagged.execute, hh, hc, hd]
  split
  · rfl
  · split
    · rfl
    · by_cases hf : s.faulted = true
      · simp [Tagged.setHosted, hf]
      · simp [Tagged.setHosted, hf]

variable [DecidableEq T]

namespace Tagged

def record (s : Tagged T P) : Event T → Tagged T P
  | .test t (.send m) => { s with sent := s.sent ++ [(some t, m)] }
  | .finish t => match (s.shared.callers t).call with
    | some (.send m) => { s with waiting := s.waiting ++ [(some t, m)] }
    | _ => s
  | .loopCall (.send m) r =>
      let s := { s with sent := s.sent ++ [(none, m)] }
      if s.hosted.conn.state = .kConnected then s.execute (none, m) r else s
  | .functor r => match s.hosted.pendingFunctors, s.waiting with
    | .sendInLoop _ :: _, w :: ws => { s with waiting := ws }.execute w r
    | _, _ => s
  | _ => s

def next (s : Tagged T P) (e : Event T) : Tagged T P := { s.record e with shared := CrossThread.next s.shared e }

def start (self : P) (poller : EpollPoller P) (fd : Int) (callback : Bool) : Tagged T P :=
  ⟨CrossThread.start self poller fd callback, [], [], [], false⟩

end Tagged

def ofThread (t : Option T) (ms : List (Message T)) : List (Message T) := ms.filter (·.1 = t)

/-- What was written is the beginning of a row of whole messages, in which those
of each thread are the first ones that it sent, in its order. -/
def InOrder (s : Tagged T P) : Prop :=
  ∃ ms : List (Message T), accepted s.hosted.trace <+: bytes ms ∧ ∀ t, ofThread t ms <+: ofThread t s.sent

/-- The message that a step gives to sendInLoop, and the connection it finds. -/
def sending (s : Shared T P) : Event T → Option (List Byte × WriteResult × Hosted P)
  | .loopCall (.send m) r => if s.hosted.conn.state = .kConnected then some (m, r, s.hosted) else none
  | .functor r => match s.hosted.pendingFunctors with
    | .sendInLoop m :: fs => some (m, r, { s.hosted with pendingFunctors := fs })
    | _ => none
  | _ => none

def succeeds : Event T → Bool
  | .loopCall _ (.wrote _) | .functor (.wrote _) | .writeEvent (.wrote _) => true
  | _ => false

/-- The assumptions on the buffer and on the socket: appends fit, and after a
direct write that failed with EPIPE or ECONNRESET none succeeds. -/
structure Admissible (s : Tagged T P) (e : Event T) : Prop where
  enabled : Enabled s.shared e
  fits : ∀ x ∈ sending s.shared e, x.2.2.conn.state ≠ .kDisconnected →
    (buffered x.1 x.2.1 x.2.2).length ≤ x.2.2.conn.outputBuffer.writeableBytes
  sticky : s.faulted = true → succeeds e = false

instance (s : Tagged T P) (e : Event T) : Decidable (Admissible s e) :=
  decidable_of_iff (Enabled s.shared e ∧ (∀ x ∈ sending s.shared e, ¬ x.2.2.conn.state = .kDisconnected →
      (buffered x.1 x.2.1 x.2.2).length ≤ x.2.2.conn.outputBuffer.writeableBytes) ∧
      (s.faulted = true → succeeds e = false))
    ⟨fun h => ⟨h.1, h.2.1, h.2.2⟩, fun h => ⟨h.enabled, h.fits, h.sticky⟩⟩

def stores : Event T → Bool
  | .store _ => true
  | _ => false

/-- No thread that has tested state_ before the connection was closed sets it afterwards. -/
def Undisturbed (s : Tagged T P) (e : Event T) : Prop := stores e = true → s.hosted.conn.state ≠ .kDisconnected

instance (s : Tagged T P) (e : Event T) : Decidable (Undisturbed s e) :=
  inferInstanceAs (Decidable (stores e = true → ¬ s.hosted.conn.state = .kDisconnected))

def message : Functor → Option (List Byte)
  | .sendInLoop m => some m
  | _ => none

def messages (h : Hosted P) : List (List Byte) := h.pendingFunctors.filterMap message

def inHand (s : Shared T P) : Option T → List (Message T)
  | none => []
  | some t => handOf t (s.callers t)

def Healthy (s : Tagged T P) : Prop := s.faulted = false ∧ s.hosted.conn.state ≠ .kDisconnected

structure Inv (s : Tagged T P) : Prop where
  queue : messages s.hosted = s.waiting.map Prod.snd
  loopless : ofThread none s.waiting = []
  written : accepted s.hosted.trace <+: bytes s.passed
  order : ∀ t, ofThread t s.passed <+: ofThread t s.sent
  healthy : Healthy s → Intact (s.hosted, bytes s.passed)
  live : Healthy s → ∀ t, ofThread t s.passed ++ ofThread t s.waiting ++ inHand s.shared t <+: ofThread t s.sent
  current : Healthy s → s.hosted.conn.state = .kConnected →
    ∀ t, ofThread t s.passed ++ ofThread t s.waiting ++ inHand s.shared t = ofThread t s.sent
  closed : s.hosted.conn.state = .kDisconnected → s.hosted.conn.channel.isWriting = false
  started : s.hosted.conn.state ≠ .kConnecting

/-- What the steps other than sending, writing and closing do to the output: nothing. -/
structure Gentle (h k : Hosted P) : Prop where
  state : k.conn.state = h.conn.state ∨ h.conn.state ≠ .kDisconnected ∧ k.conn.state = .kDisconnecting
  messages : messages k = messages h
  accepted : accepted k.trace = accepted h.trace
  writing : k.conn.channel.isWriting = h.conn.channel.isWriting
  intact : ∀ bs, Intact (h, bs) → Intact (k, bs)

theorem Gentle.refl (h : Hosted P) : Gentle h h := ⟨.inl rfl, rfl, rfl, rfl, fun _ => id⟩

theorem Gentle.trans {h k l : Hosted P} (hk : Gentle h k) (kl : Gentle k l) : Gentle h l := by
  refine ⟨?_, kl.messages.trans hk.messages, kl.accepted.trans hk.accepted, kl.writing.trans hk.writing,
    fun bs hi => kl.intact bs (hk.intact bs hi)⟩
  rcases kl.state with hs | ⟨hne, hs⟩
  · rw [hs]
    exact hk.state
  · rcases hk.state with hs' | ⟨hne', _⟩
    · exact .inr ⟨hs' ▸ hne, hs⟩
    · exact .inr ⟨hne', hs⟩

theorem intact_congr {h k : Hosted P} {bs : List Byte} (hc : k.conn = h.conn) (ht : k.trace = h.trace)
    (hi : Intact (h, bs)) : Intact (k, bs) := by
  obtain ⟨h₁, h₂, h₃, h₄, h₅⟩ := hi
  simp only [← hc, ← ht] at h₁ h₂ h₃ h₄ h₅
  exact ⟨h₁, h₂, h₃, h₄, h₅⟩

theorem gentle_of_conn {h k : Hosted P} (hc : k.conn = h.conn) (ht : k.trace = h.trace)
    (hm : messages k = messages h) : Gentle h k :=
  ⟨.inl (by rw [hc]), hm, by rw [ht], by rw [hc], fun _ => intact_congr hc ht⟩

theorem queueInLoop_gentle {f : Functor} (hf : message f = none) (h : Hosted P) : Gentle h (queueInLoop f h) := by
  refine gentle_of_conn rfl rfl ?_
  simp [messages, TcpConnection.queueInLoop, hf]

theorem pop_gentle {h : Hosted P} {f : Functor} {fs : List Functor} (hp : h.pendingFunctors = f :: fs)
    (hf : message f = none) : Gentle h { h with pendingFunctors := fs } := by
  refine gentle_of_conn rfl rfl ?_
  simp [messages, hp, hf]

theorem setState_gentle {h : Hosted P} (hne : h.conn.state ≠ .kDisconnected) :
    Gentle h (setState .kDisconnecting h) :=
  ⟨.inr ⟨hne, rfl⟩, rfl, rfl, rfl,
    fun _ hi => ⟨.inr rfl, hi.wellFormed, hi.conserved, hi.coupled, hi.drained⟩⟩

theorem shutdownInLoop_gentle (h : Hosted P) : Gentle h (shutdownInLoop h) := by
  obtain ⟨es, ht, ha, _⟩ := OutputStream.shutdownInLoop_trace h
  have hc := OutputStream.shutdownInLoop_conn h
  refine ⟨.inl (by rw [hc]), ?_, ?_, by rw [hc], fun bs hi => OutputStream.shutdownInLoop_intact (s := (h, bs)) hi⟩
  · simp only [shutdownInLoop]
    split
    · rfl
    · rfl
  · rw [ht, accepted_append, ha, List.append_nil]

theorem startReadInLoop_gentle (h : Hosted P) : Gentle h (startReadInLoop h) := by
  refine ⟨?_, ?_, ?_, ?_, fun bs hi => OutputStream.startReadInLoop_intact (s := (h, bs)) hi⟩
  all_goals
    simp only [startReadInLoop]
    split
  · exact .inl rfl
  · exact .inl rfl
  · rfl
  · rfl
  · rfl
  · rfl
  · exact OutputStream.isWriting_enableReading _ _
  · rfl

theorem stopReadInLoop_gentle (h : Hosted P) : Gentle h (stopReadInLoop h) := by
  refine ⟨?_, ?_, ?_, ?_, fun bs hi => OutputStream.stopReadInLoop_intact (s := (h, bs)) hi⟩
  all_goals
    simp only [stopReadInLoop]
    split
  · exact .inl rfl
  · exact .inl rfl
  · rfl
  · rfl
  · rfl
  · rfl
  · exact OutputStream.isWriting_disableReading _ _
  · rfl

theorem emit_gentle {e : Effect} (ha : acceptedBy e = []) (hd : Drained e) (h : Hosted P) : Gentle h (emit e h) := by
  have hacc : accepted (emit e h).trace = accepted h.trace := by
    simp [emit, accepted, ha]
  refine ⟨.inl rfl, rfl, hacc, rfl, fun bs hi => ⟨hi.connected, hi.wellFormed, ?_, hi.coupled, ?_⟩⟩
  · simp only [hacc]
    exact hi.conserved
  · exact List.forall_mem_append.mpr ⟨hi.drained, by simpa using hd⟩

theorem removeDestroyed_gentle (h : Hosted P) : Gentle h (removeDestroyed h) := by
  have hr : Gentle h (onChannel Channel.remove h) :=
    ⟨.inl rfl, rfl, rfl, rfl, fun _ hi => ⟨hi.connected, hi.wellFormed, hi.conserved, hi.coupled, hi.drained⟩⟩
  exact hr.trans (emit_gentle (e := .returnConnectDestroyed) rfl trivial _)

theorem handleRead_gentle {r : ReadResult} (hr : r ≠ .received []) (h : Hosted P) : Gentle h (handleRead r h) := by
  cases r with
  | failed e => exact .refl h
  | received bs =>
      cases bs with
      | nil => exact absurd rfl hr
      | cons b bs =>
          have hi : Gentle h (setInput (h.conn.inputBuffer.readFd (b :: bs)) h) :=
            ⟨.inl rfl, rfl, rfl, rfl, fun _ hi => ⟨hi.connected, hi.wellFormed, hi.conserved, hi.coupled, hi.drained⟩⟩
          exact hi.trans (emit_gentle (e := .messageCallback) rfl trivial _)

theorem forceClose_gentle (h : Hosted P) : Gentle h (forceClose h) := by
  simp only [forceClose]
  split
  · rename_i hc
    have hne : h.conn.state ≠ .kDisconnected := by
      rcases hc with hc | hc <;> simp [hc]
    exact (setState_gentle hne).trans (queueInLoop_gentle rfl _)
  · exact .refl h

theorem loopCall_gentle {c : Call} (hc : ∀ m, c ≠ .send m) (r : WriteResult) (h : Hosted P) :
    Gentle h (applyCall true r h c) := by
  cases c with
  | send m => exact absurd rfl (hc m)
  | shutdown =>
      simp only [applyCall, shutdown]
      split
      · rename_i hst
        exact (setState_gentle (by simp [hst])).trans (shutdownInLoop_gentle _)
      · exact .refl h
  | forceClose => exact forceClose_gentle h
  | forceCloseWithDelay =>
      simp only [applyCall, forceCloseWithDelay]
      split
      · rename_i hst
        have hne : h.conn.state ≠ .kDisconnected := by
          rcases hst with hst | hst <;> simp [hst]
        exact (setState_gentle hne).trans (gentle_of_conn rfl rfl rfl)
      · exact .refl h
  | startRead => exact startReadInLoop_gentle h
  | stopRead => exact stopReadInLoop_gentle h

theorem finishCall_gentle {c : Call} (hc : ∀ m, c ≠ .send m) (h : Hosted P) : Gentle h (finishCall h c) := by
  cases c with
  | send m => exact absurd rfl (hc m)
  | forceCloseWithDelay => exact gentle_of_conn rfl rfl rfl
  | shutdown | forceClose | startRead | stopRead => exact queueInLoop_gentle rfl h

structure Ends (h k : Hosted P) : Prop where
  state : k.conn.state = .kDisconnected
  messages : messages k = messages h
  accepted : accepted k.trace = accepted h.trace
  writing : k.conn.channel.isWriting = false

theorem isWriting_disableAll (self : P) (s : Channel × EpollPoller P) :
    (Channel.disableAll self s).1.isWriting = false := by
  rw [Channel.isWriting, Channel.disableAll, Bookkeeping.setEvents_events]
  rfl

theorem handleClose_ends (h : Hosted P) : Ends h (handleClose h) := by
  refine ⟨rfl, rfl, ?_, isWriting_disableAll _ _⟩
  simp [handleClose, emit, onChannel, setState, accepted, acceptedBy]

theorem destroyEnd_ends (h : Hosted P) : Ends h (removeDestroyed (notifyDown h)) := by
  have hn : Ends h (notifyDown h) := by
    refine ⟨rfl, rfl, ?_, isWriting_disableAll _ _⟩
    simp [notifyDown, emit, onChannel, setState, accepted, acceptedBy]
  have hr := removeDestroyed_gentle (notifyDown h)
  exact ⟨rfl, hr.messages.trans hn.messages, hr.accepted.trans hn.accepted, hr.writing.trans hn.writing⟩

theorem ofThread_append (t : Option T) (ms ns : List (Message T)) :
    ofThread t (ms ++ ns) = ofThread t ms ++ ofThread t ns :=
  List.filter_append ..

theorem ofThread_self (t : Option T) (m : List Byte) : ofThread t [(t, m)] = [(t, m)] := by
  simp [ofThread]

theorem ofThread_other {t u : Option T} (h : u ≠ t) (m : List Byte) : ofThread t [(u, m)] = [] := by
  simp [ofThread, h]

theorem Inv.gentle {s : Tagged T P} {e : Event T} (hi : Inv s) (hrec : s.record e = s)
    (hg : Gentle s.hosted (CrossThread.next s.shared e).hosted)
    (hhand : ∀ t, inHand (CrossThread.next s.shared e) t = inHand s.shared t) : Inv (s.next e) := by
  rw [Tagged.next, hrec]
  generalize CrossThread.next s.shared e = u at hg hhand
  have hback : Healthy { s with shared := u } → Healthy s := by
    rintro ⟨hf, hd⟩
    refine ⟨hf, ?_⟩
    rcases hg.state with hs | ⟨hne, _⟩
    · rwa [← hs]
    · exact hne
  have hconn : u.hosted.conn.state = .kConnected → s.hosted.conn.state = .kConnected := by
    intro hc
    rcases hg.state with hs | ⟨_, hs⟩
    · rwa [← hs]
    · simp [hs] at hc
  refine ⟨hg.messages.trans hi.queue, hi.loopless, ?_, hi.order, fun h => ?_, fun h t => ?_, fun h hc t => ?_,
    fun hd => ?_, ?_⟩
  · simp only [Tagged.hosted, hg.accepted]
    exact hi.written
  · exact hg.intact _ (hi.healthy (hback h))
  · rw [hhand]
    exact hi.live (hback h) t
  · rw [hhand]
    exact hi.current (hback h) (hconn hc) t
  · have hw : u.hosted.conn.channel.isWriting = s.hosted.conn.channel.isWriting := hg.writing
    rcases hg.state with hs | ⟨_, hs⟩
    · exact hw.trans (hi.closed (hs ▸ hd))
    · rw [show u.hosted.conn.state = _ from hd] at hs
      cases hs
  · rcases hg.state with hs | ⟨_, hs⟩
    · simp only [Tagged.hosted, hs]
      exact hi.started
    · simp [Tagged.hosted, hs]

theorem Inv.ends {s : Tagged T P} {e : Event T} (hi : Inv s) (hrec : s.record e = s)
    (he : Ends s.hosted (CrossThread.next s.shared e).hosted) : Inv (s.next e) := by
  rw [Tagged.next, hrec]
  generalize CrossThread.next s.shared e = u at he
  have hno : ¬ Healthy { s with shared := u } := fun h => h.2 he.state
  refine ⟨he.messages.trans hi.queue, hi.loopless, ?_, hi.order, fun h => absurd h hno, fun h => absurd h hno,
    fun h => absurd h hno, fun _ => he.writing, ?_⟩
  · simp only [Tagged.hosted, he.accepted]
    exact hi.written
  · simp [Tagged.hosted, he.state]

theorem Inv.refused {s : Tagged T P} (hi : Inv s) (hc : s.hosted.conn.state ≠ .kConnected) (m : Message T) :
    Inv { s with sent := s.sent ++ [m] } := by
  have hext : ∀ t, ofThread t s.sent <+: ofThread t (s.sent ++ [m]) := fun t => by
    rw [ofThread_append]
    exact List.prefix_append _ _
  exact ⟨hi.queue, hi.loopless, hi.written, fun t => (hi.order t).trans (hext t), hi.healthy,
    fun h t => (hi.live h t).trans (hext t), fun _ h => absurd h hc, hi.closed, hi.started⟩

theorem steady_messages {h k : Hosted P} (hk : Steady h k) : messages k = messages h := by
  obtain ⟨ws, hw, hws⟩ := hk.pending
  have hnil : ws.filterMap message = [] := by
    rw [List.filterMap_eq_nil_iff]
    intro f hf
    rw [hws f hf]
    rfl
  rw [messages, hw, List.filterMap_append, hnil, List.append_nil]
  rfl

theorem written_of_intact {h : Hosted P} {bs : List Byte} (hi : Intact (h, bs)) : accepted h.trace <+: bs :=
  ⟨_, hi.conserved⟩

theorem sendInLoop_failed (data : List Byte) (e : Errno) (h : Hosted P) :
    accepted (sendInLoop data (.failed e) h).trace = accepted h.trace := by
  apply sendInLoop_rule (Q := fun k => accepted k.trace = accepted h.trace)
  · rfl
  · simp [directWrite, emit, accepted, acceptedBy]
  · intro rest k hk
    rw [← hk]
    simp only [bufferOutput]
    split
    · rfl
    · rfl

structure Ready (w : Message T) (s : Tagged T P) : Prop where
  queue : messages s.hosted = s.waiting.map Prod.snd
  loopless : ofThread none s.waiting = []
  written : accepted s.hosted.trace <+: bytes s.passed
  order : ∀ t, ofThread t s.passed <+: ofThread t s.sent
  healthy : Healthy s → Intact (s.hosted, bytes s.passed)
  live : Healthy s → ∀ t, ofThread t (s.passed ++ [w]) ++ ofThread t s.waiting ++ inHand s.shared t <+: ofThread t s.sent
  current : Healthy s → s.hosted.conn.state = .kConnected →
    ∀ t, ofThread t (s.passed ++ [w]) ++ ofThread t s.waiting ++ inHand s.shared t = ofThread t s.sent
  closed : s.hosted.conn.state = .kDisconnected → s.hosted.conn.channel.isWriting = false
  started : s.hosted.conn.state ≠ .kConnecting

theorem Ready.broken {w : Message T} {s u : Tagged T P} (hr : Ready w s) (hm : messages u.hosted = messages s.hosted)
    (ha : accepted u.hosted.trace <+: bytes s.passed) (hst : u.hosted.conn.state = s.hosted.conn.state)
    (hwr : u.hosted.conn.state = .kDisconnected → u.hosted.conn.channel.isWriting = false) (hsent : u.sent = s.sent)
    (hwait : u.waiting = s.waiting) (hpass : u.passed = s.passed) (hno : ¬ Healthy u) : Inv u := by
  refine ⟨?_, ?_, ?_, ?_, fun h => absurd h hno, fun h => absurd h hno, fun h => absurd h hno, hwr, ?_⟩
  · rw [hm, hwait]
    exact hr.queue
  · rw [hwait]
    exact hr.loopless
  · rw [hpass]
    exact ha
  · rw [hpass, hsent]
    exact hr.order
  · rw [hst]
    exact hr.started

theorem Ready.execute {w : Message T} {s : Tagged T P} (hr : Ready w s) (r : WriteResult)
    (hfit : s.hosted.conn.state ≠ .kDisconnected →
      (buffered w.2 r s.hosted).length ≤ s.hosted.conn.outputBuffer.writeableBytes)
    (hstick : s.faulted = true → ∀ n, r ≠ .wrote n) :
    Inv ((s.execute w r).setHosted (sendInLoop w.2 r s.hosted)) := by
  have hsteady := sendInLoop_steady w.2 r s.hosted
  have hmess := steady_messages hsteady
  by_cases hd : s.hosted.conn.state = .kDisconnected
  · have hs : sendInLoop w.2 r s.hosted = s.hosted := by simp [sendInLoop, hd]
    have hx : s.execute w r = s := by simp [Tagged.execute, hd]
    rw [hx, hs]
    exact hr.broken rfl hr.written rfl hr.closed rfl rfl rfl fun h => h.2 hd
  · have hne : (sendInLoop w.2 r s.hosted).conn.state ≠ .kDisconnected := by rwa [hsteady.state]
    by_cases hf : s.faulted = true
    · cases r with
      | wrote n => exact absurd rfl (hstick hf n)
      | failed e =>
          have hx : s.execute w (.failed e) = s := by
            simp only [Tagged.execute, hd, if_false]
            split
            · rw [← hf]
            · simp
          rw [hx]
          have hacc : accepted (sendInLoop w.2 (.failed e) s.hosted).trace <+: bytes s.passed := by
            rw [sendInLoop_failed]
            exact hr.written
          refine hr.broken hmess hacc hsteady.state (fun h => absurd h hne) rfl rfl rfl fun h => ?_
          simp [Healthy, Tagged.setHosted, hf] at h
    · have hh : Healthy s := ⟨by simpa using hf, hd⟩
      have hint := OutputStream.sendInLoop_intact (hr.healthy hh) w.2 r (hfit hd)
      by_cases hx : Direct s.hosted ∧ faulty r = true
      · have hk : kept w.2 r s.hosted = [] := if_pos hx
        simp only [hk, List.append_nil] at hint
        have he : s.execute w r = { s with faulted := true } := by simp [Tagged.execute, hd, hx]
        rw [he]
        refine hr.broken hmess (written_of_intact hint) hsteady.state (fun h => absurd h hne) rfl rfl rfl fun h => ?_
        simp [Healthy, Tagged.setHosted] at h
      · have hk : kept w.2 r s.hosted = w.2 := if_neg hx
        simp only [hk] at hint
        rw [← bytes_append_singleton] at hint
        have he : s.execute w r = { s with passed := s.passed ++ [w] } := by
          simp [Tagged.execute, hd, hx, hf]
        rw [he]
        refine ⟨hmess.trans hr.queue, hr.loopless, written_of_intact hint, fun t => ?_, fun _ => hint,
          fun _ => hr.live hh, fun _ hc => hr.current hh (hsteady.state ▸ hc), fun h => absurd h hne, ?_⟩
        · refine List.IsPrefix.trans ?_ (hr.live hh t)
          rw [List.append_assoc]
          exact List.prefix_append _ _
        · change (sendInLoop w.2 r s.hosted).conn.state ≠ .kConnecting
          rw [hsteady.state]
          exact hr.started

theorem inHand_setCaller_self (s : Shared T P) (t : T) (c : Caller) :
    inHand (s.setCaller t c) (some t) = handOf t c := by
  simp [inHand, Shared.setCaller]

theorem inHand_setCaller_other (s : Shared T P) {t : T} {u : Option T} (h : u ≠ some t) (c : Caller) :
    inHand (s.setCaller t c) u = inHand s u := by
  cases u with
  | none => rfl
  | some u =>
      have hne : u ≠ t := fun he => h (he ▸ rfl)
      simp [inHand, Shared.setCaller, hne]

theorem inHand_setCaller {s : Shared T P} {t : T} {c : Caller} (h : handOf t c = handOf t (s.callers t))
    (u : Option T) : inHand (s.setCaller t c) u = inHand s u := by
  by_cases hu : u = some t
  · rw [hu, inHand_setCaller_self, h]
    rfl
  · exact inHand_setCaller_other s hu c

theorem accept_inv {s : Tagged T P} (hi : Inv s) {t : T} (hhand : handOf t (s.shared.callers t) = [])
    (hc : s.hosted.conn.state = .kConnected) (m : List Byte) :
    Inv { s with shared := s.shared.setCaller t (.tested (.send m)), sent := s.sent ++ [(some t, m)] } := by
  have hnew : Healthy s → ∀ u, ofThread u s.passed ++ ofThread u s.waiting ++
      inHand (s.shared.setCaller t (.tested (.send m))) u = ofThread u (s.sent ++ [(some t, m)]) := by
    intro h u
    have hcur := hi.current h hc u
    rw [ofThread_append]
    by_cases hu : u = some t
    · subst hu
      rw [show inHand s.shared (some t) = [] from hhand, List.append_nil] at hcur
      rw [inHand_setCaller_self, ofThread_self, hcur]
      rfl
    · rw [inHand_setCaller_other s.shared hu, ofThread_other (Ne.symm hu), List.append_nil]
      exact hcur
  refine ⟨hi.queue, hi.loopless, hi.written, fun u => ?_, hi.healthy, fun h u => ?_, fun h _ => hnew h, hi.closed,
    hi.started⟩
  · rw [ofThread_append]
    exact (hi.order u).trans (List.prefix_append _ _)
  · have he := hnew h u
    exact he ▸ List.prefix_rfl

theorem test_inv {s : Tagged T P} (hi : Inv s) {t : T} (hidle : (s.shared.callers t).isIdle = true) (c : Call) :
    Inv (s.next (.test t c)) := by
  have hhand : handOf t (s.shared.callers t) = [] := by
    cases hcall : s.shared.callers t with
    | idle => rfl
    | tested | stored => simp [hcall, Caller.isIdle] at hidle
  by_cases had : admits s.hosted.conn.state c = true
  · have hn : CrossThread.next s.shared (.test t c) = s.shared.setCaller t (.tested c) := if_pos had
    cases c with
    | send m =>
        simp only [Tagged.next, Tagged.record, hn]
        exact accept_inv hi hhand (by simpa [admits] using had) m
    | shutdown | forceClose | forceCloseWithDelay | startRead | stopRead =>
        apply hi.gentle rfl
        · rw [hn]
          exact .refl _
        · rw [hn]
          exact inHand_setCaller hhand.symm
  · have hn : CrossThread.next s.shared (.test t c) = s.shared := if_neg had
    cases c with
    | send m =>
        simp only [Tagged.next, Tagged.record, hn]
        exact hi.refused (by simpa [admits] using had) _
    | shutdown | forceClose | forceCloseWithDelay | startRead | stopRead =>
        apply hi.gentle rfl
        · rw [hn]
          exact .refl _
        · rw [hn]
          exact fun _ => rfl

theorem store_inv {s : Tagged T P} (hi : Inv s) {t : T} (hd : s.hosted.conn.state ≠ .kDisconnected) :
    Inv (s.next (.store t)) := by
  cases hc : s.shared.callers t with
  | idle | stored =>
      have hn : CrossThread.next s.shared (.store t) = s.shared := by simp [CrossThread.next, hc]
      apply hi.gentle rfl
      · rw [hn]
        exact .refl _
      · rw [hn]
        exact fun _ => rfl
  | tested c =>
      have hn : CrossThread.next s.shared (.store t) =
          { s.shared.setCaller t (.stored c) with hosted := setState .kDisconnecting s.shared.hosted } := by
        simp [CrossThread.next, hc]
      apply hi.gentle rfl
      · rw [hn]
        exact setState_gentle hd
      · rw [hn]
        apply inHand_setCaller
        rw [hc]
        rfl

theorem push_inv {s : Tagged T P} (hi : Inv s) {t : T} {m : List Byte}
    (hc : handOf t (s.shared.callers t) = [(some t, m)]) :
    Inv { s with
      shared := { s.shared.setCaller t .idle with hosted := queueInLoop (.sendInLoop m) s.shared.hosted }
      waiting := s.waiting ++ [(some t, m)] } := by
  have hsame : ∀ u, ofThread u s.passed ++ ofThread u (s.waiting ++ [(some t, m)]) ++
      inHand (s.shared.setCaller t .idle) u =
      ofThread u s.passed ++ ofThread u s.waiting ++ inHand s.shared u := by
    intro u
    rw [ofThread_append]
    by_cases hu : u = some t
    · subst hu
      rw [inHand_setCaller_self, ofThread_self, show inHand s.shared (some t) = _ from hc, ← List.append_assoc]
      exact List.append_nil _
    · rw [inHand_setCaller_other s.shared hu, ofThread_other (Ne.symm hu), List.append_nil]
  refine ⟨?_, ?_, hi.written, hi.order, fun h => intact_congr (h := s.hosted) rfl rfl (hi.healthy h), fun h u => ?_,
    fun h hst u => ?_,
    hi.closed, hi.started⟩
  · have hq : messages s.shared.hosted = _ := hi.queue
    simp only [messages] at hq
    simp [Tagged.hosted, messages, TcpConnection.queueInLoop, hq, message]
  · rw [ofThread_append, hi.loopless, ofThread_other (by simp)]
    rfl
  · refine List.IsPrefix.trans ?_ (hi.live h u)
    rw [← hsame u]
    exact List.prefix_rfl
  · exact (hsame u).trans (hi.current h hst u)

theorem finish_inv {s : Tagged T P} (hi : Inv s) (t : T) : Inv (s.next (.finish t)) := by
  cases hcall : (s.shared.callers t).call with
  | none =>
      have hc : s.shared.callers t = .idle := by
        cases hc : s.shared.callers t with
        | idle => rfl
        | tested | stored => simp [hc, Caller.call] at hcall
      have hn : CrossThread.next s.shared (.finish t) = s.shared := by simp [CrossThread.next, hc]
      apply hi.gentle
      · simp [Tagged.record, hcall]
      · rw [hn]
        exact .refl _
      · rw [hn]
        exact fun _ => rfl
  | some c =>
      have hn : CrossThread.next s.shared (.finish t) =
          { s.shared.setCaller t .idle with hosted := finishCall s.shared.hosted c } := by
        cases hc : s.shared.callers t with
        | idle => simp [hc, Caller.call] at hcall
        | tested d | stored d =>
            have hd : d = c := by simpa [hc, Caller.call] using hcall
            simp [CrossThread.next, hc, hd]
      by_cases hs : ∃ m, c = .send m
      · obtain ⟨m, rfl⟩ := hs
        simp only [Tagged.next, Tagged.record, hcall, hn]
        apply push_inv hi
        simp only [handOf, hcall]
      · have hc : ∀ m, c ≠ .send m := fun m hm => hs ⟨m, hm⟩
        apply hi.gentle
        · simp only [Tagged.record, hcall]
          cases c with
          | send m => exact absurd rfl (hc m)
          | shutdown | forceClose | forceCloseWithDelay | startRead | stopRead => rfl
        · rw [hn]
          exact finishCall_gentle hc _
        · rw [hn]
          apply inHand_setCaller
          rw [handOf_nil hcall hc]
          rfl

theorem loop_ready {s : Tagged T P} (hi : Inv s) (hc : s.hosted.conn.state = .kConnected) (m : List Byte) :
    Ready (none, m) { s with sent := s.sent ++ [(none, m)] } := by
  have hnew : Healthy s → ∀ u, ofThread u (s.passed ++ [(none, m)]) ++ ofThread u s.waiting ++ inHand s.shared u =
      ofThread u (s.sent ++ [(none, m)]) := by
    intro h u
    have hcur := hi.current h hc u
    rw [ofThread_append, ofThread_append]
    by_cases hu : u = none
    · subst hu
      rw [hi.loopless, show inHand s.shared none = [] from rfl, List.append_nil, List.append_nil] at hcur
      rw [ofThread_self, hi.loopless, hcur]
      simp [inHand]
    · rw [ofThread_other (Ne.symm hu), List.append_nil, List.append_nil]
      exact hcur
  refine ⟨hi.queue, hi.loopless, hi.written, fun u => ?_, hi.healthy, fun h u => ?_, fun h _ => hnew h, hi.closed,
    hi.started⟩
  · rw [ofThread_append]
    exact (hi.order u).trans (List.prefix_append _ _)
  · have he := hnew h u
    exact he ▸ List.prefix_rfl

theorem loopCall_inv {s : Tagged T P} (hi : Inv s) {c : Call} {r : WriteResult}
    (he : Admissible s (.loopCall c r)) : Inv (s.next (.loopCall c r)) := by
  have hg : (∀ m, c ≠ .send m) → Gentle s.hosted (CrossThread.next s.shared (.loopCall c r)).hosted := fun hc =>
    loopCall_gentle hc r s.hosted
  cases c with
  | send m =>
      by_cases hc : s.hosted.conn.state = .kConnected
      · have hr := (loop_ready hi hc m).execute r
          (he.fits (m, r, s.hosted) (if_pos hc)) fun hf n hn => by
            subst hn
            cases he.sticky hf
        have hn : CrossThread.next s.shared (.loopCall (.send m) r) =
            { s.shared with hosted := sendInLoop m r s.shared.hosted } := by
          have hc' : s.shared.hosted.conn.state = .kConnected := hc
          simp [CrossThread.next, applyCall, send, runInLoop, runFunctor, hc']
        have hx : s.next (.loopCall (.send m) r) =
            ({ s with sent := s.sent ++ [(none, m)] }.execute (none, m) r).setHosted (sendInLoop m r s.hosted) := by
          have hrec : s.record (.loopCall (.send m) r) =
              { s with sent := s.sent ++ [(none, m)] }.execute (none, m) r := if_pos hc
          rw [Tagged.next, hn, hrec]
          exact execute_shared (none, m) r { s with sent := s.sent ++ [(none, m)] } _
        rw [hx]
        exact hr
      · have hn : CrossThread.next s.shared (.loopCall (.send m) r) = s.shared := by
          have hc' : s.shared.hosted.conn.state ≠ .kConnected := hc
          simp [CrossThread.next, applyCall, send, hc']
        have hrec : s.record (.loopCall (.send m) r) = { s with sent := s.sent ++ [(none, m)] } := if_neg hc
        rw [Tagged.next, hn, hrec]
        exact hi.refused hc _
  | shutdown | forceClose | forceCloseWithDelay | startRead | stopRead =>
      exact hi.gentle rfl (hg (by simp)) fun _ => rfl

theorem handleWrite_failed (e : Errno) (h : Hosted P) :
    accepted (handleWrite (.failed e) h).trace = accepted h.trace := by
  simp only [handleWrite]
  split
  · simp [emit, accepted, acceptedBy]
  · rfl

theorem writeEvent_inv {s : Tagged T P} (hi : Inv s) {r : WriteResult} (hstick : s.faulted = true → ∀ n, r ≠ .wrote n) :
    Inv (s.next (.writeEvent r)) := by
  have hsteady := handleWrite_steady r s.hosted
  have hback : Healthy (s.next (.writeEvent r)) → Healthy s := fun h => ⟨h.1, fun hd => h.2 (hsteady.state.trans hd)⟩
  have hidle : s.hosted.conn.state = .kDisconnected → handleWrite r s.hosted = s.hosted := fun hd => by
    simp [handleWrite, hi.closed hd]
  have hint : Healthy s → Intact (handleWrite r s.hosted, bytes s.passed) := fun h =>
    OutputStream.handleWrite_intact (hi.healthy h) r
  have hwritten : accepted (handleWrite r s.hosted).trace <+: bytes s.passed := by
    by_cases hd : s.hosted.conn.state = .kDisconnected
    · rw [hidle hd]
      exact hi.written
    · by_cases hf : s.faulted = true
      · cases r with
        | wrote n => exact absurd rfl (hstick hf n)
        | failed e =>
            rw [handleWrite_failed]
            exact hi.written
      · exact written_of_intact (hint ⟨by simpa using hf, hd⟩)
  refine ⟨(steady_messages hsteady).trans hi.queue, hi.loopless, hwritten, hi.order, fun h => hint (hback h),
    fun h => hi.live (hback h), fun h hc => hi.current (hback h) (hsteady.state ▸ hc), fun hd => ?_, ?_⟩
  · have hd' : s.hosted.conn.state = .kDisconnected := hsteady.state.symm.trans hd
    change (handleWrite r s.hosted).conn.channel.isWriting = false
    rw [hidle hd']
    exact hi.closed hd'
  · change (handleWrite r s.hosted).conn.state ≠ .kConnecting
    rw [hsteady.state]
    exact hi.started

theorem pop_ready {s : Tagged T P} (hi : Inv s) {m : List Byte} {fs : List Functor}
    (hp : s.hosted.pendingFunctors = .sendInLoop m :: fs) :
    ∃ x ws, s.waiting = (x, m) :: ws ∧
      Ready (x, m) ({ s with waiting := ws }.setHosted { s.hosted with pendingFunctors := fs }) := by
  have hq := hi.queue
  rw [messages, hp] at hq
  obtain ⟨w, ws, hw, hm, hfs⟩ := List.map_eq_cons_iff.mp hq.symm
  obtain ⟨x, m'⟩ := w
  obtain rfl : m' = m := hm
  have hsame : ∀ u, ofThread u (s.passed ++ [(x, m')]) ++ ofThread u ws =
      ofThread u s.passed ++ ofThread u s.waiting := fun u => by
    rw [hw, ofThread_append, List.append_assoc, ← ofThread_append]
    rfl
  refine ⟨x, ws, hw, hfs.symm, ?_, hi.written, hi.order, fun h => intact_congr (h := s.hosted) rfl rfl (hi.healthy h),
    fun h u => ?_, fun h hc u => ?_, hi.closed, hi.started⟩
  · have hl := hi.loopless
    rw [hw] at hl
    exact (List.append_eq_nil_iff.mp ((ofThread_append none [(x, m')] ws).symm.trans hl)).2
  · have hl := hi.live h u
    rw [← hsame u] at hl
    exact hl
  · have hl := hi.current h hc u
    rw [← hsame u] at hl
    exact hl

theorem sendFunctor_inv {s : Tagged T P} (hi : Inv s) {r : WriteResult} (he : Admissible s (.functor r)) {m : List Byte}
    {fs : List Functor} (hp : s.hosted.pendingFunctors = .sendInLoop m :: fs) : Inv (s.next (.functor r)) := by
  obtain ⟨x, ws, hw, hr⟩ := pop_ready hi hp
  have hp' : s.shared.hosted.pendingFunctors = .sendInLoop m :: fs := hp
  have hsend : sending s.shared (.functor r) = some (m, r, { s.shared.hosted with pendingFunctors := fs }) := by
    simp [sending, hp']
  have hx := hr.execute r (he.fits _ hsend) fun hf n hn => by
    subst hn
    cases he.sticky hf
  have hn : CrossThread.next s.shared (.functor r) =
      { s.shared with hosted := sendInLoop m r { s.shared.hosted with pendingFunctors := fs } } := by
    simp [CrossThread.next, hp', runFunctor]
  have hrec : s.record (.functor r) = { s with waiting := ws }.execute (x, m) r := by
    simp [Tagged.record, hp, hw]
  rw [execute_setHosted (h := { s.hosted with pendingFunctors := fs }) (x, m) r { s with waiting := ws } rfl] at hx
  rw [Tagged.next, hn, hrec]
  exact Eq.mp (congrArg Inv (execute_shared (x, m) r { s with waiting := ws } _).symm) hx

theorem functor_inHand (s : Shared T P) (r : WriteResult) (t : Option T) :
    inHand (CrossThread.next s (.functor r)) t = inHand s t := by
  simp only [CrossThread.next]
  split
  · rfl
  · rfl
  · rfl

theorem functor_gentle {s : Shared T P} {r : WriteResult} {f : Functor} {fs : List Functor}
    (hp : s.hosted.pendingFunctors = f :: fs) (hm : message f = none)
    (hc : f = .forceCloseInLoop → ¬ (s.hosted.conn.state = .kConnected ∨ s.hosted.conn.state = .kDisconnecting)) :
    Gentle s.hosted (CrossThread.next s (.functor r)).hosted := by
  have hpop := pop_gentle hp hm
  cases f with
  | sendInLoop m => cases hm
  | shutdownInLoop =>
      simp only [CrossThread.next, hp]
      exact hpop.trans (shutdownInLoop_gentle _)
  | startReadInLoop =>
      simp only [CrossThread.next, hp]
      exact hpop.trans (startReadInLoop_gentle _)
  | stopReadInLoop =>
      simp only [CrossThread.next, hp]
      exact hpop.trans (stopReadInLoop_gentle _)
  | forceCloseInLoop =>
      simp only [CrossThread.next, hp, runFunctor, forceCloseInLoop]
      rw [if_neg (hc rfl)]
      exact hpop
  | connectDestroyed | writeCompleteCallback =>
      simp only [CrossThread.next, hp]
      exact hpop

theorem functor_inv {s : Tagged T P} (hi : Inv s) {r : WriteResult} (he : Admissible s (.functor r)) :
    Inv (s.next (.functor r)) := by
  cases hp : s.hosted.pendingFunctors with
  | nil =>
      have hp' : s.shared.hosted.pendingFunctors = [] := hp
      have hn : CrossThread.next s.shared (.functor r) = s.shared := by simp [CrossThread.next, hp']
      apply hi.gentle
      · simp [Tagged.record, hp]
      · rw [hn]
        exact .refl _
      · rw [hn]
        exact fun _ => rfl
  | cons f fs =>
      have hp' : s.shared.hosted.pendingFunctors = f :: fs := hp
      have hrec : message f = none → s.record (.functor r) = s := by
        intro hf
        cases f with
        | sendInLoop m => cases hf
        | _ => simp only [Tagged.record, hp]
      cases f with
      | sendInLoop m => exact sendFunctor_inv hi he hp
      | forceCloseInLoop =>
          by_cases hc : s.hosted.conn.state = .kConnected ∨ s.hosted.conn.state = .kDisconnecting
          · have hn : (CrossThread.next s.shared (.functor r)).hosted =
                handleClose { s.hosted with pendingFunctors := fs } := by
              simp only [CrossThread.next, hp', runFunctor, forceCloseInLoop]
              exact if_pos hc
            have hg := pop_gentle hp rfl
            have hx := handleClose_ends { s.hosted with pendingFunctors := fs }
            apply hi.ends (hrec rfl)
            rw [hn]
            exact ⟨hx.state, hx.messages.trans hg.messages, hx.accepted, hx.writing⟩
          · exact hi.gentle (hrec rfl) (functor_gentle hp' rfl fun _ => hc) (functor_inHand s.shared r)
      | shutdownInLoop | startReadInLoop | stopReadInLoop | connectDestroyed | writeCompleteCallback =>
          exact hi.gentle (hrec rfl) (functor_gentle hp' rfl fun h => by cases h) (functor_inHand s.shared r)

theorem step_inv (s : Tagged T P) (e : Event T) (hi : Inv s) (he : Admissible s e ∧ Undisturbed s e) :
    Inv (s.next e) := by
  obtain ⟨he, hun⟩ := he
  cases e with
  | test t c => exact test_inv hi he.enabled c
  | store t => exact store_inv hi (hun rfl)
  | finish t => exact finish_inv hi t
  | loopCall c r => exact loopCall_inv hi he
  | functor r => exact functor_inv hi he
  | delayedClose =>
      refine hi.gentle rfl (Gentle.trans ?_ (forceClose_gentle _)) fun _ => rfl
      exact gentle_of_conn rfl rfl rfl
  | readEvent r =>
      by_cases hr : r = .received []
      · subst hr
        exact hi.ends rfl (handleClose_ends _)
      · exact hi.gentle rfl (handleRead_gentle hr _) fun _ => rfl
  | writeEvent r =>
      refine writeEvent_inv hi fun hf n hn => ?_
      subst hn
      cases he.sticky hf
  | queueDestroyed => exact hi.gentle rfl (queueInLoop_gentle rfl s.hosted) fun _ => rfl
  | destroyInLoop => exact hi.gentle rfl (.refl s.hosted) fun _ => rfl
  | destroyEnd =>
      cases hd : s.shared.destroying with
      | none =>
          have hn : CrossThread.next s.shared .destroyEnd = s.shared := by simp [CrossThread.next, hd]
          apply hi.gentle rfl
          · rw [hn]
            exact .refl _
          · rw [hn]
            exact fun _ => rfl
      | some connected =>
          cases connected with
          | true =>
              apply hi.ends rfl
              simp only [CrossThread.next, hd]
              exact destroyEnd_ends _
          | false =>
              apply hi.gentle rfl
              · simp only [CrossThread.next, hd]
                exact removeDestroyed_gentle _
              · simp only [CrossThread.next, hd]
                exact fun _ => rfl

theorem start_inv (self : P) (poller : EpollPoller P) (fd : Int) (callback : Bool) :
    Inv (Tagged.start self poller fd callback : Tagged T P) := by
  have hint := OutputStream.established_intact self poller fd callback
  have hhand : ∀ t : Option T, inHand (CrossThread.start self poller fd callback : Shared T P) t = [] := fun t => by
    cases t <;> rfl
  refine ⟨rfl, rfl, written_of_intact hint, fun t => List.prefix_rfl, fun _ => hint, fun _ t => ?_,
    fun _ _ t => hhand t, (fun hd => by cases hd), (fun hd => by cases hd)⟩
  rw [show inHand (Tagged.start self poller fd callback : Tagged T P).shared t = [] from hhand t]
  exact List.prefix_rfl

theorem head_of_order {w : Message T} {ms sent : List (Message T)}
    (h : ofThread w.1 (w :: ms) <+: ofThread w.1 sent) : (ofThread w.1 sent).head? = some w := by
  have hw : ofThread w.1 (w :: ms) = w :: ofThread w.1 ms := List.filter_cons_of_pos (by simp)
  obtain ⟨rest, hrest⟩ := h
  rw [← hrest, hw]
  rfl

end Webserver.SenderOrder
