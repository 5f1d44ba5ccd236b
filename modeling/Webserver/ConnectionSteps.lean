import Webserver.ConnectionLife

namespace Webserver.ConnectionSteps

open TcpConnection ConnectionLife
open Bookkeeping (Consistent Filed setEvents_spec setEvents_events removeChannel_spec)

variable {P : Type}

def filed (h : Hosted P) : Prop := Consistent h.self h.conn.channel h.poller

/-- What every operation other than closing and destroying does: it neither
changes the state nor shows in the life of the connection, and it keeps the
channel filed. -/
structure Mild (h k : Hosted P) : Prop where
  state : k.conn.state = h.conn.state
  life : lifeTrace k = lifeTrace h
  filed : filed h → filed k

theorem Mild.refl (h : Hosted P) : Mild h h := ⟨rfl, rfl, id⟩

theorem Mild.trans {h k l : Hosted P} (hk : Mild h k) (kl : Mild k l) : Mild h l :=
  ⟨kl.state.trans hk.state, kl.life.trans hk.life, fun hf => kl.filed (hk.filed hf)⟩

theorem emit_mild {e : Effect} (he : isLife e = false) (h : Hosted P) : Mild h (emit e h) := by
  refine ⟨rfl, ?_, id⟩
  simp [lifeTrace, emit, he]

theorem onChannel_mild (f : PollMask → PollMask) (h : Hosted P) :
    Mild h (onChannel (Channel.setEvents f) h) :=
  ⟨rfl, rfl, fun hf => (setEvents_spec f hf).1⟩

theorem queueWriteComplete_mild (h : Hosted P) : Mild h (queueWriteComplete h) := by
  simp only [queueWriteComplete]
  split
  · exact (emit_mild rfl h).trans ⟨rfl, rfl, id⟩
  · exact .refl h

theorem directWrite_mild (data : List Byte) (r : WriteResult) (h : Hosted P) :
    Mild h (directWrite data r h).1 := by
  cases r with
  | failed e => exact emit_mild rfl h
  | wrote n =>
      simp only [directWrite]
      split
      · exact (emit_mild rfl h).trans (queueWriteComplete_mild _)
      · exact emit_mild rfl h

theorem bufferOutput_mild (rest : List Byte) (h : Hosted P) : Mild h (bufferOutput rest h) := by
  simp only [bufferOutput]
  split
  · exact ⟨rfl, rfl, id⟩
  · have ho : Mild h (setOutput (h.conn.outputBuffer.append rest) h) := ⟨rfl, rfl, id⟩
    exact ho.trans (onChannel_mild (fun m => m.union Channel.kWriteEvent) _)

theorem sendInLoop_mild (data : List Byte) (r : WriteResult) (h : Hosted P) :
    Mild h (sendInLoop data r h) :=
  sendInLoop_rule (.refl h) (directWrite_mild data r h) fun rest k hk => hk.trans (bufferOutput_mild rest k)

theorem shutdownInLoop_mild (h : Hosted P) : Mild h (shutdownInLoop h) := by
  simp only [shutdownInLoop]
  split
  · exact .refl h
  · exact emit_mild rfl h

theorem startReadInLoop_mild (h : Hosted P) : Mild h (startReadInLoop h) := by
  simp only [startReadInLoop]
  split
  · exact (onChannel_mild _ h).trans ⟨rfl, rfl, id⟩
  · exact .refl h

theorem stopReadInLoop_mild (h : Hosted P) : Mild h (stopReadInLoop h) := by
  simp only [stopReadInLoop]
  split
  · exact (onChannel_mild _ h).trans ⟨rfl, rfl, id⟩
  · exact .refl h

theorem afterWrite_mild (n : Nat) (h : Hosted P) : Mild h (afterWrite n h) := by
  have ho : Mild h (setOutput (h.conn.outputBuffer.retrieve n) h) := ⟨rfl, rfl, id⟩
  simp only [afterWrite]
  split
  · have hq := ho.trans ((onChannel_mild (fun m => m.minus Channel.kWriteEvent) _).trans
      (queueWriteComplete_mild _))
    split
    · exact hq.trans (shutdownInLoop_mild _)
    · exact hq
  · exact ho

theorem handleWrite_mild (r : WriteResult) (h : Hosted P) : Mild h (handleWrite r h) := by
  simp only [handleWrite]
  split
  · cases r with
    | failed e => exact emit_mild rfl h
    | wrote n =>
        simp only
        split
        · exact (emit_mild rfl h).trans (afterWrite_mild _ _)
        · exact emit_mild rfl h
  · exact .refl h

def closing : List Effect := [.enterHandleClose, .connectionCallback .kDisconnected, .closeCallback]

theorem handleClose_life (h : Hosted P) : lifeTrace (handleClose h) = lifeTrace h ++ closing := by
  simp [lifeTrace, handleClose, emit, onChannel, setState, isLife, closing]

theorem notifyDown_life (h : Hosted P) :
    lifeTrace (notifyDown h) = lifeTrace h ++ [.connectionCallback .kDisconnected] := by
  simp [lifeTrace, notifyDown, emit, onChannel, setState, isLife]

theorem removeDestroyed_life (h : Hosted P) :
    lifeTrace (removeDestroyed h) = lifeTrace h ++ [.returnConnectDestroyed] := by
  simp [lifeTrace, removeDestroyed, emit, onChannel, isLife]

theorem handleClose_events (h : Hosted P) : (handleClose h).conn.channel.events = .zero :=
  setEvents_events _ _ _

theorem notifyDown_events (h : Hosted P) : (notifyDown h).conn.channel.events = .zero :=
  setEvents_events _ _ _

theorem finishCall_mild (h : Hosted P) (c : Call) : Mild h (finishCall h c) := by
  cases c with
  | send _ | shutdown | forceClose | forceCloseWithDelay | startRead | stopRead => exact ⟨rfl, rfl, id⟩

/-- Everything a step can do to the state and to the life of a connection. -/
inductive Kind (s : Life P) (e : Event P) (t : Life P) : Prop
  | mild (hlife : lifeTrace t.hosted = lifeTrace s.hosted)
      (hstate : t.hosted.conn.state = s.hosted.conn.state) (hdest : t.destroying = s.destroying)
  | leaving (hbefore : s.hosted.conn.state = .kConnected ∨ s.hosted.conn.state = .kDisconnecting)
      (hlife : lifeTrace t.hosted = lifeTrace s.hosted)
      (hstate : t.hosted.conn.state = .kDisconnecting) (hdest : t.destroying = s.destroying)
  | store (hevent : ∃ n, e = .store n) (hlife : lifeTrace t.hosted = lifeTrace s.hosted)
      (hstate : t.hosted.conn.state = .kDisconnecting) (hdest : t.destroying = s.destroying)
  | close (hevent : e = .readEvent (.received []) ∨
        s.hosted.conn.state ≠ .kDisconnected ∧ Executes s .forceCloseInLoop e)
      (hlife : lifeTrace t.hosted = lifeTrace s.hosted ++ closing)
      (hstate : t.hosted.conn.state = .kDisconnected) (hdest : t.destroying = s.destroying)
      (hmask : t.hosted.conn.channel.events = .zero)
  | begins (hevent : Executes s .connectDestroyed e) (hlife : lifeTrace t.hosted = lifeTrace s.hosted)
      (hstate : t.hosted.conn.state = s.hosted.conn.state)
      (hdest : t.destroying = .tested (s.hosted.conn.state = .kConnected))
  | notify (hevent : e = .destroyNotify) (hbefore : s.destroying = .tested true)
      (hlife : lifeTrace t.hosted = lifeTrace s.hosted ++ [.connectionCallback .kDisconnected])
      (hstate : t.hosted.conn.state = .kDisconnected) (hdest : t.destroying = .notified)
      (hmask : t.hosted.conn.channel.events = .zero)
  | skip (hevent : e = .destroyNotify) (hbefore : s.destroying = .tested false)
      (hlife : lifeTrace t.hosted = lifeTrace s.hosted)
      (hstate : t.hosted.conn.state = s.hosted.conn.state) (hdest : t.destroying = .notified)
  | finish (hevent : e = .destroyEnd) (hbefore : s.destroying = .notified)
      (hlife : lifeTrace t.hosted = lifeTrace s.hosted ++ [.returnConnectDestroyed])
      (hstate : t.hosted.conn.state = s.hosted.conn.state) (hdest : t.destroying = .outside)

theorem Mild.kind {s : Life P} {e : Event P} {k : Hosted P} (hm : Mild s.hosted k) (active : Option PollMask)
    (callers : Nat → Caller) : Kind s e ⟨k, active, callers, s.destroying⟩ :=
  .mild hm.life hm.state rfl

theorem runFunctor_mild (r : WriteResult) (h : Hosted P) {f : Functor} (hf : f ≠ .forceCloseInLoop)
    (hd : f ≠ .connectDestroyed) : Mild h (runFunctor r h f) := by
  cases f with
  | sendInLoop message => exact sendInLoop_mild message r h
  | shutdownInLoop => exact shutdownInLoop_mild h
  | forceCloseInLoop => exact absurd rfl hf
  | startReadInLoop => exact startReadInLoop_mild h
  | stopReadInLoop => exact stopReadInLoop_mild h
  | connectDestroyed => exact absurd rfl hd
  | writeCompleteCallback => exact .refl h

theorem runInLoop_mild (inLoop : Bool) (r : WriteResult) (h : Hosted P) {f : Functor}
    (hf : f ≠ .forceCloseInLoop) (hd : f ≠ .connectDestroyed) : Mild h (runInLoop inLoop f r h) := by
  cases inLoop with
  | true => exact runFunctor_mild r h hf hd
  | false => exact ⟨rfl, rfl, id⟩

theorem forceCloseInLoop_kind {s : Life P} {e : Event P} (he : Executes s .forceCloseInLoop e)
    (fs : List Functor) :
    Kind s e { s with hosted := forceCloseInLoop { s.hosted with pendingFunctors := fs } } := by
  simp only [forceCloseInLoop]
  split
  · rename_i hc
    refine .close (.inr ⟨?_, he⟩) (handleClose_life _) rfl rfl (handleClose_events _)
    rcases hc with hc | hc <;> simp [hc]
  · exact .mild rfl rfl rfl

theorem call_kind (s : Life P) (c : Call) (r : WriteResult) :
    Kind s (.call c r) { s with hosted := applyCall true r s.hosted c } := by
  cases c with
  | send message =>
      simp only [applyCall, send]
      split
      · exact (runInLoop_mild true r s.hosted (by simp) (by simp)).kind s.active s.callers
      · exact .mild rfl rfl rfl
  | shutdown =>
      simp only [applyCall, shutdown]
      split
      · rename_i hc
        have hm := runInLoop_mild true r (setState .kDisconnecting s.hosted)
          (show Functor.shutdownInLoop ≠ .forceCloseInLoop by simp) (by simp)
        exact .leaving (.inl hc) hm.life hm.state rfl
      · exact .mild rfl rfl rfl
  | forceClose =>
      simp only [applyCall, forceClose]
      split
      · rename_i hc
        exact .leaving hc rfl rfl rfl
      · exact .mild rfl rfl rfl
  | forceCloseWithDelay =>
      simp only [applyCall, forceCloseWithDelay]
      split
      · rename_i hc
        exact .leaving hc rfl rfl rfl
      · exact .mild rfl rfl rfl
  | startRead => exact (startReadInLoop_mild s.hosted).kind s.active s.callers
  | stopRead => exact (stopReadInLoop_mild s.hosted).kind s.active s.callers

theorem step_kind (s : Life P) (e : Event P) : Kind s e (next s e) := by
  cases e with
  | call c r => exact call_kind s c r
  | test t c =>
      simp only [next]
      split
      · exact .mild rfl rfl rfl
      · exact .mild rfl rfl rfl
  | store t =>
      simp only [next]
      split
      · exact .store ⟨t, rfl⟩ rfl rfl rfl
      · exact .mild rfl rfl rfl
  | finish t =>
      simp only [next]
      split
      · exact (finishCall_mild s.hosted _).kind s.active _
      · exact (finishCall_mild s.hosted _).kind s.active _
      · exact .mild rfl rfl rfl
  | functor r =>
      simp only [next]
      split
      · exact .mild rfl rfl rfl
      · rename_i fs hp
        exact .begins (by simp [Executes, hp]) rfl rfl rfl
      · rename_i f fs hd hp
        by_cases hf : f = .forceCloseInLoop
        · subst hf
          exact forceCloseInLoop_kind (by simp [Executes, hp]) fs
        · have hm := runFunctor_mild r { s.hosted with pendingFunctors := fs } hf (fun he => hd he)
          exact .mild hm.life hm.state rfl
  | delayedClose =>
      simp only [next, forceClose]
      split
      · rename_i hc
        exact .leaving hc rfl rfl rfl
      · exact .mild rfl rfl rfl
  | poll revents => exact .mild rfl rfl rfl
  | readEvent r =>
      cases r with
      | failed e => exact .mild rfl rfl rfl
      | received bytes =>
          cases bytes with
          | nil => exact .close (.inl rfl) (handleClose_life _) rfl rfl (handleClose_events _)
          | cons b bs =>
              have hi : Mild s.hosted (setInput (s.hosted.conn.inputBuffer.readFd (b :: bs)) s.hosted) :=
                ⟨rfl, rfl, id⟩
              have hm : Mild s.hosted (handleRead (.received (b :: bs)) s.hosted) :=
                hi.trans (emit_mild rfl _)
              exact .mild hm.life hm.state rfl
  | writeEvent r =>
      simp only [next]
      split
      · split
        · exact (handleWrite_mild r s.hosted).kind none s.callers
        · exact .mild rfl rfl rfl
      · exact .mild rfl rfl rfl
  | others poller => exact .mild rfl rfl rfl
  | queueDestroyed => exact .mild rfl rfl rfl
  | destroyInLoop => exact .begins rfl rfl rfl rfl
  | destroyNotify =>
      simp only [next]
      split
      · rename_i connected hd
        cases connected with
        | true => exact .notify rfl hd (notifyDown_life _) rfl rfl (notifyDown_events _)
        | false => exact .skip rfl hd rfl rfl rfl
      · exact .mild rfl rfl rfl
      · exact .mild rfl rfl rfl
  | destroyEnd =>
      simp only [next]
      split
      · rename_i hd
        exact .finish rfl hd (removeDestroyed_life _) rfl rfl
      · exact .mild rfl rfl rfl
      · exact .mild rfl rfl rfl

theorem next_active (s : Life P) {e : Event P} (hpoll : ∀ m, e ≠ .poll m) (hread : ∀ r, e ≠ .readEvent r)
    (hwrite : ∀ r, e ≠ .writeEvent r) : (next s e).active = s.active := by
  cases e with
  | poll revents => exact absurd rfl (hpoll revents)
  | readEvent r => exact absurd rfl (hread r)
  | writeEvent r => exact absurd rfl (hwrite r)
  | call | delayedClose | others | queueDestroyed | destroyInLoop => rfl
  | test | store | finish | functor | destroyNotify | destroyEnd =>
      simp only [next]
      split <;> rfl

theorem handleClose_filed {h : Hosted P} (hf : filed h) : filed (handleClose h) :=
  (setEvents_spec (fun _ => Channel.kNonEvent) hf).1

theorem notifyDown_filed {h : Hosted P} (hf : filed h) : filed (notifyDown h) :=
  (setEvents_spec (fun _ => Channel.kNonEvent) hf).1

theorem notifyDestroyed_filed {h : Hosted P} (hf : filed h) : filed (notifyDestroyed h) := by
  simp only [notifyDestroyed]
  split
  · exact notifyDown_filed hf
  · exact hf

theorem removeDestroyed_filed {h : Hosted P} (hf : filed h) : filed (removeDestroyed h) :=
  (removeChannel_spec hf).1

theorem runFunctor_filed (r : WriteResult) {h : Hosted P} (f : Functor) (hf : filed h) :
    filed (runFunctor r h f) := by
  cases f with
  | forceCloseInLoop =>
      simp only [runFunctor, forceCloseInLoop]
      split
      · exact handleClose_filed hf
      · exact hf
  | connectDestroyed => exact removeDestroyed_filed (notifyDestroyed_filed hf)
  | sendInLoop | shutdownInLoop | startReadInLoop | stopReadInLoop | writeCompleteCallback =>
      exact (runFunctor_mild r h (by simp) (by simp)).filed hf

theorem runInLoop_filed (inLoop : Bool) (f : Functor) (r : WriteResult) {h : Hosted P} (hf : filed h) :
    filed (runInLoop inLoop f r h) := by
  cases inLoop with
  | true => exact runFunctor_filed r f hf
  | false => exact hf

theorem forceClose_filed {h : Hosted P} (hf : filed h) : filed (forceClose h) := by
  simp only [forceClose]
  split
  · exact hf
  · exact hf

theorem applyCall_filed (inLoop : Bool) (r : WriteResult) {h : Hosted P} (c : Call) (hf : filed h) :
    filed (applyCall inLoop r h c) := by
  cases c with
  | send message =>
      simp only [applyCall, send]
      split
      · exact runInLoop_filed inLoop _ r hf
      · exact hf
  | shutdown =>
      simp only [applyCall, shutdown]
      split
      · exact runInLoop_filed inLoop _ r hf
      · exact hf
  | forceClose => exact forceClose_filed hf
  | forceCloseWithDelay =>
      simp only [applyCall, forceCloseWithDelay]
      split
      · exact hf
      · exact hf
  | startRead | stopRead => exact runInLoop_filed inLoop _ r hf

theorem step_filed (s : Life P) (e : Event P) (hf : filed s.hosted) (he : Enabled s e) :
    filed (next s e).hosted := by
  cases e with
  | call c r => exact applyCall_filed true r c hf
  | test | store | finish =>
      exact next_outside (R := fun t => filed t.hosted) rfl (fun _ => hf) (fun _ => hf)
        fun c _ => (finishCall_mild s.hosted c).filed hf
  | functor r =>
      simp only [next]
      split
      · exact hf
      · exact hf
      · exact runFunctor_filed r _ hf
  | delayedClose => exact forceClose_filed hf
  | poll revents => exact hf
  | readEvent r =>
      cases r with
      | failed e => exact hf
      | received bytes =>
          cases bytes with
          | nil => exact handleClose_filed hf
          | cons b bs => exact hf
  | writeEvent r =>
      simp only [next]
      split
      · split
        · exact (handleWrite_mild r s.hosted).filed hf
        · exact hf
      · exact hf
  | others poller =>
      simp only [filed, next, Consistent, Filed, he.1, he.2]
      exact hf
  | queueDestroyed => exact hf
  | destroyInLoop => exact hf
  | destroyNotify =>
      simp only [next]
      split
      · split
        · exact notifyDown_filed hf
        · exact hf
      · exact hf
      · exact hf
  | destroyEnd =>
      simp only [next]
      split
      · exact removeDestroyed_filed hf
      · exact hf
      · exact hf

end Webserver.ConnectionSteps
