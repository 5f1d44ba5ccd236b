import Webserver.ConnectionSteps

namespace Webserver.ConnectionRule

open TcpConnection ConnectionLife

variable {P : Type}

/-- What holds between a connection before and after each single thing it does, apart
from its messages and from reading again. -/
structure Kept (R : Hosted P → Hosted P → Prop) : Prop where
  refl : ∀ h, R h h
  trans : ∀ {h k l}, R h k → R k l → R h l
  emit : ∀ (e : Effect) h, e ≠ .messageCallback → R h (emit e h)
  quiet : ∀ (c : TcpConnection) fs n h, c.channel.fd = h.conn.channel.fd →
    c.channel.events = h.conn.channel.events → R h { h with conn := c, pendingFunctors := fs, delayedCloses := n }
  enableWriting : ∀ h, R h (onChannel Channel.enableWriting h)
  disableWriting : ∀ h, R h (onChannel Channel.disableWriting h)
  disableReading : ∀ h, R h (onChannel Channel.disableReading h)
  disableAll : ∀ h, R h (onChannel Channel.disableAll h)
  remove : ∀ h, R h (onChannel Channel.remove h)

namespace Kept

variable {R : Hosted P → Hosted P → Prop}

theorem queueWriteComplete (hR : Kept R) (h : Hosted P) : R h (queueWriteComplete h) := by
  simp only [TcpConnection.queueWriteComplete]
  split
  · exact hR.trans (hR.emit _ h (by simp)) (hR.quiet _ _ _ _ rfl rfl)
  · exact hR.refl h

theorem directWrite (hR : Kept R) (data : List Byte) (r : WriteResult) (h : Hosted P) :
    R h (directWrite data r h).1 := by
  cases r with
  | failed e => exact hR.emit _ h (by simp)
  | wrote n =>
      simp only [TcpConnection.directWrite]
      split
      · exact hR.trans (hR.emit _ h (by simp)) (hR.queueWriteComplete _)
      · exact hR.emit _ h (by simp)

theorem bufferOutput (hR : Kept R) (rest : List Byte) (h : Hosted P) : R h (bufferOutput rest h) := by
  have hset : R h (setOutput (h.conn.outputBuffer.append rest) h) := hR.quiet _ _ _ h rfl rfl
  simp only [TcpConnection.bufferOutput]
  split
  · exact hset
  · exact hR.trans hset (hR.enableWriting _)

theorem sendInLoop (hR : Kept R) (data : List Byte) (r : WriteResult) (h : Hosted P) : R h (sendInLoop data r h) := by
  apply sendInLoop_rule (hR.refl h) (hR.directWrite data r h)
  intro rest k hk
  exact hR.trans hk (hR.bufferOutput rest k)

theorem shutdownInLoop (hR : Kept R) (h : Hosted P) : R h (shutdownInLoop h) := by
  simp only [TcpConnection.shutdownInLoop]
  split
  · exact hR.refl h
  · exact hR.emit _ h (by simp)

theorem stopReadInLoop (hR : Kept R) (h : Hosted P) : R h (stopReadInLoop h) := by
  simp only [TcpConnection.stopReadInLoop]
  split
  · exact hR.trans (hR.disableReading h) (hR.quiet _ _ _ _ rfl rfl)
  · exact hR.refl h

theorem disconnect (hR : Kept R) (h : Hosted P) :
    R h (onChannel Channel.disableAll (setState .kDisconnected h)) := by
  have hset : R h (setState .kDisconnected h) := hR.quiet _ _ _ h rfl rfl
  exact hR.trans hset (hR.disableAll _)

theorem handleClose (hR : Kept R) (h : Hosted P) : R h (handleClose h) := by
  have hclosed := hR.trans (hR.emit .enterHandleClose h (by simp)) (hR.disconnect _)
  exact hR.trans (hR.trans hclosed (hR.emit _ _ (by simp))) (hR.emit _ _ (by simp))

theorem forceCloseInLoop (hR : Kept R) (h : Hosted P) : R h (forceCloseInLoop h) := by
  simp only [TcpConnection.forceCloseInLoop]
  split
  · exact hR.handleClose h
  · exact hR.refl h

theorem afterWrite (hR : Kept R) (n : Nat) (h : Hosted P) : R h (afterWrite n h) := by
  have hset : R h (setOutput (h.conn.outputBuffer.retrieve n) h) := hR.quiet _ _ _ h rfl rfl
  simp only [TcpConnection.afterWrite]
  split
  · have hdisable := hR.trans hset (hR.disableWriting _)
    have hqueue := hR.trans hdisable (hR.queueWriteComplete _)
    split
    · exact hR.trans hqueue (hR.shutdownInLoop _)
    · exact hqueue
  · exact hset

theorem handleWrite (hR : Kept R) (r : WriteResult) (h : Hosted P) : R h (handleWrite r h) := by
  simp only [TcpConnection.handleWrite]
  split
  · cases r with
    | failed e => exact hR.emit _ h (by simp)
    | wrote n =>
        simp only
        split
        · exact hR.trans (hR.emit _ h (by simp)) (hR.afterWrite _ _)
        · exact hR.emit _ h (by simp)
  · exact hR.refl h

theorem notifyDown (hR : Kept R) (h : Hosted P) : R h (notifyDown h) :=
  hR.trans (hR.disconnect h) (hR.emit _ _ (by simp))

theorem notifyDestroyed (hR : Kept R) (h : Hosted P) : R h (notifyDestroyed h) := by
  simp only [TcpConnection.notifyDestroyed]
  split
  · exact hR.notifyDown h
  · exact hR.refl h

theorem removeDestroyed (hR : Kept R) (h : Hosted P) : R h (removeDestroyed h) :=
  hR.trans (hR.remove h) (hR.emit _ _ (by simp))

theorem runFunctor (hR : Kept R) (r : WriteResult) (h : Hosted P) {f : Functor}
    (hf : (∀ h, R h (startReadInLoop h)) ∨ f ≠ .startReadInLoop) : R h (runFunctor r h f) := by
  cases f with
  | sendInLoop message => exact hR.sendInLoop message r h
  | shutdownInLoop => exact hR.shutdownInLoop h
  | forceCloseInLoop => exact hR.forceCloseInLoop h
  | startReadInLoop => exact hf.elim (fun hstart => hstart h) fun hne => absurd rfl hne
  | stopReadInLoop => exact hR.stopReadInLoop h
  | connectDestroyed => exact hR.trans (hR.notifyDestroyed h) (hR.removeDestroyed _)
  | writeCompleteCallback => exact hR.refl h

theorem runInLoop (hR : Kept R) (inLoop : Bool) (r : WriteResult) (h : Hosted P) {f : Functor}
    (hf : (∀ h, R h (startReadInLoop h)) ∨ (inLoop = true → f ≠ .startReadInLoop)) :
    R h (runInLoop inLoop f r h) := by
  cases inLoop with
  | true => exact hR.runFunctor r h (hf.imp_right fun hne => hne rfl)
  | false => exact hR.quiet _ _ _ h rfl rfl

theorem applyCall (hR : Kept R) (inLoop : Bool) (r : WriteResult) (h : Hosted P) {c : Call}
    (hc : (∀ h, R h (startReadInLoop h)) ∨ (inLoop = true → c ≠ .startRead)) : R h (applyCall inLoop r h c) := by
  cases c with
  | send message =>
      simp only [ConnectionLife.applyCall, send]
      split
      · exact hR.runInLoop inLoop r h (.inr (by simp))
      · exact hR.refl h
  | shutdown =>
      simp only [ConnectionLife.applyCall, shutdown]
      split
      · have hset : R h (setState .kDisconnecting h) := hR.quiet _ _ _ h rfl rfl
        exact hR.trans hset (hR.runInLoop inLoop r _ (.inr (by simp)))
      · exact hR.refl h
  | forceClose =>
      simp only [ConnectionLife.applyCall, forceClose]
      split
      · exact hR.quiet _ _ _ h rfl rfl
      · exact hR.refl h
  | forceCloseWithDelay =>
      simp only [ConnectionLife.applyCall, forceCloseWithDelay]
      split
      · exact hR.quiet _ _ _ h rfl rfl
      · exact hR.refl h
  | startRead => exact hR.runInLoop inLoop r h (hc.imp_right fun hne hb => absurd rfl (hne hb))
  | stopRead => exact hR.runInLoop inLoop r h (.inr (by simp))

theorem finishCall (hR : Kept R) (h : Hosted P) (c : Call) : R h (finishCall h c) := by
  cases c with
  | send _ | shutdown | forceClose | forceCloseWithDelay | startRead | stopRead => exact hR.quiet _ _ _ h rfl rfl

/-- What every single thing keeps, every step keeps, apart from a message and from
what the loop's other channels do to the poller. -/
theorem next (hR : Kept R) (s : Life P) {e : Event P} (hm : ∀ b bs, e ≠ .readEvent (.received (b :: bs)))
    (ho : ∀ p, e ≠ .others p) (hs : (∀ h, R h (startReadInLoop h)) ∨ ¬ Executes s .startReadInLoop e) :
    R s.hosted (next s e).hosted := by
  cases e with
  | call c r =>
      refine hR.applyCall true r s.hosted (hs.imp_right fun hn _ hc => hn ?_)
      rw [hc]
      rfl
  | test | store | finish =>
      exact next_outside (R := fun t => R s.hosted t.hosted) rfl (fun _ => hR.refl _)
        (fun _ => hR.quiet _ _ _ s.hosted rfl rfl) fun c _ => hR.finishCall s.hosted c
  | functor r =>
      have htail : ∀ fs, R s.hosted { s.hosted with pendingFunctors := fs } :=
        fun fs => hR.quiet _ fs _ s.hosted rfl rfl
      simp only [ConnectionLife.next]
      split
      · exact hR.refl _
      · exact htail _
      · rename_i f fs _ hp
        refine hR.trans (htail fs) (hR.runFunctor r _ (hs.imp_right fun hn hf => hn ?_))
        rw [Executes, hp, hf]
        rfl
  | delayedClose =>
      simp only [ConnectionLife.next, forceClose]
      split
      · exact hR.quiet _ _ _ s.hosted rfl rfl
      · exact hR.quiet _ _ _ s.hosted rfl rfl
  | poll revents | queueDestroyed => exact hR.quiet _ _ _ s.hosted rfl rfl
  | readEvent r =>
      cases r with
      | failed e => exact hR.refl _
      | received bytes =>
          cases bytes with
          | nil => exact hR.handleClose s.hosted
          | cons b bs => exact absurd rfl (hm b bs)
  | writeEvent r =>
      simp only [ConnectionLife.next]
      split
      · split
        · exact hR.handleWrite r s.hosted
        · exact hR.refl _
      · exact hR.refl _
  | others poller => exact absurd rfl (ho poller)
  | destroyInLoop => exact hR.refl _
  | destroyNotify =>
      simp only [ConnectionLife.next]
      split
      · split
        · exact hR.notifyDown s.hosted
        · exact hR.refl _
      · exact hR.refl _
      · exact hR.refl _
  | destroyEnd =>
      simp only [ConnectionLife.next]
      split
      · exact hR.removeDestroyed s.hosted
      · exact hR.refl _
      · exact hR.refl _

theorem next_of_others (hR : Kept R) (ho : ∀ poller h, R h { h with poller := poller }) (s : Life P) {e : Event P}
    (hm : ∀ b bs, e ≠ .readEvent (.received (b :: bs)))
    (hs : (∀ h, R h (startReadInLoop h)) ∨ ¬ Executes s .startReadInLoop e) :
    R s.hosted (ConnectionLife.next s e).hosted := by
  by_cases hp : ∃ poller, e = .others poller
  · obtain ⟨poller, rfl⟩ := hp
    exact ho poller s.hosted
  · exact hR.next s hm (fun poller he => hp ⟨poller, he⟩) hs

theorem next_of_message (hR : Kept R) (ho : ∀ poller h, R h { h with poller := poller })
    (hm : ∀ h, R h (TcpConnection.emit .messageCallback h)) (s : Life P) {e : Event P}
    (hs : (∀ h, R h (startReadInLoop h)) ∨ ¬ Executes s .startReadInLoop e) :
    R s.hosted (ConnectionLife.next s e).hosted := by
  by_cases hb : ∃ b bs, e = .readEvent (.received (b :: bs))
  · obtain ⟨b, bs, rfl⟩ := hb
    have hset : R s.hosted (setInput (s.hosted.conn.inputBuffer.readFd (b :: bs)) s.hosted) :=
      hR.quiet _ _ _ s.hosted rfl rfl
    exact hR.trans hset (hm _)
  · exact hR.next_of_others ho s (fun b bs he => hb ⟨b, bs, he⟩) hs

end Kept

end Webserver.ConnectionRule
