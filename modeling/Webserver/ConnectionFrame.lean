import Webserver.ConnectionRule

namespace Webserver.ConnectionFrame

open TcpConnection ConnectionLife EpollPoller
open ConnectionRule (Kept)

variable {P : Type}

/-- A step that leaves the other descriptors of the poller alone. -/
structure Local (h k : Hosted P) : Prop where
  self : k.self = h.self
  fd : k.conn.channel.fd = h.conn.channel.fd
  channels : ∀ j, j ≠ h.conn.channel.fd → k.poller.channels j = h.poller.channels j
  kernel : ∀ j, j ≠ h.conn.channel.fd → k.poller.kernel j = h.poller.kernel j

theorem Local.of_poller {h k : Hosted P} (hself : k.self = h.self) (hfd : k.conn.channel.fd = h.conn.channel.fd)
    (hpoller : k.poller = h.poller) : Local h k :=
  ⟨hself, hfd, fun _ _ => by rw [hpoller], fun _ _ => by rw [hpoller]⟩

theorem Local.trans {h k l : Hosted P} (hk : Local h k) (kl : Local k l) : Local h l := by
  refine ⟨kl.self.trans hk.self, kl.fd.trans hk.fd, fun j hj => ?_, fun j hj => ?_⟩
  · rw [kl.channels j (hk.fd ▸ hj), hk.channels j hj]
  · rw [kl.kernel j (hk.fd ▸ hj), hk.kernel j hj]

theorem update_local (op : CtlOp) (self : P) (c : Channel) (p : EpollPoller P) {j : Int} (hj : j ≠ c.fd) :
    (update op self c p).channels j = p.channels j ∧ (update op self c p).kernel j = p.kernel j := by
  cases op with
  | add | mod | del =>
      cases hk : p.kernel c.fd with
      | none => simp [update, epollCtl, hk, hj]
      | some e => simp [update, epollCtl, hk, hj]

theorem updateChannel_local (self : P) (s : Channel × EpollPoller P) {j : Int} (hj : j ≠ s.1.fd) :
    (updateChannel self s).2.channels j = s.2.channels j ∧ (updateChannel self s).2.kernel j = s.2.kernel j := by
  simp only [updateChannel]
  split
  · obtain ⟨hchannels, hkernel⟩ := update_local .add self { s.1 with index := .kAdded }
      { s.2 with channels := Function.update s.2.channels s.1.fd (some self) } hj
    exact ⟨hchannels.trans (Function.update_of_ne hj ..), hkernel⟩
  · exact update_local .add self { s.1 with index := .kAdded } s.2 hj
  · split
    · exact update_local .del self s.1 s.2 hj
    · exact update_local .mod self s.1 s.2 hj

theorem removeChannel_local (self : P) (s : Channel × EpollPoller P) {j : Int} (hj : j ≠ s.1.fd) :
    (removeChannel self s).2.channels j = s.2.channels j ∧ (removeChannel self s).2.kernel j = s.2.kernel j := by
  simp only [removeChannel]
  split
  · obtain ⟨hchannels, hkernel⟩ := update_local .del self s.1
      { s.2 with channels := Function.update s.2.channels s.1.fd none } hj
    exact ⟨hchannels.trans (Function.update_of_ne hj ..), hkernel⟩
  · exact ⟨Function.update_of_ne hj .., rfl⟩

theorem setEvents_local (f : PollMask → PollMask) (h : Hosted P) : Local h (onChannel (Channel.setEvents f) h) := by
  have hlocal := @updateChannel_local P h.self ({ h.conn.channel with events := f h.conn.channel.events }, h.poller)
  exact ⟨rfl, Bookkeeping.updateChannel_fd h.self _, fun j hj => (hlocal hj).1, fun j hj => (hlocal hj).2⟩

theorem remove_local (h : Hosted P) : Local h (onChannel Channel.remove h) := by
  have hlocal := @removeChannel_local P h.self (h.conn.channel, h.poller)
  exact ⟨rfl, rfl, fun j hj => (hlocal hj).1, fun j hj => (hlocal hj).2⟩

theorem startReadInLoop_local (h : Hosted P) : Local h (startReadInLoop h) := by
  simp only [startReadInLoop]
  split
  · exact (setEvents_local _ h).trans (.of_poller rfl rfl rfl)
  · exact .of_poller rfl rfl rfl

theorem local_kept : Kept (Local (P := P)) where
  refl _ := .of_poller rfl rfl rfl
  trans := .trans
  emit _ _ _ := .of_poller rfl rfl rfl
  quiet _ _ _ _ hfd _ := .of_poller rfl hfd rfl
  enableWriting := setEvents_local _
  disableWriting := setEvents_local _
  disableReading := setEvents_local _
  disableAll := setEvents_local _
  remove := remove_local

theorem next_local (s : Life P) {e : Event P} (ho : ∀ p, e ≠ .others p) : Local s.hosted (next s e).hosted := by
  by_cases hm : ∃ b bs, e = .readEvent (.received (b :: bs))
  · obtain ⟨b, bs, rfl⟩ := hm
    exact .of_poller rfl rfl rfl
  · exact local_kept.next s (fun b bs hb => hm ⟨b, bs, hb⟩) ho (.inl startReadInLoop_local)

def behind (fs : List Functor) (h : Hosted P) : Hosted P := { h with pendingFunctors := fs ++ h.pendingFunctors }

section

variable (fs : List Functor) (h : Hosted P)

theorem queueInLoop_behind (f : Functor) : queueInLoop f (behind fs h) = behind fs (queueInLoop f h) := by
  simp [queueInLoop, behind]

theorem queueWriteComplete_behind : queueWriteComplete (behind fs h) = behind fs (queueWriteComplete h) := by
  change (if h.conn.writeCompleteCallback then _ else _) = behind fs (if h.conn.writeCompleteCallback then _ else _)
  split
  · exact queueInLoop_behind fs (emit _ h) _
  · rfl

theorem directWrite_behind (data : List Byte) (r : WriteResult) :
    directWrite data r (behind fs h) = (behind fs (directWrite data r h).1, (directWrite data r h).2) := by
  cases r with
  | failed e => rfl
  | wrote n =>
      simp only [directWrite]
      split
      · exact Prod.ext (queueWriteComplete_behind fs (emit _ h)) rfl
      · rfl

theorem bufferOutput_behind (rest : List Byte) : bufferOutput rest (behind fs h) = behind fs (bufferOutput rest h) := by
  change (if h.conn.channel.isWriting then _ else _) = behind fs (if h.conn.channel.isWriting then _ else _)
  split
  · rfl
  · rfl

theorem sendInLoop_behind (data : List Byte) (r : WriteResult) :
    sendInLoop data r (behind fs h) = behind fs (sendInLoop data r h) := by
  have hconn : (behind fs h).conn = h.conn := rfl
  simp only [sendInLoop, hconn]
  by_cases hd : h.conn.state = .kDisconnected
  · rw [if_pos hd, if_pos hd]
  · rw [if_neg hd, if_neg hd]
    by_cases hw : (!h.conn.channel.isWriting) = true ∧ h.conn.outputBuffer.readableBytes = 0
    · simp only [if_pos hw, directWrite_behind]
      split
      · exact bufferOutput_behind fs _ _
      · rfl
    · simp only [if_neg hw]
      split
      · exact bufferOutput_behind fs _ _
      · rfl

theorem shutdownInLoop_behind : shutdownInLoop (behind fs h) = behind fs (shutdownInLoop h) := by
  change (if h.conn.channel.isWriting then _ else _) = behind fs (if h.conn.channel.isWriting then _ else _)
  split
  · rfl
  · rfl

theorem startReadInLoop_behind : startReadInLoop (behind fs h) = behind fs (startReadInLoop h) := by
  have hconn : (behind fs h).conn = h.conn := rfl
  simp only [startReadInLoop, hconn]
  split
  · rfl
  · rfl

theorem stopReadInLoop_behind : stopReadInLoop (behind fs h) = behind fs (stopReadInLoop h) := by
  have hconn : (behind fs h).conn = h.conn := rfl
  simp only [stopReadInLoop, hconn]
  split
  · rfl
  · rfl

theorem forceCloseInLoop_behind : forceCloseInLoop (behind fs h) = behind fs (forceCloseInLoop h) := by
  have hconn : (behind fs h).conn = h.conn := rfl
  simp only [forceCloseInLoop, hconn]
  split
  · rfl
  · rfl

theorem handleRead_behind (r : ReadResult) : handleRead r (behind fs h) = behind fs (handleRead r h) := by
  cases r with
  | failed e => rfl
  | received bytes =>
      cases bytes with
      | nil => rfl
      | cons b bs => rfl

theorem afterWrite_behind (n : Nat) : afterWrite n (behind fs h) = behind fs (afterWrite n h) := by
  have hconn : ∀ k : Hosted P, (behind fs k).conn = k.conn := fun _ => rfl
  have hset : ∀ b, setOutput b (behind fs h) = behind fs (setOutput b h) := fun _ => rfl
  have hchannel : ∀ k : Hosted P, onChannel Channel.disableWriting (behind fs k) =
      behind fs (onChannel Channel.disableWriting k) := fun _ => rfl
  simp only [afterWrite, hconn, hset, hchannel, queueWriteComplete_behind, shutdownInLoop_behind]
  split
  · split
    · rfl
    · rfl
  · rfl

theorem handleWrite_behind (r : WriteResult) : handleWrite r (behind fs h) = behind fs (handleWrite r h) := by
  have hconn : (behind fs h).conn = h.conn := rfl
  simp only [handleWrite, hconn]
  split
  · cases r with
    | failed e => rfl
    | wrote n =>
        simp only
        split
        · exact afterWrite_behind fs (emit _ h) _
        · rfl
  · rfl

theorem notifyDown_behind : notifyDown (behind fs h) = behind fs (notifyDown h) := rfl

theorem finishCall_behind (c : Call) : finishCall (behind fs h) c = behind fs (finishCall h c) := by
  cases c with
  | forceCloseWithDelay => rfl
  | send _ | shutdown | forceClose | startRead | stopRead => exact queueInLoop_behind fs h _

theorem notifyDestroyed_behind : notifyDestroyed (behind fs h) = behind fs (notifyDestroyed h) := by
  have hconn : (behind fs h).conn = h.conn := rfl
  simp only [notifyDestroyed, hconn]
  split
  · rfl
  · rfl

theorem runFunctor_behind (r : WriteResult) (f : Functor) :
    runFunctor r (behind fs h) f = behind fs (runFunctor r h f) := by
  cases f with
  | sendInLoop message => exact sendInLoop_behind fs h message r
  | shutdownInLoop => exact shutdownInLoop_behind fs h
  | forceCloseInLoop => exact forceCloseInLoop_behind fs h
  | startReadInLoop => exact startReadInLoop_behind fs h
  | stopReadInLoop => exact stopReadInLoop_behind fs h
  | connectDestroyed =>
      simp only [runFunctor, connectDestroyed, notifyDestroyed_behind]
      rfl
  | writeCompleteCallback => rfl

theorem runInLoop_behind (inLoop : Bool) (f : Functor) (r : WriteResult) :
    runInLoop inLoop f r (behind fs h) = behind fs (runInLoop inLoop f r h) := by
  cases inLoop with
  | true => exact runFunctor_behind fs h r f
  | false => exact queueInLoop_behind fs h f

theorem forceClose_behind : forceClose (behind fs h) = behind fs (forceClose h) := by
  have hconn : (behind fs h).conn = h.conn := rfl
  simp only [forceClose, hconn]
  split
  · exact queueInLoop_behind fs (setState .kDisconnecting h) _
  · rfl

theorem applyCall_behind (inLoop : Bool) (r : WriteResult) (c : Call) :
    applyCall inLoop r (behind fs h) c = behind fs (applyCall inLoop r h c) := by
  have hconn : (behind fs h).conn = h.conn := rfl
  cases c with
  | send message =>
      simp only [applyCall, send, hconn]
      split
      · exact runInLoop_behind fs h inLoop _ r
      · rfl
  | shutdown =>
      simp only [applyCall, shutdown, hconn]
      split
      · exact runInLoop_behind fs (setState .kDisconnecting h) inLoop _ r
      · rfl
  | forceClose => exact forceClose_behind fs h
  | forceCloseWithDelay =>
      simp only [applyCall, forceCloseWithDelay, hconn]
      split
      · rfl
      · rfl
  | startRead | stopRead => exact runInLoop_behind fs h inLoop _ r

end

def withQueue (fs : List Functor) (s : Life P) : Life P :=
  { s with hosted := { s.hosted with pendingFunctors := fs } }

def taken (fs : List Functor) : Event P → List Functor
  | .functor _ => fs.take 1
  | _ => []

def left (fs : List Functor) : Event P → List Functor
  | .functor _ => fs.drop 1
  | _ => fs

/-- A step only adds to the functors that it has not taken, whatever these are. -/
theorem next_withQueue (fs : List Functor) (s : Life P) (e : Event P) : next (withQueue fs s) e =
    { next (withQueue (taken fs e) s) e with
      hosted := behind (left fs e) (next (withQueue (taken fs e) s) e).hosted } := by
  have hbehind : (withQueue fs s).hosted = behind fs (withQueue [] s).hosted := by simp [withQueue, behind]
  cases e with
  | call c r =>
      simp only [next, taken, left, hbehind, applyCall_behind]
      rfl
  | test t c =>
      have hconn : ∀ gs : List Functor, (withQueue gs s).hosted.conn = s.hosted.conn := fun _ => rfl
      simp only [next, taken, left, hconn]
      split
      · exact congrArg (fun h : Hosted P => { s.setCaller t (.tested c) with hosted := h }) hbehind
      · exact congrArg (fun h : Hosted P => { s with hosted := h }) hbehind
  | store t =>
      have hcallers : ∀ gs : List Functor, (withQueue gs s).callers = s.callers := fun _ => rfl
      simp only [next, taken, left, hcallers]
      split
      · rw [hbehind]
        rfl
      · exact congrArg (fun h : Hosted P => { s with hosted := h }) hbehind
  | finish t =>
      have hcallers : ∀ gs : List Functor, (withQueue gs s).callers = s.callers := fun _ => rfl
      simp only [next, taken, left, hcallers]
      split
      · rw [hbehind, finishCall_behind]
        rfl
      · rw [hbehind, finishCall_behind]
        rfl
      · exact congrArg (fun h : Hosted P => { s with hosted := h }) hbehind
  | functor r =>
      cases fs with
      | nil => rfl
      | cons f fs =>
          have htail : ({ s.hosted with pendingFunctors := fs } : Hosted P) =
              behind fs { s.hosted with pendingFunctors := [] } := by simp [behind]
          by_cases hf : f = .connectDestroyed
          · subst hf
            simp only [next, taken, left, withQueue, List.take_succ_cons, List.take_zero, beginDestroyed, htail,
              List.drop_succ_cons, List.drop_zero]
            rfl
          · have hrun : ∀ gs : List Functor, next (withQueue (f :: gs) s) (.functor r) =
                { s with hosted := runFunctor r { s.hosted with pendingFunctors := gs } f } := by
              intro gs
              cases f with
              | connectDestroyed => exact absurd rfl hf
              | sendInLoop _ | shutdownInLoop | forceCloseInLoop | startReadInLoop | stopReadInLoop
              | writeCompleteCallback => rfl
            rw [hrun fs, htail, runFunctor_behind]
            exact (congrArg (fun t : Life P => { t with hosted := behind fs t.hosted }) (hrun [])).symm
  | delayedClose =>
      have hclose := forceClose_behind fs
        { (withQueue [] s).hosted with delayedCloses := s.hosted.delayedCloses - 1 }
      have hcloses : ({ (withQueue fs s).hosted with delayedCloses := s.hosted.delayedCloses - 1 } : Hosted P) =
          behind fs { (withQueue [] s).hosted with delayedCloses := s.hosted.delayedCloses - 1 } := by
        simp [withQueue, behind]
      rw [← hcloses] at hclose
      exact congrArg (fun h : Hosted P => { s with hosted := h }) hclose
  | poll revents | others poller => simp [next, taken, left, withQueue, behind]
  | readEvent r =>
      simp only [next, taken, left, hbehind, handleRead_behind]
      rfl
  | writeEvent r =>
      have hactive : ∀ gs : List Functor, (withQueue gs s).active = s.active := fun _ => rfl
      simp only [next, taken, left, hactive]
      split
      · split
        · rw [hbehind, handleWrite_behind]
          rfl
        · rw [hbehind]
          rfl
      · exact congrArg (fun h : Hosted P => { s with hosted := h }) hbehind
  | queueDestroyed =>
      simp only [next, taken, left, hbehind, queueInLoop_behind]
      rfl
  | destroyInLoop =>
      simp only [next, taken, left, beginDestroyed, hbehind]
      rfl
  | destroyNotify =>
      have hdestroying : ∀ gs : List Functor, (withQueue gs s).destroying = s.destroying := fun _ => rfl
      simp only [next, taken, left, hdestroying]
      split
      · split
        · rw [hbehind, notifyDown_behind]
          rfl
        · rw [hbehind]
          rfl
      · exact congrArg (fun h : Hosted P => { s with hosted := h }) hbehind
      · exact congrArg (fun h : Hosted P => { s with hosted := h }) hbehind
  | destroyEnd =>
      have hdestroying : ∀ gs : List Functor, (withQueue gs s).destroying = s.destroying := fun _ => rfl
      simp only [next, taken, left, hdestroying]
      split
      · rw [hbehind]
        rfl
      · exact congrArg (fun h : Hosted P => { s with hosted := h }) hbehind
      · exact congrArg (fun h : Hosted P => { s with hosted := h }) hbehind

end Webserver.ConnectionFrame
