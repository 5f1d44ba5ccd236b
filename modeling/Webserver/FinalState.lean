import Webserver.ConnectionSteps

namespace Webserver.FinalState

open Runs EpollPoller TcpConnection ConnectionLife ConnectionSteps
open Bookkeeping (Consistent setEvents_spec setEvents_events)

variable {P : Type}

def closes (s : Life P) : Nat := s.hosted.trace.count .enterHandleClose

def closeCallbacks (s : Life P) : Nat := s.hosted.trace.count .closeCallback

def Unregistered (s : Life P) : Prop :=
  s.hosted.poller.channels s.hosted.conn.channel.fd = none ∧
    s.hosted.poller.kernel s.hosted.conn.channel.fd = none

def pendingRead (s : Life P) : Bool := s.active.any (·.meets Channel.readBits)

/-- The use of a connection under which its end is final. -/
structure Orderly (s : Life P) (e : Event P) : Prop where
  start : Executes s .startReadInLoop e → s.hosted.conn.state ≠ .kDisconnected
  stop : Executes s .stopReadInLoop e → Returned s → s.hosted.conn.reading = false
  destroy : Executes s .connectDestroyed e → s.hosted.conn.state ≠ .kDisconnecting
  pending : Executes s .connectDestroyed e → pendingRead s = false
  late : ¬ Late s e

theorem Orderly.of_quiet {s : Life P} {e : Event P} (h : ∀ f, ¬ Executes s f e) (hl : ¬ Late s e) : Orderly s e :=
  ⟨fun hx => absurd hx (h _), fun hx => absurd hx (h _), fun hx => absurd hx (h _), fun hx => absurd hx (h _), hl⟩

structure Ended (s : Life P) : Prop where
  filed : filed s.hosted
  started : s.hosted.conn.state ≠ .kConnecting
  mask : s.hosted.conn.state = .kDisconnected → s.hosted.conn.channel.events = .zero
  drained : s.hosted.conn.state = .kDisconnected → pendingRead s = false
  found : s.destroying = .tested true → s.hosted.conn.state ≠ .kDisconnected
  idle : s.destroying = .tested true → pendingRead s = false
  past : s.destroying = .tested false ∨ s.destroying = .notified → s.hosted.conn.state = .kDisconnected
  returned : Returned s → s.hosted.conn.state = .kDisconnected ∧ s.hosted.conn.channel.index = .kNew
  callbacks : closeCallbacks s = closes s
  once : closes s ≤ 1
  closed : 0 < closes s → s.hosted.conn.state = .kDisconnected

theorem closes_eq (s : Life P) : closes s = (lifeTrace s.hosted).count .enterHandleClose :=
  count_lifeTrace rfl s.hosted

theorem closeCallbacks_eq (s : Life P) : closeCallbacks s = (lifeTrace s.hosted).count .closeCallback :=
  count_lifeTrace rfl s.hosted

/-- What a step on a disconnected connection leaves of its channel. Only a
stopReadInLoop can still make an update, with an empty mask. -/
structure Rests (h k : Hosted P) (stopped : Prop) : Prop where
  events : k.conn.channel.events = .zero
  index : k.conn.channel.index = h.conn.channel.index ∨ k.conn.channel.index = .kNew ∨
    stopped ∧ h.conn.reading = true

theorem Rests.of_channel {h k : Hosted P} {stopped : Prop} (hz : h.conn.channel.events = .zero)
    (hc : k.conn.channel = h.conn.channel) : Rests h k stopped :=
  ⟨hc ▸ hz, .inl (hc ▸ rfl)⟩

theorem runFunctor_rests (r : WriteResult) {h : Hosted P} {f : Functor}
    (hd : h.conn.state = .kDisconnected) (hz : h.conn.channel.events = .zero)
    (hstart : f ≠ .startReadInLoop) : Rests h (runFunctor r h f) (f = .stopReadInLoop) := by
  have hr : h.conn.channel.isReading = false := by
    simp only [Channel.isReading, hz, PollMask.zero_meets]
  cases f with
  | sendInLoop message =>
      exact .of_channel hz (by simp [runFunctor, sendInLoop, hd])
  | shutdownInLoop =>
      refine .of_channel hz ?_
      simp only [runFunctor, shutdownInLoop]
      split
      · rfl
      · rfl
  | forceCloseInLoop =>
      exact .of_channel hz (by simp [runFunctor, forceCloseInLoop, hd])
  | startReadInLoop => exact absurd rfl hstart
  | stopReadInLoop =>
      simp only [runFunctor, stopReadInLoop, hr]
      split
      · rename_i hb
        refine ⟨?_, .inr (.inr ⟨trivial, by simpa using hb⟩)⟩
        simp only [setReading, onChannel, Channel.disableReading, setEvents_events, hz]
        rfl
      · exact .of_channel hz rfl
  | connectDestroyed =>
      simp only [runFunctor, connectDestroyed, notifyDestroyed, hd]
      exact ⟨hz, .inr (.inl rfl)⟩
  | writeCompleteCallback => exact .of_channel hz rfl

theorem step_rests {s : Life P} {e : Event P} (hd : s.hosted.conn.state = .kDisconnected)
    (hz : s.hosted.conn.channel.events = .zero) (hfound : s.destroying ≠ .tested true)
    (hstart : ¬ Executes s .startReadInLoop e) (hread : e ≠ .readEvent (.received [])) :
    Rests s.hosted (next s e).hosted (Executes s .stopReadInLoop e) := by
  cases e with
  | call c r =>
      cases c with
      | send message => exact .of_channel hz (by simp [next, applyCall, send, hd])
      | shutdown => exact .of_channel hz (by simp [next, applyCall, shutdown, hd])
      | forceClose => exact .of_channel hz (by simp [next, applyCall, forceClose, hd])
      | forceCloseWithDelay => exact .of_channel hz (by simp [next, applyCall, forceCloseWithDelay, hd])
      | startRead => exact absurd rfl hstart
      | stopRead => exact runFunctor_rests r hd hz (show Functor.stopReadInLoop ≠ .startReadInLoop by simp)
  | test | store | finish =>
      have hfinish : ∀ c, (finishCall s.hosted c).conn.channel = s.hosted.conn.channel := fun c => by cases c <;> rfl
      exact next_outside (R := fun t => Rests s.hosted t.hosted _) rfl (fun _ => .of_channel hz rfl)
        (fun _ => .of_channel hz rfl) fun c _ => .of_channel hz (hfinish c)
  | functor r =>
      simp only [next]
      split
      · exact .of_channel hz rfl
      · exact .of_channel hz rfl
      · rename_i f fs _ hp
        have hs : f ≠ .startReadInLoop := fun hf => hstart (by simp [Executes, hp, hf])
        obtain ⟨hevents, hindex⟩ :=
          runFunctor_rests r (h := { s.hosted with pendingFunctors := fs }) hd hz hs
        refine ⟨hevents, hindex.imp id (Or.imp id (And.imp (fun hf => ?_) id))⟩
        simp [Executes, hp, hf]
  | delayedClose => exact .of_channel hz (by simp [next, forceClose, hd])
  | poll revents => exact ⟨hz, .inl rfl⟩
  | readEvent r =>
      cases r with
      | failed e => exact .of_channel hz rfl
      | received bytes =>
          cases bytes with
          | nil => exact absurd rfl hread
          | cons b bs => exact .of_channel hz rfl
  | writeEvent r =>
      have hw : s.hosted.conn.channel.isWriting = false := by
        simp only [Channel.isWriting, hz, PollMask.zero_meets]
      simp only [next]
      split
      · exact .of_channel hz (by simp [handleWrite, hw])
      · exact .of_channel hz rfl
  | others poller => exact .of_channel hz rfl
  | queueDestroyed => exact .of_channel hz rfl
  | destroyInLoop => exact .of_channel hz rfl
  | destroyNotify =>
      simp only [next]
      split
      · rename_i connected hc
        cases connected with
        | true => exact absurd hc hfound
        | false => exact .of_channel hz rfl
      · exact .of_channel hz rfl
      · exact .of_channel hz rfl
  | destroyEnd =>
      simp only [next]
      split
      · exact ⟨hz, .inr (.inl rfl)⟩
      · exact .of_channel hz rfl
      · exact .of_channel hz rfl

theorem poll_nothing_to_read {s : Life P} {revents : PollMask} (hf : filed s.hosted)
    (hz : s.hosted.conn.channel.events = .zero) (he : Enabled s (.poll revents)) :
    revents.meets Channel.readBits = false := by
  obtain ⟨_, _, mask, hk, hw⟩ := he
  have hm := (Consistent.registered hf hk).2
  rw [hk, hz] at hm
  obtain rfl : mask = .zero := by simpa using hm
  exact PollMask.within_not_meets hw rfl

theorem no_end_of_stream {s : Life P} {e : Event P} (h : Ended s) (he : Enabled s e)
    (hd : s.hosted.conn.state = .kDisconnected) : e ≠ .readEvent (.received []) := by
  rintro rfl
  obtain ⟨_, revents, ha, hm⟩ := he
  have hp := h.drained hd
  simp [pendingRead, ha, hm] at hp

theorem step_pendingRead {s : Life P} {e : Event P} (hpoll : ∀ revents, e ≠ .poll revents)
    (hp : pendingRead s = false) : pendingRead (next s e) = false := by
  cases e with
  | poll revents => exact absurd rfl (hpoll revents)
  | readEvent r =>
      cases ha : s.active <;> simp [pendingRead, next, ha, PollMask.minus_not_meets]
  | writeEvent r =>
      simp only [next]
      split
      · rfl
      · exact hp
  | call | test | store | finish | functor | delayedClose | others | queueDestroyed | destroyInLoop | destroyNotify
  | destroyEnd =>
      rw [pendingRead, next_active s (by simp) (by simp) (by simp)]
      exact hp

theorem step_drained {s : Life P} {e : Event P} (h : Ended s) (he : Enabled s e)
    (hd : s.hosted.conn.state = .kDisconnected) : pendingRead (next s e) = false := by
  by_cases hpoll : ∃ revents, e = .poll revents
  · obtain ⟨revents, rfl⟩ := hpoll
    simpa [pendingRead, next] using poll_nothing_to_read h.filed (h.mask hd) he
  · exact step_pendingRead (fun revents hr => hpoll ⟨revents, hr⟩) (h.drained hd)

theorem close_outside {s : Life P} {e : Event P} (he : Enabled s e)
    (hevent : e = .readEvent (.received []) ∨
      s.hosted.conn.state ≠ .kDisconnected ∧ Executes s .forceCloseInLoop e) :
    s.destroying = .outside ∧ pendingRead (next s e) = false := by
  rcases hevent with rfl | ⟨_, hx⟩
  · refine ⟨he.1, ?_⟩
    cases ha : s.active <;> simp [pendingRead, next, ha, PollMask.minus_not_meets]
  · cases e with
    | functor r =>
        refine ⟨he.2, step_pendingRead (by simp) ?_⟩
        rw [pendingRead, he.1]
        rfl
    | call c r => cases c <;> simp [Executes] at hx
    | _ => simp [Executes] at hx

theorem executes_outside {s : Life P} {e : Event P} (he : Enabled s e) (hx : Executes s .connectDestroyed e) :
    s.destroying = .outside ∧ ∀ revents, e ≠ .poll revents := by
  cases e with
  | functor r => exact ⟨he.2, by simp⟩
  | destroyInLoop => exact ⟨he, by simp⟩
  | call c r => cases c <;> simp [Executes] at hx
  | _ => simp [Executes] at hx

theorem returned_index {s : Life P} {e : Event P} (h : Ended s) (he : Enabled s e) (ho : Orderly s e)
    (hr : Returned s) : (next s e).hosted.conn.channel.index = .kNew := by
  obtain ⟨hd, hi⟩ := h.returned hr
  have hrest := step_rests hd (h.mask hd) (fun hf => h.found hf hd) (fun hx => ho.start hx hd)
    (no_end_of_stream h he hd)
  rcases hrest.index with hk | hk | ⟨hx, hreading⟩
  · rw [hk, hi]
  · exact hk
  · rw [ho.stop hx hr] at hreading
    exact absurd hreading (by simp)

theorem closes_of_life {s t : Life P} {l : List Effect} (hlife : lifeTrace t.hosted = lifeTrace s.hosted ++ l)
    (hl : l.count .enterHandleClose = 0) : closes t = closes s :=
  count_of_life rfl hl hlife

theorem closeCallbacks_of_life {s t : Life P} {l : List Effect}
    (hlife : lifeTrace t.hosted = lifeTrace s.hosted ++ l) (hl : l.count .closeCallback = 0) :
    closeCallbacks t = closeCallbacks s :=
  count_of_life rfl hl hlife

theorem step_returned {s : Life P} {e : Event P} {l : List Effect}
    (hlife : lifeTrace (next s e).hosted = lifeTrace s.hosted ++ l) (hl : .returnConnectDestroyed ∉ l)
    (hr : Returned (next s e)) : Returned s := by
  rw [returned_iff, hlife, List.mem_append] at hr
  exact (returned_iff s).mpr (hr.resolve_right hl)

theorem ended_of_same {s : Life P} {e : Event P} (h : Ended s) (he : Enabled s e) (ho : Orderly s e)
    (hlife : lifeTrace (next s e).hosted = lifeTrace s.hosted)
    (hstate : (next s e).hosted.conn.state = .kDisconnected ↔ s.hosted.conn.state = .kDisconnected)
    (hconn : (next s e).hosted.conn.state ≠ .kConnecting)
    (hfound : (next s e).destroying = .tested true →
      (next s e).hosted.conn.state ≠ .kDisconnected ∧ pendingRead (next s e) = false)
    (hpast : (next s e).destroying = .tested false ∨ (next s e).destroying = .notified →
      (next s e).hosted.conn.state = .kDisconnected) : Ended (next s e) := by
  have hl : lifeTrace (next s e).hosted = lifeTrace s.hosted ++ [] := by rw [hlife, List.append_nil]
  have hc : closes (next s e) = closes s := closes_of_life hl rfl
  refine ⟨step_filed s e h.filed he, hconn, fun hd => ?_, fun hd => ?_, fun hf => (hfound hf).1,
    fun hf => (hfound hf).2, hpast, fun hr => ?_, ?_, ?_, ?_⟩
  · have hd := hstate.mp hd
    exact (step_rests hd (h.mask hd) (fun hf => h.found hf hd) (fun hx => ho.start hx hd)
      (no_end_of_stream h he hd)).events
  · exact step_drained h he (hstate.mp hd)
  · have hr := step_returned hl (by simp) hr
    exact ⟨hstate.mpr (h.returned hr).1, returned_index h he ho hr⟩
  · rw [hc, closeCallbacks_of_life hl rfl, h.callbacks]
  · rw [hc]; exact h.once
  · rw [hc]; exact fun hp => hstate.mpr (h.closed hp)

theorem idle_step {s : Life P} {e : Event P} (h : Ended s) (he : Enabled s e) (hf : s.destroying = .tested true) :
    pendingRead (next s e) = false := by
  refine step_pendingRead (fun revents hr => ?_) (h.idle hf)
  subst hr
  obtain ⟨_, hout, _⟩ := he
  rw [hf] at hout
  cases hout

theorem step_ended (s : Life P) (e : Event P) (h : Ended s) (hC : Enabled s e ∧ Orderly s e) :
    Ended (next s e) := by
  obtain ⟨he, ho⟩ := hC
  have hfiled := step_filed s e h.filed he
  cases step_kind s e with
  | mild hlife hstate hdest =>
      refine ended_of_same h he ho hlife (by rw [hstate]) (hstate ▸ h.started) (fun hf => ?_) ?_
      · rw [hdest] at hf
        exact ⟨hstate ▸ h.found hf, idle_step h he hf⟩
      · rw [hdest, hstate]
        exact h.past
  | leaving hbefore hlife hstate hdest =>
      have hne : s.hosted.conn.state ≠ .kDisconnected := by
        rcases hbefore with hb | hb <;> simp [hb]
      refine ended_of_same h he ho hlife (by simp [hstate, hne]) (by simp [hstate]) (fun hf => ?_) (fun hp => ?_)
      · rw [hdest] at hf
        exact ⟨by simp [hstate], idle_step h he hf⟩
      · exact absurd (h.past (hdest ▸ hp)) hne
  | store hevent hlife hstate hdest =>
      have hne : s.hosted.conn.state ≠ .kDisconnected := by
        obtain ⟨t, rfl⟩ := hevent
        exact ho.late
      refine ended_of_same h he ho hlife (by simp [hstate, hne]) (by simp [hstate]) (fun hf => ?_) (fun hp => ?_)
      · rw [hdest] at hf
        exact ⟨by simp [hstate], idle_step h he hf⟩
      · exact absurd (h.past (hdest ▸ hp)) hne
  | close hevent hlife hstate hdest hmask =>
      obtain ⟨hout, hdrained⟩ := close_outside he hevent
      have hne : s.hosted.conn.state ≠ .kDisconnected := fun hd => by
        rcases hevent with hev | ⟨hn, _⟩
        · exact no_end_of_stream h he hd hev
        · exact hn hd
      have hzero : closes s = 0 := by
        by_contra hp
        exact hne (h.closed (Nat.pos_of_ne_zero hp))
      have hone : closes (next s e) = 1 := by
        rw [closes_eq, hlife, List.count_append, ← closes_eq, hzero]
        rfl
      refine ⟨hfiled, by simp [hstate], fun _ => hmask, fun _ => hdrained, fun hf => ?_, fun _ => hdrained,
        fun _ => hstate, fun hr => ?_, ?_, hone.le, fun _ => hstate⟩
      · rw [hdest, hout] at hf
        cases hf
      · exact absurd (h.returned (step_returned hlife (by simp [closing]) hr)).1 hne
      · rw [hone, closeCallbacks_eq, hlife, List.count_append, ← closeCallbacks_eq, h.callbacks, hzero]
        rfl
  | begins hevent hlife hstate hdest =>
      obtain ⟨_, hpoll⟩ := executes_outside he hevent
      refine ended_of_same h he ho hlife (by rw [hstate]) (hstate ▸ h.started) (fun hf => ?_) (fun hp => ?_)
      · have hconnected : s.hosted.conn.state = .kConnected := by simpa [hdest] using hf
        exact ⟨by simp [hstate, hconnected], step_pendingRead hpoll (ho.pending hevent)⟩
      · have hother : s.hosted.conn.state ≠ .kConnected := by simpa [hdest] using hp
        have hdestroy := ho.destroy hevent
        have hstarted := h.started
        rw [hstate]
        cases hst : s.hosted.conn.state <;> simp_all
  | notify hevent hbefore hlife hstate hdest hmask =>
      have hc : closes (next s e) = closes s := closes_of_life hlife rfl
      refine ⟨hfiled, by simp [hstate], fun _ => hmask, fun _ => idle_step h he hbefore, fun hf => ?_,
        fun _ => idle_step h he hbefore, fun _ => hstate, fun hr => ?_, ?_, ?_, fun _ => hstate⟩
      · rw [hdest] at hf
        cases hf
      · have hr := (h.returned (step_returned hlife (by simp) hr)).1
        exact absurd hr (h.found hbefore)
      · rw [hc, closeCallbacks_of_life hlife rfl, h.callbacks]
      · rw [hc]; exact h.once
  | skip hevent hbefore hlife hstate hdest =>
      refine ended_of_same h he ho hlife (by rw [hstate]) (hstate ▸ h.started) (fun hf => ?_) (fun _ => ?_)
      · rw [hdest] at hf
        cases hf
      · exact hstate.trans (h.past (.inl hbefore))
  | finish hevent hbefore hlife hstate hdest =>
      subst hevent
      have hd := h.past (.inr hbefore)
      have hc : closes (next s .destroyEnd) = closes s := closes_of_life hlife rfl
      refine ⟨hfiled, hstate ▸ h.started, fun _ => ?_, fun _ => step_drained h he hd, fun hf => ?_,
        fun _ => step_drained h he hd, fun _ => hstate.trans hd, fun _ => ⟨hstate.trans hd, ?_⟩, ?_, ?_,
        fun _ => hstate.trans hd⟩
      · simpa [next, hbefore, removeDestroyed, emit, onChannel, Channel.remove, removeChannel] using h.mask hd
      · rw [hdest] at hf
        cases hf
      · simp [next, hbefore, removeDestroyed, emit, onChannel, Channel.remove, removeChannel]
      · rw [hc, closeCallbacks_of_life hlife rfl, h.callbacks]
      · rw [hc]; exact h.once

theorem start_ended (self : P) (fd : Int) (callback : Bool) : Ended (start self fd callback) := by
  have hnew : filed (⟨self, construct fd callback, .construct, [], 0, []⟩ : Hosted P) := ⟨rfl, rfl⟩
  refine ⟨(setEvents_spec (fun m => m.union Channel.kReadEvent) hnew).1, ?_, ?_, ?_, ?_, ?_, ?_, ?_, ?_, ?_, ?_⟩ <;>
    simp [start, established, connectEstablished, setState, onChannel, emit, Returned, closes, closeCallbacks]

structure Final (t u : Life P) : Prop where
  state : t.hosted.conn.state = .kDisconnected → u.hosted.conn.state = .kDisconnected
  mask : t.hosted.conn.state = .kDisconnected → u.hosted.conn.channel.events = .zero
  closes : t.hosted.conn.state = .kDisconnected → closes u = closes t
  once : closeCallbacks u ≤ 1
  removed : Returned t → Unregistered u

theorem step_disconnected {s : Life P} {e : Event P} (h : Ended s) (he : Enabled s e) (ho : Orderly s e)
    (hd : s.hosted.conn.state = .kDisconnected) :
    (next s e).hosted.conn.state = .kDisconnected ∧ closes (next s e) = closes s := by
  cases step_kind s e with
  | mild hlife hstate | begins _ hlife hstate | skip _ _ hlife hstate =>
      exact ⟨hstate.trans hd, by rw [closes_eq, hlife, ← closes_eq]⟩
  | leaving hbefore => rcases hbefore with hb | hb <;> simp [hd] at hb
  | store hevent =>
      obtain ⟨t, rfl⟩ := hevent
      exact absurd hd ho.late
  | close hevent =>
      rcases hevent with hev | ⟨hn, _⟩
      · exact absurd hev (no_end_of_stream h he hd)
      · exact absurd hd hn
  | notify _ hbefore => exact absurd hd (h.found hbefore)
  | finish _ _ hlife hstate => exact ⟨hstate.trans hd, closes_of_life hlife rfl⟩

theorem Returned.step {s : Life P} (hr : Returned s) (e : Event P) : Returned (next s e) := by
  rw [returned_iff] at hr ⊢
  cases step_kind s e with
  | mild hlife | leaving _ hlife | store _ hlife | begins _ hlife | skip _ _ hlife => rw [hlife]; exact hr
  | close _ hlife | notify _ _ hlife | finish _ _ hlife => rw [hlife]; exact List.mem_append_left _ hr

theorem Ended.unregistered {s : Life P} (h : Ended s) (hr : Returned s) : Unregistered s :=
  (Consistent.iffs h.filed).1.mp (h.returned hr).2

theorem run_final {t : Life P} {es : List (Event P)} (h : Ended t)
    (hC : Meets next (fun s e => Enabled s e ∧ Orderly s e) t es) : Final t (run next t es) := by
  have hended : Ended (run next t es) := (always_of_step step_ended h hC).last
  have hstay : t.hosted.conn.state = .kDisconnected →
      (run next t es).hosted.conn.state = .kDisconnected ∧ closes (run next t es) = closes t := fun hd => by
    refine (always_of_step (P := fun u => Ended u ∧ u.hosted.conn.state = .kDisconnected ∧ closes u = closes t)
      ?_ ⟨h, hd, rfl⟩ hC).last.2
    rintro s e ⟨hs, hsd, hsc⟩ hC
    obtain ⟨hnd, hnc⟩ := step_disconnected hs hC.1 hC.2 hsd
    exact ⟨step_ended s e hs hC, hnd, hnc.trans hsc⟩
  have hreturned : Returned t → Returned (run next t es) := fun hr =>
    (always_of_step (P := Returned) (fun s e hs _ => Returned.step hs e) hr hC).last
  refine ⟨fun hd => (hstay hd).1, fun hd => hended.mask (hstay hd).1, fun hd => (hstay hd).2, ?_, fun hr => ?_⟩
  · rw [hended.callbacks]; exact hended.once
  · exact hended.unregistered (hreturned hr)

/-- Disconnected is final between any two states of a run in which the
connection is used in an orderly way. -/
theorem disconnected_final (self : P) (fd : Int) (callback : Bool) (ds es : List (Event P))
    (he : Meets next Enabled (start self fd callback) (ds ++ es))
    (ho : Meets next Orderly (start self fd callback) (ds ++ es)) :
    Final (run next (start self fd callback) ds) (run next (start self fd callback) (ds ++ es)) := by
  have hC := meets_and.mpr ⟨he, ho⟩
  rw [meets_append] at hC
  have h := (always_of_step step_ended (start_ended self fd callback) hC.1).last
  rw [run_append]
  exact run_final h hC.2

def peerClose : List (Event Unit) :=
  [.poll { PollMask.zero with pollin := true }, .readEvent (.received []), .writeEvent (.wrote 0),
    .queueDestroyed, .functor (.wrote 0), .destroyNotify, .destroyEnd]

theorem peerClose_enabled : Meets next Enabled (start () 7 false) peerClose := by
  refine ⟨⟨rfl, rfl, Channel.kReadEvent, rfl, by decide⟩, ⟨rfl, _, rfl, rfl⟩, ⟨rfl, _, rfl, rfl⟩, trivial,
    ⟨rfl, rfl⟩, ⟨false, rfl⟩, rfl, trivial⟩

theorem peerClose_orderly : Meets next Orderly (start () 7 false) peerClose := by
  refine ⟨.of_quiet (by simp [Executes]) id, .of_quiet (by simp [Executes]) id, .of_quiet (by simp [Executes]) id,
    .of_quiet (by simp [Executes]) id, ⟨?_, ?_, ?_, ?_, id⟩, .of_quiet (by simp [Executes]) id,
    .of_quiet (by simp [Executes]) id, trivial⟩
  · intro hx; exact absurd hx (by unfold Executes; decide)
  · intro hx; exact absurd hx (by unfold Executes; decide)
  · intro _; decide
  · intro _; decide

theorem disconnected_final_peerClose :
    Final (run next (start () 7 false) peerClose)
      (run next (start () 7 false) (peerClose ++ [.test 0 .stopRead, .finish 0])) := by
  refine disconnected_final () 7 false peerClose [.test 0 .stopRead, .finish 0] ?_ ?_
  · rw [meets_append]
    exact ⟨peerClose_enabled, rfl, rfl, trivial⟩
  · rw [meets_append]
    exact ⟨peerClose_orderly, .of_quiet (by simp [Executes]) id, .of_quiet (by simp [Executes]) id, trivial⟩

/-- A user who still holds the connection calls startRead after its end. -/
theorem startRead_after_close_registers :
    Meets next Enabled (start () 7 false) (peerClose ++ [.call .startRead (.wrote 0)]) ∧
      ¬ Final (run next (start () 7 false) peerClose)
        (run next (start () 7 false) (peerClose ++ [.call .startRead (.wrote 0)])) := by
  refine ⟨?_, fun h => ?_⟩
  · rw [meets_append]
    exact ⟨peerClose_enabled, .inl rfl, trivial⟩
  · have hd : Returned (run next (start () 7 false) peerClose) := by unfold Returned; decide
    have hk := (h.removed hd).2
    revert hk
    decide

end Webserver.FinalState
