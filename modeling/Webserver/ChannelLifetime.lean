import Webserver.ConnectionSteps
import Webserver.Ownership

namespace Webserver.ChannelLifetime

open Runs TcpConnection
open ConnectionSteps (filed)
open CrossThread (Shared)
open Ownership (Owned Alive)

variable {T P : Type}

/-- A connection with the pointers to it, and what of the events that Poll has
reported for its channel is still to be handled in this round. -/
structure Served (T P : Type) where
  owned : Owned T P
  active : Option PollMask

/-- The step expired is the handleEvent that finds tie_ gone. The other channels
of the loop leave this one's descriptor alone. -/
inductive Event (T P : Type)
  | poll (revents : PollMask)
  | readEvent (r : ReadResult)
  | writeEvent (r : WriteResult)
  | expired
  | others (poller : EpollPoller P)
  | owned (e : Ownership.Event T)

namespace Served

def hosted (s : Served T P) : Hosted P := s.owned.shared.hosted

def channel (s : Served T P) : Channel := s.hosted.conn.channel

variable [DecidableEq T]

def next (s : Served T P) : Event T P → Served T P
  | .poll revents =>
      ⟨s.owned.setHosted { s.hosted with conn := { s.hosted.conn with channel := s.channel.setRevents revents } },
        some revents⟩
  | .readEvent r => ⟨Ownership.next s.owned (.conn (.readEvent r)), s.active.map (·.minus Channel.readBits)⟩
  | .writeEvent r => match s.active with
    | some revents =>
        ⟨if revents.meets Channel.writeBits then Ownership.next s.owned (.conn (.writeEvent r)) else s.owned, none⟩
    | none => s
  | .expired => { s with active := none }
  | .others poller => { s with owned := s.owned.setHosted { s.hosted with poller := poller } }
  | .owned e => { s with owned := Ownership.next s.owned e }

/-- The steps of the owned connection that have no event of their own here. The
functors are swapped out when all reported events have been handled. -/
def Admits (s : Served T P) : Ownership.Event T → Prop
  | .conn (.readEvent _) | .conn (.writeEvent _) => False
  | .swapFunctors => s.active = none
  | _ => True

def Enabled (s : Served T P) : Event T P → Prop
  | .poll revents => s.active = none ∧ s.owned.ran = [] ∧ s.owned.rest = [] ∧ s.owned.shared.destroying = none ∧
      ∃ mask, s.hosted.poller.kernel s.channel.fd = some (mask, s.hosted.self) ∧
        revents.within (mask.union { PollMask.zero with pollerr := true, pollhup := true })
  | .readEvent _ => Alive s.owned ∧ ∃ revents, s.active = some revents ∧ revents.meets Channel.readBits = true
  | .writeEvent _ => Alive s.owned ∧ ∃ revents, s.active = some revents ∧ revents.meets Channel.readBits = false
  | .expired => ¬ Alive s.owned ∧ s.active ≠ none
  | .others poller =>
      poller.channels s.channel.fd = s.hosted.poller.channels s.channel.fd ∧
        poller.kernel s.channel.fd = s.hosted.poller.kernel s.channel.fd
  | .owned e => s.Admits e ∧ Ownership.Enabled s.owned e

def Executes (s : Served T P) (f : Functor) : Event T P → Prop
  | .owned (.functor _) => s.owned.rest.head? = some f
  | .owned (.conn (.loopCall (.send message) _)) => f = .sendInLoop message ∧ s.hosted.conn.state = .kConnected
  | .owned (.conn (.loopCall .startRead _)) => f = .startReadInLoop
  | .owned (.conn (.loopCall .stopRead _)) => f = .stopReadInLoop
  | _ => False

end Served

open Served

def enters (st : StateE) : Functor → Bool
  | .startReadInLoop | .stopReadInLoop => true
  | .sendInLoop _ => st ≠ .kDisconnected
  | .shutdownInLoop | .forceCloseInLoop | .connectDestroyed | .writeCompleteCallback => false

/-- None of them is executed on a channel that has been removed from the poller. -/
def Timely (s : Served T P) (e : Event T P) : Prop :=
  ∀ f, s.Executes f e → enters s.hosted.conn.state f = true → s.channel.index ≠ .kNew

/-- Wherever the loop has the address of the channel, the connection it belongs to is alive. -/
structure Safe (s : Served T P) : Prop where
  listed : ∀ p, s.hosted.poller.channels s.channel.fd = some p → p = s.hosted.self ∧ Alive s.owned
  registered : ∀ e, s.hosted.poller.kernel s.channel.fd = some e → e.2 = s.hosted.self ∧ Alive s.owned
  reported : s.active ≠ none → Alive s.owned

def Pledged (s : Owned T P) : Prop :=
  s.registered = true ∨ 0 < s.removals + s.removalsLeft ∨ .connectDestroyed ∈ s.pending ++ s.rest ∨
    s.shared.destroying.isSome = true

structure Inv (s : Served T P) : Prop where
  filed : filed s.hosted
  listed : s.channel.index ≠ .kNew → Pledged s.owned
  destroying : s.owned.shared.destroying.isSome = true → .connectDestroyed ∈ s.owned.ran
  active : s.active ≠ none → s.channel.index ≠ .kNew ∧ s.owned.ran = [] ∧ s.owned.rest = []

theorem Inv.alive {s : Served T P} (h : Inv s) (hp : Pledged s.owned) : Alive s.owned := by
  rcases hp with hp | hp | hp | hp
  · exact .inl hp
  · exact .inr (.inl (Nat.lt_add_right _ hp))
  · refine .inr (.inr (.inr ⟨.connectDestroyed, ?_, rfl⟩))
    rcases List.mem_append.mp hp with hp | hp <;> simp [hp]
  · refine .inr (.inr (.inr ⟨.connectDestroyed, ?_, rfl⟩))
    simp [h.destroying hp]

theorem Inv.safe {s : Served T P} (h : Inv s) : Safe s := by
  have halive : s.channel.index ≠ .kNew → Alive s.owned := fun hi => h.alive (h.listed hi)
  obtain ⟨hnew, hdeleted, hadded⟩ := h.filed.iffs
  refine ⟨fun p hp => ?_, fun e he => ?_, fun ha => halive (h.active ha).1⟩
  · have hi : s.channel.index ≠ .kNew := by
      intro hi
      rw [Served.channel, (hnew.mp hi).1] at hp
      cases hp
    refine ⟨?_, halive hi⟩
    cases hindex : s.channel.index with
    | kNew => exact absurd hindex hi
    | kDeleted => exact Option.some.inj (hp.symm.trans (hdeleted.mp hindex).1)
    | kAdded => exact Option.some.inj (hp.symm.trans (hadded.mp hindex).1)
  · obtain ⟨hlisted, hmask⟩ := h.filed.registered he
    refine ⟨?_, halive ?_⟩
    · rw [show s.hosted.poller.kernel s.channel.fd = some (s.channel.events, s.hosted.self) from hmask] at he
      rw [← Option.some.inj he]
    · intro hi
      rw [(hnew.mp hi).2] at hmask
      cases hmask

section Lists

structure Lists (h k : Hosted P) : Prop where
  stays : h.conn.channel.index ≠ .kNew → k.conn.channel.index ≠ .kNew
  comes : k.conn.channel.index ≠ .kNew →
    h.conn.channel.index ≠ .kNew ∨ h.trace.count .closeCallback < k.trace.count .closeCallback

theorem Lists.of_index {h k : Hosted P} (hi : k.conn.channel.index = h.conn.channel.index) : Lists h k :=
  ⟨fun hn => hi ▸ hn, fun hn => .inl (hi ▸ hn)⟩

theorem setEvents_listed (f : PollMask → PollMask) (h : Hosted P) :
    (onChannel (Channel.setEvents f) h).conn.channel.index ≠ .kNew := by
  have hi : (onChannel (Channel.setEvents f) h).conn.channel.index = _ :=
    Bookkeeping.updateChannel_index h.self ({ h.conn.channel with events := f h.conn.channel.events }, h.poller)
  rw [hi]
  split <;> simp

theorem Lists.of_listed {h k : Hosted P} (hn : h.conn.channel.index ≠ .kNew) (hk : k.conn.channel.index ≠ .kNew) :
    Lists h k :=
  ⟨fun _ => hk, fun _ => .inl hn⟩

theorem handleClose_lists (h : Hosted P) : Lists h (handleClose h) := by
  refine ⟨fun _ => setEvents_listed _ (setState .kDisconnected (emit .enterHandleClose h)), fun _ => .inr ?_⟩
  simp [handleClose, emit, onChannel, setState]

theorem queueWriteComplete_channel (h : Hosted P) : (queueWriteComplete h).conn.channel = h.conn.channel := by
  simp only [queueWriteComplete]
  split
  · rfl
  · rfl

theorem shutdownInLoop_channel (h : Hosted P) : (shutdownInLoop h).conn.channel = h.conn.channel := by
  simp only [shutdownInLoop]
  split
  · rfl
  · rfl

theorem directWrite_channel (data : List Byte) (r : WriteResult) (h : Hosted P) :
    (directWrite data r h).1.conn.channel = h.conn.channel := by
  cases r with
  | failed e => rfl
  | wrote n =>
      simp only [directWrite]
      split
      · exact queueWriteComplete_channel _
      · rfl

theorem sendInLoop_listed (data : List Byte) (r : WriteResult) {h : Hosted P}
    (hn : h.conn.channel.index ≠ .kNew) : (sendInLoop data r h).conn.channel.index ≠ .kNew := by
  refine sendInLoop_rule (Q := fun k => k.conn.channel.index ≠ .kNew) hn ?_ fun rest k hk => ?_
  · rw [directWrite_channel]
    exact hn
  · simp only [bufferOutput]
    split
    · exact hk
    · exact setEvents_listed _ _

theorem afterWrite_listed (n : Nat) {h : Hosted P} (hn : h.conn.channel.index ≠ .kNew) :
    (afterWrite n h).conn.channel.index ≠ .kNew := by
  simp only [afterWrite]
  split
  · split
    · rw [shutdownInLoop_channel, queueWriteComplete_channel]
      exact setEvents_listed _ _
    · rw [queueWriteComplete_channel]
      exact setEvents_listed _ _
  · exact hn

theorem handleWrite_listed (r : WriteResult) {h : Hosted P} (hn : h.conn.channel.index ≠ .kNew) :
    (handleWrite r h).conn.channel.index ≠ .kNew := by
  simp only [handleWrite]
  split
  · cases r with
    | failed e => exact hn
    | wrote n =>
        simp only
        split
        · exact afterWrite_listed _ hn
        · exact hn
  · exact hn

theorem handleRead_lists (r : ReadResult) (h : Hosted P) : Lists h (handleRead r h) := by
  cases r with
  | failed e => exact .of_index rfl
  | received bytes =>
      cases bytes with
      | nil => exact handleClose_lists h
      | cons b bs => exact .of_index rfl

theorem handleRead_filed (r : ReadResult) {h : Hosted P} (hf : filed h) : filed (handleRead r h) := by
  cases r with
  | failed e => exact hf
  | received bytes =>
      cases bytes with
      | nil => exact ConnectionSteps.handleClose_filed hf
      | cons b bs => exact hf

theorem forceCloseInLoop_lists (h : Hosted P) : Lists h (forceCloseInLoop h) := by
  simp only [forceCloseInLoop]
  split
  · exact handleClose_lists h
  · exact .of_index rfl

theorem startReadInLoop_listed {h : Hosted P} (hn : h.conn.channel.index ≠ .kNew) :
    (startReadInLoop h).conn.channel.index ≠ .kNew := by
  simp only [startReadInLoop]
  split
  · exact setEvents_listed _ h
  · exact hn

theorem stopReadInLoop_listed {h : Hosted P} (hn : h.conn.channel.index ≠ .kNew) :
    (stopReadInLoop h).conn.channel.index ≠ .kNew := by
  simp only [stopReadInLoop]
  split
  · exact setEvents_listed _ h
  · exact hn

theorem runFunctor_lists (r : WriteResult) {h : Hosted P} {f : Functor} (hf : f ≠ .connectDestroyed)
    (hn : enters h.conn.state f = true → h.conn.channel.index ≠ .kNew) : Lists h (runFunctor r h f) := by
  cases f with
  | sendInLoop message =>
      by_cases hd : h.conn.state = .kDisconnected
      · exact .of_index (by simp [runFunctor, sendInLoop, hd])
      · have hl := hn (by simp [enters, hd])
        exact .of_listed hl (sendInLoop_listed message r hl)
  | shutdownInLoop => exact .of_index (congrArg Channel.index (shutdownInLoop_channel h))
  | forceCloseInLoop => exact forceCloseInLoop_lists h
  | startReadInLoop => exact .of_listed (hn rfl) (startReadInLoop_listed (hn rfl))
  | stopReadInLoop => exact .of_listed (hn rfl) (stopReadInLoop_listed (hn rfl))
  | connectDestroyed => exact absurd rfl hf
  | writeCompleteCallback => exact .of_index rfl

theorem forceClose_channel (h : Hosted P) : (forceClose h).conn.channel = h.conn.channel := by
  simp only [forceClose]
  split
  · rfl
  · rfl

end Lists

structure Aside (x y : Shared T P) : Prop where
  channel : y.hosted.conn.channel = x.hosted.conn.channel
  poller : y.hosted.poller = x.hosted.poller
  self : y.hosted.self = x.hosted.self
  pending : ∃ ws, y.hosted.pendingFunctors = x.hosted.pendingFunctors ++ ws
  destroying : y.destroying = x.destroying

theorem Aside.refl (x : Shared T P) : Aside x x := ⟨rfl, rfl, rfl, ⟨[], (List.append_nil _).symm⟩, rfl⟩

theorem finishCall_aside [DecidableEq T] (x : Shared T P) (t : T) (c : ConnectionLife.Call) :
    Aside x { x.setCaller t .idle with hosted := ConnectionLife.finishCall x.hosted c } := by
  cases c with
  | forceCloseWithDelay => exact ⟨rfl, rfl, rfl, ⟨[], (List.append_nil _).symm⟩, rfl⟩
  | send | shutdown | forceClose | startRead | stopRead => exact ⟨rfl, rfl, rfl, ⟨_, rfl⟩, rfl⟩

theorem forceClose_aside (x : Shared T P) :
    Aside x { x with hosted := forceClose { x.hosted with delayedCloses := x.hosted.delayedCloses - 1 } } := by
  simp only [forceClose]
  split
  · exact ⟨rfl, rfl, rfl, ⟨[.forceCloseInLoop], rfl⟩, rfl⟩
  · exact ⟨rfl, rfl, rfl, ⟨[], (List.append_nil _).symm⟩, rfl⟩

section Steps

theorem move_pending_sub {x : Shared T P} {s : Owned T P} {f : Functor} (hf : f ∈ x.hosted.pendingFunctors) :
    f ∈ (s.move x).pending := by
  simp only [Owned.move, Owned.removeConnection]
  split
  · split
    · exact List.mem_append_left _ hf
    · exact hf
  · exact hf

theorem move_hosted (x : Shared T P) (s : Owned T P) :
    (s.move x).shared.hosted.conn = x.hosted.conn ∧ (s.move x).shared.hosted.poller = x.hosted.poller ∧
      (s.move x).shared.hosted.self = x.hosted.self ∧ (s.move x).shared.destroying = x.destroying := by
  simp only [Owned.move, Owned.removeConnection]
  split
  · split
    · exact ⟨rfl, rfl, rfl, rfl⟩
    · exact ⟨rfl, rfl, rfl, rfl⟩
  · exact ⟨rfl, rfl, rfl, rfl⟩

theorem removeConnection_pledged (s : Owned T P) : Pledged s.removeConnection := by
  simp only [Owned.removeConnection]
  split
  · refine .inr (.inr (.inl ?_))
    simp [Owned.removeConnectionInLoop, Owned.setHosted, Owned.pending, queueInLoop]
  · refine .inr (.inl ?_)
    change 0 < s.removals + 1 + s.removalsLeft
    omega

theorem move_pledged {x : Shared T P} {s : Owned T P} {ws : List Functor}
    (hw : x.hosted.pendingFunctors = s.pending ++ ws) (hdest : x.destroying = s.shared.destroying)
    (hp : Pledged s) : Pledged (s.move x) := by
  rcases hp with hp | hp | hp | hp
  · simp only [Owned.move]
    split
    · exact removeConnection_pledged _
    · exact .inl hp
  · simp only [Owned.move]
    split
    · exact removeConnection_pledged _
    · exact .inr (.inl hp)
  · refine .inr (.inr (.inl ?_))
    rcases List.mem_append.mp hp with hp | hp
    · refine List.mem_append_left _ (move_pending_sub ?_)
      rw [hw]
      exact List.mem_append_left _ hp
    · rw [(Ownership.move_batch x s).2]
      exact List.mem_append_right _ hp
  · refine .inr (.inr (.inr ?_))
    rw [(move_hosted x s).2.2.2, hdest]
    exact hp

theorem Inv.move {s : Served T P} (h : Inv s) {x : Shared T P} {active : Option PollMask} {ws : List Functor}
    (hfiled : ConnectionSteps.filed x.hosted) (hlists : Lists s.hosted x.hosted)
    (hw : x.hosted.pendingFunctors = s.owned.pending ++ ws) (hdest : x.destroying = s.owned.shared.destroying)
    (hactive : active ≠ none → s.active ≠ none) : Inv ⟨s.owned.move x, active⟩ := by
  obtain ⟨hran, hrest⟩ := Ownership.move_batch x s.owned
  obtain ⟨hconn, hpoller, hself, hdestroying⟩ := move_hosted x s.owned
  constructor
  · change Bookkeeping.Consistent (s.owned.move x).shared.hosted.self (s.owned.move x).shared.hosted.conn.channel
      (s.owned.move x).shared.hosted.poller
    rw [hconn, hpoller, hself]
    exact hfiled
  · intro hi
    change (s.owned.move x).shared.hosted.conn.channel.index ≠ .kNew at hi
    rw [hconn] at hi
    rcases hlists.comes hi with hbefore | hclose
    · exact move_pledged hw hdest (h.listed hbefore)
    · change s.owned.shared.hosted.trace.count _ < _ at hclose
      change Pledged (s.owned.move x)
      rw [Owned.move, if_pos hclose]
      exact removeConnection_pledged _
  · intro hd
    change (s.owned.move x).shared.destroying.isSome = true at hd
    rw [hdestroying, hdest] at hd
    change _ ∈ (s.owned.move x).ran
    rw [hran]
    exact h.destroying hd
  · intro ha
    obtain ⟨hi, hr, hs⟩ := h.active (hactive ha)
    refine ⟨?_, hran.trans hr, hrest.trans hs⟩
    change (s.owned.move x).shared.hosted.conn.channel.index ≠ .kNew
    rw [hconn]
    exact hlists.stays hi

theorem Inv.kept {s : Served T P} (h : Inv s) {o : Owned T P} (hhosted : o.shared = s.owned.shared)
    (hran : o.ran = s.owned.ran) (hrest : o.rest = s.owned.rest) (hp : Pledged s.owned → Pledged o) :
    Inv ⟨o, s.active⟩ := by
  have heq : Served.hosted ⟨o, s.active⟩ = s.hosted := congrArg Shared.hosted hhosted
  refine ⟨?_, fun hi => hp (h.listed ?_), fun hd => ?_, fun ha => ?_⟩
  · rw [heq]
    exact h.filed
  · rw [Served.channel, heq] at hi
    exact hi
  · change o.shared.destroying.isSome = true at hd
    change _ ∈ o.ran
    rw [hhosted] at hd
    rw [hran]
    exact h.destroying hd
  · obtain ⟨hi, hr, hs⟩ := h.active ha
    refine ⟨?_, hran.trans hr, hrest.trans hs⟩
    rw [Served.channel, heq]
    exact hi

variable [DecidableEq T]

theorem functor_inv {s : Served T P} (h : Inv s) (r : WriteResult) (hn : s.owned.rest ≠ [])
    (ht : Timely s (.owned (.functor r))) : Inv (s.next (.owned (.functor r))) := by
  obtain ⟨f, fs, hr⟩ := List.exists_cons_of_ne_nil hn
  have hidle : s.active = none := by
    by_contra ha
    exact hn (h.active ha).2.2
  have hnext : s.next (.owned (.functor r)) =
      ⟨{ s.owned with ran := s.owned.ran ++ [f], rest := fs }.move (Ownership.execute r s.owned.shared f), s.active⟩ := by
    simp only [Served.next, Ownership.next, hr]
  rw [hnext]
  by_cases hf : f = .connectDestroyed
  · subst hf
    have hmove : Owned.move (Ownership.execute r s.owned.shared .connectDestroyed)
        { s.owned with ran := s.owned.ran ++ [.connectDestroyed], rest := fs } =
        { s.owned with
          shared := CrossThread.beginDestroyed s.owned.shared.hosted s.owned.shared
          ran := s.owned.ran ++ [.connectDestroyed]
          rest := fs } := if_neg (Nat.lt_irrefl _)
    rw [hmove]
    refine ⟨h.filed, fun _ => .inr (.inr (.inr rfl)), fun _ => ?_, fun ha => absurd hidle ha⟩
    simp
  · have hpop : Inv (⟨{ s.owned with ran := s.owned.ran ++ [f], rest := fs }, s.active⟩ : Served T P) := by
      refine ⟨h.filed, fun hi => ?_, fun hd => List.mem_append_left _ (h.destroying hd), fun ha => absurd hidle ha⟩
      rcases h.listed hi with hp | hp | hp | hp
      · exact .inl hp
      · exact .inr (.inl hp)
      · have hrest : .connectDestroyed ∈ s.owned.pending ++ fs := by
          rw [hr] at hp
          simpa [Ne.symm hf] using hp
        exact .inr (.inr (.inl hrest))
      · exact .inr (.inr (.inr hp))
    have hexec : Ownership.execute r s.owned.shared f =
        { s.owned.shared with hosted := runFunctor r s.hosted f } := by
      cases f with
      | connectDestroyed => exact absurd rfl hf
      | sendInLoop | shutdownInLoop | forceCloseInLoop | startReadInLoop | stopReadInLoop | writeCompleteCallback => rfl
    obtain ⟨ws, hw, _⟩ := CrossThread.runFunctor_pushes r s.hosted f
    rw [hexec]
    refine hpop.move ?_ ?_ hw rfl id
    · exact ConnectionSteps.runFunctor_filed r f h.filed
    · refine runFunctor_lists r hf (ht f ?_)
      simp [Served.Executes, hr]

theorem loopCall_inv {s : Served T P} (h : Inv s) (c : ConnectionLife.Call) (r : WriteResult)
    (ht : Timely s (.owned (.conn (.loopCall c r)))) : Inv (s.next (.owned (.conn (.loopCall c r)))) := by
  obtain ⟨ws, hw, _⟩ := CrossThread.loopCall_pushes r s.hosted c
  refine h.move (ConnectionSteps.applyCall_filed true r c h.filed) ?_ hw rfl id
  cases c with
  | send message =>
      simp only [CrossThread.next, ConnectionLife.applyCall, send]
      split
      · rename_i hst
        have hl := ht (.sendInLoop message) ⟨rfl, hst⟩ (by simp [enters, Served.hosted, hst])
        exact .of_listed hl (sendInLoop_listed message r hl)
      · exact .of_index rfl
  | shutdown =>
      simp only [CrossThread.next, ConnectionLife.applyCall, shutdown]
      split
      · exact .of_index (congrArg Channel.index (shutdownInLoop_channel _))
      · exact .of_index rfl
  | forceClose => exact .of_index (congrArg Channel.index (forceClose_channel s.hosted))
  | forceCloseWithDelay =>
      simp only [CrossThread.next, ConnectionLife.applyCall, forceCloseWithDelay]
      split
      · exact .of_index rfl
      · exact .of_index rfl
  | startRead =>
      have hl := ht .startReadInLoop rfl rfl
      exact .of_listed hl (startReadInLoop_listed hl)
  | stopRead =>
      have hl := ht .stopReadInLoop rfl rfl
      exact .of_listed hl (stopReadInLoop_listed hl)

omit [DecidableEq T] in
theorem Inv.aside {s : Served T P} (h : Inv s) {x : Shared T P} (ha : Aside s.owned.shared x) :
    Inv ⟨s.owned.move x, s.active⟩ := by
  obtain ⟨ws, hw⟩ := ha.pending
  refine h.move ?_ (.of_index (congrArg Channel.index ha.channel)) hw ha.destroying id
  simp only [ConnectionSteps.filed, ha.channel, ha.poller, ha.self]
  exact h.filed

theorem caller_aside (x : Shared T P) {e : CrossThread.Event T}
    (he : (∃ t c, e = .test t c) ∨ (∃ t, e = .store t) ∨ ∃ t, e = .finish t) : Aside x (CrossThread.next x e) := by
  rcases he with ⟨t, c, rfl⟩ | ⟨t, rfl⟩ | ⟨t, rfl⟩
  · simp only [CrossThread.next]
    split
    · exact ⟨rfl, rfl, rfl, ⟨[], (List.append_nil _).symm⟩, rfl⟩
    · exact .refl x
  · simp only [CrossThread.next]
    split
    · exact ⟨rfl, rfl, rfl, ⟨[], (List.append_nil _).symm⟩, rfl⟩
    · exact .refl x
  · simp only [CrossThread.next]
    split
    · exact finishCall_aside x t _
    · exact finishCall_aside x t _
    · exact .refl x

theorem destroyEnd_inv {s : Served T P} (h : Inv s) (hd : s.owned.shared.destroying.isSome = true) :
    Inv (s.next (.owned (.conn .destroyEnd))) := by
  obtain ⟨connected, hc⟩ := Option.isSome_iff_exists.mp hd
  have hidle : s.active = none := by
    by_contra ha
    have hmem := h.destroying hd
    rw [(h.active ha).2.1] at hmem
    cases hmem
  have hfiled : filed (if connected then notifyDown s.hosted else s.hosted) := by
    split
    · exact (Bookkeeping.setEvents_spec (fun _ => Channel.kNonEvent) (c := s.channel) h.filed).1
    · exact h.filed
  obtain ⟨hconn, hpoller, hself, hdestroying⟩ :=
    move_hosted (CrossThread.next s.owned.shared .destroyEnd) s.owned
  have hx : CrossThread.next s.owned.shared .destroyEnd =
      { s.owned.shared with
        hosted := removeDestroyed (if connected then notifyDown s.hosted else s.hosted)
        destroying := none } := by
    simp only [CrossThread.next, hc]
    rfl
  constructor
  · change Bookkeeping.Consistent (Owned.shared (s.owned.move _)).hosted.self
      (Owned.shared (s.owned.move _)).hosted.conn.channel (Owned.shared (s.owned.move _)).hosted.poller
    rw [hconn, hpoller, hself, hx]
    exact ConnectionSteps.removeDestroyed_filed hfiled
  · intro hi
    change (Owned.shared (s.owned.move _)).hosted.conn.channel.index ≠ .kNew at hi
    rw [hconn, hx] at hi
    exact absurd rfl hi
  · intro hs
    change (Owned.shared (s.owned.move _)).destroying.isSome = true at hs
    rw [hdestroying, hx] at hs
    cases hs
  · exact fun ha => absurd hidle ha

theorem conn_inv {s : Served T P} (h : Inv s) {e : CrossThread.Event T} (he : s.Admits (.conn e))
    (hen : Ownership.Enabled s.owned (.conn e)) (ht : Timely s (.owned (.conn e))) :
    Inv (s.next (.owned (.conn e))) := by
  cases e with
  | test t c => exact h.aside (caller_aside s.owned.shared (.inl ⟨t, c, rfl⟩))
  | store t => exact h.aside (caller_aside s.owned.shared (.inr (.inl ⟨t, rfl⟩)))
  | finish t => exact h.aside (caller_aside s.owned.shared (.inr (.inr ⟨t, rfl⟩)))
  | loopCall c r => exact loopCall_inv h c r ht
  | delayedClose => exact h.aside (forceClose_aside s.owned.shared)
  | readEvent | writeEvent => exact absurd he id
  | destroyEnd => exact destroyEnd_inv h hen.2
  | functor | queueDestroyed | destroyInLoop => exact absurd hen.1 id

theorem owned_inv {s : Served T P} (h : Inv s) {e : Ownership.Event T} (he : s.Admits e)
    (hen : Ownership.Enabled s.owned e) (ht : Timely s (.owned e)) : Inv (s.next (.owned e)) := by
  cases e with
  | acquire t | drop t => exact h.kept rfl rfl rfl id
  | conn e => exact conn_inv h he hen ht
  | swapFunctors =>
      have hidle : s.active = none := he
      refine ⟨h.filed, fun hi => ?_, fun hd => ?_, fun ha => absurd hidle ha⟩
      · rcases h.listed hi with hp | hp | hp | hp
        · exact .inl hp
        · exact .inr (.inl hp)
        · rw [hen.2.1, List.append_nil] at hp
          exact .inr (.inr (.inl hp))
        · exact .inr (.inr (.inr hp))
      · change s.owned.shared.destroying.isSome = true at hd
        rw [hen.2.2] at hd
        cases hd
  | functor r => exact functor_inv h r hen.1 ht
  | endFunctors =>
      refine ⟨h.filed, h.listed, fun hd => ?_, fun ha => ⟨(h.active ha).1, rfl, hen.1⟩⟩
      change s.owned.shared.destroying.isSome = true at hd
      rw [hen.2] at hd
      cases hd
  | swapRemovals =>
      refine h.kept rfl rfl rfl fun hp => ?_
      rcases hp with hp | hp | hp
      · exact .inl hp
      · refine .inr (.inl ?_)
        change 0 < 0 + s.owned.removals
        rw [hen.1] at hp
        omega
      · exact .inr (.inr hp)
  | removal =>
      refine ⟨h.filed, fun _ => .inr (.inr (.inl ?_)), h.destroying, h.active⟩
      simp [Served.next, Ownership.next, Owned.removeConnectionInLoop, Owned.setHosted, Owned.pending, queueInLoop]
  | endRemovals => exact h.kept rfl rfl rfl id

theorem step_inv (s : Served T P) (e : Event T P) (h : Inv s) (he : s.Enabled e ∧ Timely s e) : Inv (s.next e) := by
  obtain ⟨hen, ht⟩ := he
  cases e with
  | poll revents =>
      obtain ⟨_, hran, hrest, _, mask, hk, _⟩ := hen
      have hindex : s.channel.index = .kAdded := h.filed.iffs.2.2.mpr (h.filed.registered hk)
      have hn : s.channel.index ≠ .kNew := by simp [hindex]
      exact ⟨h.filed, h.listed, h.destroying, fun _ => ⟨hn, hran, hrest⟩⟩
  | readEvent r =>
      obtain ⟨ws, hw, _⟩ := CrossThread.handleRead_pushes r s.hosted
      exact h.move (handleRead_filed r h.filed) (handleRead_lists r s.hosted) hw rfl
        fun ha hn => ha (by rw [hn]; rfl)
  | writeEvent r =>
      obtain ⟨_, revents, ha, _⟩ := hen
      have hn := (h.active (by simp [ha])).1
      simp only [Served.next, ha]
      split
      · obtain ⟨ws, hw, _⟩ := (CrossThread.handleWrite_steady r s.hosted).pushes
        exact h.move ((ConnectionSteps.handleWrite_mild r s.hosted).filed h.filed)
          (.of_listed hn (handleWrite_listed r hn)) hw rfl (absurd rfl)
      · exact ⟨h.filed, h.listed, h.destroying, fun hx => absurd rfl hx⟩
  | expired => exact ⟨h.filed, h.listed, h.destroying, fun ha => absurd rfl ha⟩
  | others poller =>
      obtain ⟨hchannels, hkernel⟩ := hen
      refine ⟨?_, h.listed, h.destroying, h.active⟩
      simp only [Served.channel, Served.hosted] at hchannels hkernel
      simp only [ConnectionSteps.filed, Bookkeeping.Consistent, Bookkeeping.Filed, Served.next, Served.hosted,
        Owned.setHosted, hchannels, hkernel]
      exact h.filed
  | owned e => exact owned_inv h hen.1 hen.2 ht

end Steps

def start (self : P) (poller : EpollPoller P) (fd : Int) (callback inBaseLoop : Bool) : Served T P :=
  ⟨Ownership.start self poller fd callback inBaseLoop, none⟩

theorem start_inv (self : P) {poller : EpollPoller P} {fd : Int} (callback inBaseLoop : Bool)
    (hnew : poller.channels fd = none ∧ poller.kernel fd = none) :
    Inv (start self poller fd callback inBaseLoop : Served T P) := by
  refine ⟨?_, fun _ => .inl rfl, fun hd => ?_, fun ha => absurd rfl ha⟩
  · exact (Bookkeeping.setEvents_spec (fun m => m.union Channel.kReadEvent) (c := Channel.construct fd) hnew).1
  · cases hd

variable [DecidableEq T]

/-- The poller, the kernel and activeChannels_ never hold the address of a
channel whose connection is gone, as long as nothing enters it again after
connectDestroyed has removed it. -/
theorem always_safe (self : P) (poller : EpollPoller P) (fd : Int) (callback inBaseLoop : Bool)
    (hnew : poller.channels fd = none ∧ poller.kernel fd = none) (es : List (Event T P))
    (he : Meets Served.next Served.Enabled (start self poller fd callback inBaseLoop) es)
    (ht : Meets Served.next Timely (start self poller fd callback inBaseLoop) es) :
    Always Served.next Safe (start self poller fd callback inBaseLoop) es :=
  always_mono (fun _ h => h.safe)
    (always_of_step step_inv (start_inv self callback inBaseLoop hnew) (meets_and.mpr ⟨he, ht⟩))

theorem always_safe_closed :
    Always Served.next Safe (start () .construct 7 true false : Served Unit Unit)
      [.owned (.acquire ()), .owned (.conn (.test () .stopRead)), .owned (.conn (.finish ())),
        .poll { PollMask.zero with pollin := true }, .readEvent (.received []), .owned (.drop ()),
        .writeEvent (.wrote 0), .owned .swapRemovals, .owned .removal, .owned .swapFunctors,
        .owned (.functor (.wrote 0)), .owned (.functor (.wrote 0)), .owned (.conn .destroyEnd), .owned .endFunctors,
        .owned .endRemovals] := by
  refine always_safe () .construct 7 true false ⟨rfl, rfl⟩ _ ?_ ?_
  · exact ⟨⟨trivial, rfl, .inl rfl⟩, ⟨trivial, rfl, rfl⟩, ⟨trivial, rfl, rfl⟩,
      ⟨rfl, rfl, rfl, rfl, _, rfl, by decide⟩, ⟨.inl rfl, _, rfl, by decide⟩, ⟨trivial, rfl, rfl⟩,
      ⟨.inl rfl, _, rfl, by decide⟩, ⟨trivial, rfl, rfl⟩, ⟨trivial, Nat.zero_lt_one⟩, ⟨rfl, rfl, rfl, rfl⟩,
      ⟨trivial, by decide +kernel, rfl⟩, ⟨trivial, by decide +kernel, rfl⟩, ⟨trivial, trivial, rfl⟩,
      ⟨trivial, rfl, rfl⟩, ⟨trivial, rfl⟩, trivial⟩
  · exact ⟨fun _ h => h.elim, fun _ h => h.elim, fun _ h => h.elim, fun _ h => h.elim, fun _ h => h.elim,
      fun _ h => h.elim, fun _ h => h.elim, fun _ h => h.elim, fun _ h => h.elim, fun _ h => h.elim,
      fun _ _ _ => by decide +kernel, fun _ _ _ => by decide +kernel, fun _ h => h.elim, fun _ h => h.elim,
      fun _ h => h.elim, trivial⟩

/-- A stopRead that is executed after connectDestroyed enters the channel again;
then the last pointer goes. -/
theorem late_stopRead_dangles :
    let es : List (Event Unit Unit) := [.owned (.acquire ()), .poll { PollMask.zero with pollin := true },
      .readEvent (.received []), .writeEvent (.wrote 0), .owned .swapRemovals, .owned .removal, .owned .endRemovals,
      .owned .swapFunctors, .owned (.functor (.wrote 0)), .owned (.conn .destroyEnd), .owned .endFunctors,
      .owned (.conn (.test () .stopRead)), .owned (.conn (.finish ())), .owned .swapFunctors,
      .owned (.functor (.wrote 0)), .owned .endFunctors, .owned (.drop ())]
    Meets Served.next Served.Enabled (start () .construct 7 true false) es ∧
      ¬ Always Served.next Safe (start () .construct 7 true false) es := by
  refine ⟨?_, fun h => ?_⟩
  · exact ⟨⟨trivial, rfl, .inl rfl⟩, ⟨rfl, rfl, rfl, rfl, _, rfl, by decide⟩, ⟨.inl rfl, _, rfl, by decide⟩,
      ⟨.inl rfl, _, rfl, by decide⟩, ⟨trivial, rfl, rfl⟩, ⟨trivial, Nat.zero_lt_one⟩, ⟨trivial, rfl⟩,
      ⟨rfl, rfl, rfl, rfl⟩, ⟨trivial, by decide +kernel, rfl⟩, ⟨trivial, trivial, rfl⟩, ⟨trivial, rfl, rfl⟩,
      ⟨trivial, rfl, rfl⟩, ⟨trivial, rfl, rfl⟩, ⟨rfl, rfl, rfl, rfl⟩, ⟨trivial, by decide +kernel, rfl⟩,
      ⟨trivial, rfl, rfl⟩, ⟨trivial, rfl, rfl⟩, trivial⟩
  · obtain ⟨_, hr | hr | ⟨t, ht⟩ | ⟨f, hf, _⟩⟩ := h.last.listed () rfl
    · cases hr
    · exact absurd hr (by decide +kernel)
    · cases ht
    · cases hf

end Webserver.ChannelLifetime
