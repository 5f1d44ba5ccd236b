import Webserver.Bookkeeping
import Webserver.TcpConnection

namespace Webserver.Interest

open Runs Bookkeeping TcpConnection

variable {P : Type}

/-- The operations on one channel, its own or those of the TcpConnection that
holds it. A channel outside a connection just never sees the last three. -/
inductive Call
  | op (o : Op)
  | startReadInLoop
  | stopReadInLoop
  | handleClose

def applyCall : Call → Hosted P → Hosted P
  | .op o => onChannel o.apply
  | .startReadInLoop => startReadInLoop
  | .stopReadInLoop => stopReadInLoop
  | .handleClose => handleClose

def channelOp (c : TcpConnection) : Call → Option Op
  | .op o => some o
  | .startReadInLoop => if !c.reading ∨ !c.channel.isReading then some .enableReading else none
  | .stopReadInLoop => if c.reading ∨ c.channel.isReading then some .disableReading else none
  | .handleClose => some .disableAll

theorem call_channel (k : Call) (h : Hosted P) :
    ((applyCall k h).conn.channel, (applyCall k h).poller) =
      match channelOp h.conn k with
      | none => (h.conn.channel, h.poller)
      | some o => o.apply h.self (h.conn.channel, h.poller) := by
  cases k with
  | op o => rfl
  | startReadInLoop =>
      simp only [applyCall, startReadInLoop, channelOp]
      split <;> rfl
  | stopReadInLoop =>
      simp only [applyCall, stopReadInLoop, channelOp]
      split <;> rfl
  | handleClose => rfl

structure Server (P : Type) where
  conns : P → TcpConnection
  poller : EpollPoller P
  removed : P → Bool

abbrev Event (P : Type) := P × Call

def host (w : Server P) (p : P) : Hosted P := ⟨p, w.conns p, w.poller, [], 0, []⟩

variable [DecidableEq P]

def next (w : Server P) (e : Event P) : Server P :=
  let h := applyCall e.2 (host w e.1)
  ⟨Function.update w.conns e.1 h.conn, h.poller,
    match e.2 with
    | .op .remove => Function.update w.removed e.1 true
    | _ => w.removed⟩

def initial (fds : P → Int) : Server P :=
  ⟨fun p => TcpConnection.construct (fds p) false, .construct, fun _ => false⟩

def loop (w : Server P) : Loop P := ⟨fun p => (w.conns p).channel, w.poller⟩

theorem loop_next (w : Server P) (e : Event P) :
    loop (next w e) = match channelOp (w.conns e.1) e.2 with
      | none => loop w
      | some o => Bookkeeping.next (loop w) (.op e.1 o) := by
  have hc := call_channel e.2 (host w e.1)
  have hchan : (fun p => ((next w e).conns p).channel) =
      Function.update (fun p => (w.conns p).channel) e.1 (applyCall e.2 (host w e.1)).conn.channel := by
    funext p
    by_cases hp : p = e.1
    · subst hp; simp [next]
    · simp [next, hp]
  simp only [loop, hchan]
  cases ho : channelOp (w.conns e.1) e.2 with
  | none =>
      simp only [host, ho, Prod.mk.injEq] at hc
      simp only [next, host, hc.1, hc.2, Loop.mk.injEq, and_true]
      exact Function.update_eq_self _ _
  | some o =>
      simp only [host, ho] at hc
      simp only [next, Bookkeeping.next, host, ← hc]

theorem loop_inv {fds : P → Int} (hfds : Function.Injective fds) (w : Server P) (e : Event P)
    (h : Inv fds (loop w)) : Inv fds (loop (next w e)) := by
  rw [loop_next]
  cases channelOp (w.conns e.1) e.2 with
  | none => exact h
  | some o => exact op_inv hfds h e.1 o

def Wanted (w : Server P) (p : P) : Prop :=
  (∃ event, w.poller.kernel (w.conns p).channel.fd = some event) ↔ (w.conns p).channel.events ≠ .zero

def AllWanted (w : Server P) : Prop := ∀ p, w.removed p = false → Wanted w p

def newMask : Op → PollMask → PollMask
  | .enableReading, m => m.union Channel.kReadEvent
  | .disableReading, m => m.minus Channel.kReadEvent
  | .enableWriting, m => m.union Channel.kWriteEvent
  | .disableWriting, m => m.minus Channel.kWriteEvent
  | .disableAll, _ => .zero
  | .remove, m => m

def NotIdle (w : Server P) (e : Event P) : Prop :=
  match channelOp (w.conns e.1) e.2 with
  | none => True
  | some .remove => True
  | some o => w.removed e.1 = false → newMask o (w.conns e.1).channel.events = .zero →
      (w.conns e.1).channel.events ≠ .zero

omit [DecidableEq P] in
theorem apply_eq_setEvents {o : Op} (ho : o ≠ .remove) (self : P) (s : Channel × EpollPoller P) :
    o.apply self s = Channel.setEvents (newMask o) self s := by
  cases o with
  | remove => exact absurd rfl ho
  | enableReading | disableReading | enableWriting | disableWriting | disableAll => rfl

omit [DecidableEq P] in
theorem registered_iff {self : P} {c : Channel} {p : EpollPoller P} (h : Consistent self c p) :
    (∃ event, p.kernel c.fd = some event) ↔ c.index = .kAdded := by
  constructor
  · rintro ⟨event, hk⟩
    exact h.iffs.2.2.mpr (h.registered hk)
  · intro hi
    exact ⟨_, (h.iffs.2.2.mp hi).2⟩

omit [DecidableEq P] in
/-- updateChannel looks at the index before it looks at the mask: a channel that
is not in the kernel's set is put there even if it wants nothing. -/
theorem setEvents_wanted_iff (f : PollMask → PollMask) {self : P} {c : Channel} {p : EpollPoller P}
    (h : Consistent self c p) (hw : (∃ event, p.kernel c.fd = some event) ↔ c.events ≠ .zero) :
    ((∃ event, (Channel.setEvents f self (c, p)).2.kernel (Channel.setEvents f self (c, p)).1.fd = some event) ↔
      (Channel.setEvents f self (c, p)).1.events ≠ .zero) ↔ (f c.events = .zero → c.events ≠ .zero) := by
  rw [registered_iff h] at hw
  have hi : (Channel.setEvents f self (c, p)).1.index =
      if c.index = .kAdded ∧ f c.events = .zero then .kDeleted else .kAdded :=
    updateChannel_index _ _
  rw [registered_iff (setEvents_spec f h).1, setEvents_events, hi]
  simp only [hw]
  by_cases hz : f c.events = .zero
  · by_cases he : c.events = .zero
    · simp [he]
    · simp [hz, he]
  · simp [hz]

theorem next_other (w : Server P) (e : Event P) {q : P} (hq : q ≠ e.1) :
    (next w e).conns q = w.conns q := by
  simp [next, hq]

theorem step_other_wanted {fds : P → Int} (hfds : Function.Injective fds) {w : Server P}
    (h : Inv fds (loop w)) (e : Event P) {q : P} (hq : q ≠ e.1) : Wanted (next w e) q ↔ Wanted w q := by
  have hk : (next w e).poller.kernel (w.conns q).channel.fd = w.poller.kernel (w.conns q).channel.fd := by
    have hl := congrArg Loop.poller (loop_next w e)
    change (next w e).poller = _ at hl
    rw [hl]
    cases channelOp (w.conns e.1) e.2 with
    | none => rfl
    | some o =>
        apply (o.apply_spec (h.consistent e.1)).2.kernel
        have hne : fds q ≠ fds e.1 := fun he => hq (hfds he)
        simpa only [loop, ← h.fd] using hne
  simp only [Wanted, next_other w e hq, hk]

theorem step_self_wanted {w : Server P} (e : Event P) {o : Op} (ho : channelOp (w.conns e.1) e.2 = some o) :
    Wanted (next w e) e.1 ↔
      ((∃ event, (o.apply e.1 ((w.conns e.1).channel, w.poller)).2.kernel
        (o.apply e.1 ((w.conns e.1).channel, w.poller)).1.fd = some event) ↔
      (o.apply e.1 ((w.conns e.1).channel, w.poller)).1.events ≠ .zero) := by
  have hl := loop_next w e
  rw [ho] at hl
  have hp : (next w e).poller = (o.apply e.1 ((w.conns e.1).channel, w.poller)).2 :=
    congrArg Loop.poller hl
  have hc : ((next w e).conns e.1).channel = (o.apply e.1 ((w.conns e.1).channel, w.poller)).1 := by
    have hf := congrFun (congrArg Loop.chan hl) e.1
    simpa only [loop, Bookkeeping.next, Function.update_self] using hf
  rw [Wanted, hp, hc]

theorem next_removed_other (w : Server P) (e : Event P) {q : P} (hq : q ≠ e.1) :
    (next w e).removed q = w.removed q := by
  obtain ⟨p, k⟩ := e
  cases k with
  | op o => cases o <;> simp_all [next]
  | startReadInLoop | stopReadInLoop | handleClose => rfl

theorem next_removed_self (w : Server P) (e : Event P) :
    (next w e).removed e.1 = (w.removed e.1 || decide (channelOp (w.conns e.1) e.2 = some .remove)) := by
  obtain ⟨p, k⟩ := e
  cases k with
  | op o => cases o <;> simp [next, channelOp]
  | startReadInLoop | stopReadInLoop =>
      simp only [next, channelOp]
      split <;> simp
  | handleClose => simp [next, channelOp]

theorem step_wanted_iff {fds : P → Int} (hfds : Function.Injective fds) (w : Server P) (e : Event P)
    (h : Inv fds (loop w)) (hw : AllWanted w) : AllWanted (next w e) ↔ NotIdle w e := by
  have hothers : ∀ q, q ≠ e.1 → (next w e).removed q = false → Wanted (next w e) q := by
    intro q hq hr
    rw [next_removed_other w e hq] at hr
    exact (step_other_wanted hfds h e hq).mpr (hw q hr)
  have hself : AllWanted (next w e) ↔ ((next w e).removed e.1 = false → Wanted (next w e) e.1) := by
    constructor
    · exact fun ha => ha e.1
    · intro hs q
      by_cases hq : q = e.1
      · subst hq; exact hs
      · exact hothers q hq
  rw [hself, next_removed_self]
  cases ho : channelOp (w.conns e.1) e.2 with
  | none =>
      have hl := loop_next w e
      rw [ho] at hl
      have hp : (next w e).poller = w.poller := congrArg Loop.poller hl
      have hc : ((next w e).conns e.1).channel = (w.conns e.1).channel :=
        congrFun (congrArg Loop.chan hl) e.1
      simp only [NotIdle, ho, iff_true, reduceCtorEq, decide_false, Bool.or_false, Wanted, hp, hc]
      exact hw e.1
  | some o =>
      by_cases hrem : o = .remove
      · subst hrem
        simp [NotIdle, ho]
      · have hidle : NotIdle w e ↔ (w.removed e.1 = false →
            newMask o (w.conns e.1).channel.events = .zero → (w.conns e.1).channel.events ≠ .zero) := by
          cases o with
          | remove => exact absurd rfl hrem
          | enableReading | disableReading | enableWriting | disableWriting | disableAll =>
              simp only [NotIdle, ho]
        have hdec : decide (some o = some Op.remove) = false := by simp [hrem]
        rw [hidle, hdec, Bool.or_false]
        apply imp_congr_right
        intro hr
        rw [step_self_wanted e ho, apply_eq_setEvents hrem]
        exact setEvents_wanted_iff _ (h.consistent e.1) (hw e.1 hr)

omit [DecidableEq P] in
theorem initial_wanted (fds : P → Int) : AllWanted (initial fds) := by
  intro p _
  simp [Wanted, initial, EpollPoller.construct, TcpConnection.construct, Channel.construct]

/-- Along a run of channel and connection operations, every channel that was not
removed is in the kernel's set exactly when it wants an event, if and only if no
channel with an empty mask is ever disabled again. -/
theorem always_wanted_iff_not_idle (fds : P → Int) (hfds : Function.Injective fds) (es : List (Event P)) :
    Always next AllWanted (initial fds) es ↔ Meets next NotIdle (initial fds) es :=
  always_iff_meets (fun w e hw _ => loop_inv hfds w e hw) (fun w e hw _ => step_wanted_iff hfds w e hw)
    (Bookkeeping.initial_inv fds) (initial_wanted fds) (meets_true _ es)

theorem always_wanted_two_channels :
    Meets next NotIdle (initial fun b : Bool => if b then (4 : Int) else 3)
        [(true, .op .enableReading), (false, .startReadInLoop), (true, .op .enableWriting), (true, .handleClose)] ∧
      Always next AllWanted (initial fun b : Bool => if b then (4 : Int) else 3)
        [(true, .op .enableReading), (false, .startReadInLoop), (true, .op .enableWriting), (true, .handleClose)] := by
  have hm : Meets next NotIdle (initial fun b : Bool => if b then (4 : Int) else 3)
      [(true, .op .enableReading), (false, .startReadInLoop), (true, .op .enableWriting),
        (true, .handleClose)] := by
    refine ⟨?_, ?_, ?_, ?_, trivial⟩ <;> intro _ <;> decide
  refine ⟨hm, (always_wanted_iff_not_idle _ ?_ _).mpr hm⟩
  intro a b h
  revert h
  cases a <;> cases b <;> decide

/-- stopRead takes a connection out of the kernel's set; the close that follows
puts it back with an empty mask. -/
theorem closed_after_stopRead_registered :
    ¬ Always next AllWanted (initial fun _ : Unit => 7)
      [((), .op .enableReading), ((), .stopReadInLoop), ((), .handleClose)] := by
  intro h
  exact (h.last () rfl).mp ⟨_, rfl⟩ rfl

end Webserver.Interest
