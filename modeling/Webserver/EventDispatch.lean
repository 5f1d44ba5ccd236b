import Webserver.ConnectionSteps

namespace Webserver.EventDispatch

open Runs TcpConnection ConnectionLife ConnectionSteps

variable {P : Type}

inductive Callback
  | readCallback
  | writeCallback
  | closeCallback
  | errorCallback
deriving DecidableEq

/-- What other code does to the connection meanwhile: a call on the loop's thread,
or how another thread, past its test of state_, goes on with its call. -/
inductive Meanwhile
  | call (c : Call) (r : WriteResult)
  | store
  | finish (c : Call)

def Meanwhile.apply (h : Hosted P) : Meanwhile → Hosted P
  | .call c r => applyCall true r h c
  | .store => setState .kDisconnecting h
  | .finish c => finishCall h c

def applyAll (during : List Meanwhile) (h : Hosted P) : Hosted P := during.foldl Meanwhile.apply h

/-- Channel::handleEventWithGuard of a connection's channel, with the callbacks
it invokes. What is in during happens up to the second test, the calls inside
the read callback. Nobody stores to revents_ in that time. -/
def handleEventWithGuard (revents : PollMask) (rr : ReadResult) (during : List Meanwhile) (wr : WriteResult)
    (h : Hosted P) : List Callback × Hosted P :=
  let afterRead :=
    if revents.meets Channel.readBits then ([Callback.readCallback], applyAll during (handleRead rr h))
    else ([], applyAll during h)
  if revents.meets Channel.writeBits then (afterRead.1 ++ [.writeCallback], handleWrite wr afterRead.2)
  else afterRead

def handleEvent (alive : Bool) (revents : PollMask) (rr : ReadResult) (during : List Meanwhile) (wr : WriteResult)
    (h : Hosted P) : List Callback × Hosted P :=
  if alive then handleEventWithGuard revents rr during wr h else ([], h)

structure ActedOn (h : Hosted P) (revents : PollMask) (rr : ReadResult) (during : List Meanwhile)
    (wr : WriteResult) : Prop where
  invoked : (handleEvent true revents rr during wr h).1 ≠ []
  hangUp : revents.pollhup = true → revents.pollin = false →
    (handleEvent true revents rr during wr h).2.conn.state = .kDisconnected

/-- One of the bits that are tested is reported and, if the peer hung up and
there is no POLLIN, the connection is down already or the read finds the end, and
no other thread takes it back. -/
def Noticed (state : StateE) (revents : PollMask) (rr : ReadResult) (during : List Meanwhile) : Prop :=
  (revents.meets Channel.readBits = true ∨ revents.meets Channel.writeBits = true) ∧
    (revents.pollhup = true → revents.pollin = false →
      (state = .kDisconnected ∨ revents.meets Channel.readBits = true ∧ rr = .received []) ∧ .store ∉ during)

theorem applyCall_disconnected (r : WriteResult) (h : Hosted P) (c : Call) :
    (applyCall true r h c).conn.state = .kDisconnected ↔ h.conn.state = .kDisconnected := by
  cases call_kind ⟨h, none, fun _ => .idle, .outside⟩ c r with
  | mild _ hstate _ | begins _ _ hstate _ | skip _ _ _ hstate _ | finish _ _ _ hstate _ =>
      exact iff_of_eq (congrArg (· = _) hstate)
  | leaving hbefore _ hstate _ =>
      simp only at hbefore hstate
      rcases hbefore with hb | hb <;> simp [hb, hstate]
  | store hevent => simp at hevent
  | close hevent _ _ _ _ => cases c <;> simp [Executes] at hevent
  | notify hevent _ _ _ _ _ => cases hevent

theorem applyAll_disconnected (during : List Meanwhile) (h : Hosted P) :
    (applyAll during h).conn.state = .kDisconnected ↔ h.conn.state = .kDisconnected ∧ .store ∉ during := by
  induction during generalizing h with
  | nil => simp [applyAll]
  | cons m ms ih =>
      have hrest : (applyAll (m :: ms) h).conn.state = .kDisconnected ↔
          (m.apply h).conn.state = .kDisconnected ∧ .store ∉ ms := ih (m.apply h)
      rw [hrest]
      cases m with
      | call c r => simp [Meanwhile.apply, applyCall_disconnected]
      | store => simp [Meanwhile.apply, setState]
      | finish c => simp [Meanwhile.apply, (finishCall_mild h c).state]

theorem handleRead_disconnected (rr : ReadResult) (h : Hosted P) :
    (handleRead rr h).conn.state = .kDisconnected ↔ h.conn.state = .kDisconnected ∨ rr = .received [] := by
  cases rr with
  | failed e => simp [handleRead]
  | received bytes =>
      cases bytes with
      | nil => simp [handleRead, handleClose, emit, onChannel, setState]
      | cons b bs => simp [handleRead, emit, setInput]

theorem handleEvent_disconnected (revents : PollMask) (rr : ReadResult) (during : List Meanwhile) (wr : WriteResult)
    (h : Hosted P) : (handleEvent true revents rr during wr h).2.conn.state = .kDisconnected ↔
      (h.conn.state = .kDisconnected ∨ revents.meets Channel.readBits = true ∧ rr = .received []) ∧
        .store ∉ during := by
  simp only [handleEvent, handleEventWithGuard, if_true]
  have hwrite (k : Hosted P) : (handleWrite wr k).conn.state = k.conn.state := (handleWrite_mild wr k).state
  cases hr : revents.meets Channel.readBits with
  | false => split <;> simp [hwrite, applyAll_disconnected]
  | true => split <;> simp [hwrite, applyAll_disconnected, handleRead_disconnected]

theorem handleEvent_invokes (revents : PollMask) (rr : ReadResult) (during : List Meanwhile) (wr : WriteResult)
    (h : Hosted P) : (handleEvent true revents rr during wr h).1 ≠ [] ↔
      revents.meets Channel.readBits = true ∨ revents.meets Channel.writeBits = true := by
  simp only [handleEvent, handleEventWithGuard, if_true]
  cases revents.meets Channel.readBits <;> cases revents.meets Channel.writeBits <;> simp

def meanwhile (s : Life P) : Event P → List Meanwhile
  | .call c r => [.call c r]
  | .store t => match s.callers t with
    | .tested _ => [.store]
    | _ => []
  | .finish t => match s.callers t with
    | .tested c | .stored c => [.finish c]
    | .idle => []
  | _ => []

def meanwhiles : Life P → List (Event P) → List Meanwhile
  | _, [] => []
  | s, e :: es => meanwhile s e ++ meanwhiles (next s e) es

theorem next_call (s : Life P) {e : Event P} (he : isCall e = true) :
    (next s e).hosted = applyAll (meanwhile s e) s.hosted ∧ (next s e).active = s.active := by
  cases e with
  | call c r => exact ⟨rfl, rfl⟩
  | test t c =>
      simp only [next]
      split
      · exact ⟨rfl, rfl⟩
      · exact ⟨rfl, rfl⟩
  | store t | finish t =>
      simp only [next, meanwhile]
      cases s.callers t with
      | idle => exact ⟨rfl, rfl⟩
      | tested c => exact ⟨rfl, rfl⟩
      | stored c => exact ⟨rfl, rfl⟩
  | functor | delayedClose | poll | readEvent | writeEvent | others | queueDestroyed | destroyInLoop | destroyNotify
  | destroyEnd => cases he

theorem run_calls {s : Life P} {es : List (Event P)} (hes : ∀ e ∈ es, isCall e = true) :
    (run next s es).hosted = applyAll (meanwhiles s es) s.hosted ∧ (run next s es).active = s.active := by
  induction es generalizing s with
  | nil => exact ⟨rfl, rfl⟩
  | cons e es ih =>
      obtain ⟨hhosted, hactive⟩ := next_call s (hes e List.mem_cons_self)
      obtain ⟨hrest, hrestActive⟩ := ih (s := next s e) fun d hd => hes d (List.mem_cons_of_mem e hd)
      refine ⟨?_, hrestActive.trans hactive⟩
      have hall : (run next s (e :: es)).hosted = applyAll (meanwhiles (next s e) es) (next s e).hosted := hrest
      rw [hall, hhosted, meanwhiles, applyAll, applyAll, applyAll, List.foldl_append]

def afterFirst (revents : PollMask) (rr : ReadResult) (s : Life P) : Life P :=
  run next s (if revents.meets Channel.readBits then [.poll revents, .readEvent rr] else [.poll revents])

/-- The runs of ConnectionLife dispatch events as handleEvent does, whatever other
threads do in the meantime. -/
theorem run_dispatch (revents : PollMask) (rr : ReadResult) (wr : WriteResult) (s : Life P) {es : List (Event P)}
    (hes : ∀ e ∈ es, isCall e = true) : (run next (afterFirst revents rr s) (es ++ [.writeEvent wr])).hosted =
      (handleEvent true revents rr (meanwhiles (afterFirst revents rr s) es) wr (next s (.poll revents)).hosted).2 := by
  obtain ⟨hhosted, hactive⟩ := run_calls (s := afterFirst revents rr s) hes
  have hw : (revents.minus Channel.readBits).meets Channel.writeBits = revents.meets Channel.writeBits :=
    PollMask.minus_meets_of_disjoint revents rfl
  rw [run_append]
  generalize run next (afterFirst revents rr s) es = t at hhosted hactive
  generalize meanwhiles (afterFirst revents rr s) es = during at hhosted ⊢
  simp only [run, List.foldl, next, handleEvent, handleEventWithGuard, if_true]
  cases hr : revents.meets Channel.readBits with
  | false =>
      simp only [afterFirst, hr, Bool.false_eq_true, if_false, run, List.foldl, next] at hhosted hactive ⊢
      rw [hactive]
      simp only [hhosted]
      split <;> rfl
  | true =>
      simp only [afterFirst, hr, if_true, run, List.foldl, next, Option.map_some] at hhosted hactive ⊢
      rw [hactive]
      simp only [hhosted, hw]
      split <;> rfl

end Webserver.EventDispatch
