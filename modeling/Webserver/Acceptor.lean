import Webserver.Runs

namespace Webserver

inductive AcceptErrno
  | eagain
  | econnaborted
  | eintr
  | eproto
  | eperm
  | emfile
  | ebadf
  | efault
  | einval
  | enfile
  | enobufs
  | enomem
  | enotsock
  | eopnotsupp
  | other (code : Int)
deriving DecidableEq

def AcceptErrno.expected : AcceptErrno → Bool
  | .eagain | .econnaborted | .eintr | .eproto | .eperm | .emfile => true
  | .ebadf | .efault | .einval | .enfile | .enobufs | .enomem | .enotsock | .eopnotsupp | .other _ => false

inductive FdResult
  | fd (n : Nat)
  | failed (e : AcceptErrno)
deriving DecidableEq

def FdResult.toFd : FdResult → Option Nat
  | .fd n => some n
  | .failed _ => none

def FdResult.errno : FdResult → Option AcceptErrno
  | .fd _ => none
  | .failed e => some e

/-- An Acceptor with the errno of its thread, which is none before a system call
has failed. A descriptor -1 is none, dropped counts the pending connections that
were accepted and closed through idleFd_, and aborted says that LOG_FATAL ran. -/
structure Acceptor where
  newConnectionCallback : Bool
  idleFd : Option Nat
  errno : Option AcceptErrno
  dropped : Nat
  aborted : Bool
deriving DecidableEq

namespace Acceptor

/-- The outcomes of what one handleRead may call. Where the call is to other code,
it is the errno of the last system call in there that failed. -/
structure Call where
  accept : FdResult
  callback : Option AcceptErrno
  closeConn : Option AcceptErrno
  log : Option AcceptErrno
  closeIdle : Option AcceptErrno
  acceptIdle : FdResult
  closeDropped : Option AcceptErrno
  reopen : FdResult

def after (failure : Option AcceptErrno) (s : Acceptor) : Acceptor := { s with errno := failure.or s.errno }

def close (fd : Option Nat) (failure : Option AcceptErrno) (s : Acceptor) : Acceptor :=
  match fd with
  | none => s.after (some .ebadf)
  | some _ => s.after failure

/-- Socket::accept. The errno of an expected error is put back after it is logged. -/
def accept (r : FdResult) (s : Acceptor) : Acceptor :=
  match r with
  | .fd _ => s
  | .failed e => if e.expected then { s with errno := some e } else { s with aborted := true }

/-- handleRead before it tests errno. A connection with the descriptor 0 is taken for an error. -/
def handleAccepted (c : Call) (s : Acceptor) : Acceptor :=
  match c.accept with
  | .fd (_ + 1) => if s.newConnectionCallback then s.after c.callback else s.after c.closeConn
  | .fd 0 | .failed _ => s.after c.log

def dropPending (c : Call) (s : Acceptor) : Acceptor :=
  let s := s.close s.idleFd c.closeIdle
  let s := { s.after c.acceptIdle.errno with idleFd := c.acceptIdle.toFd }
  let s := { s.close s.idleFd c.closeDropped with dropped := s.dropped + s.idleFd.toList.length }
  { s.after c.reopen.errno with idleFd := c.reopen.toFd }

def handleRead (c : Call) (s : Acceptor) : Acceptor :=
  let s := s.accept c.accept
  if s.aborted then s
  else
    let s := s.handleAccepted c
    if s.errno = some .emfile then s.dropPending c else s

inductive Event
  | handleRead (c : Call)
  | other (e : AcceptErrno)

def next (s : Acceptor) (e : Event) : Acceptor :=
  if s.aborted then s
  else match e with
    | .handleRead c => s.handleRead c
    | .other e => s.after (some e)

open Runs

def DropsOnlyExhausted (s : Acceptor) (e : Event) : Prop :=
  match e with
  | .handleRead c => s.dropped < (s.next e).dropped → c.accept = .failed .emfile
  | .other _ => True

/-- No other EMFILE than that of the call's own accept is in errno when it is
tested, or there is no pending connection to be dropped. -/
def NoOtherEmfile (s : Acceptor) : Event → Prop
  | .handleRead c => s.aborted = false → c.acceptIdle.toFd.isSome →
      match c.accept with
      | .fd (_ + 1) => (if s.newConnectionCallback then c.callback else c.closeConn).or s.errno ≠ some .emfile
      | .fd 0 => c.log.or s.errno ≠ some .emfile
      | .failed e => e.expected = true → e ≠ .emfile → c.log ≠ some .emfile
  | .other _ => True

theorem dropPending_dropped (c : Call) (s : Acceptor) :
    (s.dropPending c).dropped = s.dropped + c.acceptIdle.toFd.toList.length := by
  have hclose : ∀ (t : Acceptor) (fd : Option Nat) (failure : Option AcceptErrno),
      (t.close fd failure).dropped = t.dropped := by
    intro t fd failure
    cases fd with
    | none => rfl
    | some n => rfl
  simp only [dropPending, after, hclose]

theorem handleAccepted_dropped (c : Call) (s : Acceptor) : (s.handleAccepted c).dropped = s.dropped := by
  unfold handleAccepted
  split
  · split
    · rfl
    · rfl
  · rfl
  · rfl

theorem accept_dropped (r : FdResult) (s : Acceptor) : (s.accept r).dropped = s.dropped := by
  cases r with
  | fd n => rfl
  | failed e =>
      simp only [accept]
      split
      · rfl
      · rfl

theorem toList_length_pos {x : Option Nat} : 0 < x.toList.length ↔ x.isSome := by
  cases x with
  | none => simp
  | some n => simp

theorem handleRead_drops_iff (c : Call) (s : Acceptor) : s.dropped < (s.handleRead c).dropped ↔
    (s.accept c.accept).aborted = false ∧ ((s.accept c.accept).handleAccepted c).errno = some .emfile ∧
      c.acceptIdle.toFd.isSome := by
  have hsame : ((s.accept c.accept).handleAccepted c).dropped = s.dropped := by
    rw [handleAccepted_dropped, accept_dropped]
  simp only [handleRead]
  by_cases ha : (s.accept c.accept).aborted = true
  · simp [ha, accept_dropped]
  · rw [if_neg ha]
    by_cases he : ((s.accept c.accept).handleAccepted c).errno = some .emfile
    · rw [if_pos he, dropPending_dropped, hsame, Nat.lt_add_right_iff_pos, toList_length_pos]
      simp [ha, he]
    · rw [if_neg he, hsame]
      simp [he]

theorem step_drops_iff (s : Acceptor) (e : Event) : DropsOnlyExhausted s e ↔ NoOtherEmfile s e := by
  cases e with
  | other e => exact Iff.rfl
  | handleRead c =>
      simp only [DropsOnlyExhausted, NoOtherEmfile, next]
      cases ha : s.aborted with
      | true => simp
      | false =>
          simp only [Bool.false_eq_true, if_false, handleRead_drops_iff]
          cases hc : c.accept with
          | fd n =>
              cases n with
              | zero =>
                  simp only [accept, handleAccepted, hc, after, ha, reduceCtorEq]
                  tauto
              | succ n =>
                  have hafter : (s.handleAccepted c).errno =
                      (if s.newConnectionCallback then c.callback else c.closeConn).or s.errno := by
                    simp only [handleAccepted, hc]
                    split
                    · rfl
                    · rfl
                  simp only [accept, hafter, ha, reduceCtorEq]
                  tauto
          | failed e =>
              simp only [accept]
              cases he : e.expected with
              | false => simp
              | true =>
                  simp only [if_true, handleAccepted, hc, after, ha, FdResult.failed.injEq]
                  -- where logging set errno last, that is what is tested, else it is e
                  cases hlog : c.log with
                  | none =>
                      simp only [Option.none_or, Option.some_inj]
                      tauto
                  | some l =>
                      simp only [Option.some_or]
                      tauto

theorem drops_only_exhausted_iff (s : Acceptor) (es : List Event) :
    Meets next DropsOnlyExhausted s es ↔ Meets next NoOtherEmfile s es :=
  meets_congr step_drops_iff

def listening : Acceptor := ⟨true, some 5, none, 0, false⟩

def recovered : List Event :=
  [.handleRead ⟨.failed .emfile, none, none, none, none, .fd 5, none, .fd 5⟩,
    .handleRead ⟨.fd 6, none, none, none, none, .fd 5, none, .fd 5⟩]

theorem healthy_connection_is_dropped :
    (run next listening recovered).dropped = 2 ∧
      ¬ ∀ (s : Acceptor) (es : List Event), Meets next DropsOnlyExhausted s es := by
  refine ⟨by decide, ?_⟩
  intro h
  have hsecond := (h listening recovered).2.1
  exact absurd (hsecond (by decide)) (by decide)

end Acceptor

end Webserver
