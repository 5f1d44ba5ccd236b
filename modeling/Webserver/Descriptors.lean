import Mathlib.Logic.Function.Basic
import Webserver.Acceptor

namespace Webserver.Descriptors

open Runs

inductive Role
  | listening
  | idle
  | accepted
  | dropping
deriving DecidableEq

/-- Whose an open descriptor of the process is. One that is lost is in no variable any more. -/
inductive Owner
  | acceptor (r : Role)
  | connection
  | other
  | lost
deriving DecidableEq

inductive Point
  | waiting
  | accepted (r : FdResult)
  | testing
  | closeIdle
  | acceptIdle
  | closeDropped
  | reopen
  | gone
deriving DecidableEq

/-- An Acceptor, one system call at a time, with the descriptors that are open in the process. -/
structure Process where
  acceptor : Acceptor
  listenFd : Nat
  point : Point
  table : Nat → Option Owner

def opened (r : FdResult) (o : Owner) (table : Nat → Option Owner) : Nat → Option Owner :=
  match r with
  | .fd n => Function.update table n (some o)
  | .failed _ => table

def closed (fd : Option Nat) (table : Nat → Option Owner) : Nat → Option Owner :=
  match fd with
  | some n => Function.update table n none
  | none => table

def construct (newConnectionCallback : Bool) (listenFd : Nat) (idle : Option Nat) : Process :=
  ⟨⟨newConnectionCallback, idle, none, 0, false⟩, listenFd, .waiting, fun n =>
    if n = listenFd then some (.acceptor .listening) else if idle = some n then some (.acceptor .idle) else none⟩

/-- A step of handleRead, a failing call of the thread elsewhere, the ~Socket of
a connection, other code of the process, ~Acceptor. -/
inductive Event
  | advance (c : Acceptor.Call)
  | failure (e : AcceptErrno)
  | closeConnection (n : Nat)
  | openOther (n : Nat)
  | closeOther (n : Nat)
  | destroy

def advance (c : Acceptor.Call) (s : Process) : Process :=
  match s.point with
  | .waiting =>
      { s with
        acceptor := s.acceptor.accept c.accept
        point := .accepted c.accept
        table := opened c.accept (.acceptor .accepted) s.table }
  | .accepted r =>
      { s with
        acceptor := s.acceptor.handleAccepted { c with accept := r }
        point := .testing
        table := match r with
          | .fd 0 => Function.update s.table 0 (some .lost)
          | .fd (n + 1) =>
              if s.acceptor.newConnectionCallback then Function.update s.table (n + 1) (some .connection)
              else closed (some (n + 1)) s.table
          | .failed _ => s.table }
  | .testing => { s with point := if s.acceptor.errno = some .emfile then .closeIdle else .waiting }
  | .closeIdle =>
      { s with
        acceptor := s.acceptor.close s.acceptor.idleFd c.closeIdle
        point := .acceptIdle
        table := closed s.acceptor.idleFd s.table }
  | .acceptIdle =>
      { s with
        acceptor := { s.acceptor.after c.acceptIdle.errno with idleFd := c.acceptIdle.toFd }
        point := .closeDropped
        table := opened c.acceptIdle (.acceptor .dropping) s.table }
  | .closeDropped =>
      { s with
        acceptor :=
          { s.acceptor.close s.acceptor.idleFd c.closeDropped with
            dropped := s.acceptor.dropped + s.acceptor.idleFd.toList.length }
        point := .reopen
        table := closed s.acceptor.idleFd s.table }
  | .reopen =>
      { s with
        acceptor := { s.acceptor.after c.reopen.errno with idleFd := c.reopen.toFd }
        point := .waiting
        table := opened c.reopen (.acceptor .idle) s.table }
  | .gone => s

def next (s : Process) : Event → Process
  | .advance c => advance c s
  | .failure e => { s with acceptor := s.acceptor.after (some e) }
  | .closeConnection n | .closeOther n => { s with table := closed (some n) s.table }
  | .openOther n => { s with table := opened (.fd n) .other s.table }
  | .destroy => { s with point := .gone, table := closed (some s.listenFd) (closed s.acceptor.idleFd s.table) }

def made (s : Process) : Event → Option Nat
  | .advance c => match s.point with
    | .waiting => c.accept.toFd
    | .acceptIdle => c.acceptIdle.toFd
    | .reopen => c.reopen.toFd
    | .accepted _ | .testing | .closeIdle | .closeDropped | .gone => none
  | .openOther n => some n
  | .failure _ | .closeConnection _ | .closeOther _ | .destroy => none

/-- The kernel gives descriptors that are not open, ~Socket runs once for each
connection, and other code closes what it has opened. -/
def Enabled (s : Process) (e : Event) : Prop :=
  s.acceptor.aborted = false ∧ (∀ n ∈ made s e, s.table n = none) ∧
    match e with
    | .advance _ => s.point ≠ .gone
    | .failure _ | .destroy => s.point = .waiting
    | .closeConnection n => s.table n = some .connection
    | .closeOther n => s.table n = some .other
    | .openOther _ => True

instance (s : Process) (e : Event) : Decidable (Enabled s e) :=
  match e with
  | .advance _ => inferInstanceAs (Decidable (_ ∧ _ ∧ _))
  | .failure _ | .destroy => inferInstanceAs (Decidable (_ ∧ _ ∧ _ = _))
  | .closeConnection _ | .closeOther _ => inferInstanceAs (Decidable (_ ∧ _ ∧ _ = _))
  | .openOther _ => inferInstanceAs (Decidable (_ ∧ _ ∧ True))

def held (s : Process) : Role → Option Nat
  | .listening => if s.point = .gone then none else some s.listenFd
  | .idle => match s.point with
    | .waiting | .accepted _ | .testing | .closeIdle => s.acceptor.idleFd
    | .acceptIdle | .closeDropped | .reopen | .gone => none
  | .accepted => match s.point with
    | .accepted r => r.toFd
    | .waiting | .testing | .closeIdle | .acceptIdle | .closeDropped | .reopen | .gone => none
  | .dropping => match s.point with
    | .closeDropped => s.acceptor.idleFd
    | .waiting | .accepted _ | .testing | .closeIdle | .acceptIdle | .reopen | .gone => none

def closes (s : Process) : Event → List (Nat × Owner)
  | .advance _ => match s.point with
    | .accepted (.fd (n + 1)) =>
        if s.acceptor.newConnectionCallback then [] else [(n + 1, .acceptor .accepted)]
    | .closeIdle => s.acceptor.idleFd.toList.map (·, .acceptor .idle)
    | .closeDropped => s.acceptor.idleFd.toList.map (·, .acceptor .dropping)
    | .waiting | .accepted _ | .testing | .acceptIdle | .reopen | .gone => []
  | .closeConnection n => [(n, .connection)]
  | .closeOther n => [(n, .other)]
  | .destroy => (s.listenFd, .acceptor .listening) :: s.acceptor.idleFd.toList.map (·, .acceptor .idle)
  | .failure _ | .openOther _ => []

def ClosesOwn (s : Process) (e : Event) : Prop := ∀ d ∈ closes s e, s.table d.1 = some d.2

structure Balanced (s : Process) : Prop where
  own : ∀ r n, s.table n = some (.acceptor r) ↔ held s r = some n
  lost : ∀ n, s.table n = some .lost → n = 0

variable {s t : Process}

theorem Balanced.same (h : Balanced s) (htable : t.table = s.table) (hheld : ∀ r, held t r = held s r) :
    Balanced t := by
  constructor
  · intro r n
    rw [htable, hheld]
    exact h.own r n
  · rw [htable]
    exact h.lost

theorem Balanced.release {n : Nat} {r : Role} {x : Option Owner} (h : Balanced s)
    (hn : held s r = some n) (htable : t.table = Function.update s.table n x)
    (hx : ∀ r', x ≠ some (.acceptor r')) (hlost : x = some .lost → n = 0)
    (hr : held t r = none) (hother : ∀ r', r' ≠ r → held t r' = held s r') : Balanced t := by
  have hown := (h.own r n).mpr hn
  constructor
  · intro r' m
    rw [htable]
    by_cases hm : m = n
    · subst hm
      rw [Function.update_self]
      by_cases hr' : r' = r
      · simp [hr', hr, hx]
      · rw [hother r' hr', ← h.own r' m, hown]
        simp [hx, Ne.symm hr']
    · rw [Function.update_of_ne hm]
      by_cases hr' : r' = r
      · rw [hr', hr, h.own r m, hn]
        simp [Ne.symm hm]
      · rw [hother r' hr']
        exact h.own r' m
  · intro m hm
    rw [htable] at hm
    by_cases hmn : m = n
    · subst hmn
      rw [Function.update_self] at hm
      exact hlost hm
    · rw [Function.update_of_ne hmn] at hm
      exact h.lost m hm

theorem Balanced.acquire {n : Nat} {r : Role} (h : Balanced s) (hn : s.table n = none)
    (htable : t.table = Function.update s.table n (some (.acceptor r))) (hs : held s r = none)
    (ht : held t r = some n) (hother : ∀ r', r' ≠ r → held t r' = held s r') : Balanced t := by
  constructor
  · intro r' m
    rw [htable]
    by_cases hm : m = n
    · subst hm
      rw [Function.update_self]
      by_cases hr' : r' = r
      · simp [hr', ht]
      · rw [hother r' hr', ← h.own r' m, hn]
        simp [Ne.symm hr']
    · rw [Function.update_of_ne hm]
      by_cases hr' : r' = r
      · rw [hr', ht, h.own r m, hs]
        simp [Ne.symm hm]
      · rw [hother r' hr']
        exact h.own r' m
  · intro m hm
    rw [htable] at hm
    by_cases hmn : m = n
    · subst hmn
      simp at hm
    · rw [Function.update_of_ne hmn] at hm
      exact h.lost m hm

theorem Balanced.foreign {n : Nat} {x : Option Owner} (h : Balanced s) (hn : ∀ r, s.table n ≠ some (.acceptor r))
    (hx : ∀ r, x ≠ some (.acceptor r)) (hlost : x ≠ some .lost) (htable : t.table = Function.update s.table n x)
    (hheld : ∀ r, held t r = held s r) : Balanced t := by
  constructor
  · intro r m
    rw [htable, hheld]
    by_cases hm : m = n
    · subst hm
      have hnot := hn r
      rw [Function.update_self]
      constructor
      · intro he
        exact absurd he (hx r)
      · intro he
        exact absurd ((h.own r m).mpr he) hnot
    · rw [Function.update_of_ne hm]
      exact h.own r m
  · intro m hm
    rw [htable] at hm
    by_cases hmn : m = n
    · subst hmn
      rw [Function.update_self] at hm
      exact absurd hm hlost
    · rw [Function.update_of_ne hmn] at hm
      exact h.lost m hm

theorem Balanced.opens {fd : FdResult} {r : Role} (h : Balanced s) (hfree : ∀ n ∈ fd.toFd, s.table n = none)
    (htable : t.table = opened fd (.acceptor r) s.table) (hs : held s r = none)
    (ht : held t r = fd.toFd) (hother : ∀ r', r' ≠ r → held t r' = held s r') : Balanced t := by
  cases fd with
  | fd n => exact h.acquire (hfree n rfl) htable hs ht hother
  | failed e =>
      refine h.same htable fun r' => ?_
      by_cases hr' : r' = r
      · rw [hr', ht, hs]
        rfl
      · exact hother r' hr'

theorem Balanced.closes {fd : Option Nat} {r : Role} (h : Balanced s) (hs : held s r = fd)
    (htable : t.table = closed fd s.table) (ht : held t r = none)
    (hother : ∀ r', r' ≠ r → held t r' = held s r') : Balanced t := by
  cases fd with
  | some n => exact h.release hs htable (by simp) (by simp) ht hother
  | none =>
      refine h.same htable fun r' => ?_
      by_cases hr' : r' = r
      · rw [hr', ht, hs]
      · exact hother r' hr'

theorem construct_balanced (newConnectionCallback : Bool) {listenFd : Nat} {idle : Option Nat}
    (hidle : idle ≠ some listenFd) : Balanced (construct newConnectionCallback listenFd idle) := by
  constructor
  · intro r n
    cases r with
    | listening =>
        simp only [construct, held]
        grind
    | idle =>
        simp only [construct, held]
        grind
    | accepted | dropping =>
        simp only [construct, held]
        grind
  · intro n hn
    simp only [construct] at hn
    grind

theorem handleAccepted_idleFd (c : Acceptor.Call) (a : Acceptor) : (a.handleAccepted c).idleFd = a.idleFd := by
  unfold Acceptor.handleAccepted
  split
  · split
    · rfl
    · rfl
  · rfl
  · rfl

theorem accept_idleFd (r : FdResult) (a : Acceptor) : (a.accept r).idleFd = a.idleFd := by
  cases r with
  | fd n => rfl
  | failed e =>
      simp only [Acceptor.accept]
      split
      · rfl
      · rfl

theorem advance_balanced (c : Acceptor.Call) (h : Balanced s) (he : Enabled s (.advance c)) :
    Balanced (advance c s) := by
  obtain ⟨_, hfree, _⟩ := he
  have hmade : made s (.advance c) = match s.point with
    | .waiting => c.accept.toFd
    | .acceptIdle => c.acceptIdle.toFd
    | .reopen => c.reopen.toFd
    | .accepted _ | .testing | .closeIdle | .closeDropped | .gone => none := rfl
  rw [hmade] at hfree
  obtain ⟨a, listenFd, point, table⟩ := s
  cases point with
  | waiting =>
      refine h.opens hfree rfl rfl rfl fun r hr => ?_
      cases r with
      | accepted => exact absurd rfl hr
      | idle => exact accept_idleFd c.accept a
      | listening | dropping => rfl
  | accepted r =>
      have hother : ∀ r', r' ≠ .accepted → held (advance c ⟨a, listenFd, .accepted r, table⟩) r' =
          held ⟨a, listenFd, .accepted r, table⟩ r' := by
        intro r' hr'
        cases r' with
        | accepted => exact absurd rfl hr'
        | idle => exact handleAccepted_idleFd _ a
        | listening | dropping => rfl
      cases r with
      | failed e =>
          refine h.same rfl fun r' => ?_
          by_cases hr' : r' = .accepted
          · rw [hr']
            rfl
          · exact hother r' hr'
      | fd n =>
          cases n with
          | zero => exact h.release (n := 0) (r := .accepted) rfl rfl (by simp) (fun _ => rfl) rfl hother
          | succ n =>
              cases hc : a.newConnectionCallback with
              | true =>
                  refine h.release (n := n + 1) (r := .accepted) (x := some .connection) rfl ?_ (by simp) (by simp) rfl
                    hother
                  simp [advance, hc]
              | false =>
                  refine h.release (n := n + 1) (r := .accepted) (x := none) rfl ?_ (by simp) (by simp) rfl hother
                  simp [advance, hc, closed]
  | testing =>
      refine h.same rfl fun r => ?_
      by_cases he : a.errno = some .emfile
      · simp only [advance, if_pos he]
        cases r with
        | listening | idle | accepted | dropping => rfl
      · simp only [advance, if_neg he]
        cases r with
        | listening | idle | accepted | dropping => rfl
  | closeIdle =>
      refine h.closes (r := .idle) rfl rfl rfl fun r hr => ?_
      cases r with
      | idle => exact absurd rfl hr
      | listening | accepted | dropping => rfl
  | acceptIdle =>
      refine h.opens hfree rfl rfl rfl fun r hr => ?_
      cases r with
      | dropping => exact absurd rfl hr
      | listening | idle | accepted => rfl
  | closeDropped =>
      refine h.closes (r := .dropping) rfl rfl rfl fun r hr => ?_
      cases r with
      | dropping => exact absurd rfl hr
      | listening | idle | accepted => rfl
  | reopen =>
      refine h.opens hfree rfl rfl rfl fun r hr => ?_
      cases r with
      | idle => exact absurd rfl hr
      | listening | accepted | dropping => rfl
  | gone => exact h

theorem destroy_balanced (h : Balanced s) (hp : s.point = .waiting) : Balanced (next s .destroy) := by
  have hidle : held s .idle = s.acceptor.idleFd := by simp only [held, hp]
  have hlisten : held s .listening = some s.listenFd := by simp [held, hp]
  have hmiddle : Balanced { s with
      acceptor := { s.acceptor with idleFd := none }, table := closed s.acceptor.idleFd s.table } := by
    refine h.closes hidle rfl ?_ fun r hr => ?_
    · simp only [held, hp]
    · cases r with
      | idle => exact absurd rfl hr
      | listening | accepted | dropping => simp only [held, hp]
  refine hmiddle.closes (r := .listening) (show _ = some s.listenFd from ?_) rfl rfl fun r hr => ?_
  · simpa only [held] using hlisten
  · cases r with
    | listening => exact absurd rfl hr
    | idle | accepted | dropping => simp [held, next, hp]

theorem step_balanced (s : Process) (e : Event) (h : Balanced s) (he : Enabled s e) : Balanced (next s e) := by
  cases e with
  | advance c => exact advance_balanced c h he
  | failure e =>
      refine h.same rfl fun r => ?_
      cases r with
      | listening | idle | accepted | dropping => rfl
  | closeConnection n =>
      have hn : s.table n = some .connection := he.2.2
      refine h.foreign (by simp [hn]) (by simp) (by simp) rfl fun r => ?_
      cases r with
      | listening | idle | accepted | dropping => rfl
  | closeOther n =>
      have hn : s.table n = some .other := he.2.2
      refine h.foreign (by simp [hn]) (by simp) (by simp) rfl fun r => ?_
      cases r with
      | listening | idle | accepted | dropping => rfl
  | openOther n =>
      have hn : s.table n = none := he.2.1 n rfl
      refine h.foreign (by simp [hn]) (by simp) (by simp) rfl fun r => ?_
      cases r with
      | listening | idle | accepted | dropping => rfl
  | destroy => exact destroy_balanced h he.2.2

theorem closesOwn_of_balanced (s : Process) (e : Event) (h : Balanced s) (he : Enabled s e) : ClosesOwn s e := by
  have hlist : ∀ (fd : Option Nat) (r : Role), held s r = fd →
      ∀ d ∈ fd.toList.map (·, Owner.acceptor r), s.table d.1 = some d.2 := by
    intro fd r hr d hd
    obtain ⟨n, hn, rfl⟩ := List.mem_map.mp hd
    rw [Option.mem_toList] at hn
    exact (h.own r n).mpr (hr.trans hn)
  cases e with
  | advance c =>
      unfold ClosesOwn closes
      cases hp : s.point with
      | accepted r =>
          cases r with
          | failed e => simp
          | fd n =>
              cases n with
              | zero => simp
              | succ n =>
                  simp only
                  split
                  · simp
                  · refine hlist (some (n + 1)) .accepted ?_
                    simp only [held, hp]
                    rfl
      | closeIdle => exact hlist _ .idle (by simp only [held, hp])
      | closeDropped => exact hlist _ .dropping (by simp only [held, hp])
      | waiting | testing | acceptIdle | reopen | gone => simp
  | closeConnection n =>
      intro d hd
      rw [List.mem_singleton.mp hd]
      exact he.2.2
  | closeOther n =>
      intro d hd
      rw [List.mem_singleton.mp hd]
      exact he.2.2
  | destroy =>
      have hp : s.point = .waiting := he.2.2
      intro d hd
      rcases List.mem_cons.mp hd with rfl | hd
      · exact (h.own .listening _).mpr (by simp [held, hp])
      · exact hlist _ .idle (by simp only [held, hp]) d hd
  | failure _ | openOther _ => simp [ClosesOwn, closes]

/-- The steps of one handleRead, with nothing between them, make up the handleRead of the Acceptor. -/
theorem advances_handleRead (c : Acceptor.Call) (hp : s.point = .waiting) :
    ∃ k, (run next s (List.replicate k (.advance c))).acceptor = s.acceptor.handleRead c ∧
      ((s.acceptor.handleRead c).aborted = true ∨ (run next s (List.replicate k (.advance c))).point = .waiting) := by
  have hfirst : ∀ k, run next s (List.replicate (k + 1) (.advance c)) = run next
      { s with
        acceptor := s.acceptor.accept c.accept
        point := .accepted c.accept
        table := opened c.accept (.acceptor .accepted) s.table } (List.replicate k (.advance c)) := by
    intro k
    simp only [run, List.replicate_succ, List.foldl_cons, next, advance, hp]
  by_cases ha : (s.acceptor.accept c.accept).aborted = true
  · have heq : s.acceptor.handleRead c = s.acceptor.accept c.accept := if_pos ha
    rw [heq]
    exact ⟨1, by rw [hfirst]; rfl, .inl ha⟩
  · by_cases he : ((s.acceptor.accept c.accept).handleAccepted c).errno = some .emfile
    · have heq : s.acceptor.handleRead c = ((s.acceptor.accept c.accept).handleAccepted c).dropPending c := by
        simp only [Acceptor.handleRead, if_neg ha, if_pos he]
      rw [heq]
      refine ⟨7, ?_, .inr ?_⟩
      · rw [hfirst]
        simp only [run, List.replicate_succ, List.replicate_zero, List.foldl_cons, List.foldl_nil, next, advance,
          if_pos he]
        rfl
      · rw [hfirst]
        simp only [run, List.replicate_succ, List.replicate_zero, List.foldl_cons, List.foldl_nil, next, advance,
          if_pos he]
    · have heq : s.acceptor.handleRead c = (s.acceptor.accept c.accept).handleAccepted c := by
        simp only [Acceptor.handleRead, if_neg ha, if_neg he]
      rw [heq]
      refine ⟨3, ?_, .inr ?_⟩
      · rw [hfirst]
        rfl
      · rw [hfirst]
        simp only [run, List.replicate_succ, List.replicate_zero, List.foldl_cons, List.foldl_nil, next, advance,
          if_neg he]

/-- Whatever else the process opens and closes between any two system calls, an
Acceptor closes what it has opened, once, and leaves nothing behind but a descriptor 0. -/
theorem always_balanced (newConnectionCallback : Bool) (listenFd : Nat) (idle : Option Nat)
    (hidle : idle ≠ some listenFd) (es : List Event)
    (he : Meets next Enabled (construct newConnectionCallback listenFd idle) es) :
    Always next Balanced (construct newConnectionCallback listenFd idle) es ∧
      Meets next ClosesOwn (construct newConnectionCallback listenFd idle) es :=
  have hstart := construct_balanced newConnectionCallback hidle
  ⟨always_of_step step_balanced hstart he, meets_of_step step_balanced closesOwn_of_balanced hstart he⟩

def exhausted : Acceptor.Call := ⟨.failed .emfile, none, none, none, none, .fd 5, none, .fd 6⟩

def raced : List Event :=
  [.openOther 0, .advance exhausted, .advance exhausted, .advance exhausted, .advance exhausted, .openOther 5,
    .advance { exhausted with acceptIdle := .failed .emfile }, .advance exhausted, .closeOther 5, .advance exhausted,
    .advance { exhausted with accept := .fd 5 }, .advance exhausted, .advance exhausted, .closeConnection 5, .destroy]

theorem always_balanced_raced : Always next Balanced (construct true 3 (some 5)) raced ∧
    Meets next ClosesOwn (construct true 3 (some 5)) raced :=
  always_balanced true 3 (some 5) (by decide) raced (by decide +kernel)

end Webserver.Descriptors
