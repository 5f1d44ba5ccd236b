import Mathlib.Algebra.Ring.Nat
import Webserver.Bookkeeping

namespace Webserver.PollFairness

open Runs EpollPoller
open Bookkeeping (Loop Op)

variable {P : Type} [DecidableEq P]

/-- A loop beside the kernel's list of its ready descriptors, by their Channels.
epoll_wait takes them from its head and, as they stay ready, puts them back at
its end: with successive calls it goes round through all of them. -/
structure Polled (P : Type) where
  loop : Loop P
  ready : List P

/-- An operation on a Channel, a descriptor that gets ready or stops being so,
an epoll_wait that returns with the given events or is interrupted. -/
inductive Event (P : Type)
  | op (self : P) (o : Op)
  | arrive (p : P)
  | leave (p : P)
  | poll (revents : P → PollMask)
  | interrupted

def initial (fds : P → Int) : Polled P := ⟨Bookkeeping.initial fds, []⟩

def registered (w : Loop P) (p : P) : Bool := (w.poller.kernel (w.chan p).fd).isSome

def stored (s : Polled P) (revents : P → PollMask) : List (PollMask × P) :=
  (s.ready.take s.loop.poller.eventListSize).map fun p => (revents p, p)

def next (s : Polled P) : Event P → Polled P
  | .op self o =>
      let w := Bookkeeping.next s.loop (.op self o)
      ⟨w, if registered w self then s.ready else s.ready.filter (· ≠ self)⟩
  | .arrive p => if p ∈ s.ready then s else { s with ready := s.ready ++ [p] }
  | .leave p => { s with ready := s.ready.filter (· ≠ p) }
  | .poll revents =>
      ⟨Bookkeeping.next s.loop (.poll (stored s revents)),
        s.ready.drop s.loop.poller.eventListSize ++ s.ready.take s.loop.poller.eventListSize⟩
  | .interrupted => s

def active (s : Polled P) : Event P → List P
  | .poll revents => (poll (stored s revents) s.loop.poller).1
  | .op _ _ | .arrive _ | .leave _ | .interrupted => []

def isPoll : Event P → Bool
  | .poll _ => true
  | .op _ _ | .arrive _ | .leave _ | .interrupted => false

def Waits (p : P) (s : Polled P) (e : Event P) : Prop := p ∉ active s e ∧ p ∈ (next s e).ready

/-- Polls that leave out a ready Channel double the room in events_ and pass over
at least as many others, so there are few of them; and the room stays within
twice of what was needed. -/
structure Fair (fds : P → Int) (es : List (Event P)) : Prop where
  served : ∀ (before waiting : List (Event P)) (p : P), es = before ++ waiting →
    p ∈ (run next (initial fds) before).ready →
    Meets next (Waits p) (run next (initial fds) before) waiting →
    kInitEventListSize * 2 ^ waiting.countP isPoll ≤
      kInitEventListSize + (run next (initial fds) before).ready.idxOf p
  room : ∀ n, Always next (fun s => s.ready.length ≤ n) (initial fds) es →
    Always next (fun s => s.loop.poller.eventListSize ≤ max kInitEventListSize (2 * n)) (initial fds) es

variable {s : Polled P} {p : P}

omit [DecidableEq P] in
theorem op_eventListSize (o : Op) (self : P) (c : Channel) (q : EpollPoller P) :
    (o.apply self (c, q)).2.eventListSize = q.eventListSize := by
  have hupdate : ∀ (op : CtlOp) (c : Channel) (q : EpollPoller P),
      (update op self c q).eventListSize = q.eventListSize := by
    intro op c q
    unfold update
    split
    · rfl
    · rfl
  have hchannel : ∀ (c : Channel) (q : EpollPoller P),
      (updateChannel self (c, q)).2.eventListSize = q.eventListSize := by
    intro c q
    unfold updateChannel
    split
    · exact hupdate _ _ _
    · exact hupdate _ _ _
    · split
      · exact hupdate _ _ _
      · exact hupdate _ _ _
  cases o with
  | remove =>
      simp only [Op.apply, Channel.remove, removeChannel]
      split
      · exact hupdate _ _ _
      · rfl
  | enableReading | disableReading | enableWriting | disableWriting | disableAll => exact hchannel _ _

omit [DecidableEq P] in
theorem poll_eventListSize (ready : List (PollMask × P)) (q : EpollPoller P) : (poll ready q).2.eventListSize =
    if 0 < ready.length ∧ ready.length = q.eventListSize then q.eventListSize * 2 else q.eventListSize := by
  unfold poll
  split
  · rfl
  · rfl

omit [DecidableEq P] in
theorem active_poll (s : Polled P) (revents : P → PollMask) :
    active s (.poll revents) = s.ready.take s.loop.poller.eventListSize := by
  simp [active, poll, stored, Function.comp_def]

theorem idxOf_filter_le {q : P} (l : List P) (hne : p ≠ q) : (l.filter (· ≠ q)).idxOf p ≤ l.idxOf p := by
  induction l with
  | nil => exact Nat.le_refl 0
  | cons a l ih =>
      by_cases ha : a = q
      · subst ha
        rw [List.filter_cons_of_neg (by simp), List.idxOf_cons_ne l (Ne.symm hne)]
        exact Nat.le_succ_of_le ih
      · rw [List.filter_cons_of_pos (by simpa using ha)]
        by_cases hp : a = p
        · simp [hp]
        · rw [List.idxOf_cons_ne _ hp, List.idxOf_cons_ne _ hp]
          exact Nat.succ_le_succ ih

theorem waits_poll {revents : P → PollMask} (hsize : 0 < s.loop.poller.eventListSize) (hp : p ∈ s.ready)
    (hw : Waits p s (.poll revents)) :
    (next s (.poll revents)).loop.poller.eventListSize = s.loop.poller.eventListSize * 2 ∧
      (next s (.poll revents)).ready.idxOf p + s.loop.poller.eventListSize = s.ready.idxOf p := by
  have hout := hw.1
  rw [active_poll] at hout
  have hsplit := List.take_append_drop s.loop.poller.eventListSize s.ready
  have hdrop : p ∈ s.ready.drop s.loop.poller.eventListSize := by
    rw [← hsplit] at hp
    exact (List.mem_append.mp hp).resolve_left hout
  have hlen : s.loop.poller.eventListSize < s.ready.length := by
    have hpos := List.length_pos_of_mem hdrop
    rw [List.length_drop] at hpos
    omega
  constructor
  · have hstored : (stored s revents).length = s.loop.poller.eventListSize := by
      simp only [stored, List.length_map, List.length_take]
      omega
    simp only [next, Bookkeeping.next, poll_eventListSize, hstored]
    rw [if_pos ⟨hsize, trivial⟩]
  · have hindex : s.ready.idxOf p = (s.ready.take s.loop.poller.eventListSize).length +
        (s.ready.drop s.loop.poller.eventListSize).idxOf p := by
      conv => lhs; rw [← hsplit]
      rw [List.idxOf_append_of_notMem hout]
    have htake : (s.ready.take s.loop.poller.eventListSize).length = s.loop.poller.eventListSize := by
      rw [List.length_take]
      omega
    rw [hindex, htake, next, List.idxOf_append_of_mem hdrop, Nat.add_comm]

omit [DecidableEq P] in
theorem eq_poll {e : Event P} (he : isPoll e = true) : ∃ revents, e = .poll revents := by
  cases e with
  | poll revents => exact ⟨revents, rfl⟩
  | op _ _ | arrive _ | leave _ | interrupted => cases he

theorem next_eventListSize (s : Polled P) (e : Event P) (he : isPoll e = false) :
    (next s e).loop.poller.eventListSize = s.loop.poller.eventListSize := by
  cases e with
  | op self o => exact op_eventListSize o self (s.loop.chan self) s.loop.poller
  | arrive q =>
      simp only [next]
      split
      · rfl
      · rfl
  | leave q | interrupted => rfl
  | poll revents => cases he

theorem waits_other {e : Event P} (he : isPoll e = false) (hp : p ∈ s.ready) (hw : Waits p s e) :
    (next s e).ready.idxOf p ≤ s.ready.idxOf p := by
  have hstays := hw.2
  have hfilter : ∀ q, p ∈ s.ready.filter (· ≠ q) → (s.ready.filter (· ≠ q)).idxOf p ≤ s.ready.idxOf p := by
    intro q hq
    exact idxOf_filter_le s.ready (by simpa using (List.mem_filter.mp hq).2)
  cases e with
  | op self o =>
      simp only [next] at hstays ⊢
      split at hstays
      · exact Nat.le_of_eq (by rw [if_pos ‹_›])
      · rw [if_neg ‹_›]
        exact hfilter self hstays
  | arrive q =>
      simp only [next]
      split
      · exact Nat.le_refl _
      · exact Nat.le_of_eq (List.idxOf_append_of_mem hp)
  | leave q => exact hfilter q hstays
  | interrupted => exact Nat.le_refl _
  | poll revents => cases he

theorem waits_run {es : List (Event P)} (hsize : 0 < s.loop.poller.eventListSize) (hp : p ∈ s.ready)
    (hw : Meets next (Waits p) s es) :
    s.loop.poller.eventListSize * 2 ^ es.countP isPoll ≤ s.loop.poller.eventListSize + s.ready.idxOf p := by
  induction es generalizing s with
  | nil => simp
  | cons e es ih =>
      cases he : isPoll e with
      | true =>
          obtain ⟨revents, rfl⟩ := eq_poll he
          obtain ⟨hdouble, hindex⟩ := waits_poll hsize hp hw.1
          have hrest := ih (by omega) hw.1.2 hw.2
          rw [hdouble] at hrest
          rw [List.countP_cons_of_pos he, Nat.pow_succ, Nat.mul_comm _ 2, ← Nat.mul_assoc]
          omega
      | false =>
          have hsame := next_eventListSize s e he
          have hindex := waits_other he hp hw.1
          have hrest := ih (by omega) hw.1.2 hw.2
          rw [hsame] at hrest
          rw [List.countP_cons_of_neg (by simp [he])]
          omega

theorem next_room {n : Nat} (s : Polled P) (e : Event P)
    (h : s.loop.poller.eventListSize ≤ max kInitEventListSize (2 * n)) (hn : s.ready.length ≤ n) :
    (next s e).loop.poller.eventListSize ≤ max kInitEventListSize (2 * n) := by
  cases he : isPoll e with
  | true =>
      obtain ⟨revents, rfl⟩ := eq_poll he
      have hstored : (stored s revents).length ≤ s.ready.length := by
        simp only [stored, List.length_map, List.length_take]
        omega
      simp only [next, Bookkeeping.next, poll_eventListSize]
      split
      · omega
      · exact h
  | false =>
      rw [next_eventListSize s e he]
      exact h

theorem next_init_le (s : Polled P) (e : Event P) (h : kInitEventListSize ≤ s.loop.poller.eventListSize) :
    kInitEventListSize ≤ (next s e).loop.poller.eventListSize := by
  cases he : isPoll e with
  | true =>
      obtain ⟨revents, rfl⟩ := eq_poll he
      simp only [next, Bookkeeping.next, poll_eventListSize]
      split
      · omega
      · exact h
  | false =>
      rw [next_eventListSize s e he]
      exact h

theorem always_fair (fds : P → Int) (es : List (Event P)) : Fair fds es := by
  constructor
  · intro before waiting p _ hp hw
    have hall : Meets next (fun _ _ => True) (initial fds) before := meets_true _ _
    have hinit := (always_of_step (P := fun s : Polled P => kInitEventListSize ≤ s.loop.poller.eventListSize)
      (fun s e h _ => next_init_le s e h) (Nat.le_refl _) hall).last
    generalize run next (initial fds) before = s at hp hw hinit
    have hpos : 0 < kInitEventListSize := by decide
    have hrun := waits_run (by omega) hp hw
    -- a larger events_ only makes the wait shorter
    obtain ⟨more, hmore⟩ := Nat.exists_eq_add_of_le hinit
    have hpow := Nat.le_mul_of_pos_right more (Nat.two_pow_pos (waiting.countP isPoll))
    rw [hmore, Nat.add_mul] at hrun
    omega
  · intro n hn
    exact always_of_step (fun s e h hs => next_room s e h hs) (Nat.le_max_left _ _) hn.meets

def seventeen : List (Event Nat) :=
  (List.range 17).flatMap fun p => [.op p .enableReading, .arrive p]

def readable (_ : Nat) : PollMask := { PollMask.zero with pollin := true }

theorem always_fair_seventeen :
    Meets next (Waits 16) (run next (initial Int.ofNat) seventeen) [.poll readable] ∧
      kInitEventListSize * 2 ^ 1 ≤
        kInitEventListSize + (run next (initial Int.ofNat) seventeen).ready.idxOf 16 := by
  have hwaits : Meets next (Waits 16) (run next (initial Int.ofNat) seventeen) [.poll readable] :=
    ⟨⟨by decide +kernel, by decide +kernel⟩, trivial⟩
  exact ⟨hwaits, (always_fair Int.ofNat (seventeen ++ [.poll readable])).served seventeen [.poll readable] 16 rfl
    (by decide +kernel) hwaits⟩

end Webserver.PollFairness
