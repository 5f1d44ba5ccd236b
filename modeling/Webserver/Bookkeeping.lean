import Webserver.EpollPoller
import Webserver.Runs

namespace Webserver.Bookkeeping

open EpollPoller Runs

variable {P : Type}

/-- What index_ promises about the poller's map and the kernel's set. The mask
is the one the kernel holds, if it holds one. -/
def Filed (mask : PollMask) (self : P) (c : Channel) (p : EpollPoller P) : Prop :=
  match c.index with
  | .kNew => p.channels c.fd = none ∧ p.kernel c.fd = none
  | .kDeleted => p.channels c.fd = some self ∧ p.kernel c.fd = none
  | .kAdded => p.channels c.fd = some self ∧ p.kernel c.fd = some (mask, self)

def Consistent (self : P) (c : Channel) (p : EpollPoller P) : Prop := Filed c.events self c p

/-- A poller that differs from p at most in what it says about one descriptor,
and has not reached LOG_FATAL since. -/
structure Elsewhere (fd : Int) (p q : EpollPoller P) : Prop where
  channels : ∀ j, j ≠ fd → q.channels j = p.channels j
  kernel : ∀ j, j ≠ fd → q.kernel j = p.kernel j
  fatal : q.fatal = p.fatal

theorem update_add {self : P} {c : Channel} {p : EpollPoller P} (h : p.kernel c.fd = none) :
    update .add self c p = { p with kernel := Function.update p.kernel c.fd (some (c.events, self)) } := by
  simp [update, epollCtl, h]

theorem update_mod {self : P} {c : Channel} {p : EpollPoller P} {e : PollMask × P}
    (h : p.kernel c.fd = some e) :
    update .mod self c p = { p with kernel := Function.update p.kernel c.fd (some (c.events, self)) } := by
  simp [update, epollCtl, h]

theorem update_del {self : P} {c : Channel} {p : EpollPoller P} {e : PollMask × P}
    (h : p.kernel c.fd = some e) :
    update .del self c p = { p with kernel := Function.update p.kernel c.fd none } := by
  simp [update, epollCtl, h]

theorem updateChannel_fd (self : P) (s : Channel × EpollPoller P) :
    (updateChannel self s).1.fd = s.1.fd := by
  cases hi : s.1.index with
  | kNew | kDeleted => simp [updateChannel, hi]
  | kAdded => by_cases hn : s.1.isNoneEvent <;> simp [updateChannel, hi, hn]

theorem updateChannel_events (self : P) (s : Channel × EpollPoller P) :
    (updateChannel self s).1.events = s.1.events := by
  cases hi : s.1.index with
  | kNew | kDeleted => simp [updateChannel, hi]
  | kAdded => by_cases hn : s.1.isNoneEvent <;> simp [updateChannel, hi, hn]

theorem updateChannel_index (self : P) (s : Channel × EpollPoller P) :
    (updateChannel self s).1.index =
      if s.1.index = .kAdded ∧ s.1.events = .zero then .kDeleted else .kAdded := by
  cases hi : s.1.index with
  | kNew | kDeleted => simp [updateChannel, hi]
  | kAdded =>
      by_cases hn : s.1.events = .zero
      · have hb := (Channel.isNoneEvent_iff s.1).mpr hn
        simp [updateChannel, hi, hb, hn]
      · have hb : s.1.isNoneEvent = false := by
          simpa using (Channel.isNoneEvent_iff s.1).not.mpr hn
        simp [updateChannel, hi, hb, hn]

theorem updateChannel_spec {mask : PollMask} {self : P} {c : Channel} {p : EpollPoller P}
    (h : Filed mask self c p) :
    Consistent self (updateChannel self (c, p)).1 (updateChannel self (c, p)).2 ∧
      Elsewhere c.fd p (updateChannel self (c, p)).2 := by
  cases hi : c.index with
  | kNew =>
      simp only [Filed, hi] at h
      have hk : ({ p with channels := Function.update p.channels c.fd (some self) } :
          EpollPoller P).kernel ({ c with index := .kAdded } : Channel).fd = none := h.2
      simp only [updateChannel, hi, update_add hk]
      refine ⟨⟨?_, ?_⟩, ?_, ?_, rfl⟩
      · simp
      · simp
      · intro j hj; simp [hj]
      · intro j hj; simp [hj]
  | kDeleted =>
      simp only [Filed, hi] at h
      have hk : p.kernel ({ c with index := .kAdded } : Channel).fd = none := h.2
      simp only [updateChannel, hi, update_add hk]
      refine ⟨⟨h.1, ?_⟩, fun _ _ => rfl, ?_, rfl⟩
      · simp
      · intro j hj; simp [hj]
  | kAdded =>
      simp only [Filed, hi] at h
      by_cases hn : c.isNoneEvent
      · simp only [updateChannel, hi, hn, if_true, update_del h.2]
        refine ⟨⟨h.1, ?_⟩, fun _ _ => rfl, ?_, rfl⟩
        · simp
        · intro j hj; simp [hj]
      · simp only [updateChannel, hi, hn, update_mod h.2]
        refine ⟨?_, fun _ _ => rfl, ?_, rfl⟩
        · simp [Consistent, Filed, hi, h.1]
        · intro j hj; simp [hj]

theorem removeChannel_spec {mask : PollMask} {self : P} {c : Channel} {p : EpollPoller P}
    (h : Filed mask self c p) :
    Consistent self (removeChannel self (c, p)).1 (removeChannel self (c, p)).2 ∧
      Elsewhere c.fd p (removeChannel self (c, p)).2 := by
  cases hi : c.index with
  | kNew | kDeleted =>
      simp only [Filed, hi] at h
      simp only [removeChannel, hi, reduceCtorEq, if_false]
      refine ⟨⟨?_, h.2⟩, ?_, fun _ _ => rfl, rfl⟩
      · simp
      · intro j hj; simp [hj]
  | kAdded =>
      simp only [Filed, hi] at h
      have hk : ({ p with channels := Function.update p.channels c.fd none } : EpollPoller P).kernel c.fd =
          some (mask, self) := h.2
      simp only [removeChannel, hi, if_true, update_del hk]
      refine ⟨⟨?_, ?_⟩, ?_, ?_, rfl⟩
      · simp
      · simp
      · intro j hj; simp [hj]
      · intro j hj; simp [hj]

theorem setEvents_spec (f : PollMask → PollMask) {self : P} {c : Channel} {p : EpollPoller P}
    (h : Consistent self c p) :
    Consistent self (Channel.setEvents f self (c, p)).1 (Channel.setEvents f self (c, p)).2 ∧
      Elsewhere c.fd p (Channel.setEvents f self (c, p)).2 :=
  updateChannel_spec (show Filed c.events self { c with events := f c.events } p from h)

theorem setEvents_fd (f : PollMask → PollMask) (self : P) (s : Channel × EpollPoller P) :
    (Channel.setEvents f self s).1.fd = s.1.fd := updateChannel_fd _ _

theorem setEvents_events (f : PollMask → PollMask) (self : P) (s : Channel × EpollPoller P) :
    (Channel.setEvents f self s).1.events = f s.1.events := updateChannel_events _ _

theorem Consistent.iffs {self : P} {c : Channel} {p : EpollPoller P} (h : Consistent self c p) :
    (c.index = .kNew ↔ p.channels c.fd = none ∧ p.kernel c.fd = none) ∧
      (c.index = .kDeleted ↔ p.channels c.fd = some self ∧ p.kernel c.fd = none) ∧
      (c.index = .kAdded ↔ p.channels c.fd = some self ∧ p.kernel c.fd = some (c.events, self)) := by
  cases hi : c.index <;> simp_all [Consistent, Filed]

theorem Consistent.of_elsewhere {self : P} {c : Channel} {p q : EpollPoller P} {fd : Int}
    (h : Consistent self c p) (he : Elsewhere fd p q) (hfd : c.fd ≠ fd) : Consistent self c q := by
  simp only [Consistent, Filed, he.channels _ hfd, he.kernel _ hfd]
  exact h

theorem Consistent.registered {self : P} {c : Channel} {p : EpollPoller P} {e : PollMask × P}
    (h : Consistent self c p) (hk : p.kernel c.fd = some e) :
    p.channels c.fd = some self ∧ p.kernel c.fd = some (c.events, self) := by
  cases hi : c.index with
  | kNew | kDeleted =>
      simp only [Consistent, Filed, hi, hk, reduceCtorEq, and_false] at h
  | kAdded => simpa only [Consistent, Filed, hi] using h

structure Loop (P : Type) where
  chan : P → Channel
  poller : EpollPoller P

inductive Op
  | enableReading
  | disableReading
  | enableWriting
  | disableWriting
  | disableAll
  | remove
deriving DecidableEq

def Op.apply : Op → P → Channel × EpollPoller P → Channel × EpollPoller P
  | .enableReading => Channel.enableReading
  | .disableReading => Channel.disableReading
  | .enableWriting => Channel.enableWriting
  | .disableWriting => Channel.disableWriting
  | .disableAll => Channel.disableAll
  | .remove => Channel.remove

theorem Op.apply_spec (o : Op) {self : P} {c : Channel} {p : EpollPoller P} (h : Consistent self c p) :
    Consistent self (o.apply self (c, p)).1 (o.apply self (c, p)).2 ∧
      Elsewhere c.fd p (o.apply self (c, p)).2 := by
  cases o with
  | remove => exact removeChannel_spec h
  | enableReading | disableReading | enableWriting | disableWriting | disableAll => exact setEvents_spec _ h

theorem Op.apply_fd (o : Op) (self : P) (s : Channel × EpollPoller P) : (o.apply self s).1.fd = s.1.fd := by
  cases o with
  | remove => rfl
  | enableReading | disableReading | enableWriting | disableWriting | disableAll => exact setEvents_fd _ _ _

inductive Event (P : Type)
  | op (self : P) (o : Op)
  | poll (ready : List (PollMask × P))

variable [DecidableEq P]

def fillActiveChannel (chan : P → Channel) (ready : List (PollMask × P)) : P → Channel :=
  ready.foldl (fun chan e => Function.update chan e.2 ((chan e.2).setRevents e.1)) chan

def next (w : Loop P) : Event P → Loop P
  | .op self o =>
      let r := o.apply self (w.chan self, w.poller)
      ⟨Function.update w.chan self r.1, r.2⟩
  | .poll ready => ⟨fillActiveChannel w.chan ready, (poll ready w.poller).2⟩

def Enabled (w : Loop P) : Event P → Prop
  | .op _ _ => True
  | .poll ready => Reported w.poller ready

def initial (fds : P → Int) : Loop P := ⟨fun p => Channel.construct (fds p), construct⟩

/-- The three representations of registration agree for every channel, the
kernel never refused, and Poll returns only channels the poller has. -/
structure Booked (w : Loop P) : Prop where
  new : ∀ p, (w.chan p).index = .kNew ↔
    w.poller.channels (w.chan p).fd = none ∧ w.poller.kernel (w.chan p).fd = none
  deleted : ∀ p, (w.chan p).index = .kDeleted ↔
    w.poller.channels (w.chan p).fd = some p ∧ w.poller.kernel (w.chan p).fd = none
  added : ∀ p, (w.chan p).index = .kAdded ↔
    w.poller.channels (w.chan p).fd = some p ∧ w.poller.kernel (w.chan p).fd = some ((w.chan p).events, p)
  accepted : w.poller.fatal = false
  polled : ∀ ready, Reported w.poller ready →
    ∀ p ∈ (poll ready w.poller).1, hasChannel w.poller p (w.chan p) = true

structure Inv (fds : P → Int) (w : Loop P) : Prop where
  fd : ∀ p, (w.chan p).fd = fds p
  consistent : ∀ p, Consistent p (w.chan p) w.poller
  owned : ∀ fd mask p, w.poller.kernel fd = some (mask, p) → fds p = fd
  accepted : w.poller.fatal = false

theorem Inv.booked {fds : P → Int} {w : Loop P} (h : Inv fds w) : Booked w := by
  refine ⟨fun p => (h.consistent p).iffs.1, fun p => (h.consistent p).iffs.2.1,
    fun p => (h.consistent p).iffs.2.2, h.accepted, ?_⟩
  intro ready hr p hp
  obtain ⟨e, he, rfl⟩ := List.mem_map.mp hp
  obtain ⟨fd, mask, hk, _⟩ := hr.2 e he
  have hfd : (w.chan e.2).fd = fd := by rw [h.fd, h.owned fd mask e.2 hk]
  rw [← hfd] at hk
  simp only [hasChannel, ((h.consistent e.2).registered hk).1, decide_true]

omit [DecidableEq P] in
theorem initial_inv (fds : P → Int) : Inv fds (initial fds) := by
  refine ⟨fun _ => rfl, fun _ => ⟨rfl, rfl⟩, ?_, rfl⟩
  intro fd mask p hk
  simp [initial, construct] at hk

theorem fillActiveChannel_fields (ready : List (PollMask × P)) (chan : P → Channel) (p : P) :
    (fillActiveChannel chan ready p).fd = (chan p).fd ∧
      (fillActiveChannel chan ready p).events = (chan p).events ∧
      (fillActiveChannel chan ready p).index = (chan p).index := by
  induction ready generalizing chan with
  | nil => exact ⟨rfl, rfl, rfl⟩
  | cons e ready ih =>
      have h := ih (Function.update chan e.2 ((chan e.2).setRevents e.1))
      by_cases hp : p = e.2
      · subst hp
        simpa only [fillActiveChannel, List.foldl_cons, Function.update_self, Channel.setRevents] using h
      · simpa only [fillActiveChannel, List.foldl_cons, Function.update_of_ne hp] using h

theorem op_inv {fds : P → Int} (hfds : Function.Injective fds) {w : Loop P} (h : Inv fds w) (p : P)
    (o : Op) : Inv fds (next w (.op p o)) := by
  obtain ⟨hc, he⟩ := o.apply_spec (h.consistent p)
  have hfd : ∀ q, ((next w (.op p o)).chan q).fd = fds q := by
    intro q
    by_cases hq : q = p
    · subst hq; simp only [next, Function.update_self, Op.apply_fd, h.fd]
    · simp only [next, Function.update_of_ne hq, h.fd]
  refine ⟨hfd, ?_, ?_, he.fatal.trans h.accepted⟩
  · intro q
    by_cases hq : q = p
    · subst hq; simpa only [next, Function.update_self] using hc
    · have hne : (w.chan q).fd ≠ (w.chan p).fd := by
        rw [h.fd, h.fd]; exact fun e => hq (hfds e)
      simpa only [next, Function.update_of_ne hq] using (h.consistent q).of_elsewhere he hne
  · intro fd mask q hk
    by_cases hf : fd = (w.chan p).fd
    · subst hf
      have hk' : (next w (.op p o)).poller.kernel ((next w (.op p o)).chan p).fd = some (mask, q) := by
        rw [hfd, ← h.fd]; exact hk
      have hcp : Consistent p ((next w (.op p o)).chan p) (next w (.op p o)).poller := by
        simpa only [next, Function.update_self] using hc
      have hr := (hcp.registered hk').2
      rw [hk'] at hr
      obtain rfl : q = p := (Prod.mk.inj (Option.some.inj hr)).2
      exact (h.fd q).symm
    · exact h.owned fd mask q (by rw [← he.kernel fd hf]; exact hk)

theorem poll_inv {fds : P → Int} {w : Loop P} (h : Inv fds w) (ready : List (PollMask × P)) :
    Inv fds (next w (.poll ready)) := by
  have hp : (poll ready w.poller).2.channels = w.poller.channels ∧
      (poll ready w.poller).2.kernel = w.poller.kernel ∧
      (poll ready w.poller).2.fatal = w.poller.fatal := by
    simp only [poll]
    split <;> exact ⟨rfl, rfl, rfl⟩
  have hf := fun q => fillActiveChannel_fields ready w.chan q
  refine ⟨fun q => (hf q).1.trans (h.fd q), ?_, ?_, hp.2.2.trans h.accepted⟩
  · intro q
    have hc := h.consistent q
    simpa only [next, Consistent, Filed, (hf q).1, (hf q).2.1, (hf q).2.2, hp.1, hp.2.1] using hc
  · intro fd mask q hk
    simp only [next, hp.2.1] at hk
    exact h.owned fd mask q hk

theorem step_inv {fds : P → Int} (hfds : Function.Injective fds) (w : Loop P) (e : Event P)
    (h : Inv fds w) : Inv fds (next w e) := by
  cases e with
  | op p o => exact op_inv hfds h p o
  | poll ready => exact poll_inv h ready

/-- Any sequence of interest operations and polls, on any set of channels whose
descriptors are pairwise distinct, keeps the books. -/
theorem always_booked (fds : P → Int) (hfds : Function.Injective fds) (es : List (Event P))
    (hes : Meets next Enabled (initial fds) es) : Always next Booked (initial fds) es :=
  always_mono (fun _ => Inv.booked)
    (always_of_step (fun w e h _ => step_inv hfds w e h) (initial_inv fds) hes)

theorem always_booked_two_channels :
    Always next Booked (initial fun b : Bool => if b then (4 : Int) else 3)
      [.op true .enableReading, .op false .disableAll, .poll [(Channel.kReadEvent, true)],
        .op true .disableReading, .op true .enableWriting, .op true .remove] := by
  apply always_booked
  · intro a b h
    revert h
    cases a <;> cases b <;> decide
  · refine ⟨trivial, trivial, ⟨by decide, ?_⟩, trivial, trivial, trivial, trivial⟩
    intro e he
    rw [List.mem_singleton.mp he]
    exact ⟨4, Channel.kReadEvent, rfl, by decide, by decide⟩

end Webserver.Bookkeeping
