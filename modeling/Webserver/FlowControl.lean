import Webserver.ConnectionRule
import Webserver.FinalState

namespace Webserver.FlowControl

open Runs TcpConnection ConnectionLife ConnectionSteps
open Bookkeeping (Consistent setEvents_events)
open ConnectionRule (Kept)
open FinalState (pendingRead start_ended)

variable {P : Type}

def messages (s : Life P) : Nat := s.hosted.trace.count .messageCallback

def reported (s : Life P) : Nat := if pendingRead s then 1 else 0

def handlesRead : Event P → Bool
  | .readEvent _ => true
  | _ => false

/-- The rest of a run after the connection has stopped reading: at most the one read
that Poll had already reported, and none after the loop has polled again. -/
structure Stopped (s : Life P) (es : List (Event P)) : Prop where
  reads : es.countP handlesRead ≤ reported s
  messages : messages (run next s es) ≤ messages s + es.countP handlesRead
  polled : ∀ ds revents fs, es = ds ++ .poll revents :: fs →
    fs.countP handlesRead = 0 ∧ FlowControl.messages (run next s es) = FlowControl.messages (run next s ds)

def Deaf (h : Hosted P) : Prop := h.conn.channel.events.meets Channel.readBits = false

/-- POLLRDHUP comes to handleRead too, but no event of the source asks for it. -/
def Plain (h : Hosted P) : Prop := h.conn.channel.events.pollrdhup = false

theorem minus_meets_of_not {a c : PollMask} (h : a.meets c = false) (b : PollMask) : (a.minus b).meets c = false := by
  simp only [PollMask.meets, Bool.or_eq_false_iff] at h
  simp only [PollMask.minus, PollMask.meets]
  grind

theorem setEvents_deaf {f : PollMask → PollMask}
    (hf : ∀ m, m.meets Channel.readBits = false → (f m).meets Channel.readBits = false) (h : Hosted P) (hd : Deaf h) :
    Deaf (onChannel (Channel.setEvents f) h) := by
  have hevents := setEvents_events f h.self (h.conn.channel, h.poller)
  exact (congrArg (·.meets Channel.readBits) hevents).trans (hf _ hd)

theorem setEvents_plain {f : PollMask → PollMask} (hf : ∀ m, m.pollrdhup = false → (f m).pollrdhup = false)
    (h : Hosted P) (hp : Plain h) : Plain (onChannel (Channel.setEvents f) h) := by
  have hevents := setEvents_events f h.self (h.conn.channel, h.poller)
  exact (congrArg PollMask.pollrdhup hevents).trans (hf _ hp)

theorem deaf_kept : Kept fun h k : Hosted P => Deaf h → Deaf k where
  refl _ := id
  trans hk kl := kl ∘ hk
  emit _ _ _ := id
  quiet c _ _ h _ hevents hd := by
    change c.channel.events.meets Channel.readBits = false
    rw [hevents]
    exact hd
  enableWriting := setEvents_deaf fun m hm => (PollMask.union_meets_of_disjoint m rfl).trans hm
  disableWriting := setEvents_deaf fun _ hm => minus_meets_of_not hm _
  disableReading := setEvents_deaf fun _ hm => minus_meets_of_not hm _
  disableAll := setEvents_deaf fun _ _ => rfl
  remove _ := id

theorem plain_kept : Kept fun h k : Hosted P => Plain h → Plain k where
  refl _ := id
  trans hk kl := kl ∘ hk
  emit _ _ _ := id
  quiet _ _ _ _ _ hevents hp := (congrArg PollMask.pollrdhup hevents).trans hp
  enableWriting := setEvents_plain fun m hm => by simp [PollMask.union, hm, Channel.kWriteEvent, PollMask.zero]
  disableWriting := setEvents_plain fun m hm => by simp [PollMask.minus, hm]
  disableReading := setEvents_plain fun m hm => by simp [PollMask.minus, hm]
  disableAll := setEvents_plain fun _ _ => rfl
  remove _ := id

theorem startReadInLoop_plain (h : Hosted P) (hp : Plain h) : Plain (startReadInLoop h) := by
  simp only [startReadInLoop]
  split
  · exact setEvents_plain (fun m hm => by simp [PollMask.union, hm, Channel.kReadEvent, PollMask.zero]) h hp
  · exact hp

theorem stopReadInLoop_deaf {h : Hosted P} (hp : Plain h) : Deaf (stopReadInLoop h) := by
  simp only [stopReadInLoop]
  split
  · have hevents := setEvents_events (fun m => m.minus Channel.kReadEvent) h.self (h.conn.channel, h.poller)
    refine (congrArg (·.meets Channel.readBits) hevents).trans ?_
    simp [PollMask.minus, PollMask.meets, Channel.kReadEvent, Channel.readBits, PollMask.zero,
      show h.conn.channel.events.pollrdhup = false from hp]
  · rename_i hn
    have hreading : h.conn.channel.events.meets Channel.kReadEvent = false := by
      simp only [not_or, Bool.not_eq_true] at hn
      exact hn.2
    simp only [PollMask.meets, Channel.kReadEvent, PollMask.zero] at hreading
    simp_all [Deaf, PollMask.meets, Channel.readBits, PollMask.zero, Plain]

theorem messages_kept : Kept fun h k : Hosted P =>
    k.trace.count .messageCallback = h.trace.count .messageCallback where
  refl _ := rfl
  trans hk kl := kl.trans hk
  emit e h he := by simp [emit, he]
  quiet _ _ _ _ _ _ := rfl
  enableWriting _ := rfl
  disableWriting _ := rfl
  disableReading _ := rfl
  disableAll _ := rfl
  remove _ := rfl

theorem startReadInLoop_messages (h : Hosted P) :
    (startReadInLoop h).trace.count .messageCallback = h.trace.count .messageCallback := by
  simp only [startReadInLoop]
  split
  · rfl
  · rfl

theorem step_plain (s : Life P) (e : Event P) (hp : Plain s.hosted) : Plain (next s e).hosted :=
  plain_kept.next_of_message (fun _ _ => id) (fun _ => id) s (.inl startReadInLoop_plain) hp

theorem step_deaf (s : Life P) {e : Event P} (hs : ¬ Executes s .startReadInLoop e) (hd : Deaf s.hosted) :
    Deaf (next s e).hosted :=
  deaf_kept.next_of_message (fun _ _ => id) (fun _ => id) s (.inr hs) hd

theorem stop_deaf {s : Life P} {e : Event P} (hp : Plain s.hosted) (hx : Executes s .stopReadInLoop e) :
    Deaf (next s e).hosted := by
  cases e with
  | call c r =>
      cases c with
      | stopRead => exact stopReadInLoop_deaf hp
      | startRead => cases hx
      | send _ | shutdown | forceClose | forceCloseWithDelay => exact hx.elim
  | functor r =>
      obtain ⟨fs, hfs⟩ := List.head?_eq_some_iff.mp hx
      simp only [next, hfs]
      exact stopReadInLoop_deaf hp
  | destroyInLoop => cases hx
  | test _ _ | store _ | finish _ | delayedClose | poll _ | readEvent _ | writeEvent _ | others _ | queueDestroyed
  | destroyNotify | destroyEnd => exact hx.elim

theorem poll_deaf {s : Life P} {revents : PollMask} (hf : filed s.hosted) (hd : Deaf s.hosted)
    (he : Enabled s (.poll revents)) : revents.meets Channel.readBits = false := by
  obtain ⟨_, _, mask, hk, hw⟩ := he
  have hm := (Consistent.registered hf hk).2
  rw [hk, Option.some.injEq, Prod.mk.injEq] at hm
  apply PollMask.within_not_meets hw
  rw [PollMask.union_meets_of_disjoint _ rfl, hm.1]
  exact hd

theorem step_messages (s : Life P) (e : Event P) :
    messages s ≤ messages (next s e) ∧ messages (next s e) ≤ messages s + if handlesRead e then 1 else 0 := by
  by_cases hm : ∃ b bs, e = .readEvent (.received (b :: bs))
  · obtain ⟨b, bs, rfl⟩ := hm
    have hone : messages (next s (.readEvent (.received (b :: bs)))) = messages s + 1 := by
      simp [messages, next, handleRead, emit, setInput]
    rw [hone]
    exact ⟨Nat.le_succ _, Nat.le_refl _⟩
  · have hsame : messages (next s e) = messages s :=
      messages_kept.next_of_others (fun _ _ => rfl) s (fun b bs hb => hm ⟨b, bs, hb⟩) (.inl startReadInLoop_messages)
    rw [hsame]
    exact ⟨Nat.le_refl _, Nat.le_add_right _ _⟩

theorem reported_of_active {s t : Life P} (ha : t.active = s.active) : reported t = reported s := by
  rw [reported, reported, pendingRead, pendingRead, ha]

theorem step_reported {s : Life P} {e : Event P} (hf : filed s.hosted) (hd : Deaf s.hosted) (he : Enabled s e) :
    reported (next s e) + (if handlesRead e then 1 else 0) ≤ reported s := by
  cases e with
  | readEvent r =>
      obtain ⟨_, revents, ha, hm⟩ := he
      simp [reported, pendingRead, next, ha, hm, handlesRead, PollMask.minus_not_meets]
  | writeEvent r =>
      obtain ⟨_, revents, ha, hm⟩ := he
      simp [reported, pendingRead, next, ha, hm, handlesRead]
  | poll revents => simp [reported, pendingRead, next, handlesRead, poll_deaf hf hd he]
  | call | test | store | finish | functor | delayedClose | others | queueDestroyed | destroyInLoop | destroyNotify
  | destroyEnd => exact Nat.le_of_eq (reported_of_active (next_active s (by simp) (by simp) (by simp)))

theorem run_messages (s : Life P) (es : List (Event P)) :
    messages s ≤ messages (run next s es) ∧ messages (run next s es) ≤ messages s + es.countP handlesRead := by
  induction es generalizing s with
  | nil => exact ⟨Nat.le_refl _, Nat.le_refl _⟩
  | cons e es ih =>
      have hstep := step_messages s e
      have hrest := ih (next s e)
      have hrun : run next s (e :: es) = run next (next s e) es := rfl
      rw [hrun, List.countP_cons]
      omega

def Silent (s : Life P) : Prop := filed s.hosted ∧ Deaf s.hosted

theorem step_silent {s : Life P} {e : Event P} (h : Silent s) (he : Enabled s e)
    (hs : ¬ Executes s .startReadInLoop e) : Silent (next s e) :=
  ⟨step_filed s e h.1 he, step_deaf s hs h.2⟩

theorem run_reported {s : Life P} {es : List (Event P)} (h : Silent s)
    (hC : Meets next (fun s e => Enabled s e ∧ ¬ Executes s .startReadInLoop e) s es) :
    reported (run next s es) + es.countP handlesRead ≤ reported s := by
  induction es generalizing s with
  | nil => exact Nat.le_refl _
  | cons e es ih =>
      have hstep := step_reported h.1 h.2 hC.1.1
      have hrest := ih (step_silent h hC.1.1 hC.1.2) hC.2
      have hrun : run next s (e :: es) = run next (next s e) es := rfl
      rw [hrun, List.countP_cons]
      omega

theorem Silent.stopped {s : Life P} {es : List (Event P)} (h : Silent s)
    (hC : Meets next (fun s e => Enabled s e ∧ ¬ Executes s .startReadInLoop e) s es) : Stopped s es := by
  have hreads := run_reported h hC
  refine ⟨by omega, (run_messages s es).2, ?_⟩
  rintro ds revents fs rfl
  obtain ⟨hds, ⟨he, hs⟩, hfs⟩ := (meets_append next _ s ds _).mp hC
  have hsilent : Silent (run next s ds) :=
    (always_of_step (fun s e hi hc => step_silent hi hc.1 hc.2) h hds).last
  have hnone : reported (next (run next s ds) (.poll revents)) = 0 := by
    simp [reported, pendingRead, next, poll_deaf hsilent.1 hsilent.2 he]
  have hrest := run_reported (step_silent hsilent he hs) hfs
  have hzero : fs.countP handlesRead = 0 := by omega
  have hmessages := run_messages (next (run next s ds) (.poll revents)) fs
  have hpoll : messages (next (run next s ds) (.poll revents)) = messages (run next s ds) := rfl
  have hrun : run next s (ds ++ .poll revents :: fs) = run next (next (run next s ds) (.poll revents)) fs := by
    rw [run_append]
    rfl
  refine ⟨hzero, ?_⟩
  rw [hrun]
  omega

theorem start_plain (self : P) (fd : Int) (callback : Bool) : Plain (start self fd callback).hosted := rfl

/-- Once stopReadInLoop has run, and until startReadInLoop does, at most what Poll had
reported before is still read, whatever the peer sends. -/
theorem stopRead_stops (self : P) (fd : Int) (callback : Bool) (ds : List (Event P)) (e : Event P)
    (es : List (Event P)) (he : Meets next Enabled (start self fd callback) (ds ++ e :: es))
    (hx : Executes (run next (start self fd callback) ds) .stopReadInLoop e)
    (hs : Meets next (fun s d => ¬ Executes s .startReadInLoop d)
      (next (run next (start self fd callback) ds) e) es) :
    Stopped (next (run next (start self fd callback) ds) e) es := by
  obtain ⟨hds, hen, hes⟩ := (meets_append next _ _ ds _).mp he
  have hplain : Plain (run next (start self fd callback) ds).hosted :=
    (always_of_step (fun s d hp _ => step_plain s d hp) (start_plain self fd callback) hds).last
  have hfiled : filed (run next (start self fd callback) ds).hosted :=
    (always_of_step (fun s d hf hd => step_filed s d hf hd) (start_ended self fd callback).filed hds).last
  have hsilent : Silent (next (run next (start self fd callback) ds) e) :=
    ⟨step_filed _ e hfiled hen, stop_deaf hplain hx⟩
  exact hsilent.stopped (meets_and.mpr ⟨hes, hs⟩)

theorem stopRead_stops_reported :
    Stopped (next (run next (start () 7 false) [.poll { PollMask.zero with pollin := true }])
      (.call .stopRead (.wrote 0))) [.readEvent (.received [1]), .writeEvent (.wrote 0)] :=
  stopRead_stops () 7 false [.poll { PollMask.zero with pollin := true }] (.call .stopRead (.wrote 0))
    [.readEvent (.received [1]), .writeEvent (.wrote 0)]
    ⟨⟨rfl, rfl, Channel.kReadEvent, rfl, by decide⟩, .inl rfl, ⟨rfl, _, rfl, rfl⟩, ⟨rfl, _, rfl, rfl⟩, trivial⟩ rfl
    ⟨id, id, trivial⟩

end Webserver.FlowControl
