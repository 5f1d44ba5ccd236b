import Webserver.TimerCancel

namespace Webserver.TimerPosting

open Runs TimerQueue TimerStore TimerFrame TimerFiring TimerIds TimerCancel

inductive Functor
  | addTimerInLoop (p : Pointer)
  | cancelInLoop (k : Nat)
deriving DecidableEq

/-- Timers are made and cancelled on any thread. Off the loop thread the work
goes to pendingFunctors. The rest is history: the Timers whose addTimer has
returned, those whose cancelInLoop has been executed, and those for which both
functions had been executed at some moment outside of a batch. -/
structure Posting where
  tracked : Tracked
  pending : List Functor
  returned : List Nat
  cancelled : List Nat
  settled : List Nat

namespace Posting

def construct : Posting := ⟨.construct, [], [], [], []⟩

/-- The first two are the halves of addTimer: the new, and the runInLoop with which it returns. -/
inductive Event
  | newTimer (p : Pointer) (when : TimeStamp) (delta : Int) (repeats : Bool)
  | addTimer (inLoop : Bool) (p : Pointer) (clock : TimeStamp)
  | cancel (inLoop : Bool) (k : Nat)
  | functor (clock : TimeStamp)
  | fire
  | handleRead (now : TimeStamp)
  | callback
  | endRead (clock : Nat → TimeStamp)

def executes (s : Posting) : Event → Option Tracked.Event
  | .newTimer p when delta repeats => some (.create p when delta repeats)
  | .addTimer inLoop p clock => if inLoop then some (.addTimerInLoop p clock) else none
  | .cancel inLoop k => if inLoop then some (.cancelInLoop k) else none
  | .functor clock => match s.pending with
    | .addTimerInLoop p :: _ => some (.addTimerInLoop p clock)
    | .cancelInLoop k :: _ => some (.cancelInLoop k)
    | [] => none
  | .fire => some .fire
  | .handleRead now => some (.handleRead now)
  | .callback => some .callback
  | .endRead clock => some (.endRead clock)

def cancels (s : Posting) (e : Event) : List Nat :=
  match s.executes e with
  | some (.cancelInLoop k) => [k]
  | _ => []

def queueAfter (s : Posting) : Event → List Functor
  | .addTimer false p _ => s.pending ++ [.addTimerInLoop p]
  | .cancel false k => s.pending ++ [.cancelInLoop k]
  | .functor _ => s.pending.tail
  | _ => s.pending

def returns (s : Posting) : Event → List Nat
  | .addTimer _ p _ => (s.tracked.serial p).toList
  | _ => []

def next (s : Posting) (e : Event) : Posting :=
  let t := (s.executes e).elim s.tracked s.tracked.next
  let cancelled := s.cancels e ++ s.cancelled
  ⟨t, s.queueAfter e, s.returns e ++ s.returned, cancelled,
    (if t.loop.phase = .idle then cancelled.filter (Inserted t) else []) ++ s.settled⟩

/-- A cancel is called with an id that was returned; functors run in order, outside of handleRead. -/
def Enabled (s : Posting) : Event → Prop
  | .newTimer p when delta repeats => s.tracked.Enabled (.create p when delta repeats)
  | .addTimer _ p _ => p ∈ s.tracked.loop.waiting ∧ .addTimerInLoop p ∉ s.pending
  | .cancel _ k => k ∈ s.returned
  | .functor _ => s.pending ≠ [] ∧ s.tracked.loop.phase = .idle
  | .fire => s.tracked.Enabled .fire
  | .handleRead now => s.tracked.Enabled (.handleRead now)
  | .callback => s.tracked.Enabled .callback
  | .endRead clock => s.tracked.Enabled (.endRead clock)

instance (s : Posting) (e : Event) : Decidable (s.Enabled e) :=
  match e with
  | .newTimer _ _ _ _ | .fire | .handleRead _ | .callback | .endRead _ =>
      inferInstanceAs (Decidable (s.tracked.Enabled _))
  | .addTimer _ _ _ | .functor _ => inferInstanceAs (Decidable (_ ∧ _))
  | .cancel _ k => inferInstanceAs (Decidable (k ∈ s.returned))

end Posting

def Cleared (s : Posting) : Prop :=
  s.tracked.loop.phase = .idle → ∀ k ∈ s.cancelled, Inserted s.tracked k → ∀ p, s.tracked.serial p = some k →
    (∀ t, ⟨t, p⟩ ∉ s.tracked.loop.queue.timers) ∧ ∀ n, (p, n) ∉ s.tracked.loop.queue.activeTimers

def NotLater (s : Posting) (e : Posting.Event) : Prop :=
  ∀ te, s.executes e = some te → ∀ it ∈ starts s.tracked.loop (s.tracked.loopEvent te),
    ∀ k, s.tracked.serial it.timer = some k → k ∉ s.settled

/-- The loop thread calls cancel for a Timer only when its addTimerInLoop has been executed. -/
def AddedFirst (s : Posting) : Posting.Event → Prop
  | .cancel true k => Inserted s.tracked k
  | _ => True

instance (s : Posting) (e : Posting.Event) : Decidable (AddedFirst s e) :=
  match e with
  | .cancel true k => inferInstanceAs (Decidable (Inserted s.tracked k))
  | .cancel false _ | .newTimer _ _ _ _ | .addTimer _ _ _ | .functor _ | .fire | .handleRead _ | .callback
  | .endRead _ =>
      .isTrue trivial

/-- The functor queue: each waiting Timer that was returned has its
addTimerInLoop in it, once, and before every cancelInLoop for it. -/
structure Queued (s : Posting) : Prop where
  order : s.pending.Pairwise fun f g => ∀ k p, f = .cancelInLoop k → g = .addTimerInLoop p → s.tracked.serial p ≠ some k
  posted : ∀ k ∈ s.returned, ∀ p ∈ s.tracked.loop.waiting, s.tracked.serial p = some k → .addTimerInLoop p ∈ s.pending
  waits : ∀ p, .addTimerInLoop p ∈ s.pending → p ∈ s.tracked.loop.waiting
  once : ∀ p, s.pending.count (.addTimerInLoop p) ≤ 1
  issued : ∀ k, .cancelInLoop k ∈ s.pending → k ∈ s.returned
  known : ∀ k ∈ s.returned, k < s.tracked.made.length

structure PostInv (s : Posting) : Prop where
  tracked : Inv s.tracked
  queued : Queued s
  made : ∀ k ∈ s.cancelled, k < s.tracked.made.length
  doomed : ∀ k ∈ s.cancelled, ∀ p, s.tracked.serial p = some k → Doomed s.tracked.loop p
  executed : ∀ k ∈ s.settled, k ∈ s.cancelled
  left : ∀ k ∈ s.settled, ∀ it ∈ batch s.tracked.loop.phase, s.tracked.serial it.timer ≠ some k

variable {s : Posting}

theorem cancels_eq {e : Posting.Event} {k : Nat} (h : k ∈ s.cancels e) : s.executes e = some (.cancelInLoop k) := by
  simp only [Posting.cancels] at h
  split at h
  · rename_i hk
    rw [hk, List.mem_singleton.mp h]
  · simp at h

theorem serial_eq (h : Inv s.tracked) {k : Nat} {p p' : Pointer} (hp : p ∈ s.tracked.loop.waiting)
    (hp' : p' ∈ s.tracked.loop.waiting) (hk : s.tracked.serial p = some k) (hk' : s.tracked.serial p' = some k) :
    p = p' := by
  obtain ⟨tm, htm⟩ := h.sound.waiting_alive hp
  obtain ⟨tm', htm'⟩ := h.sound.waiting_alive hp'
  have hid := h.idOf_eq ⟨hk, htm⟩
  rw [h.idOf_eq ⟨hk', htm'⟩] at hid
  exact (congrArg Prod.fst hid).symm

theorem waiting_nodup (h : Inv s.tracked) : s.tracked.loop.waiting.Nodup :=
  (List.nodup_append.mp h.sound.rooted.nodup).2.1

theorem Queued.inserted (h : Queued s) {k : Nat} {fs : List Functor} (hp : s.pending = .cancelInLoop k :: fs) :
    Inserted s.tracked k := by
  intro p hw hserial
  have hk : k ∈ s.returned := h.issued k (by rw [hp]; exact List.mem_cons_self)
  have hadd := h.posted k hk p hw hserial
  have horder := h.order
  rw [hp] at hadd horder
  rcases List.mem_cons.mp hadd with hhead | htail
  · cases hhead
  · exact (List.pairwise_cons.mp horder).1 _ htail k p rfl rfl hserial

theorem executes_enabled (h : PostInv s) {e : Posting.Event} (he : s.Enabled e) {te : Tracked.Event}
    (hte : s.executes e = some te) : s.tracked.Enabled te := by
  cases e with
  | newTimer _ _ _ _ | fire | handleRead _ | callback | endRead _ =>
      cases hte
      exact he
  | addTimer inLoop p clock =>
      cases inLoop with
      | false => cases hte
      | true =>
          cases hte
          exact ⟨he.1, trivial⟩
  | cancel inLoop k =>
      cases inLoop with
      | false => cases hte
      | true =>
          cases hte
          exact ⟨trivial, h.queued.known k he⟩
  | functor clock =>
      simp only [Posting.executes] at hte
      split at hte
      · rename_i p fs hp
        cases hte
        exact ⟨h.queued.waits p (by rw [hp]; exact List.mem_cons_self), trivial⟩
      · rename_i k fs hp
        cases hte
        exact ⟨trivial, h.queued.known k (h.queued.issued k (by rw [hp]; exact List.mem_cons_self))⟩
      · cases hte

theorem cancels_inserted (h : PostInv s) {e : Posting.Event} (hc : AddedFirst s e) {k : Nat} (hk : k ∈ s.cancels e) :
    Inserted s.tracked k := by
  have hte := cancels_eq hk
  cases e with
  | newTimer _ _ _ _ | fire | handleRead _ | callback | endRead _ => cases hte
  | addTimer inLoop p clock => cases inLoop <;> cases hte
  | cancel inLoop j =>
      cases inLoop with
      | false => cases hte
      | true =>
          cases hte
          exact hc
  | functor clock =>
      simp only [Posting.executes] at hte
      split at hte
      · cases hte
      · rename_i j fs hp
        cases hte
        exact h.queued.inserted hp
      · cases hte

theorem waiting_next (w : TimerLoop) {e : TimerLoop.Event}
    (hc : ∀ p when delta repeats, e ≠ .create p when delta repeats) (ha : ∀ p clock, e ≠ .addTimerInLoop p clock) :
    (w.next e).waiting = w.waiting := by
  cases e with
  | create p when delta repeats => exact absurd rfl (hc p when delta repeats)
  | addTimerInLoop p clock => exact absurd rfl (ha p clock)
  | cancelInLoop _ | fire | handleRead _ => rfl
  | callback =>
      simp only [TimerLoop.next]
      split <;> rfl
  | endRead clock =>
      simp only [TimerLoop.next]
      split <;> rfl

theorem Queued.congr {t : Posting} (h : Queued s) (hpending : t.pending = s.pending)
    (hreturned : t.returned = s.returned)
    (hwaiting : t.tracked.loop.waiting = s.tracked.loop.waiting) (hserial : t.tracked.serial = s.tracked.serial)
    (hmade : t.tracked.made = s.tracked.made) : Queued t := by
  obtain ⟨h1, h2, h3, h4, h5, h6⟩ := h
  constructor <;> simp only [hpending, hreturned, hwaiting, hserial, hmade] <;> assumption

theorem newTimer_queued {p : Pointer} {when : TimeStamp} {delta : Int} {repeats : Bool} (h : PostInv s)
    (he : s.Enabled (.newTimer p when delta repeats)) : Queued (s.next (.newTimer p when delta repeats)) := by
  have hq := h.queued
  have hfree : p ∉ s.tracked.loop.waiting := by
    intro hw
    obtain ⟨tm, htm⟩ := h.tracked.sound.waiting_alive hw
    exact created_ne he.1 htm rfl
  have hserial : ∀ p', p' ≠ p → (s.next (.newTimer p when delta repeats)).tracked.serial p' = s.tracked.serial p' :=
    fun p' hne => Function.update_of_ne hne _ _
  refine ⟨?_, ?_, ?_, hq.once, hq.issued, ?_⟩
  · apply hq.order.imp_of_mem
    intro f g _ hg hr k p' hk hp'
    have hne : p' ≠ p := fun heq => hfree (heq ▸ hq.waits p' (hp' ▸ hg))
    rw [hserial p' hne]
    exact hr k p' hk hp'
  · intro k hk p' hw hser
    by_cases hne : p' = p
    · subst hne
      have hnew : (s.next (.newTimer p' when delta repeats)).tracked.serial p' = some s.tracked.made.length :=
        Function.update_self _ _ _
      rw [hnew, Option.some.injEq] at hser
      have hlt := hq.known k hk
      omega
    · rw [hserial p' hne] at hser
      exact hq.posted k hk p' ((List.mem_cons.mp hw).resolve_left hne) hser
  · exact fun p' hp' => List.mem_cons_of_mem _ (hq.waits p' hp')
  · intro k hk
    exact (hq.known k hk).trans_le (made_le_next s.tracked (.create p when delta repeats))

theorem known_returns (h : Inv s.tracked) {p : Pointer} (hw : p ∈ s.tracked.loop.waiting) {k : Nat}
    (hk : k ∈ (s.tracked.serial p).toList) : s.tracked.serial p = some k ∧ k < s.tracked.made.length := by
  have hser := Option.mem_toList.mp hk
  obtain ⟨tm, htm⟩ := h.sound.waiting_alive hw
  exact ⟨hser, h.lt_made ⟨hser, htm⟩⟩

theorem postAdd_queued {p : Pointer} {clock : TimeStamp} (h : PostInv s) (he : s.Enabled (.addTimer false p clock)) :
    Queued (s.next (.addTimer false p clock)) := by
  have hq := h.queued
  refine ⟨?_, ?_, ?_, ?_, ?_, ?_⟩
  · refine List.pairwise_append.mpr ⟨hq.order, List.pairwise_singleton _ _, ?_⟩
    intro f hf g hg k p' hk hp' hser
    obtain rfl : p' = p := by
      rw [List.mem_singleton.mp hg] at hp'
      simpa using hp'.symm
    exact he.2 (hq.posted k (hq.issued k (hk ▸ hf)) p' he.1 hser)
  · intro k hk p' hw hser
    rcases List.mem_append.mp hk with hnew | hold
    · have hp := (known_returns h.tracked he.1 hnew).1
      obtain rfl := serial_eq h.tracked he.1 hw hp hser
      exact List.mem_append_right _ (List.mem_singleton.mpr rfl)
    · exact List.mem_append_left _ (hq.posted k hold p' hw hser)
  · intro p' hp'
    rcases List.mem_append.mp hp' with hold | hnew
    · exact hq.waits p' hold
    · obtain rfl : p' = p := by simpa using hnew
      exact he.1
  · intro p'
    simp only [Posting.next, Posting.queueAfter, List.count_append]
    by_cases hp' : p' = p
    · subst hp'
      rw [List.count_eq_zero.mpr he.2, List.count_singleton_self]
    · have hne : Functor.addTimerInLoop p ≠ .addTimerInLoop p' := fun heq => hp' (by simpa using heq.symm)
      rw [List.count_singleton, if_neg (by simpa using hne)]
      exact hq.once p'
  · intro k hk
    rcases List.mem_append.mp hk with hold | hnew
    · exact List.mem_append_right _ (hq.issued k hold)
    · simp at hnew
  · intro k hk
    rcases List.mem_append.mp hk with hnew | hold
    · exact (known_returns h.tracked he.1 hnew).2
    · exact hq.known k hold

theorem postCancel_queued {k : Nat} (h : PostInv s) (he : s.Enabled (.cancel false k)) :
    Queued (s.next (.cancel false k)) := by
  have hq := h.queued
  refine ⟨?_, ?_, ?_, ?_, ?_, hq.known⟩
  · refine List.pairwise_append.mpr ⟨hq.order, List.pairwise_singleton _ _, ?_⟩
    intro f _ g hg j p _ hp
    rw [List.mem_singleton.mp hg] at hp
    cases hp
  · exact fun j hj p hw hser => List.mem_append_left _ (hq.posted j hj p hw hser)
  · intro p hp
    rcases List.mem_append.mp hp with hold | hnew
    · exact hq.waits p hold
    · simp at hnew
  · intro p
    simp only [Posting.next, Posting.queueAfter, List.count_append]
    rw [List.count_singleton, if_neg (by simp)]
    exact hq.once p
  · intro j hj
    rcases List.mem_append.mp hj with hold | hnew
    · exact hq.issued j hold
    · obtain rfl : j = k := by simpa using hnew
      exact he

theorem addInLoop_queued {p : Pointer} {clock : TimeStamp} (h : PostInv s) (he : s.Enabled (.addTimer true p clock)) :
    Queued (s.next (.addTimer true p clock)) := by
  have hq := h.queued
  refine ⟨hq.order, ?_, ?_, hq.once, fun k hk => List.mem_append_right _ (hq.issued k hk), ?_⟩
  · intro k hk p' hw hser
    rcases List.mem_append.mp hk with hnew | hold
    · have hp := (known_returns h.tracked he.1 hnew).1
      obtain rfl := serial_eq h.tracked he.1 (List.mem_of_mem_erase hw) hp hser
      exact absurd hw (waiting_nodup h.tracked).not_mem_erase
    · exact hq.posted k hold p' (List.mem_of_mem_erase hw) hser
  · intro p' hp'
    have hne : p' ≠ p := fun heq => he.2 (heq ▸ hp')
    exact (List.mem_erase_of_ne hne).mpr (hq.waits p' hp')
  · intro k hk
    rcases List.mem_append.mp hk with hnew | hold
    · exact (known_returns h.tracked he.1 hnew).2
    · exact hq.known k hold

theorem Queued.tail {t : Posting} {f : Functor} {fs : List Functor} (h : Queued s) (hp : s.pending = f :: fs)
    (hpending : t.pending = fs) (hreturned : t.returned = s.returned) (hserial : t.tracked.serial = s.tracked.serial)
    (hmade : t.tracked.made = s.tracked.made)
    (hwaiting : ∀ p, p ∈ t.tracked.loop.waiting ↔ p ∈ s.tracked.loop.waiting ∧ f ≠ .addTimerInLoop p) : Queued t := by
  have horder := h.order
  have honce := h.once
  rw [hp] at horder honce
  have hsub : ∀ g ∈ t.pending, g ∈ s.pending := by
    intro g hg
    rw [hp]
    exact List.mem_cons_of_mem _ (hpending ▸ hg)
  constructor
  · rw [hpending, hserial]
    exact (List.pairwise_cons.mp horder).2
  · intro k hk p hw hser
    obtain ⟨hold, hne⟩ := (hwaiting p).mp hw
    have hadd := h.posted k (hreturned ▸ hk) p hold (hserial ▸ hser)
    rw [hp] at hadd
    rw [hpending]
    exact (List.mem_cons.mp hadd).resolve_left fun heq => hne heq.symm
  · intro p hin
    refine (hwaiting p).mpr ⟨h.waits p (hsub _ hin), ?_⟩
    rintro rfl
    have hcount := honce p
    have hpos := List.count_pos_iff.mpr (hpending ▸ hin)
    rw [List.count_cons_self] at hcount
    omega
  · intro p
    rw [hpending]
    exact List.count_le_count_cons.trans (honce p)
  · intro k hk
    rw [hreturned]
    exact h.issued k (hsub _ hk)
  · rw [hreturned, hmade]
    exact h.known

theorem functor_queued {clock : TimeStamp} (h : PostInv s) (he : s.Enabled (.functor clock)) :
    Queued (s.next (.functor clock)) := by
  cases hp : s.pending with
  | nil => exact absurd hp he.1
  | cons f fs =>
      have hpending : (s.next (.functor clock)).pending = fs := by
        simp only [Posting.next, Posting.queueAfter, hp, List.tail_cons]
      cases f with
      | addTimerInLoop p =>
          have hn : (s.next (.functor clock)).tracked = s.tracked.next (.addTimerInLoop p clock) := by
            simp only [Posting.next, Posting.executes, hp, Option.elim_some]
          refine h.queued.tail hp hpending rfl (by rw [hn]; rfl) (by rw [hn]; rfl) fun p' => ?_
          have herase : p' ∈ s.tracked.loop.waiting.erase p ↔ p' ≠ p ∧ p' ∈ s.tracked.loop.waiting :=
            (waiting_nodup h.tracked).mem_erase_iff
          rw [hn, and_comm, ne_eq, Functor.addTimerInLoop.injEq, eq_comm]
          exact herase
      | cancelInLoop k =>
          have hn : (s.next (.functor clock)).tracked = s.tracked.next (.cancelInLoop k) := by
            simp only [Posting.next, Posting.executes, hp, Option.elim_some]
          refine h.queued.tail hp hpending rfl (by rw [hn]; rfl) (by rw [hn]; rfl) fun p => ?_
          rw [hn]
          exact ⟨fun hw => ⟨hw, by simp⟩, fun hw => hw.1⟩

theorem step_queued {e : Posting.Event} (h : PostInv s) (he : s.Enabled e) : Queued (s.next e) := by
  cases e with
  | newTimer p when delta repeats => exact newTimer_queued h he
  | addTimer inLoop p clock =>
      cases inLoop with
      | false => exact postAdd_queued h he
      | true => exact addInLoop_queued h he
  | cancel inLoop k =>
      cases inLoop with
      | false => exact postCancel_queued h he
      | true => exact h.queued.congr rfl rfl rfl rfl rfl
  | functor clock => exact functor_queued h he
  | fire => exact h.queued.congr rfl rfl rfl rfl rfl
  | handleRead now => exact h.queued.congr rfl rfl rfl rfl rfl
  | callback =>
      have hwaiting := waiting_next s.tracked.loop (e := .callback) (by simp) (by simp)
      exact h.queued.congr rfl rfl hwaiting rfl rfl
  | endRead clock =>
      have hwaiting := waiting_next s.tracked.loop (e := .endRead clock) (by simp) (by simp)
      exact h.queued.congr rfl rfl hwaiting rfl rfl

theorem batch_next {w : TimerLoop} {e : TimerLoop.Event} (h : Sound w) (he : w.Enabled e) {it : Entry}
    (hit : it ∈ batch (w.next e).phase) : it ∈ batch w.phase ∨ it ∈ w.queue.timers := by
  cases e with
  | create _ _ _ _ | addTimerInLoop _ _ | cancelInLoop _ | fire | callback =>
      exact .inl (inside_batch h he trivial ▸ hit)
  | handleRead now => exact .inr ((expired_iff (beginRead_rooted h he)).mp hit).1
  | endRead clock =>
      obtain ⟨expired, now, hp⟩ := TimerLoop.endRead_phase he
      simp [TimerLoop.next, hp, batch] at hit

theorem cancelled_next (h : PostInv s) {te : Tracked.Event} (he : s.tracked.Enabled te) {k : Nat}
    (hk : k ∈ s.cancelled) :
    k < (s.tracked.next te).made.length ∧
      (∀ p, (s.tracked.next te).serial p = some k → Doomed (s.tracked.next te).loop p) ∧
      (k ∈ s.settled → ∀ it ∈ batch (s.tracked.next te).loop.phase, (s.tracked.next te).serial it.timer ≠ some k) := by
  refine ⟨(h.made k hk).trans_le (made_le_next s.tracked te),
    fun p hp => doomed_next h.tracked he (h.made k hk) (h.doomed k hk) hp, fun hset it hit hp => ?_⟩
  obtain ⟨hserial, _⟩ := serial_next (h.made k hk) hp
  rw [Tracked.next_loop] at hit
  rcases batch_next h.tracked.sound he.1 hit with hold | htimers
  · exact h.left k hset it hold hserial
  · exact (h.doomed k hk it.timer hserial).entry it.when htimers

theorem step_postInv (s : Posting) (e : Posting.Event) (h : PostInv s) (he : s.Enabled e ∧ AddedFirst s e) :
    PostInv (s.next e) := by
  have hinv : Inv (s.next e).tracked := by
    cases hte : s.executes e with
    | none => simpa only [Posting.next, hte, Option.elim_none] using h.tracked
    | some te =>
        simpa only [Posting.next, hte, Option.elim_some] using
          step_inv s.tracked te h.tracked (executes_enabled h he.1 hte)
  have hold : ∀ k ∈ s.cancelled, k < (s.next e).tracked.made.length ∧
      (∀ p, (s.next e).tracked.serial p = some k → Doomed (s.next e).tracked.loop p) ∧
      (k ∈ s.settled → ∀ it ∈ batch (s.next e).tracked.loop.phase, (s.next e).tracked.serial it.timer ≠ some k) := by
    intro k hk
    cases hte : s.executes e with
    | none => simpa only [Posting.next, hte, Option.elim_none] using ⟨h.made k hk, h.doomed k hk, h.left k⟩
    | some te =>
        simpa only [Posting.next, hte, Option.elim_some] using cancelled_next h (executes_enabled h he.1 hte) hk
  have hnew : ∀ k ∈ s.cancels e, k < (s.next e).tracked.made.length ∧
      ∀ p, (s.next e).tracked.serial p = some k → Doomed (s.next e).tracked.loop p := by
    intro k hk
    have hte := cancels_eq hk
    have hen := executes_enabled h he.1 hte
    simp only [Posting.next, hte, Option.elim_some]
    exact ⟨hen.2, fun p hp => cancel_next_doomed h.tracked (cancels_inserted h he.2 hk) hp⟩
  refine ⟨hinv, step_queued h he.1, fun k hk => ?_, fun k hk => ?_, fun k hk => ?_, fun k hk => ?_⟩
  · rcases List.mem_append.mp hk with hk | hk
    · exact (hnew k hk).1
    · exact (hold k hk).1
  · rcases List.mem_append.mp hk with hk | hk
    · exact (hnew k hk).2
    · exact (hold k hk).2.1
  · rcases List.mem_append.mp hk with hk | hk
    · split at hk
      · exact List.mem_of_mem_filter hk
      · simp at hk
    · exact List.mem_append_right _ (h.executed k hk)
  · rcases List.mem_append.mp hk with hk | hk
    · split at hk
      · rename_i hidle
        intro it hit
        have hphase : (s.next e).tracked.loop.phase = .idle := hidle
        simp [hphase, batch] at hit
      · simp at hk
    · exact (hold k (h.executed k hk)).2.2 hk

theorem PostInv.cleared (h : PostInv s) : Cleared s := by
  intro _ k hk _ p hp
  have hd := h.doomed k hk p hp
  refine ⟨hd.entry, fun n hn => ?_⟩
  obtain ⟨tm, _, _, he⟩ := h.tracked.sound.rooted.active (p, n) hn
  exact hd.entry tm.expiration he

theorem PostInv.notLater (h : PostInv s) (e : Posting.Event) : NotLater s e := by
  intro te _ it hit k hserial hk
  cases hp : s.tracked.loop.phase with
  | idle =>
      have hrest := mem_starts hit
      simp [hp, remaining] at hrest
  | calling expired now rest =>
      have hrest := mem_starts hit
      rw [hp] at hrest
      have hbatch := h.tracked.sound.rest expired now rest hp hrest
      exact h.left k hk it (by rw [hp]; exact hbatch) hserial

end Webserver.TimerPosting
