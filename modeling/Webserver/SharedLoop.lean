import Webserver.ConnectionFrame
import Webserver.EventLoop

namespace Webserver

open ConnectionLife (Life Caller Destroying)

variable {P : Type}

/-- What waits in a loop: a functor of the connection with this channel, or any other. -/
inductive Task (P : Type)
  | connection (p : P) (f : Functor)
  | other

structure Resident where
  conn : TcpConnection
  delayedCloses : Nat
  trace : List Effect
  active : Option PollMask
  callers : Nat → Caller
  destroying : Destroying

/-- A loop with its poller and the connections on it, by their channels. -/
structure SharedLoop (P : Type) where
  loop : EventLoop (Task P)
  poller : EpollPoller P
  residents : P → Option Resident

namespace SharedLoop

open TcpConnection ConnectionLife EpollPoller ConnectionFrame

def resident (s : Life P) : Resident :=
  ⟨s.hosted.conn, s.hosted.delayedCloses, s.hosted.trace, s.active, s.callers, s.destroying⟩

/-- The connection in the loop as one with a poller and a queue of its own. -/
def lifeOf (p : P) (poller : EpollPoller P) (fs : List Functor) (r : Resident) : Life P :=
  ⟨⟨p, r.conn, poller, fs, r.delayedCloses, r.trace⟩, r.active, r.callers, r.destroying⟩

def queue (l : EventLoop (Task P)) : List (Task P) := l.functors ++ l.pendingFunctors

inductive Event (P : Type)
  | loop (e : EventLoop.Event (Task P))
  | poll (woken : Bool) (reports : P → Option PollMask)
  | others (poller : EpollPoller P)
  | establish (p : P) (fd : Int) (callback : Bool)
  | release (p : P)
  | connection (inLoop : Bool) (p : P) (e : ConnectionLife.Event P)

def construct : SharedLoop P := ⟨.construct, .construct, fun _ => none⟩

def push (inLoop : Bool) (p : P) (fs : List Functor) (l : EventLoop (Task P)) : EventLoop (Task P) :=
  fs.foldl (fun l f => l.queueInLoop inLoop (.connection p f)) l

def begin (e : ConnectionLife.Event P) (l : EventLoop (Task P)) : EventLoop (Task P) :=
  match e with
  | .functor _ => l.next .runFunctor
  | _ => l

variable [DecidableEq P]

def functorsOf (p : P) (ts : List (Task P)) : List Functor :=
  ts.filterMap fun
    | .connection q f => if q = p then some f else none
    | .other => none

def view (s : SharedLoop P) (p : P) : Option (Life P) :=
  (s.residents p).map (lifeOf p s.poller (functorsOf p (queue s.loop)))

def next (s : SharedLoop P) : Event P → SharedLoop P
  | .loop e => { s with loop := s.loop.next e }
  | .poll woken reports =>
      { s with
        loop := s.loop.next (.pollReturn woken)
        residents := fun p => (s.residents p).map fun r => match reports p with
          | some revents => resident (ConnectionLife.next (lifeOf p s.poller [] r) (.poll revents))
          | none => r }
  | .others poller => { s with poller := poller }
  | .establish p fd callback =>
      let life : Life P := ⟨established p s.poller fd callback, none, fun _ => .idle, .outside⟩
      { s with poller := life.hosted.poller, residents := Function.update s.residents p (some (resident life)) }
  | .release p => { s with residents := Function.update s.residents p none }
  | .connection inLoop p e => match s.residents p with
    | none => s
    | some r =>
        let life := ConnectionLife.next (lifeOf p s.poller (taken (functorsOf p (queue s.loop)) e) r) e
        { loop := push inLoop p life.hosted.pendingFunctors (begin e s.loop)
          poller := life.hosted.poller
          residents := Function.update s.residents p (some (resident life)) }

def OnThread (s : SharedLoop P) (inLoop : Bool) (p : P) : ConnectionLife.Event P → Prop
  | .call _ _ => inLoop = true ∧ s.loop.UserCode
  | .test _ _ | .store _ | .finish _ => inLoop = false
  | .functor _ => inLoop = true ∧ s.loop.point = .running ∧ ∃ f, s.loop.functors.head? = some (.connection p f)
  | .readEvent _ | .writeEvent _ | .delayedClose => inLoop = true ∧ s.loop.point = .handling
  | .queueDestroyed => inLoop = true → s.loop.UserCode
  | .destroyInLoop | .destroyNotify | .destroyEnd => inLoop = true ∧ s.loop.UserCode
  | .poll _ | .others _ => False

/-- When a step can happen. The functors come after all reported events, a new connection
has a descriptor that is nobody else's, and one goes when its channel is removed, no
functor waits for it and no other thread is inside a call on it. -/
def Enabled (s : SharedLoop P) : Event P → Prop
  | .loop e => s.loop.Enabled e ∧ match e with
    | .pollReturn _ | .queueInLoop _ (.connection _ _) => False
    | .runFunctor => s.loop.functors.head? = some .other
    | .beginFunctors => ∀ p r, s.residents p = some r → r.active = none
    | _ => True
  | .poll woken reports => s.loop.Enabled (.pollReturn woken) ∧
      ∀ p r revents, s.residents p = some r → reports p = some revents →
        ConnectionLife.Enabled (lifeOf p s.poller [] r) (.poll revents)
  | .others poller => ∀ p r, s.residents p = some r →
      poller.channels r.conn.channel.fd = s.poller.channels r.conn.channel.fd ∧
        poller.kernel r.conn.channel.fd = s.poller.kernel r.conn.channel.fd
  | .establish p fd _ => s.loop.UserCode ∧ s.residents p = none ∧ functorsOf p (queue s.loop) = [] ∧
      s.poller.channels fd = none ∧ s.poller.kernel fd = none ∧
        ∀ q r, s.residents q = some r → r.conn.channel.fd ≠ fd
  | .release p => functorsOf p (queue s.loop) = [] ∧
      ∃ r, s.residents p = some r ∧ r.conn.channel.index = .kNew ∧ ∀ t, r.callers t = .idle
  | .connection inLoop p e => OnThread s inLoop p e ∧ ∃ l, view s p = some l ∧ ConnectionLife.Enabled l e

def ownStep (p : P) (own : List (ConnectionLife.Event P)) : Event P → List (ConnectionLife.Event P)
  | .establish q _ _ => if q = p then [] else own
  | .connection _ q e => if q = p then own ++ [e] else own
  | .poll _ reports => own ++ ((reports p).map .poll).toList
  | .loop _ | .others _ | .release _ => own

def own (p : P) (es : List (Event P)) : List (ConnectionLife.Event P) := es.foldl (ownStep p) []

def isOwn : ConnectionLife.Event P → Bool
  | .others _ => false
  | _ => true

section

variable (p : P) (ts us : List (Task P))

theorem functorsOf_append : functorsOf p (ts ++ us) = functorsOf p ts ++ functorsOf p us := List.filterMap_append

theorem functorsOf_own (fs : List Functor) : functorsOf p (fs.map (.connection p)) = fs := by
  simp [functorsOf, List.filterMap_map]

theorem functorsOf_foreign {q : P} (hq : q ≠ p) (fs : List Functor) : functorsOf p (fs.map (.connection q)) = [] := by
  simp [functorsOf, List.filterMap_map, hq]

end

omit [DecidableEq P] in
theorem push_frame (inLoop : Bool) (p : P) (fs : List Functor) (l : EventLoop (Task P)) :
    (push inLoop p fs l).pendingFunctors = l.pendingFunctors ++ fs.map (.connection p) ∧
      (push inLoop p fs l).functors = l.functors ∧ (push inLoop p fs l).point = l.point := by
  induction fs generalizing l with
  | nil => exact ⟨(List.append_nil _).symm, rfl, rfl⟩
  | cons f fs ih =>
      obtain ⟨hpend, hfun, hpoint⟩ := ih (l.queueInLoop inLoop (.connection p f))
      obtain ⟨hpend', hfun', hpoint'⟩ := EventLoop.queueInLoop_frame inLoop (.connection p f) l
      refine ⟨hpend.trans ?_, hfun.trans hfun', hpoint.trans hpoint'⟩
      rw [hpend', List.append_assoc]
      rfl

omit [DecidableEq P] in
theorem push_queue (inLoop : Bool) (p : P) (fs : List Functor) (l : EventLoop (Task P)) :
    queue (push inLoop p fs l) = queue l ++ fs.map (.connection p) := by
  obtain ⟨hpend, hfun, _⟩ := push_frame inLoop p fs l
  rw [queue, hpend, hfun, queue, List.append_assoc]

structure Inv (s : SharedLoop P) : Prop where
  idle : s.loop.point ≠ .running → s.loop.functors = []
  apart : ∀ p q r t, s.residents p = some r → s.residents q = some t → p ≠ q →
    r.conn.channel.fd ≠ t.conn.channel.fd

omit [DecidableEq P] in
theorem idle_next {l : EventLoop (Task P)} (h : l.point ≠ .running → l.functors = [])
    {e : EventLoop.Event (Task P)} (he : l.Enabled e) : (l.next e).point ≠ .running → (l.next e).functors = [] := by
  cases e with
  | enterLoop | testQuit | pollReturn woken | beginFunctors =>
      intro _
      apply h
      simp [EventLoop.Enabled] at he
      simp [he]
  | handleRead => exact fun hp => h hp
  | swapFunctors => exact fun hp => absurd rfl hp
  | runFunctor => exact fun hp => absurd he.1 hp
  | endFunctors => exact fun _ => he.2
  | queueInLoop inLoop cb =>
      obtain ⟨_, hfun, hpoint⟩ := EventLoop.queueInLoop_frame inLoop cb l
      intro hp
      rw [EventLoop.next, hfun]
      exact h (hpoint ▸ hp)
  | quit inLoop =>
      cases inLoop with
      | true => exact h
      | false => exact h
  | wakeup pushed =>
      cases pushed with
      | true => exact h
      | false => exact h

theorem functorsOf_loop {s : SharedLoop P} (hinv : Inv s) {e : EventLoop.Event (Task P)} (he : Enabled s (.loop e))
    (p : P) : functorsOf p (queue (s.loop.next e)) = functorsOf p (queue s.loop) := by
  obtain ⟨he, hother⟩ := he
  cases e with
  | enterLoop | testQuit | pollReturn woken | handleRead | beginFunctors | endFunctors => rfl
  | swapFunctors =>
      have hnone : s.loop.functors = [] := by
        apply hinv.idle
        rw [show s.loop.point = .entering from he]
        decide
      simp [queue, EventLoop.next, EventLoop.swapFunctors, hnone]
  | runFunctor =>
      obtain ⟨_, hhead⟩ := he
      cases hf : s.loop.functors with
      | nil => exact absurd hf hhead
      | cons f fs =>
          simp only [hf, List.head?_cons, Option.some.injEq] at hother
          subst hother
          simp [queue, EventLoop.next, hf, functorsOf]
  | queueInLoop inLoop cb =>
      obtain ⟨hpend, hfun, _⟩ := EventLoop.queueInLoop_frame inLoop cb s.loop
      cases cb with
      | connection q f => exact hother.elim
      | other =>
          rw [EventLoop.next, queue, hpend, hfun, ← List.append_assoc, functorsOf_append]
          simp [functorsOf, queue]
  | quit inLoop =>
      cases inLoop with
      | true => rfl
      | false => rfl
  | wakeup pushed =>
      cases pushed with
      | true => rfl
      | false => rfl

section

variable {s : SharedLoop P} {inLoop : Bool} {p q : P} {e : ConnectionLife.Event P} {r : Resident}

omit [DecidableEq P] in
theorem OnThread.not_others (h : OnThread s inLoop p e) (poller : EpollPoller P) : e ≠ .others poller := by
  rintro rfl
  exact h

theorem functorsOf_begin (h : OnThread s inLoop p e) :
    functorsOf p (queue (begin e s.loop)) = left (functorsOf p (queue s.loop)) e := by
  cases e with
  | functor w =>
      obtain ⟨_, _, f, hhead⟩ := h
      obtain ⟨fs, hfs⟩ := List.head?_eq_some_iff.mp hhead
      simp [begin, EventLoop.next, queue, left, hfs, functorsOf]
  | call _ _ | test _ _ | store _ | finish _ | delayedClose | poll _ | readEvent _ | writeEvent _ | others _
  | queueDestroyed | destroyInLoop | destroyNotify | destroyEnd => rfl

theorem functorsOf_begin_foreign (h : OnThread s inLoop q e) (hq : q ≠ p) :
    functorsOf p (queue (begin e s.loop)) = functorsOf p (queue s.loop) := by
  cases e with
  | functor w =>
      obtain ⟨_, _, f, hhead⟩ := h
      obtain ⟨fs, hfs⟩ := List.head?_eq_some_iff.mp hhead
      simp [begin, EventLoop.next, queue, hfs, functorsOf, hq]
  | call _ _ | test _ _ | store _ | finish _ | delayedClose | poll _ | readEvent _ | writeEvent _ | others _
  | queueDestroyed | destroyInLoop | destroyNotify | destroyEnd => rfl

omit [DecidableEq P] in
theorem lifeOf_resident {l : Life P} (hself : l.hosted.self = p) (fs : List Functor) :
    lifeOf p l.hosted.poller (fs ++ l.hosted.pendingFunctors) (resident l) =
      { l with hosted := behind fs l.hosted } := by
  subst hself
  rfl

theorem connection_self (h : OnThread s inLoop p e) (hr : s.residents p = some r) :
    view (next s (.connection inLoop p e)) p =
      some (ConnectionLife.next (lifeOf p s.poller (functorsOf p (queue s.loop)) r) e) := by
  have hframe := next_withQueue (functorsOf p (queue s.loop)) (lifeOf p s.poller [] r) e
  have hlocal := next_local (lifeOf p s.poller (taken (functorsOf p (queue s.loop)) e) r) h.not_others
  simp only [view, next, hr, Function.update_self, Option.map_some, push_queue, functorsOf_append, functorsOf_own,
    functorsOf_begin h]
  exact congrArg some ((lifeOf_resident hlocal.self _).trans hframe.symm)

theorem connection_foreign (h : OnThread s inLoop q e) {t : Resident} (hq : s.residents q = some t) (hne : q ≠ p)
    (hr : s.residents p = some r) (hfd : r.conn.channel.fd ≠ t.conn.channel.fd) :
    ∃ poller, ConnectionLife.Enabled (lifeOf p s.poller (functorsOf p (queue s.loop)) r) (.others poller) ∧
      view (next s (.connection inLoop q e)) p =
        some (ConnectionLife.next (lifeOf p s.poller (functorsOf p (queue s.loop)) r) (.others poller)) := by
  have hlocal := next_local (lifeOf q s.poller (taken (functorsOf q (queue s.loop)) e) t) h.not_others
  refine ⟨_, ⟨hlocal.channels _ hfd, hlocal.kernel _ hfd⟩, ?_⟩
  simp only [view, next, hq, Function.update_of_ne hne.symm, hr, Option.map_some, push_queue, functorsOf_append,
    functorsOf_foreign p hne, List.append_nil, functorsOf_begin_foreign h hne]
  rfl

end

section

variable {s : SharedLoop P} {p q : P} {fd : Int} {r : Resident}

omit [DecidableEq P] in
theorem established_poller {poller : EpollPoller P} (hkernel : poller.kernel fd = none) (callback : Bool) :
    (established p poller fd callback).poller.channels fd = some p ∧
      (established p poller fd callback).poller.kernel fd = some (Channel.kReadEvent, p) := by
  simp [established, connectEstablished, onChannel, Channel.enableReading, Channel.setEvents, updateChannel,
    TcpConnection.construct, Channel.construct, setState, emit, update, epollCtl, hkernel, PollMask.union,
    PollMask.zero, Channel.kReadEvent]

omit [DecidableEq P] in
theorem established_local (poller : EpollPoller P) (fd : Int) (callback : Bool) :
    Local ⟨p, TcpConnection.construct fd callback, poller, [], 0, []⟩ (established p poller fd callback) := by
  have hset : Local ⟨p, TcpConnection.construct fd callback, poller, [], 0, []⟩
      (setState .kConnected ⟨p, TcpConnection.construct fd callback, poller, [], 0, []⟩) := .of_poller rfl rfl rfl
  exact (hset.trans (setEvents_local _ _)).trans (.of_poller rfl rfl rfl)

theorem establish_self {callback : Bool} (he : Enabled s (.establish p fd callback)) :
    ∃ poller, ConnectionLife.Enabled (start p fd callback) (.others poller) ∧
      view (next s (.establish p fd callback)) p =
        some (ConnectionLife.next (start p fd callback) (.others poller)) := by
  obtain ⟨_, _, hfunctors, _, hnone, _⟩ := he
  have hempty : (EpollPoller.construct : EpollPoller P).kernel fd = none := rfl
  obtain ⟨hchannels, hkernel⟩ := established_poller (p := p) hnone callback
  obtain ⟨hchannels', hkernel'⟩ := established_poller (p := p) hempty callback
  refine ⟨(established p s.poller fd callback).poller, ?_, ?_⟩
  · exact ⟨hchannels.trans hchannels'.symm, hkernel.trans hkernel'.symm⟩
  · simp only [view, next, Function.update_self, Option.map_some, hfunctors]
    rfl

theorem establish_foreign {callback : Bool} (he : Enabled s (.establish q fd callback)) (hne : q ≠ p)
    (hr : s.residents p = some r) :
    ∃ poller, ConnectionLife.Enabled (lifeOf p s.poller (functorsOf p (queue s.loop)) r) (.others poller) ∧
      view (next s (.establish q fd callback)) p =
        some (ConnectionLife.next (lifeOf p s.poller (functorsOf p (queue s.loop)) r) (.others poller)) := by
  obtain ⟨_, _, _, _, _, hfds⟩ := he
  have hlocal := established_local (p := q) s.poller fd callback
  refine ⟨_, ⟨hlocal.channels _ (hfds p r hr), hlocal.kernel _ (hfds p r hr)⟩, ?_⟩
  simp only [view, next, Function.update_of_ne hne.symm, hr, Option.map_some]
  rfl

end

omit [DecidableEq P] in
theorem construct_inv : Inv (construct : SharedLoop P) :=
  ⟨fun _ => rfl, fun _ _ _ _ hr => by cases hr⟩

omit [DecidableEq P] in
theorem Inv.kept {s t : SharedLoop P} (h : Inv s) (hidle : t.loop.point ≠ .running → t.loop.functors = [])
    (hfds : ∀ p r, t.residents p = some r → ∃ u, s.residents p = some u ∧ r.conn.channel.fd = u.conn.channel.fd) :
    Inv t := by
  refine ⟨hidle, fun p q r u hr hu hne => ?_⟩
  obtain ⟨r', hr', hfd⟩ := hfds p r hr
  obtain ⟨u', hu', hfd'⟩ := hfds q u hu
  rw [hfd, hfd']
  exact h.apart p q r' u' hr' hu' hne

theorem step_inv (s : SharedLoop P) (e : Event P) (h : Inv s) (he : Enabled s e) : Inv (next s e) := by
  cases e with
  | loop e => exact h.kept (idle_next h.idle he.1) fun p r hr => ⟨r, hr, rfl⟩
  | poll woken reports =>
      refine h.kept (idle_next h.idle he.1) fun p r hr => ?_
      obtain ⟨u, hu, rfl⟩ := Option.map_eq_some_iff.mp hr
      refine ⟨u, hu, ?_⟩
      cases reports p with
      | none => rfl
      | some revents => rfl
  | others poller => exact h.kept h.idle fun p r hr => ⟨r, hr, rfl⟩
  | establish q fd callback =>
      obtain ⟨_, _, _, _, _, hfds⟩ := he
      have hnew : ∀ r, Function.update s.residents q
          (some (resident ⟨established q s.poller fd callback, none, fun _ => .idle, .outside⟩)) q = some r →
            r.conn.channel.fd = fd := by
        intro r hr
        rw [Function.update_self] at hr
        cases hr
        exact (established_local (p := q) s.poller fd callback).fd
      refine ⟨h.idle, fun p p' r u hr hu hne => ?_⟩
      simp only [next] at hr hu
      by_cases hp : p = q
      · subst hp
        rw [Function.update_of_ne hne.symm] at hu
        rw [hnew r hr]
        exact (hfds p' u hu).symm
      · rw [Function.update_of_ne hp] at hr
        by_cases hp' : p' = q
        · subst hp'
          rw [hnew u hu]
          exact hfds p r hr
        · rw [Function.update_of_ne hp'] at hu
          exact h.apart p p' r u hr hu hne
  | release q =>
      refine h.kept h.idle fun p r hr => ?_
      simp only [next] at hr
      by_cases hp : p = q
      · subst hp
        rw [Function.update_self] at hr
        cases hr
      · rw [Function.update_of_ne hp] at hr
        exact ⟨r, hr, rfl⟩
  | connection inLoop q e =>
      obtain ⟨hthread, l, hl, _⟩ := he
      obtain ⟨t, ht, _⟩ := Option.map_eq_some_iff.mp hl
      have hbegin : (begin e s.loop).point ≠ .running → (begin e s.loop).functors = [] := by
        cases e with
        | functor w => exact fun hp => absurd hthread.2.1 hp
        | call _ _ | test _ _ | store _ | finish _ | delayedClose | poll _ | readEvent _ | writeEvent _ | others _
        | queueDestroyed | destroyInLoop | destroyNotify | destroyEnd => exact h.idle
      simp only [next, ht]
      refine h.kept ?_ fun p r hr => ?_
      · obtain ⟨_, hfun, hpoint⟩ := push_frame inLoop q (ConnectionLife.next (lifeOf q s.poller
          (taken (functorsOf q (queue s.loop)) e) t) e).hosted.pendingFunctors (begin e s.loop)
        rw [hfun, hpoint]
        exact hbegin
      · simp only at hr
        by_cases hp : p = q
        · subst hp
          rw [Function.update_self] at hr
          cases hr
          exact ⟨t, ht, (next_local _ hthread.not_others).fd⟩
        · rw [Function.update_of_ne hp] at hr
          exact ⟨r, hr, rfl⟩

/-- As if it were alone: the connection is where a loop of its own would have brought it
with the same steps, in the same order, and other changes of the poller in between. -/
def Alone (p : P) (es : List (Event P)) (l : Life P) : Prop :=
  ∃ fd callback ds, .establish p fd callback ∈ es ∧
    Runs.Meets ConnectionLife.next ConnectionLife.Enabled (start p fd callback) ds ∧
    l = Runs.run ConnectionLife.next (start p fd callback) ds ∧ ds.filter isOwn = own p es

section

variable {p : P} {es : List (Event P)} {l : Life P} {e : Event P}

theorem own_append (p : P) (es : List (Event P)) (e : Event P) : own p (es ++ [e]) = ownStep p (own p es) e := by
  simp [own]

theorem Alone.same (h : Alone p es l) (hown : ownStep p (own p es) e = own p es) : Alone p (es ++ [e]) l := by
  obtain ⟨fd, callback, ds, hmem, hmeets, hrun, hds⟩ := h
  exact ⟨fd, callback, ds, List.mem_append_left _ hmem, hmeets, hrun, by rw [own_append, hown, hds]⟩

theorem Alone.step (h : Alone p es l) {d : ConnectionLife.Event P} (hd : ConnectionLife.Enabled l d)
    (hown : ownStep p (own p es) e = own p es ++ [d].filter isOwn) : Alone p (es ++ [e]) (ConnectionLife.next l d) := by
  obtain ⟨fd, callback, ds, hmem, hmeets, hrun, hds⟩ := h
  refine ⟨fd, callback, ds ++ [d], List.mem_append_left _ hmem, ?_, ?_, ?_⟩
  · exact (Runs.meets_append _ _ _ _ _).mpr ⟨hmeets, hrun ▸ hd, trivial⟩
  · rw [Runs.run_append, ← hrun]
    rfl
  · rw [List.filter_append, hds, own_append, hown]

theorem alone_start {fd : Int} {callback : Bool} {poller : EpollPoller P}
    (he : ConnectionLife.Enabled (start p fd callback) (.others poller)) :
    Alone p (es ++ [.establish p fd callback]) (ConnectionLife.next (start p fd callback) (.others poller)) := by
  refine ⟨fd, callback, [.others poller], List.mem_append_right _ (List.mem_singleton_self _), ⟨he, trivial⟩, rfl, ?_⟩
  rw [own_append, ownStep, if_pos rfl]
  rfl

end

structure History (es : List (Event P)) (s : SharedLoop P) : Prop where
  inv : Inv s
  alone : ∀ p l, view s p = some l → Alone p es l

theorem step_alone {es : List (Event P)} {s : SharedLoop P} {e : Event P} (h : History es s) (he : Enabled s e)
    (p : P) (l : Life P) (hl : view (next s e) p = some l) : Alone p (es ++ [e]) l := by
  cases e with
  | loop e =>
      have hview : view (next s (.loop e)) p = view s p := by
        simp only [view, next, functorsOf_loop h.inv he]
      exact (h.alone p l (hview ▸ hl)).same rfl
  | poll woken reports =>
      obtain ⟨u, hu, rfl⟩ := Option.map_eq_some_iff.mp hl
      obtain ⟨r, hr, rfl⟩ := Option.map_eq_some_iff.mp hu
      have hview : view s p = some (lifeOf p s.poller (functorsOf p (queue s.loop)) r) := by simp [view, hr]
      cases hreport : reports p with
      | none =>
          refine (h.alone p _ hview).same ?_
          simp [ownStep, hreport]
      | some revents =>
          have henabled : ConnectionLife.Enabled (lifeOf p s.poller (functorsOf p (queue s.loop)) r) (.poll revents) :=
            he.2 p r revents hr hreport
          refine (h.alone p _ hview).step henabled ?_
          rw [ownStep, hreport]
          rfl
  | others poller =>
      obtain ⟨r, hr, rfl⟩ := Option.map_eq_some_iff.mp hl
      have hview : view s p = some (lifeOf p s.poller (functorsOf p (queue s.loop)) r) := by
        rw [view, show s.residents p = some r from hr]
        rfl
      have henabled : ConnectionLife.Enabled (lifeOf p s.poller (functorsOf p (queue s.loop)) r) (.others poller) :=
        he p r hr
      exact (h.alone p _ hview).step henabled (by simp [ownStep, isOwn])
  | establish q fd callback =>
      by_cases hq : q = p
      · subst hq
        obtain ⟨poller, henabled, hview⟩ := establish_self he
        rw [hview] at hl
        cases hl
        exact alone_start henabled
      · obtain ⟨r, hr, _⟩ := Option.map_eq_some_iff.mp hl
        have hkept : s.residents p = some r := (Function.update_of_ne (Ne.symm hq) ..).symm.trans hr
        obtain ⟨poller, henabled, hview⟩ := establish_foreign he hq hkept
        rw [hview] at hl
        cases hl
        refine (h.alone p _ (by simp [view, hkept])).step henabled ?_
        simp [ownStep, hq, isOwn]
  | release q =>
      obtain ⟨r, hr, hrl⟩ := Option.map_eq_some_iff.mp hl
      by_cases hq : p = q
      · subst hq
        have hnone : (next s (.release p)).residents p = none := Function.update_self ..
        rw [hnone] at hr
        cases hr
      · have hkept : s.residents p = some r := (Function.update_of_ne hq ..).symm.trans hr
        refine (h.alone p l ?_).same rfl
        rw [view, hkept]
        exact congrArg some hrl
  | connection inLoop q e =>
      obtain ⟨hthread, m, hm, henabled⟩ := he
      obtain ⟨t, ht, rfl⟩ := Option.map_eq_some_iff.mp hm
      by_cases hq : q = p
      · subst hq
        rw [connection_self hthread ht] at hl
        cases hl
        refine (h.alone q _ hm).step henabled ?_
        have hown : isOwn e = true := by
          cases e with
          | others poller => exact absurd rfl (hthread.not_others poller)
          | call _ _ | test _ _ | store _ | finish _ | functor _ | delayedClose | poll _ | readEvent _ | writeEvent _
          | queueDestroyed | destroyInLoop | destroyNotify | destroyEnd => rfl
        simp [ownStep, hown]
      · obtain ⟨r, hr, _⟩ := Option.map_eq_some_iff.mp hl
        have hkept : s.residents p = some r := by
          have hupdate : (next s (.connection inLoop q e)).residents p = s.residents p := by
            simp only [next, ht]
            exact Function.update_of_ne (Ne.symm hq) ..
          exact hupdate.symm.trans hr
        have hfd := h.inv.apart p q r t hkept ht (Ne.symm hq)
        obtain ⟨poller, henabled', hview⟩ := connection_foreign hthread ht hq hkept hfd
        rw [hview] at hl
        cases hl
        refine (h.alone p _ (by simp [view, hkept])).step henabled' ?_
        simp [ownStep, hq, isOwn]

/-- Connections on one loop do not disturb each other, however their steps are mixed and
their functors wait in one queue. -/
theorem each_alone (es : List (Event P)) (he : Runs.Meets next Enabled construct es) (p : P) (l : Life P)
    (hl : view (Runs.run next construct es) p = some l) : Alone p es l := by
  have hstart : History ([] : List (Event P)) construct := ⟨construct_inv, fun p l hl => by cases hl⟩
  have hall : History es (Runs.run next construct es) :=
    Runs.history_of_step (fun ds s e h he => ⟨step_inv s e h.inv he, step_alone h he⟩) hstart he
  exact hall.alone p l hl

def readable : PollMask := { PollMask.zero with pollin := true }

def twoOnOne : List (Event Bool) :=
  [.establish false 5 false, .establish true 6 false, .connection false true (.test 0 .shutdown),
    .connection false false (.test 1 .shutdown), .connection false true (.store 0), .connection false false (.store 1),
    .connection false true (.finish 0), .connection false false (.finish 1), .loop .enterLoop, .loop .testQuit,
    .poll false fun p => if p then none else some readable, .connection true false (.readEvent (.received [1])),
    .connection true false (.writeEvent (.wrote 0)), .loop .beginFunctors, .loop .swapFunctors,
    .connection true true (.functor (.wrote 0)), .connection true false (.functor (.wrote 0)), .loop .endFunctors]

theorem twoOnOne_enabled : Runs.Meets next Enabled construct twoOnOne := by
  refine ⟨⟨.inl rfl, rfl, rfl, rfl, rfl, ?_⟩, ⟨.inl rfl, rfl, rfl, rfl, rfl, ?_⟩, ⟨rfl, _, rfl, rfl⟩,
    ⟨rfl, _, rfl, rfl⟩, ⟨rfl, _, rfl, rfl⟩, ⟨rfl, _, rfl, rfl⟩, ⟨rfl, _, rfl, rfl⟩, ⟨rfl, _, rfl, rfl⟩,
    ⟨rfl, trivial⟩, ⟨rfl, trivial⟩, ⟨⟨rfl, ?_⟩, ?_⟩,
    ⟨⟨rfl, rfl⟩, _, rfl, rfl, _, rfl, rfl⟩, ⟨⟨rfl, rfl⟩, _, rfl, rfl, _, rfl, rfl⟩, ⟨⟨rfl, rfl⟩, ?_⟩, ⟨rfl, trivial⟩,
    ⟨⟨rfl, rfl, _, rfl⟩, _, rfl, rfl, rfl⟩, ⟨⟨rfl, rfl, _, rfl⟩, _, rfl, rfl, rfl⟩, ⟨⟨rfl, rfl⟩, trivial⟩, trivial⟩
  · intro q r hr
    cases hr
  · intro q r hr
    cases q with
    | true => cases hr
    | false =>
        cases hr
        decide
  · intro hw
    cases hw
  · intro q r revents hr hreport
    cases q with
    | true => cases hreport
    | false =>
        cases hr
        cases hreport
        exact ⟨rfl, rfl, Channel.kReadEvent, rfl, by decide⟩
  · intro q r hr
    cases q with
    | true | false =>
        cases hr
        rfl

theorem each_alone_two :
    ∃ l, view (Runs.run next construct twoOnOne) true = some l ∧ Alone true twoOnOne l :=
  ⟨_, rfl, each_alone twoOnOne twoOnOne_enabled true _ rfl⟩

end SharedLoop

end Webserver
