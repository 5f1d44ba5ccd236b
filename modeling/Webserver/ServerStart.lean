import Webserver.RoundRobin

namespace Webserver

/-- Where a thread is in TcpServer::start: not in it, or past the exchange and in
EventLoopThreadPool::start, or before its runInLoop. -/
inductive Starter
  | outside
  | starting
  | opening
deriving DecidableEq

/-- A server from its constructor on. The constructor leaves started_ as it is.
Here are also the calls of threadInitCallback_ so far, each by its loop, and how often
Acceptor::listen waits in the base loop and has run. -/
structure Startup (T L P : Type) where
  started : CInt
  numThreads : CInt
  threadInitCallback : Bool
  starters : T → Starter
  inits : List L
  queued : Nat
  listens : Nat
  system : System L P

namespace Startup

open Runs

inductive Event (T P : Type)
  | setThreadNum (numThreads : CInt)
  | start (t : T)
  | startLoop (t : T)
  | loopsDone (t : T)
  | runInLoop (t : T)
  | listen
  | system (e : System.Event P)

variable {T L P : Type}

def construct (started : CInt) (threadInitCallback : Bool) (server : TcpServer L) : Startup T L P :=
  ⟨started, CInt.ofInt 0, threadInitCallback, fun _ => .outside, [], 0, 0, .start server⟩

def pool (s : Startup T L P) : EventLoopThreadPool L := s.system.server.threadPool

def withPool (pool : EventLoopThreadPool L) (s : System L P) : System L P :=
  { s with server := { s.server with threadPool := pool } }

def runInit (loop : L) (s : Startup T L P) : List L :=
  if s.threadInitCallback then s.inits ++ [loop] else s.inits

def isAccept : System.Event P → Bool
  | .accept _ _ => true
  | _ => false

def serverEvents (es : List (Event T P)) : List (System.Event P) :=
  es.filterMap fun
    | .system e => some e
    | _ => none

def isStart : Event T P → Bool
  | .start _ => true
  | _ => false

def threadNumAt (n : CInt) : List (Event T P) → CInt
  | [] => n
  | .setThreadNum m :: es => threadNumAt m es
  | .start _ :: _ => n
  | _ :: es => threadNumAt n es

variable [DecidableEq T] [DecidableEq L]

/-- The thread of the base loop is base, and startLoop i the loop that the i-th
EventLoopThread returns after its threadInitCallback_. -/
def next (base : T) (startLoop : Nat → L) (s : Startup T L P) : Event T P → Startup T L P
  | .setThreadNum n => { s with numThreads := n }
  | .start t =>
      { s with
        started := CInt.ofInt 1
        starters := if s.started.val = 0 then Function.update s.starters t .starting else s.starters }
  | .startLoop _ =>
      { s with
        inits := s.runInit (startLoop s.pool.loops.length)
        system := withPool { s.pool with loops := s.pool.loops ++ [startLoop s.pool.loops.length] } s.system }
  | .loopsDone t =>
      { s with
        inits := if s.numThreads.val = 0 then s.runInit s.pool.baseLoop else s.inits
        starters := Function.update s.starters t .opening }
  | .runInLoop t =>
      let s := { s with starters := Function.update s.starters t .outside }
      if t = base then { s with listens := s.listens + 1 } else { s with queued := s.queued + 1 }
  | .listen => { s with queued := s.queued - 1, listens := s.listens + 1 }
  | .system e => { s with system := s.system.next e }

/-- When a step can happen. The base loop does nothing else while its thread is in
start, connections come once the acceptor's channel is read, and nobody uses the server
in or after its destructor. -/
def Enabled (base : T) (s : Startup T L P) : Event T P → Prop
  | .setThreadNum _ => s.system.stage = .serving
  | .start t => s.system.stage = .serving ∧ s.starters t = .outside
  | .startLoop t => s.starters t = .starting ∧ (s.pool.loops.length : Int) < s.numThreads.val
  | .loopsDone t => s.starters t = .starting ∧ s.numThreads.val ≤ s.pool.loops.length
  | .runInLoop t => s.starters t = .opening
  | .listen => 0 < s.queued ∧ s.starters base = .outside
  | .system e => s.system.Enabled e ∧ match e with
    | .accept _ _ => 0 < s.listens ∧ s.starters base = .outside
    | .destroy => s.queued = 0 ∧ ∀ t, s.starters t = .outside
    | .removal | .destroyItem _ | .destroyed => s.starters base = .outside
    | _ => True

/-- Nobody sets the number of threads while they are started. -/
def Fixed (s : Startup T L P) : Event T P → Prop
  | .setThreadNum _ => ∀ t, s.starters t ≠ .starting
  | _ => True

end Startup

namespace ServerStart

open Runs Startup RoundRobin

variable {T L P : Type}

theorem removeConnectionInLoop_withPool (p : EventLoopThreadPool L) (c : Nat) (s : System L P) :
    TcpServer.removeConnectionInLoop c (withPool p s) = withPool p (TcpServer.removeConnectionInLoop c s) := by
  simp only [TcpServer.removeConnectionInLoop, withPool]
  split
  · rfl
  · rfl

theorem enabled_withPool (p : EventLoopThreadPool L) (s : System L P) (e : System.Event P) :
    (withPool p s).Enabled e ↔ s.Enabled e := by
  cases e with
  | accept _ _ | established _ | conn _ _ | closeCallback _ | removal | destroy | destroyItem _ | destroyed =>
      exact Iff.rfl

section

variable [DecidableEq L]

theorem removeConnection_withPool (p : EventLoopThreadPool L) (c : Nat) (s : System L P) :
    TcpServer.removeConnection c (withPool p s) = withPool p (TcpServer.removeConnection c s) := by
  cases hk : s.conns[c]? with
  | none => simp only [TcpServer.removeConnection, withPool, hk]
  | some k =>
      by_cases hl : k.loop = s.server.loop
      · simp only [TcpServer.removeConnection, withPool, hk, hl, if_true]
        exact removeConnectionInLoop_withPool p c (s.called (.removeConnectionInLoop c))
      · simp only [TcpServer.removeConnection, withPool, hk, hl, if_false]

theorem next_withPool (p : EventLoopThreadPool L) (s : System L P) {e : System.Event P} (he : isAccept e = false) :
    (withPool p s).next e = withPool p (s.next e) := by
  cases e with
  | accept sockfd self => cases he
  | established c | conn c e | destroy | destroyed => rfl
  | closeCallback c =>
      exact removeConnection_withPool p c
        (System.called (.removeConnection c) { s with conns := s.conns.modify c fun k => { k with closing := false } })
  | removal =>
      simp only [System.next]
      cases hr : s.removals with
      | nil => simp only [withPool, hr]
      | cons c cs =>
          simp only [withPool, hr]
          exact removeConnectionInLoop_withPool p c (System.called (.removeConnectionInLoop c) { s with removals := cs })
  | destroyItem c =>
      simp only [System.next, TcpServer.destroyItem, withPool]
      split
      · rfl
      · rfl

theorem run_withPool (p : EventLoopThreadPool L) (s : System L P) {es : List (System.Event P)}
    (he : ∀ e ∈ es, isAccept e = false) :
    run System.next (withPool p s) es = withPool p (run System.next s es) := by
  induction es generalizing s with
  | nil => rfl
  | cons e es ih =>
      have hstep := next_withPool p s (he e List.mem_cons_self)
      have hrest := ih (s.next e) fun d hd => he d (List.mem_cons_of_mem e hd)
      calc run System.next (withPool p s) (e :: es)
        _ = run System.next ((withPool p s).next e) es := rfl
        _ = run System.next (withPool p (s.next e)) es := by rw [hstep]
        _ = withPool p (run System.next s (e :: es)) := hrest

theorem run_pool (s : System L P) {es : List (System.Event P)} (he : ∀ e ∈ es, isAccept e = false) :
    (run System.next s es).server.threadPool = s.server.threadPool := by
  have hrun := run_withPool s.server.threadPool s he
  have hself : withPool s.server.threadPool s = s := rfl
  rw [hself] at hrun
  rw [hrun]
  rfl

theorem meets_withPool (p : EventLoopThreadPool L) (s : System L P) {es : List (System.Event P)}
    (he : ∀ e ∈ es, isAccept e = false) (hm : Meets System.next System.Enabled s es) :
    Meets System.next System.Enabled (withPool p s) es := by
  induction es generalizing s with
  | nil => trivial
  | cons e es ih =>
      have hrest := ih (s.next e) (fun d hd => he d (List.mem_cons_of_mem e hd)) hm.2
      rw [← next_withPool p s (he e List.mem_cons_self)] at hrest
      exact ⟨(enabled_withPool p s e).mpr hm.1, hrest⟩

theorem next_loops (s : System L P) (e : System.Event P) :
    (s.next e).server.threadPool.loops = s.server.threadPool.loops := by
  cases ha : isAccept e with
  | true =>
      cases e with
      | accept sockfd self =>
          simp only [System.next, TcpServer.newConnection, EventLoopThreadPool.getNextLoop]
          split
          · rfl
          · rfl
      | established _ | conn _ _ | closeCallback _ | removal | destroy | destroyItem _ | destroyed => cases ha
  | false =>
      have hnone : ∀ d ∈ [e], isAccept d = false := by simp [ha]
      have hpool := run_pool s hnone
      exact congrArg EventLoopThreadPool.loops hpool

end

section

variable [DecidableEq L]

structure Mirrors (server : List L → TcpServer L) (es : List (Event T P)) (s : Startup T L P) : Prop where
  system : s.system = run System.next (.start (server s.pool.loops)) (serverEvents es)
  enabled : Meets System.next System.Enabled (.start (server s.pool.loops)) (serverEvents es)
  unopened : s.listens = 0 → ∀ e ∈ serverEvents es, isAccept e = false

theorem Mirrors.same {server : List L → TcpServer L} {es : List (Event T P)} {s t : Startup T L P}
    (h : Mirrors server es s) {e : Event T P} (he : serverEvents [e] = []) (hsystem : t.system = s.system)
    (hlistens : s.listens ≤ t.listens) : Mirrors server (es ++ [e]) t := by
  have hevents : serverEvents (es ++ [e]) = serverEvents es := by
    rw [serverEvents, List.filterMap_append]
    exact (congrArg _ he).trans (List.append_nil _)
  have hpool : t.pool = s.pool := by rw [pool, hsystem]; rfl
  constructor
  · rw [hevents, hpool, hsystem]
    exact h.system
  · rw [hevents, hpool]
    exact h.enabled
  · intro ht
    rw [hevents]
    exact h.unopened (by omega)

theorem Mirrors.step {server : List L → TcpServer L} {es : List (Event T P)} {s : Startup T L P}
    (h : Mirrors server es s) {e : System.Event P} (he : s.system.Enabled e)
    (hlistens : isAccept e = true → 0 < s.listens) :
    Mirrors server (es ++ [.system e]) { s with system := s.system.next e } := by
  have hevents : serverEvents (es ++ [.system e]) = serverEvents es ++ [e] := by
    rw [serverEvents, List.filterMap_append]
    rfl
  have hpool : (s.system.next e).server.threadPool.loops = s.pool.loops := next_loops s.system e
  constructor
  · rw [hevents, run_append, pool, hpool, ← h.system]
    rfl
  · rw [hevents, meets_append, pool, hpool, ← h.system]
    exact ⟨h.enabled, he, trivial⟩
  · intro ht d hd
    rw [hevents] at hd
    rcases List.mem_append.mp hd with hd | hd
    · exact h.unopened ht d hd
    · rw [List.mem_singleton.mp hd]
      cases ha : isAccept e with
      | false => rfl
      | true =>
          have hpos := hlistens ha
          have hzero : s.listens = 0 := ht
          omega

def withLoops (loop : L) (listenAddr : SockAddr) (nameArg : List Char) (callback : Bool) (loops : List L) :
    TcpServer L :=
  TcpServer.construct loop loops listenAddr nameArg callback

theorem Mirrors.pool_eq {loop : L} {listenAddr : SockAddr} {nameArg : List Char} {callback : Bool}
    {es : List (Event T P)} {s : Startup T L P} (h : Mirrors (withLoops loop listenAddr nameArg callback) es s)
    (hlistens : s.listens = 0) : s.pool = ⟨loop, s.pool.loops, 0⟩ := by
  have hrun := run_pool (.start (withLoops loop listenAddr nameArg callback s.pool.loops)) (h.unopened hlistens)
  rw [← h.system] at hrun
  exact hrun

theorem Mirrors.startLoop {loop : L} {listenAddr : SockAddr} {nameArg : List Char} {callback : Bool}
    {es : List (Event T P)} {s t : Startup T L P} (h : Mirrors (withLoops loop listenAddr nameArg callback) es s)
    {e : Event T P} (he : serverEvents [e] = []) (hlistens : s.listens = 0)
    {loops : List L} (hsystem : t.system = withPool { s.pool with loops := loops } s.system) :
    Mirrors (withLoops loop listenAddr nameArg callback) (es ++ [e]) t := by
  have hevents : serverEvents (es ++ [e]) = serverEvents es := by
    rw [serverEvents, List.filterMap_append]
    exact (congrArg _ he).trans (List.append_nil _)
  have hpool : t.pool.loops = loops := by rw [pool, hsystem]; rfl
  have hnone := h.unopened hlistens
  have hstart : withPool { s.pool with loops := loops }
      (.start (withLoops loop listenAddr nameArg callback s.pool.loops) : System L P) =
      .start (withLoops loop listenAddr nameArg callback loops) := by
    rw [h.pool_eq hlistens]
    rfl
  constructor
  · rw [hevents, hpool, hsystem, ← hstart, run_withPool _ _ hnone, ← h.system]
  · rw [hevents, hpool, ← hstart]
    exact meets_withPool _ _ hnone h.enabled
  · intro _
    rw [hevents]
    exact hnone

end

section

variable (startLoop : Nat → L) (loop : L)

def initialized (threadInitCallback : Bool) (n : CInt) (pool : EventLoopThreadPool L) : List L :=
  if threadInitCallback then if n.val = 0 then [pool.baseLoop] else pool.loops else []

structure Ready (n : CInt) (s : Startup T L P) : Prop where
  loops : s.pool.loops = (RoundRobin.started loop startLoop n).loops
  inits : s.inits = initialized s.threadInitCallback n (RoundRobin.started loop startLoop n)

inductive Phase (started n : CInt) (s : Startup T L P) : Prop
  | refused (hstarted : started.val ≠ 0) (hout : ∀ t, s.starters t = .outside) (hclosed : s.queued + s.listens = 0)
  | starting (t : T) (hstarted : started.val = 0) (ht : s.starters t = .starting)
      (hout : ∀ u, u ≠ t → s.starters u = .outside) (hclosed : s.queued + s.listens = 0) (hn : s.numThreads = n)
      (hle : s.pool.loops.length ≤ n.val.toNat)
      (hloops : s.pool.loops = (List.range s.pool.loops.length).map startLoop)
      (hinits : s.inits = if s.threadInitCallback then s.pool.loops else [])
  | opening (t : T) (hstarted : started.val = 0) (ht : s.starters t = .opening)
      (hout : ∀ u, u ≠ t → s.starters u = .outside) (hclosed : s.queued + s.listens = 0)
      (hready : Ready startLoop loop n s)
  | opened (hstarted : started.val = 0) (hout : ∀ t, s.starters t = .outside) (hopen : s.queued + s.listens = 1)
      (hready : Ready startLoop loop n s)

variable {startLoop loop}

theorem Ready.same {n : CInt} {s t : Startup T L P} (h : Ready startLoop loop n s)
    (hloops : t.pool.loops = s.pool.loops) (hinits : t.inits = s.inits)
    (hcallback : t.threadInitCallback = s.threadInitCallback) :
    Ready startLoop loop n t := by
  constructor
  · rw [hloops, h.loops]
  · rw [hinits, hcallback, h.inits]

theorem Phase.same {started n : CInt} {s t : Startup T L P} (h : Phase startLoop loop started n s)
    (hstarters : t.starters = s.starters) (hopen : t.queued + t.listens = s.queued + s.listens)
    (hn : t.numThreads = s.numThreads ∨ ∀ u, s.starters u ≠ .starting) (hloops : t.pool.loops = s.pool.loops)
    (hinits : t.inits = s.inits) (hcallback : t.threadInitCallback = s.threadInitCallback) :
    Phase startLoop loop started n t := by
  cases h with
  | refused hstarted hout hclosed =>
      exact .refused hstarted (fun u => by rw [hstarters, hout u]) (hopen.trans hclosed)
  | starting u hstarted hu hout hclosed hnum hle hmap hcall =>
      have hnum' : t.numThreads = n := by
        rcases hn with hn | hn
        · exact hn.trans hnum
        · exact absurd hu (hn u)
      refine .starting u hstarted (by rw [hstarters, hu]) (fun v hv => by rw [hstarters, hout v hv])
        (hopen.trans hclosed) hnum' ?_ ?_ ?_
      · rw [hloops]
        exact hle
      · rw [hloops]
        exact hmap
      · rw [hinits, hcallback, hloops]
        exact hcall
  | opening u hstarted hu hout hclosed hready =>
      exact .opening u hstarted (by rw [hstarters, hu]) (fun v hv => by rw [hstarters, hout v hv])
        (hopen.trans hclosed) (hready.same hloops hinits hcallback)
  | opened hstarted hout hopened hready =>
      exact .opened hstarted (fun u => by rw [hstarters, hout u]) (hopen.trans hopened)
        (hready.same hloops hinits hcallback)

theorem Phase.starter {started n : CInt} {s : Startup T L P} (h : Phase startLoop loop started n s) {t : T}
    (ht : s.starters t = .starting) : started.val = 0 ∧ (∀ u, u ≠ t → s.starters u = .outside) ∧
      s.queued + s.listens = 0 ∧ s.numThreads = n ∧ s.pool.loops.length ≤ n.val.toNat ∧
      s.pool.loops = (List.range s.pool.loops.length).map startLoop ∧
      s.inits = if s.threadInitCallback then s.pool.loops else [] := by
  cases h with
  | refused _ hout _ | opened _ hout _ _ =>
      rw [hout t] at ht
      cases ht
  | starting u hstarted _ hout hclosed hn hle hloops hinits =>
      have htu : t = u := by
        by_contra hne
        rw [hout t hne] at ht
        cases ht
      rw [htu]
      exact ⟨hstarted, hout, hclosed, hn, hle, hloops, hinits⟩
  | opening u _ hu hout _ _ =>
      by_cases htu : t = u
      · rw [htu, hu] at ht
        cases ht
      · rw [hout t htu] at ht
        cases ht

theorem Phase.opener {started n : CInt} {s : Startup T L P} (h : Phase startLoop loop started n s) {t : T}
    (ht : s.starters t = .opening) : started.val = 0 ∧ (∀ u, u ≠ t → s.starters u = .outside) ∧
      s.queued + s.listens = 0 ∧ Ready startLoop loop n s := by
  cases h with
  | refused _ hout _ | opened _ hout _ _ =>
      rw [hout t] at ht
      cases ht
  | starting u _ hu hout _ _ _ _ _ =>
      by_cases htu : t = u
      · rw [htu, hu] at ht
        cases ht
      · rw [hout t htu] at ht
        cases ht
  | opening u hstarted _ hout hclosed hready =>
      have htu : t = u := by
        by_contra hne
        rw [hout t hne] at ht
        cases ht
      rw [htu]
      exact ⟨hstarted, hout, hclosed, hready⟩

variable [DecidableEq T] [DecidableEq L]

theorem Phase.grow {started n : CInt} {s : Startup T L P} (h : Phase startLoop loop started n s) {base t : T}
    (he : Enabled base s (.startLoop t)) : Phase startLoop loop started n (next base startLoop s (.startLoop t)) := by
  obtain ⟨ht, hlt⟩ := he
  obtain ⟨hstarted, hout, hclosed, hn, _, hloops, hinits⟩ := h.starter ht
  rw [hn] at hlt
  have hlength : (next base startLoop s (.startLoop t)).pool.loops.length = s.pool.loops.length + 1 :=
    List.length_append
  refine .starting t hstarted ht hout hclosed hn ?_ ?_ ?_
  · rw [hlength]
    omega
  · rw [hlength, List.range_succ, List.map_append, ← hloops]
    rfl
  · simp only [Startup.next, runInit, hinits]
    split
    · rfl
    · rfl

theorem Phase.complete {started n : CInt} {s : Startup T L P} (h : Phase startLoop loop started n s) {base t : T}
    (he : Enabled base s (.loopsDone t)) (hbase : s.pool.baseLoop = loop) :
    Phase startLoop loop started n (next base startLoop s (.loopsDone t)) := by
  obtain ⟨ht, hge⟩ := he
  obtain ⟨hstarted, hout, hclosed, hn, hle, hloops, hinits⟩ := h.starter ht
  rw [hn] at hge
  have hlength : s.pool.loops.length = n.val.toNat := by omega
  have hall : s.pool.loops = (RoundRobin.started loop startLoop n).loops := by
    rw [hloops, hlength]
    rfl
  refine .opening t hstarted (Function.update_self ..) (fun u hu => ?_) hclosed ⟨hall, ?_⟩
  · exact (Function.update_of_ne hu ..).trans (hout u hu)
  · simp only [Startup.next, runInit, initialized, hn, hinits, ← hall]
    by_cases hz : n.val = 0
    · have hnil : s.pool.loops = [] := by
        apply List.eq_nil_of_length_eq_zero
        rw [hlength, hz]
        rfl
      rw [if_pos hz, if_pos hz, hnil, hbase]
      split
      · rfl
      · rfl
    · rw [if_neg hz, if_neg hz]

theorem Phase.opens {started n : CInt} {s : Startup T L P} (h : Phase startLoop loop started n s) {base t : T}
    (he : Enabled base s (.runInLoop t)) : Phase startLoop loop started n (next base startLoop s (.runInLoop t)) := by
  obtain ⟨hstarted, hout, hclosed, hready⟩ := h.opener he
  have houtside : ∀ u, Function.update s.starters t .outside u = .outside := by
    intro u
    by_cases hu : u = t
    · rw [hu]
      exact Function.update_self ..
    · exact (Function.update_of_ne hu ..).trans (hout u hu)
  simp only [Startup.next]
  split
  · exact .opened hstarted houtside (by simp only; omega) (hready.same rfl rfl rfl)
  · exact .opened hstarted houtside (by simp only; omega) (hready.same rfl rfl rfl)

theorem Phase.next {started n : CInt} {s : Startup T L P} (h : Phase startLoop loop started n s) {base : T}
    {e : Event T P} (he : Enabled base s e) (hf : Fixed s e) (hone : s.started.val ≠ 0)
    (hbase : s.listens = 0 → s.pool.baseLoop = loop) : Phase startLoop loop started n (next base startLoop s e) := by
  cases e with
  | setThreadNum m => exact h.same rfl rfl (.inr hf) rfl rfl rfl
  | start t => exact h.same (if_neg hone) rfl (.inl rfl) rfl rfl rfl
  | startLoop t => exact h.grow he
  | loopsDone t =>
      obtain ⟨_, _, hclosed, _⟩ := h.starter he.1
      exact h.complete he (hbase (by omega))
  | runInLoop t => exact h.opens he
  | listen =>
      have hpos : 0 < s.queued := he.1
      have hopen : s.queued - 1 + (s.listens + 1) = s.queued + s.listens := by omega
      exact h.same rfl hopen (.inl rfl) rfl rfl rfl
  | system e => exact h.same rfl rfl (.inl rfl) (next_loops s.system e) rfl rfl

end

section

variable {startLoop : Nat → L} {loop : L}

theorem threadNumAt_append (n : CInt) (ds es : List (Event T P)) : threadNumAt n (ds ++ es) =
    if ds.any isStart then threadNumAt n ds else threadNumAt (threadNumAt n ds) es := by
  induction ds generalizing n with
  | nil => rfl
  | cons d ds ih =>
      cases d with
      | setThreadNum m => exact ih m
      | start t => rfl
      | startLoop _ | loopsDone _ | runInLoop _ | listen | system _ => exact ih n

structure Waiting (started : CInt) (es : List (Event T P)) (s : Startup T L P) : Prop where
  started : s.started = started
  outside : ∀ t, s.starters t = .outside
  closed : s.queued + s.listens = 0
  numThreads : s.numThreads = threadNumAt (CInt.ofInt 0) es
  loops : s.pool.loops = []
  inits : s.inits = []

theorem Waiting.first_start [DecidableEq T] {started : CInt} {es : List (Event T P)} {s : Startup T L P}
    (h : Waiting started es s) (t : T) :
    let s' := { s with
      started := CInt.ofInt 1
      starters := if s.started.val = 0 then Function.update s.starters t .starting else s.starters }
    Phase startLoop loop started (threadNumAt (CInt.ofInt 0) es) s' := by
  intro s'
  by_cases hz : started.val = 0
  · have hstarters : s'.starters = Function.update s.starters t .starting := by
      simp only [s', h.started, if_pos hz]
    have hloops : s'.pool.loops = [] := h.loops
    refine .starting t hz ?_ (fun u hu => ?_) h.closed h.numThreads ?_ ?_ ?_
    · rw [hstarters]
      exact Function.update_self ..
    · rw [hstarters]
      exact (Function.update_of_ne hu ..).trans (h.outside u)
    · rw [hloops]
      exact Nat.zero_le _
    · rw [hloops]
      rfl
    · rw [hloops]
      split
      · exact h.inits
      · exact h.inits
  · refine .refused hz (fun u => ?_) h.closed
    simp only [s', h.started, if_neg hz]
    exact h.outside u

variable [DecidableEq L]

structure History (startLoop : Nat → L) (loop : L) (listenAddr : SockAddr) (nameArg : List Char) (callback : Bool)
    (started : CInt) (es : List (Event T P)) (s : Startup T L P) : Prop where
  mirrors : Mirrors (withLoops loop listenAddr nameArg callback) es s
  waiting : es.any isStart = false → Waiting started es s
  phase : es.any isStart = true → s.started.val ≠ 0 ∧ Phase startLoop loop started (threadNumAt (CInt.ofInt 0) es) s

/-- What start does, called by any threads in any order: where started_ was zero, the
acceptor is opened once, for a pool that is then complete and as if it had always been
so, and otherwise never. -/
structure OpenedOnce (started n : CInt) (pool : EventLoopThreadPool L) (server : TcpServer L) (es : List (Event T P))
    (s : Startup T L P) : Prop where
  once : s.queued + s.listens ≤ if started.val = 0 then 1 else 0
  returned : es.any isStart = true → (∀ t, s.starters t = .outside) →
    s.queued + s.listens = if started.val = 0 then 1 else 0
  inits : 0 < s.queued + s.listens → s.inits = initialized s.threadInitCallback n pool
  system : 0 < s.queued + s.listens → s.system = run System.next (.start server) (serverEvents es)
  enabled : 0 < s.queued + s.listens → Meets System.next System.Enabled (.start server) (serverEvents es)

theorem History.openedOnce {listenAddr : SockAddr} {nameArg : List Char} {callback : Bool} {started : CInt}
    {es : List (Event T P)} {s : Startup T L P} (h : History startLoop loop listenAddr nameArg callback started es s) :
    let n := threadNumAt (CInt.ofInt 0) es
    let pool := RoundRobin.started loop startLoop n
    OpenedOnce started n pool (TcpServer.construct loop pool.loops listenAddr nameArg callback) es s := by
  intro n pool
  have hopened : 0 < s.queued + s.listens →
      started.val = 0 ∧ s.queued + s.listens = 1 ∧ Ready startLoop loop n s := by
    intro hpos
    cases hany : es.any isStart with
    | false =>
        have hclosed := (h.waiting hany).closed
        omega
    | true =>
        cases (h.phase hany).2 with
        | refused _ _ hclosed | starting _ _ _ _ hclosed | opening _ _ _ _ hclosed => omega
        | opened hstarted _ hopen hready => exact ⟨hstarted, hopen, hready⟩
  constructor
  · rcases Nat.eq_zero_or_pos (s.queued + s.listens) with hz | hpos
    · rw [hz]
      exact Nat.zero_le _
    · obtain ⟨hstarted, hopen, _⟩ := hopened hpos
      rw [if_pos hstarted, hopen]
  · intro hany hout
    cases (h.phase hany).2 with
    | refused hstarted _ hclosed => rw [if_neg hstarted, hclosed]
    | starting t _ ht | opening t _ ht =>
        rw [hout t] at ht
        cases ht
    | opened hstarted _ hopen _ => rw [if_pos hstarted, hopen]
  · intro hpos
    exact (hopened hpos).2.2.inits
  · intro hpos
    rw [h.mirrors.system, (hopened hpos).2.2.loops]
    rfl
  · intro hpos
    have henabled := h.mirrors.enabled
    rw [(hopened hpos).2.2.loops] at henabled
    exact henabled

variable [DecidableEq T]

theorem Waiting.next {started : CInt} {es : List (Event T P)} {s : Startup T L P} (h : Waiting started es s)
    (hnone : es.any isStart = false) {base : T} {e : Event T P} (he : Enabled base s e) (hother : isStart e = false) :
    Waiting started (es ++ [e]) (next base startLoop s e) := by
  have hnum := threadNumAt_append (CInt.ofInt 0) es [e]
  rw [hnone] at hnum
  cases e with
  | setThreadNum m => exact ⟨h.started, h.outside, h.closed, hnum.symm, h.loops, h.inits⟩
  | start t => cases hother
  | startLoop t | loopsDone t =>
      have ht := he.1
      rw [h.outside t] at ht
      cases ht
  | runInLoop t =>
      have ht : s.starters t = .opening := he
      rw [h.outside t] at ht
      cases ht
  | listen =>
      have hpos : 0 < s.queued := he.1
      have hclosed := h.closed
      omega
  | system e =>
      have hloops := (next_loops s.system e).trans h.loops
      exact ⟨h.started, h.outside, h.closed, h.numThreads.trans hnum.symm, hloops, h.inits⟩

theorem started_next {base : T} {s : Startup T L P} (h : s.started.val ≠ 0) (e : Event T P) :
    (next base startLoop s e).started.val ≠ 0 := by
  cases e with
  | start t => exact show (CInt.ofInt 1).val ≠ 0 by decide
  | setThreadNum _ | startLoop _ | loopsDone _ | listen | system _ => exact h
  | runInLoop t =>
      simp only [Startup.next]
      split
      · exact h
      · exact h

theorem History.next {listenAddr : SockAddr} {nameArg : List Char} {callback : Bool} {started : CInt}
    {es : List (Event T P)} {s : Startup T L P} (h : History startLoop loop listenAddr nameArg callback started es s)
    {base : T} {e : Event T P} (he : Enabled base s e) (hf : Fixed s e) :
    History startLoop loop listenAddr nameArg callback started (es ++ [e]) (next base startLoop s e) := by
  have hnum := threadNumAt_append (CInt.ofInt 0) es [e]
  constructor
  · cases e with
    | setThreadNum _ | start _ | loopsDone _ => exact h.mirrors.same rfl rfl (Nat.le_refl _)
    | listen => exact h.mirrors.same rfl rfl (Nat.le_succ _)
    | runInLoop t =>
        simp only [Startup.next]
        split
        · exact h.mirrors.same rfl rfl (Nat.le_succ _)
        · exact h.mirrors.same rfl rfl (Nat.le_refl _)
    | startLoop t =>
        cases hany : es.any isStart with
        | false =>
            have ht := he.1
            rw [(h.waiting hany).outside t] at ht
            cases ht
        | true =>
            obtain ⟨_, _, hclosed, _⟩ := (h.phase hany).2.starter he.1
            exact h.mirrors.startLoop rfl (by omega) rfl
    | system e =>
        apply h.mirrors.step he.1
        intro ha
        cases e with
        | accept sockfd self => exact he.2.1
        | established _ | conn _ _ | closeCallback _ | removal | destroy | destroyItem _ | destroyed => cases ha
  · intro hnone
    rw [List.any_append, Bool.or_eq_false_iff] at hnone
    exact (h.waiting hnone.1).next hnone.1 he (by simpa using hnone.2)
  · intro hsome
    cases hany : es.any isStart with
    | true =>
        rw [hany, if_pos rfl] at hnum
        obtain ⟨hone, hphase⟩ := h.phase hany
        rw [hnum]
        have hbase : s.listens = 0 → s.pool.baseLoop = loop :=
          fun hlistens => congrArg EventLoopThreadPool.baseLoop (h.mirrors.pool_eq hlistens)
        exact ⟨started_next hone e, hphase.next he hf hone hbase⟩
    | false =>
        rw [List.any_append, hany, Bool.false_or] at hsome
        rw [hany, if_neg Bool.false_ne_true] at hnum
        cases e with
        | start t =>
            rw [hnum]
            exact ⟨show (CInt.ofInt 1).val ≠ 0 by decide, (h.waiting hany).first_start t⟩
        | setThreadNum _ | startLoop _ | loopsDone _ | runInLoop _ | listen | system _ => cases hsome

theorem start_opens_once (base : T) (startLoop : Nat → L) (loop : L) (listenAddr : SockAddr) (nameArg : List Char)
    (callback threadInitCallback : Bool) (started : CInt) (es : List (Event T P))
    (he : Meets (next base startLoop) (Enabled base)
      (construct started threadInitCallback (TcpServer.construct loop [] listenAddr nameArg callback)) es)
    (hf : Meets (next base startLoop) Fixed
      (construct started threadInitCallback (TcpServer.construct loop [] listenAddr nameArg callback)) es) :
    let n := threadNumAt (CInt.ofInt 0) es
    let pool := RoundRobin.started loop startLoop n
    OpenedOnce started n pool (TcpServer.construct loop pool.loops listenAddr nameArg callback) es
      (run (next base startLoop)
        (construct started threadInitCallback (TcpServer.construct loop [] listenAddr nameArg callback)) es) := by
  have hstart : History startLoop loop listenAddr nameArg callback started ([] : List (Event T P))
      (construct started threadInitCallback (TcpServer.construct loop [] listenAddr nameArg callback)) := by
    refine ⟨⟨rfl, trivial, ?_⟩, fun _ => ⟨rfl, fun _ => rfl, rfl, rfl, rfl, rfl⟩, fun hany => ?_⟩
    · intro _ e he
      cases he
    · cases hany
  have hall := history_of_step (P := History startLoop loop listenAddr nameArg callback started)
    (fun ds s e h he => h.next he.1 he.2) hstart (meets_and.mpr ⟨he, hf⟩)
  exact hall.openedOnce

end

def twoStarts : List (Event Bool Nat) :=
  [.setThreadNum (CInt.ofInt 2), .start true, .startLoop true, .start false, .startLoop true, .loopsDone true,
    .runInLoop true, .listen, .system (.accept 5 100), .system (.accept 6 101)]

def unstarted : Startup Bool Nat Nat :=
  .construct (CInt.ofInt 0) true (TcpServer.construct 0 [] localhost "web".toList true)

theorem twoStarts_enabled : Meets (next false (· + 1)) (Enabled false) unstarted twoStarts := by
  refine ⟨rfl, ⟨rfl, rfl⟩, ⟨rfl, ?_⟩, ⟨rfl, rfl⟩, ⟨rfl, ?_⟩, ⟨rfl, ?_⟩, rfl, ⟨?_, rfl⟩, ⟨rfl, ?_, rfl⟩,
    ⟨rfl, ?_, rfl⟩, trivial⟩
  all_goals decide

theorem twoStarts_fixed : Meets (next false (· + 1)) Fixed unstarted twoStarts := by
  refine ⟨fun t ht => ?_, trivial, trivial, trivial, trivial, trivial, trivial, trivial, trivial, trivial, trivial⟩
  cases ht

theorem start_opens_once_two :
    let n := threadNumAt (CInt.ofInt 0) twoStarts
    let pool := RoundRobin.started 0 (· + 1) n
    OpenedOnce (CInt.ofInt 0) n pool (TcpServer.construct 0 pool.loops localhost "web".toList true) twoStarts
      (run (next false (· + 1)) unstarted twoStarts) :=
  start_opens_once false (· + 1) 0 localhost "web".toList true true (CInt.ofInt 0) twoStarts twoStarts_enabled
    twoStarts_fixed

end ServerStart

end Webserver
