import Mathlib.Data.Int.CardIntervalMod
import Webserver.Runs
import Webserver.TcpServer

namespace Webserver

variable {L P : Type}

namespace EventLoopThreadPool

def construct (baseLoop : L) : EventLoopThreadPool L := ⟨baseLoop, [], 0⟩

def start (startLoop : Nat → L) (numThreads : CInt) (p : EventLoopThreadPool L) : EventLoopThreadPool L :=
  { p with loops := p.loops ++ (List.range numThreads.val.toNat).map startLoop }

def afterCalls (p : EventLoopThreadPool L) : Nat → EventLoopThreadPool L
  | 0 => p
  | k + 1 => (p.afterCalls k).getNextLoop.2

end EventLoopThreadPool

namespace RoundRobin

open Runs TcpServer

def started (baseLoop : L) (startLoop : Nat → L) (numThreads : CInt) : EventLoopThreadPool L :=
  (EventLoopThreadPool.construct baseLoop).start startLoop numThreads

structure Turned (startLoop : Nat → L) (n k : Nat) (p : EventLoopThreadPool L) : Prop where
  loops : p.loops = (List.range n).map startLoop
  next : p.next = k % n

theorem succ_mod {n : Nat} (hn : 0 < n) (k : Nat) : (k + 1) % n = if n ≤ k % n + 1 then 0 else k % n + 1 := by
  have hlt := Nat.mod_lt k hn
  rw [← Nat.mod_add_mod]
  split
  · rw [show k % n + 1 = n by omega, Nat.mod_self]
  · exact Nat.mod_eq_of_lt (by omega)

section

variable {startLoop : Nat → L} {n k : Nat} {p : EventLoopThreadPool L}

theorem Turned.inBounds (h : Turned startLoop n k p) (hn : 0 < n) : p.next < p.loops.length := by
  rw [h.loops, h.next, List.length_map, List.length_range]
  exact Nat.mod_lt k hn

theorem Turned.getNextLoop (h : Turned startLoop n k p) (hn : 0 < n) :
    p.getNextLoop.1 = startLoop (k % n) ∧ Turned startLoop n (k + 1) p.getNextLoop.2 := by
  have hlt := Nat.mod_lt k hn
  have hne : p.loops.isEmpty = false := by
    simp [h.loops]
    omega
  simp only [EventLoopThreadPool.getNextLoop, hne, Bool.false_eq_true, if_false]
  constructor
  · simp [h.loops, h.next, hlt]
  · constructor
    · exact h.loops
    · simp only [h.loops, h.next, List.length_map, List.length_range, succ_mod hn k]

theorem started_turned (baseLoop : L) (startLoop : Nat → L) (numThreads : CInt) :
    Turned startLoop numThreads.val.toNat 0 (started baseLoop startLoop numThreads) :=
  ⟨rfl, (Nat.zero_mod _).symm⟩

theorem Turned.afterCalls (h : Turned startLoop n 0 p) (hn : 0 < n) (k : Nat) :
    Turned startLoop n k (p.afterCalls k) := by
  induction k with
  | zero => exact h
  | succ k ih => exact (ih.getNextLoop hn).2

end

def assigned (s : System L P) : List L := s.conns.map Conn.loop

structure Same (s t : System L P) : Prop where
  pool : t.server.threadPool = s.server.threadPool
  assigned : assigned t = assigned s

theorem Same.of_modify {s t : System L P} {f : Conn L P → Conn L P} (hf : ∀ k, (f k).loop = k.loop) {c : Nat}
    (hpool : t.server.threadPool = s.server.threadPool) (ht : t.conns = s.conns.modify c f) : Same s t := by
  constructor
  · exact hpool
  · rw [RoundRobin.assigned, ht]
    exact Segments.map_modify_of_same hf s.conns c

theorem Same.after {s t u : System L P} (hu : Same t u) (h : Same s t) : Same s u :=
  ⟨hu.pool.trans h.pool, hu.assigned.trans h.assigned⟩

theorem removeConnectionInLoop_same (c : Nat) (s : System L P) : Same s (removeConnectionInLoop c s) := by
  cases hk : s.conns[c]? with
  | none =>
      simp only [removeConnectionInLoop, hk]
      exact ⟨rfl, rfl⟩
  | some k =>
      simp only [removeConnectionInLoop, hk]
      exact .of_modify (f := Conn.step .queueDestroyed) (fun _ => rfl) rfl rfl

/-- The connections got the loops in turn. -/
structure InTurn (startLoop : Nat → L) (n : Nat) (s : System L P) : Prop where
  pool : Turned startLoop n (assigned s).length s.server.threadPool
  order : assigned s = (List.range (assigned s).length).map fun k => startLoop (k % n)

theorem InTurn.same {startLoop : Nat → L} {n : Nat} {s t : System L P} (h : InTurn startLoop n s) (hst : Same s t) :
    InTurn startLoop n t := by
  constructor
  · rw [hst.pool, hst.assigned]
    exact h.pool
  · rw [hst.assigned]
    exact h.order

theorem start_inTurn (startLoop : Nat → L) (n : Nat) (loop : L) (listenAddr : SockAddr) (nameArg : List Char)
    (callback : Bool) : InTurn startLoop n
      (System.start (construct loop ((List.range n).map startLoop) listenAddr nameArg callback) : System L P) :=
  ⟨⟨rfl, (Nat.zero_mod n).symm⟩, rfl⟩

variable [DecidableEq L]

theorem removeConnection_same (c : Nat) (s : System L P) : Same s (removeConnection c s) := by
  cases hk : s.conns[c]? with
  | none =>
      simp only [removeConnection, hk]
      exact ⟨rfl, rfl⟩
  | some k =>
      simp only [removeConnection, hk]
      split
      · exact (removeConnectionInLoop_same c _).after ⟨rfl, rfl⟩
      · exact ⟨rfl, rfl⟩

theorem destroyItem_same (c : Nat) (s : System L P) : Same s (destroyItem c s) := by
  cases hk : s.conns[c]? with
  | none =>
      simp only [destroyItem, hk]
      exact ⟨rfl, rfl⟩
  | some k =>
      simp only [destroyItem, hk]
      exact .of_modify (f := Conn.step _) (fun _ => rfl) rfl rfl

theorem newConnection_assigned (sockfd : Int) (self : P) (s : System L P) :
    assigned (newConnection sockfd self s) = assigned s ++ [s.server.threadPool.getNextLoop.1] := by
  simp only [assigned, newConnection, List.map_append, List.map_singleton]
  split
  · rfl
  · rfl

theorem InTurn.newConnection {startLoop : Nat → L} {n : Nat} (hn : 0 < n) {s : System L P}
    (h : InTurn startLoop n s) (sockfd : Int) (self : P) : InTurn startLoop n (newConnection sockfd self s) := by
  obtain ⟨hloop, hturned⟩ := h.pool.getNextLoop hn
  have hassigned := newConnection_assigned sockfd self s
  rw [hloop] at hassigned
  constructor
  · rw [hassigned, List.length_append]
    exact hturned
  · rw [hassigned, List.length_append, List.length_singleton, List.range_succ, List.map_append, ← h.order]
    rfl

theorem step_inTurn {startLoop : Nat → L} {n : Nat} (hn : 0 < n) (s : System L P) (e : System.Event P)
    (h : InTurn startLoop n s) : InTurn startLoop n (s.next e) := by
  cases e with
  | accept sockfd self => exact h.newConnection hn sockfd self
  | established c => exact h.same (.of_modify (f := Conn.connectEstablished) (fun _ => rfl) rfl rfl)
  | conn c e => exact h.same (.of_modify (f := Conn.step e) (fun _ => rfl) rfl rfl)
  | closeCallback c =>
      apply h.same
      apply (removeConnection_same c _).after
      exact .of_modify (f := fun k => { k with closing := false }) (fun _ => rfl) rfl rfl
  | removal =>
      simp only [System.next]
      split
      · exact h
      · exact h.same ((removeConnectionInLoop_same _ _).after ⟨rfl, rfl⟩)
  | destroy => exact h.same ⟨rfl, rfl⟩
  | destroyItem c => exact h.same (destroyItem_same c s)
  | destroyed => exact h.same ⟨rfl, rfl⟩

theorem count_turns {startLoop : Nat → L} {n : Nat} (hn : 0 < n)
    (hdistinct : ∀ i < n, ∀ j < n, startLoop i = startLoop j → i = j) {i : Nat} (hi : i < n) (m : Nat) :
    ((List.range m).map fun k => startLoop (k % n)).count (startLoop i) = m / n + if i < m % n then 1 else 0 := by
  have hcount := Nat.count_modEq_card m hn i
  rw [Nat.mod_eq_of_lt hi] at hcount
  rw [← hcount, Nat.count, List.count, List.countP_map]
  apply List.countP_congr
  intro k _
  simp only [Function.comp_apply, beq_iff_eq, decide_eq_true_eq, Nat.ModEq, Nat.mod_eq_of_lt hi]
  constructor
  · exact hdistinct (k % n) (Nat.mod_lt k hn) i hi
  · intro h
    rw [h]

def Balanced (loops : List L) (s : System L P) : Prop :=
  ∀ x ∈ loops, ∀ y ∈ loops, (assigned s).count x ≤ (assigned s).count y + 1

theorem InTurn.balanced {startLoop : Nat → L} {n : Nat} (hn : 0 < n)
    (hdistinct : ∀ i < n, ∀ j < n, startLoop i = startLoop j → i = j) {s : System L P}
    (h : InTurn startLoop n s) : Balanced ((List.range n).map startLoop) s := by
  intro x hx y hy
  obtain ⟨i, hi, rfl⟩ := List.mem_map.mp hx
  obtain ⟨j, hj, rfl⟩ := List.mem_map.mp hy
  rw [h.order, count_turns hn hdistinct (List.mem_range.mp hi), count_turns hn hdistinct (List.mem_range.mp hj)]
  split <;> split <;> omega

/-- The loops are handed out in turn, so the connections are spread evenly. Each
thread has made a loop of its own. -/
theorem loops_in_turn (baseLoop : L) (startLoop : Nat → L) (numThreads : CInt) (hn : 1 ≤ numThreads.val)
    (hown : ∀ i < numThreads.val.toNat, ∀ j < numThreads.val.toNat, startLoop i = startLoop j → i = j)
    (listenAddr : SockAddr) (nameArg : List Char) (callback : Bool) (es : List (System.Event P)) :
    let pool := started baseLoop startLoop numThreads
    (∀ k, (pool.afterCalls k).next < (pool.afterCalls k).loops.length ∧ (pool.afterCalls k).next + 1 < 2 ^ 31 ∧
        pool.loops[k % pool.loops.length]? = some (pool.afterCalls k).getNextLoop.1) ∧
      Always System.next (Balanced pool.loops)
        (System.start (construct baseLoop pool.loops listenAddr nameArg callback) : System L P) es := by
  intro pool
  have hpos : 0 < numThreads.val.toNat := by omega
  have hloops : pool.loops = (List.range numThreads.val.toNat).map startLoop :=
    (started_turned baseLoop startLoop numThreads).loops
  have hlength : pool.loops.length = numThreads.val.toNat := by
    rw [hloops, List.length_map, List.length_range]
  constructor
  · intro k
    have hk := (started_turned baseLoop startLoop numThreads).afterCalls hpos k
    have hmod := Nat.mod_lt k hpos
    have hint := numThreads.property
    refine ⟨hk.inBounds hpos, ?_, ?_⟩
    · rw [hk.next]
      omega
    · rw [(hk.getNextLoop hpos).1, hlength, hloops]
      simp [hmod]
  · rw [hloops]
    have hall := always_of_step (C := fun _ _ => True) (fun s e h _ => step_inTurn hpos s e h)
      (start_inTurn startLoop _ baseLoop listenAddr nameArg callback) (meets_true _ es)
    exact always_mono (fun s h => h.balanced hpos hown) hall

def twoThreads : EventLoopThreadPool Nat := started 0 (· + 1) ⟨2, by decide⟩

def localhost : SockAddr := ⟨.inet, (0, 80), (127, 0, 0, 1)⟩

theorem loops_in_turn_two : twoThreads.loops = [1, 2] ∧
    (∀ k, (twoThreads.afterCalls k).next < (twoThreads.afterCalls k).loops.length ∧
      (twoThreads.afterCalls k).next + 1 < 2 ^ 31 ∧
      twoThreads.loops[k % twoThreads.loops.length]? = some (twoThreads.afterCalls k).getNextLoop.1) ∧
    Always System.next (Balanced twoThreads.loops)
      (System.start (construct 0 twoThreads.loops localhost "web".toList true) : System Nat Nat)
      [.accept 5 100, .accept 6 101, .accept 7 102] := by
  refine ⟨rfl, ?_⟩
  apply loops_in_turn 0 (· + 1) ⟨2, by decide⟩ (by decide)
  intro i _ j _ h
  exact Nat.succ.inj h

end RoundRobin

end Webserver
