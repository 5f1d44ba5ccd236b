import Webserver.FinalState
import Webserver.Teardown

namespace Webserver.CloseAccounts

open Runs TcpServer ConnectionLife ConnectionSteps
open FinalState (closeCallbacks closeCallbacks_eq)
open Registry (Ran Registered)
open Teardown (due runs queued)

variable {L P : Type}

/-- No close is on its way: no functor waits, and no loop is inside handleClose or connectDestroyed. -/
def Quiet (s : System L P) : Prop :=
  s.removals = [] ∧ ∀ k ∈ s.conns, k.closing = false ∧ k.life.hosted.pendingFunctors = [] ∧ k.life.destroying = .outside

/-- Every close is in exactly one place on its way from closeCallback_ to the end
of connectDestroyed, and connections_ holds the connections that none has passed
through. When all is quiet, these are the ones that were never closed. -/
structure Followed (s : System L P) : Prop where
  places : ∀ c k, s.conns[c]? = some k →
    closeCallbacks k.life = k.closing.toNat + s.removals.count c + queued k.life.hosted + runs k.life
  held : ∀ n c, s.server.connections.lookup n = some c ↔ ∃ k, s.conns[c]? = some k ∧ k.name = n ∧ due k.life = 0
  settled : Quiet s → ∀ c k, s.conns[c]? = some k →
    (s.server.connections.lookup k.name = some c ↔ closeCallbacks k.life = 0) ∧
      k.life.hosted.trace.count .returnConnectDestroyed = closeCallbacks k.life

structure Balanced (s : System L P) (c : Nat) (k : Conn L P) : Prop where
  count : closeCallbacks k.life = k.closing.toNat + s.removals.count c + due k.life
  ran : Ran s c ↔ 0 < due k.life

structure Inv (s : System L P) : Prop where
  removals : ∀ c ∈ s.removals, c < s.conns.length
  ran : ∀ c, Ran s c → c < s.conns.length
  each : ∀ c k, s.conns[c]? = some k → Balanced s c k

section Steps

theorem forall_modify {α : Type} {Q : Nat → α → Prop} {xs : List α} {c : Nat} {k : α} {f : α → α}
    (hk : xs[c]? = some k) (hself : Q c (f k)) (hother : ∀ d j, d ≠ c → xs[d]? = some j → Q d j) (d : Nat) (j : α)
    (hj : (xs.modify c f)[d]? = some j) : Q d j := by
  rw [List.getElem?_modify] at hj
  obtain ⟨i, hi, rfl⟩ := Option.map_eq_some_iff.mp hj
  by_cases hdc : c = d
  · subst d
    cases Option.some.inj (hk.symm.trans hi)
    simpa only [if_true] using hself
  · simpa only [hdc, if_false] using hother d i (fun h => hdc h.symm) hi

theorem step_count (l : Life P) (e : ConnectionLife.Event P) :
    closeCallbacks (ConnectionLife.next l e) = closeCallbacks l ∨
      isCall e = false ∧ closeCallbacks (ConnectionLife.next l e) = closeCallbacks l + 1 := by
  have hcount : ∀ m, lifeTrace (ConnectionLife.next l e).hosted = lifeTrace l.hosted ++ m →
      closeCallbacks (ConnectionLife.next l e) = closeCallbacks l + m.count .closeCallback := by
    intro m hm
    rw [closeCallbacks_eq, closeCallbacks_eq, hm, List.count_append]
  have hnil : ∀ {m n : List Effect}, n = m → n = m ++ [] := fun h => h.trans (List.append_nil _).symm
  cases step_kind l e with
  | mild hlife | leaving _ hlife | store _ hlife | begins _ hlife | skip _ _ hlife => exact .inl (hcount [] (hnil hlife))
  | notify _ _ hlife | finish _ _ hlife => exact .inl (hcount _ hlife)
  | close hevent hlife _ _ _ =>
      refine .inr ⟨?_, hcount _ hlife⟩
      rcases hevent with rfl | ⟨_, hx⟩
      · rfl
      · cases e with
        | call c r => cases c <;> simp [Executes] at hx
        | test | store | finish => exact hx.elim
        | functor | delayedClose | poll | readEvent | writeEvent | others | queueDestroyed | destroyInLoop
        | destroyNotify | destroyEnd => rfl

theorem conn_step_closes (k : Conn L P) {e : ConnectionLife.Event P} (he : k.closing = false ∨ isCall e = true) :
    closeCallbacks (k.step e).life + k.closing.toNat = closeCallbacks k.life + (k.step e).closing.toNat := by
  have hstep : (k.step e).closing = (k.closing || decide (closeCallbacks k.life < closeCallbacks (k.step e).life)) := rfl
  rw [hstep]
  rcases step_count k.life e with hc | ⟨hcall, hc⟩
  · rw [show closeCallbacks (k.step e).life = closeCallbacks k.life from hc]
    simp
  · have hopen : k.closing = false := by
      rcases he with he | he
      · exact he
      · rw [hcall] at he
        cases he
    rw [show closeCallbacks (k.step e).life = closeCallbacks k.life + 1 from hc, hopen]
    simp

theorem Balanced.of_same {s t : System L P} {c : Nat} {k j : Conn L P} (h : Balanced s c k)
    (hcloses : closeCallbacks j.life + k.closing.toNat = closeCallbacks k.life + j.closing.toNat)
    (hremovals : t.removals.count c = s.removals.count c) (hdue : due j.life = due k.life)
    (hran : Ran t c ↔ Ran s c) : Balanced t c j := by
  have hbefore := h.count
  refine ⟨?_, ?_⟩
  · rw [hremovals, hdue]
    omega
  · rw [hran, hdue]
    exact h.ran

theorem Inv.modify {s t : System L P} (h : Inv s) {c : Nat} {k : Conn L P} {f : Conn L P → Conn L P}
    (hk : s.conns[c]? = some k) (ht : t.conns = s.conns.modify c f) (hremovals : t.removals = s.removals)
    (hcalls : t.calls = s.calls)
    (hcloses : closeCallbacks (f k).life + k.closing.toNat = closeCallbacks k.life + (f k).closing.toNat)
    (hdue : due (f k).life = due k.life) : Inv t := by
  have hran : ∀ d, Ran t d ↔ Ran s d := fun d => by rw [Ran, Ran, hcalls]
  have hlength : t.conns.length = s.conns.length := by rw [ht, List.length_modify]
  refine ⟨?_, ?_, ?_⟩
  · rw [hremovals, hlength]
    exact h.removals
  · intro d hd
    rw [hlength]
    exact h.ran d ((hran d).mp hd)
  · rw [ht]
    refine forall_modify hk ?_ fun d j _ hj => ?_
    · exact (h.each c k hk).of_same hcloses (by rw [hremovals]) hdue (hran c)
    · exact (h.each d j hj).of_same rfl (by rw [hremovals]) rfl (hran d)

theorem connectEstablished_same (k : Conn L P) :
    closeCallbacks k.connectEstablished.life = closeCallbacks k.life ∧ due k.connectEstablished.life = due k.life := by
  have hcount : ∀ x, isLife x = true → x ≠ .connectionCallback .kConnected →
      k.connectEstablished.life.hosted.trace.count x = k.life.hosted.trace.count x := by
    intro x _ hx
    simp [Conn.connectEstablished, TcpConnection.connectEstablished, TcpConnection.emit, TcpConnection.onChannel,
      TcpConnection.setState, List.count_append, Ne.symm hx]
  refine ⟨hcount _ rfl (by simp), ?_⟩
  have hreturned := hcount .returnConnectDestroyed rfl (by simp)
  rw [due, due, runs, runs, hreturned]
  rfl

theorem removeConnectionInLoop_balanced {s : System L P} {c : Nat} {k : Conn L P}
    (hcloses : closeCallbacks k.life = k.closing.toNat + s.removals.count c + due k.life + 1) :
    Balanced (removeConnectionInLoop c (s.called (.removeConnectionInLoop c))) c (k.step .queueDestroyed) := by
  have hdue : due (k.step .queueDestroyed).life = due k.life + 1 := Teardown.queueDestroyed_due k.life
  have hclosing : (k.step .queueDestroyed).closing = k.closing := by
    simp [Conn.step, ConnectionLife.next, TcpConnection.queueInLoop]
  refine ⟨?_, ?_⟩
  · rw [hclosing, hdue, (Registry.removeConnectionInLoop_calls c _).2]
    exact hcloses
  · rw [hdue, Registry.removed_ran]
    simp

theorem removeConnectionInLoop_inv {s : System L P} {c : Nat} {k : Conn L P} (hk : s.conns[c]? = some k)
    (hremovals : ∀ d ∈ s.removals, d < s.conns.length) (hran : ∀ d, Ran s d → d < s.conns.length)
    (hcloses : closeCallbacks k.life = k.closing.toNat + s.removals.count c + due k.life + 1)
    (hother : ∀ d j, d ≠ c → s.conns[d]? = some j → Balanced s d j) :
    Inv (removeConnectionInLoop c (s.called (.removeConnectionInLoop c))) := by
  have hlength : (removeConnectionInLoop c (s.called (.removeConnectionInLoop c))).conns.length = s.conns.length :=
    Registry.length_removeConnectionInLoop c _
  obtain ⟨_, hqueue⟩ := Registry.removeConnectionInLoop_calls c (s.called (.removeConnectionInLoop c))
  have hmore := Registry.removed_ran c s
  refine ⟨?_, ?_, ?_⟩
  · rw [hlength, hqueue]
    exact hremovals
  · intro d hd
    rw [hlength]
    rcases (hmore d).mp hd with hd | rfl
    · exact hran d hd
    · exact (List.getElem?_eq_some_iff.mp hk).1
  · have hconns : (removeConnectionInLoop c (s.called (.removeConnectionInLoop c))).conns =
        s.conns.modify c (Conn.step .queueDestroyed) := by
      rw [Registry.removeConnectionInLoop_eq (s := s.called (.removeConnectionInLoop c)) hk]
      rfl
    rw [hconns]
    refine forall_modify hk (removeConnectionInLoop_balanced hcloses) fun d j hdc hj => ?_
    refine (hother d j hdc hj).of_same rfl (by rw [hqueue]; rfl) rfl ?_
    rw [hmore]
    simp [hdc]

theorem removal_inv {s : System L P} (h : Inv s) {c : Nat} {cs : List Nat} (hr : s.removals = c :: cs) :
    Inv (removeConnectionInLoop c (System.called (.removeConnectionInLoop c) { s with removals := cs })) := by
  have hmem : c ∈ s.removals := by
    rw [hr]
    exact List.mem_cons_self
  obtain ⟨k, hk⟩ : ∃ k, s.conns[c]? = some k := ⟨_, List.getElem?_eq_getElem (h.removals c hmem)⟩
  have hcount : ∀ d, s.removals.count d = cs.count d + if c = d then 1 else 0 := by
    intro d
    rw [hr, List.count_cons]
    simp
  refine removeConnectionInLoop_inv (s := { s with removals := cs }) hk ?_ h.ran ?_ ?_
  · intro d hd
    refine h.removals d ?_
    rw [hr]
    exact List.mem_cons_of_mem c hd
  · have hbefore := (h.each c k hk).count
    rw [hcount, if_pos rfl] at hbefore
    change closeCallbacks k.life = k.closing.toNat + cs.count c + due k.life + 1
    omega
  · intro d j hdc hj
    refine (h.each d j hj).of_same rfl ?_ rfl Iff.rfl
    rw [hcount, if_neg (Ne.symm hdc)]
    rfl

variable [DecidableEq L]

theorem newConnection_fresh (sockfd : Int) (self : P) (s : System L P) {k : Conn L P}
    (hk : (newConnection sockfd self s).conns[s.conns.length]? = some k) :
    closeCallbacks k.life = 0 ∧ k.closing = false ∧ due k.life = 0 := by
  simp only [newConnection, List.getElem?_concat_length, Option.some_inj] at hk
  subst k
  split
  · obtain ⟨hcloses, hdue⟩ := connectEstablished_same _
    exact ⟨hcloses, rfl, hdue⟩
  · exact ⟨rfl, rfl, rfl⟩

theorem newConnection_inv {s : System L P} (h : Inv s) (sockfd : Int) (self : P) :
    Inv (newConnection sockfd self s) := by
  have hlength : (newConnection sockfd self s).conns.length = s.conns.length + 1 := by simp [newConnection]
  refine ⟨fun c hc => ?_, fun c hc => ?_, fun c k hk => ?_⟩
  · rw [hlength]
    exact Nat.lt_succ_of_lt (h.removals c hc)
  · rw [hlength]
    exact Nat.lt_succ_of_lt (h.ran c hc)
  · rcases Nat.lt_trichotomy c s.conns.length with hc | hc | hc
    · refine (h.each c k ?_).of_same rfl rfl rfl Iff.rfl
      exact (List.getElem?_append_left hc).symm.trans hk
    · subst c
      have hnone : s.removals.count s.conns.length = 0 := by
        rw [List.count_eq_zero]
        exact fun hm => absurd (h.removals _ hm) (lt_irrefl _)
      have hran : ¬ Ran (newConnection sockfd self s) s.conns.length := fun hr =>
        absurd (h.ran _ hr) (lt_irrefl _)
      obtain ⟨hfresh, hclosing, hdue⟩ := newConnection_fresh sockfd self s hk
      refine ⟨?_, iff_of_false hran (by omega)⟩
      change closeCallbacks k.life = k.closing.toNat + s.removals.count _ + due k.life
      rw [hfresh, hclosing, hdue, hnone]
      rfl
    · rw [List.getElem?_eq_none (by omega)] at hk
      cases hk

theorem removeConnection_inv {s t : System L P} (h : Inv s) {c : Nat} {k : Conn L P} (hk : s.conns[c]? = some k)
    (hclosing : k.closing = true) (ht : t.conns = s.conns.modify c fun k => { k with closing := false })
    (hremovals : t.removals = s.removals) (hran : ∀ d, Ran t d ↔ Ran s d) : Inv (removeConnection c t) := by
  have hj : t.conns[c]? = some { k with closing := false } := by
    rw [ht, List.getElem?_modify_eq, hk]
    rfl
  have hbefore := (h.each c k hk).count
  rw [hclosing] at hbefore
  have hlength : t.conns.length = s.conns.length := by rw [ht, List.length_modify]
  simp only [removeConnection, hj]
  split
  · refine removeConnectionInLoop_inv hj ?_ ?_ ?_ ?_
    · intro d hd
      rw [hlength]
      exact h.removals d (hremovals ▸ hd)
    · intro d hd
      rw [hlength]
      exact h.ran d ((hran d).mp hd)
    · rw [hremovals]
      simp only [Bool.toNat_false, Bool.toNat_true] at hbefore ⊢
      omega
    · intro d j hdc hd
      rw [ht, List.getElem?_modify_ne _ _ hdc.symm] at hd
      exact (h.each d j hd).of_same rfl (by rw [hremovals]) rfl (hran d)
  · refine ⟨fun d hd => ?_, fun d hd => ?_, ?_⟩
    · rw [hlength]
      rcases List.mem_append.mp hd with hd | hd
      · exact h.removals d (hremovals ▸ hd)
      · rw [List.mem_singleton.mp hd]
        exact (List.getElem?_eq_some_iff.mp hk).1
    · rw [hlength]
      exact h.ran d ((hran d).mp hd)
    · rw [ht]
      refine forall_modify hk ⟨?_, (hran c).trans (h.each c k hk).ran⟩ fun d j hdc hd => ?_
      · simp only [hremovals, List.count_append, List.count_singleton_self, Bool.toNat_false,
          Bool.toNat_true] at hbefore ⊢
        omega
      · refine (h.each d j hd).of_same rfl ?_ rfl (hran d)
        simp [hremovals, List.count_append, Ne.symm hdc]

theorem step_inv (s : System L P) (e : System.Event P) (h : Inv s) (he : s.Enabled e ∧ e.ofDestructor = false) :
    Inv (s.next e) := by
  obtain ⟨hen, hserves⟩ := he
  cases e with
  | accept sockfd self => exact newConnection_inv h sockfd self
  | established c =>
      obtain ⟨k, hk, _⟩ := hen
      obtain ⟨hcloses, hdue⟩ := connectEstablished_same k
      refine h.modify hk rfl rfl rfl ?_ hdue
      rw [hcloses]
      rfl
  | conn c e =>
      obtain ⟨hserver, k, hk, _, hclosing, hstep⟩ := hen
      exact h.modify hk rfl rfl rfl (conn_step_closes k hclosing) (Teardown.step_due hstep hserver)
  | closeCallback c =>
      obtain ⟨k, hk, hclosing⟩ := hen
      exact removeConnection_inv h hk hclosing rfl rfl fun d => by simp [Ran, System.called]
  | removal =>
      obtain ⟨c, cs, hr⟩ := List.exists_cons_of_ne_nil hen.1
      have hnext : s.next .removal =
          removeConnectionInLoop c (System.called (.removeConnectionInLoop c) { s with removals := cs }) := by
        simp only [System.next, hr]
      rw [hnext]
      exact removal_inv h hr
  | destroy | destroyItem c | destroyed => cases hserves

end Steps

theorem start_inv (server : TcpServer L) : Inv (System.start server : System L P) := by
  refine ⟨fun c hc => ?_, fun c hc => ?_, fun c k hk => ?_⟩
  · cases hc
  · obtain ⟨stage, hm⟩ := hc
    cases hm
  · cases hk

theorem Inv.followed {s : System L P} (h : Inv s) (hr : Registered s) : Followed s := by
  have hheld : ∀ n c, s.server.connections.lookup n = some c ↔
      ∃ k, s.conns[c]? = some k ∧ k.name = n ∧ due k.life = 0 := by
    intro n c
    rw [hr.held, Registry.nameOf, Option.map_eq_some_iff]
    constructor
    · rintro ⟨⟨k, hk, hn⟩, hnot⟩
      refine ⟨k, hk, hn, ?_⟩
      rw [(h.each c k hk).ran] at hnot
      omega
    · rintro ⟨k, hk, hn, hdue⟩
      refine ⟨⟨k, hk, hn⟩, ?_⟩
      rw [(h.each c k hk).ran, hdue]
      exact lt_irrefl 0
  have hplaces : ∀ c k, s.conns[c]? = some k →
      closeCallbacks k.life = k.closing.toNat + s.removals.count c + queued k.life.hosted + runs k.life := by
    intro c k hk
    have hcount := (h.each c k hk).count
    rw [due] at hcount
    omega
  refine ⟨hplaces, hheld, ?_⟩
  rintro ⟨hremovals, hidle⟩ c k hk
  obtain ⟨hclosing, hpending, hdestroying⟩ := hidle k (List.mem_of_getElem? hk)
  have hqueued : queued k.life.hosted = 0 := by rw [queued, hpending, List.count_nil]
  have hruns : runs k.life = k.life.hosted.trace.count .returnConnectDestroyed := by
    rw [runs, hdestroying]
    rfl
  have hcloses := hplaces c k hk
  rw [hremovals, hclosing, hqueued, List.count_nil, Bool.toNat_false, Nat.zero_add] at hcloses
  refine ⟨?_, hruns.symm.trans hcloses.symm⟩
  rw [hheld]
  constructor
  · rintro ⟨j, hj, _, hdue⟩
    cases Option.some.inj (hk.symm.trans hj)
    rw [due] at hdue
    omega
  · intro hzero
    refine ⟨k, hk, rfl, ?_⟩
    rw [due, hqueued]
    omega

variable [DecidableEq L]

theorem always_followed (loop : L) (loops : List L) (addr : SockAddr) (name : List Char) (callback : Bool)
    (es : List (System.Event P)) (hroom : es.countP Registry.isAccept < 2 ^ 31 - 1)
    (hserve : ∀ e ∈ es, e.ofDestructor = false)
    (he : Meets System.next System.Enabled (System.start (construct loop loops addr name callback)) es) :
    Always System.next Followed (System.start (construct loop loops addr name callback)) es := by
  have hm : Meets System.next Registry.Served (System.start (construct loop loops addr name callback)) es :=
    Registry.meets_served (by rw [System.start, List.length_nil, Nat.zero_add]; exact hroom) hserve
  have hstep : ∀ (s : System L P) e, Inv s ∧ Registry.Inv addr name s →
      (s.Enabled e ∧ e.ofDestructor = false) ∧ Registry.Served s e → Inv (s.next e) ∧ Registry.Inv addr name (s.next e) :=
    fun s e hs hc => ⟨step_inv s e hs.1 hc.1, Registry.step_inv s e hs.2 hc.2⟩
  refine always_mono (fun s hs => hs.1.followed hs.2.registered) (always_of_step hstep ?_ ?_)
  · exact ⟨start_inv _, Registry.construct_inv loop loops callback⟩
  · exact meets_and.mpr ⟨meets_and.mpr ⟨he, meets_of_forall _ hserve⟩, hm⟩

theorem always_followed_closed :
    Always System.next Followed
      (System.start (construct 0 [1] ⟨.inet, (31, 144), (127, 0, 0, 1)⟩ ['w'] true) : System Nat Unit)
      [.accept 7 (), .established 0, .conn 0 (.poll { PollMask.zero with pollin := true }),
        .conn 0 (.readEvent (.received [])), .closeCallback 0, .removal, .conn 0 (.writeEvent (.wrote 0)),
        .conn 0 (.functor (.wrote 0)), .conn 0 .destroyNotify, .conn 0 .destroyEnd] := by
  refine always_followed 0 [1] _ ['w'] true _ (by decide) (by decide) ?_
  exact ⟨rfl, ⟨_, rfl, rfl⟩, ⟨rfl, _, rfl, rfl, .inl rfl, rfl, rfl, _, rfl, by decide⟩,
    ⟨rfl, _, rfl, rfl, .inl rfl, rfl, _, rfl, by decide⟩, ⟨_, rfl, rfl⟩, ⟨by decide, by decide⟩,
    ⟨rfl, _, rfl, rfl, .inl rfl, rfl, _, rfl, by decide⟩, ⟨rfl, _, rfl, rfl, .inl rfl, rfl, rfl⟩,
    ⟨rfl, _, rfl, rfl, .inl rfl, false, rfl⟩, ⟨rfl, _, rfl, rfl, .inl rfl, rfl⟩, trivial⟩

end Webserver.CloseAccounts
