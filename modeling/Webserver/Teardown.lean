import Webserver.ConnectionSteps
import Webserver.CrossThread
import Webserver.Registry

namespace Webserver.Teardown

open Runs TcpConnection ConnectionLife ConnectionSteps CrossThread TcpServer
open Registry (nameOf nameOf_modify newConnection_conns nameOf_newConnection lt_of_nameOf)

variable {L P : Type}

def runs (l : Life P) : Nat :=
  l.hosted.trace.count .returnConnectDestroyed + if l.destroying = .outside then 0 else 1

def queued (h : Hosted P) : Nat := h.pendingFunctors.count .connectDestroyed

def due (l : Life P) : Nat := runs l + queued l.hosted

section Steps

structure Calm (h k : Hosted P) : Prop where
  returned : k.trace.count .returnConnectDestroyed = h.trace.count .returnConnectDestroyed
  queued : queued k = queued h

theorem queued_of_pushes {h k : Hosted P} (hk : Pushes h k) : queued k = queued h := by
  obtain ⟨ws, hw, hws⟩ := hk
  have hnone : ws.count Functor.connectDestroyed = 0 := by
    rw [List.count_eq_zero]
    intro hm
    rcases hws _ hm with hf | hf
    · cases hf
    · cases hf
  rw [queued, queued, hw, List.count_append, hnone, Nat.add_zero]

theorem calm_of_mild {h k : Hosted P} (hm : Mild h k) (hp : Pushes h k) : Calm h k :=
  ⟨count_of_life rfl rfl (hm.life.trans (List.append_nil _).symm), queued_of_pushes hp⟩

theorem queueInLoop_queued {f : Functor} (hf : f ≠ .connectDestroyed) (h : Hosted P) :
    queued (queueInLoop f h) = queued h := by
  simp [queued, queueInLoop, List.count_append, hf]

theorem handleClose_calm (h : Hosted P) : Calm h (handleClose h) :=
  ⟨count_of_life rfl rfl (handleClose_life h), rfl⟩

theorem notifyDown_calm (h : Hosted P) : Calm h (notifyDown h) := ⟨count_of_life rfl rfl (notifyDown_life h), rfl⟩

theorem finishCall_calm (h : Hosted P) (c : Call) : Calm h (finishCall h c) := by
  cases c with
  | forceCloseWithDelay => exact ⟨rfl, rfl⟩
  | send _ | shutdown | forceClose | startRead | stopRead => exact ⟨rfl, queueInLoop_queued (by simp) h⟩

theorem runFunctor_calm (r : WriteResult) (h : Hosted P) {f : Functor} (hf : f ≠ .connectDestroyed) :
    Calm h (runFunctor r h f) := by
  by_cases hc : f = .forceCloseInLoop
  · subst hc
    simp only [runFunctor, forceCloseInLoop]
    split
    · exact handleClose_calm h
    · exact ⟨rfl, rfl⟩
  · exact calm_of_mild (runFunctor_mild r h hc hf) (runFunctor_pushes r h f)

theorem runInLoop_calm (inLoop : Bool) (r : WriteResult) (h : Hosted P) {f : Functor} (hf : f ≠ .connectDestroyed) :
    Calm h (runInLoop inLoop f r h) := by
  cases inLoop with
  | true => exact runFunctor_calm r h hf
  | false => exact ⟨rfl, queueInLoop_queued hf h⟩

theorem forceClose_calm (h : Hosted P) : Calm h (forceClose h) := by
  refine ⟨?_, queued_of_pushes (forceClose_pushes h)⟩
  simp only [forceClose]
  split
  · rfl
  · rfl

theorem applyCall_calm (inLoop : Bool) (r : WriteResult) (h : Hosted P) (c : Call) :
    Calm h (applyCall inLoop r h c) := by
  cases c with
  | send message =>
      simp only [applyCall, send]
      split
      · exact runInLoop_calm inLoop r h (by simp)
      · exact ⟨rfl, rfl⟩
  | shutdown =>
      simp only [applyCall, shutdown]
      split
      · have hc := runInLoop_calm inLoop r (setState .kDisconnecting h) (f := .shutdownInLoop) (by decide)
        exact ⟨hc.returned, hc.queued⟩
      · exact ⟨rfl, rfl⟩
  | forceClose => exact forceClose_calm h
  | forceCloseWithDelay =>
      simp only [applyCall, forceCloseWithDelay]
      split
      · exact ⟨rfl, rfl⟩
      · exact ⟨rfl, rfl⟩
  | startRead | stopRead => exact runInLoop_calm inLoop r h (by decide)

theorem handleRead_calm (r : ReadResult) (h : Hosted P) : Calm h (handleRead r h) := by
  refine ⟨?_, queued_of_pushes (handleRead_pushes r h)⟩
  cases r with
  | failed e => rfl
  | received bytes =>
      cases bytes with
      | nil => exact (handleClose_calm h).returned
      | cons b bs => simp [handleRead, emit, setInput]

theorem Calm.due {l m : Life P} (hc : Calm l.hosted m.hosted) (hd : m.destroying = .outside ↔ l.destroying = .outside) :
    due m = due l := by
  simp only [Teardown.due, runs, hc.returned, hc.queued, hd]

theorem beginDestroyed_due (h : Hosted P) (l : Life P) :
    due (ConnectionLife.beginDestroyed h l) = h.trace.count .returnConnectDestroyed + 1 + queued h := by
  simp [due, runs, ConnectionLife.beginDestroyed]

theorem step_due {l : Life P} {e : ConnectionLife.Event P} (he : ConnectionLife.Enabled l e)
    (hs : System.ofServer e = false) : due (ConnectionLife.next l e) = due l := by
  cases e with
  | call c r => exact (applyCall_calm true r l.hosted c).due Iff.rfl
  | test | store | finish =>
      have hstored : Calm l.hosted (setState .kDisconnecting l.hosted) := ⟨rfl, rfl⟩
      exact next_outside (R := fun m => due m = due l) rfl (fun _ => rfl) (fun _ => hstored.due Iff.rfl)
        fun c _ => (finishCall_calm l.hosted c).due Iff.rfl
  | functor r =>
      simp only [ConnectionLife.next]
      split
      · rfl
      · rename_i fs hp
        rw [beginDestroyed_due]
        simp [due, runs, queued, hp, he.2]
        omega
      · rename_i f fs hd hp
        have hc := runFunctor_calm r { l.hosted with pendingFunctors := fs } (f := f) fun hf => hd hf
        have hq : queued { l.hosted with pendingFunctors := fs } = queued l.hosted := by
          simp [queued, hp, show f ≠ .connectDestroyed from fun hf => hd hf]
        exact Calm.due (⟨hc.returned, hc.queued.trans hq⟩ : Calm l.hosted _) Iff.rfl
  | delayedClose =>
      have hc := forceClose_calm { l.hosted with delayedCloses := l.hosted.delayedCloses - 1 }
      exact Calm.due (⟨hc.returned, hc.queued⟩ : Calm l.hosted _) Iff.rfl
  | poll revents => rfl
  | readEvent r => exact (handleRead_calm r l.hosted).due Iff.rfl
  | writeEvent r =>
      simp only [ConnectionLife.next]
      split
      · refine Calm.due ?_ Iff.rfl
        simp only
        split
        · exact calm_of_mild (handleWrite_mild r l.hosted) (handleWrite_steady r l.hosted).pushes
        · exact ⟨rfl, rfl⟩
      · rfl
  | others poller => rfl
  | queueDestroyed | destroyInLoop => cases hs
  | destroyNotify =>
      obtain ⟨connected, hd⟩ := he
      simp only [ConnectionLife.next, hd]
      refine Calm.due ?_ (by simp [hd])
      split
      · exact notifyDown_calm l.hosted
      · exact ⟨rfl, rfl⟩
  | destroyEnd =>
      have hd : l.destroying = .notified := he
      simp [ConnectionLife.next, hd, due, runs, queued, removeDestroyed, emit, onChannel]

/-- The events at which a connection enters handleClose. -/
def Closes (l : Life P) (e : ConnectionLife.Event P) : Prop :=
  e = .readEvent (.received []) ∨ l.hosted.conn.state ≠ .kDisconnected ∧ Executes l .forceCloseInLoop e

theorem closing_of_life {k : Conn L P} {e : ConnectionLife.Event P} {l : List Effect} (hl : l.count .closeCallback = 0)
    (hlife : lifeTrace (ConnectionLife.next k.life e).hosted = lifeTrace k.life.hosted ++ l) :
    (k.step e).closing = k.closing := by
  have hc := count_of_life (e := .closeCallback) rfl hl hlife
  simp [Conn.step, hc]

theorem step_closing (k : Conn L P) (e : ConnectionLife.Event P) :
    (k.step e).closing = k.closing ∧ (k.life.hosted.conn.state = .kDisconnected → ¬ Late k.life e →
        (k.step e).life.hosted.conn.state = .kDisconnected) ∨
      Closes k.life e ∧ (k.step e).life.hosted.conn.state = .kDisconnected := by
  have hnil : ∀ {l m : List Effect}, m = l → m = l ++ [] := fun h => h.trans (List.append_nil _).symm
  cases step_kind k.life e with
  | mild _ hstate | begins _ _ hstate | skip _ _ _ hstate =>
      exact .inl ⟨closing_of_life rfl (hnil (by assumption)), fun hd _ => hstate.trans hd⟩
  | leaving hbefore hlife hstate hdest =>
      refine .inl ⟨closing_of_life rfl (hnil hlife), fun hd _ => ?_⟩
      rcases hbefore with hb | hb
      · rw [hd] at hb
        cases hb
      · rw [hd] at hb
        cases hb
  | store hevent hlife =>
      obtain ⟨t, rfl⟩ := hevent
      exact .inl ⟨closing_of_life rfl (hnil hlife), fun hd hlate => absurd hd hlate⟩
  | close hevent hlife hstate => exact .inr ⟨hevent, hstate⟩
  | notify _ _ hlife hstate => exact .inl ⟨closing_of_life rfl hlife, fun _ _ => hstate⟩
  | finish _ _ hlife hstate => exact .inl ⟨closing_of_life rfl hlife, fun hd _ => hstate.trans hd⟩

end Steps

/-- No call on the server after its end, and connectDestroyed at most once for each connection. -/
structure Proper (s : System L P) : Prop where
  calls : ∀ x ∈ s.calls, x.2 ≠ .destroyed
  once : ∀ k ∈ s.conns, runs k.life ≤ 1

/-- A close comes only while the server is there and to a connection that is not
closed yet, no other thread takes it back in that time, and ~TcpServer comes only
when no close is under way. -/
def Orderly (s : System L P) : System.Event P → Prop
  | .conn c e => ∀ k, s.conns[c]? = some k →
      (Closes k.life e → s.stage = .serving ∧ k.life.hosted.conn.state ≠ .kDisconnected) ∧
        (s.stage = .serving → ¬ Late k.life e)
  | .destroy => s.removals = [] ∧ ∀ k ∈ s.conns, k.closing = false
  | _ => True

structure Good (s : System L P) (c : Nat) (k : Conn L P) : Prop where
  once : due k.life ≤ 1
  kept : s.server.connections.lookup k.name = some c ∨ c ∈ s.removals ∨ k.closing = true → due k.life = 0
  down : c ∈ s.removals ∨ k.closing = true ∨ s.stage = .serving ∧ 0 < due k.life →
    k.life.hosted.conn.state = .kDisconnected
  single : k.closing = true → c ∉ s.removals
  still : s.stage ≠ .serving → k.closing = false
  fresh : k.established = false → k.life.hosted.conn.state = .kConnecting

structure Inv (s : System L P) : Prop where
  nodup : s.removals.Nodup
  valid : ∀ c ∈ s.removals, c < s.conns.length
  still : s.stage ≠ .serving → s.removals = []
  each : ∀ c k, s.conns[c]? = some k → Good s c k
  calls : ∀ x ∈ s.calls, x.2 = .serving

theorem Inv.proper {s : System L P} (h : Inv s) : Proper s := by
  refine ⟨fun x hx hd => ?_, fun k hk => ?_⟩
  · rw [h.calls x hx] at hd
    cases hd
  · obtain ⟨c, hc⟩ := List.getElem?_of_mem hk
    exact le_trans (Nat.le_add_right _ _) (h.each c k hc).once

theorem Good.mono {s t : System L P} {c : Nat} {k : Conn L P} (h : Good s c k)
    (hlookup : t.server.connections.lookup k.name = some c → s.server.connections.lookup k.name = some c)
    (hremovals : c ∈ t.removals → c ∈ s.removals) (hstage : t.stage = s.stage) : Good t c k := by
  refine ⟨h.once, fun hk => h.kept ?_, fun hd => h.down ?_, fun hc hr => h.single hc (hremovals hr), ?_, h.fresh⟩
  · rcases hk with hk | hk | hk
    · exact .inl (hlookup hk)
    · exact .inr (.inl (hremovals hk))
    · exact .inr (.inr hk)
  · rw [hstage] at hd
    rcases hd with hd | hd
    · exact .inl (hremovals hd)
    · exact .inr hd
  · rw [hstage]
    exact h.still

theorem each_modify {s t : System L P} {c : Nat} {k : Conn L P} {f : Conn L P → Conn L P}
    (ht : t.conns = s.conns.modify c f) (hk : s.conns[c]? = some k) (hself : Good t c (f k))
    (hother : ∀ d j, d ≠ c → s.conns[d]? = some j → Good t d j) (d : Nat) (j : Conn L P)
    (hj : t.conns[d]? = some j) : Good t d j := by
  rw [ht, List.getElem?_modify] at hj
  obtain ⟨i, hi, rfl⟩ := Option.map_eq_some_iff.mp hj
  by_cases hdc : c = d
  · subst d
    cases Option.some.inj (hk.symm.trans hi)
    simpa only [if_true] using hself
  · simpa only [hdc, if_false] using hother d i (fun h => hdc h.symm) hi

theorem Inv.frame {s t : System L P} (h : Inv s) {c : Nat} {k : Conn L P} {f : Conn L P → Conn L P}
    (hserver : t.server = s.server) (hremovals : t.removals = s.removals) (hstage : t.stage = s.stage)
    (hcalls : t.calls = s.calls) (ht : t.conns = s.conns.modify c f) (hk : s.conns[c]? = some k)
    (hself : Good t c (f k)) : Inv t := by
  refine ⟨hremovals ▸ h.nodup, ?_, ?_, each_modify ht hk hself ?_, hcalls ▸ h.calls⟩
  · rw [hremovals, ht, List.length_modify]
    exact h.valid
  · rw [hstage, hremovals]
    exact h.still
  · intro d j _ hj
    exact (h.each d j hj).mono (by rw [hserver]; exact id) (by rw [hremovals]; exact id) hstage

theorem established_inv {s : System L P} (h : Inv s) {c : Nat} {k : Conn L P} (hk : s.conns[c]? = some k)
    (hfresh : k.established = false) : Inv { s with conns := s.conns.modify c Conn.connectEstablished } := by
  refine h.frame (f := Conn.connectEstablished) rfl rfl rfl rfl rfl hk ?_
  have hg := h.each c k hk
  have hstate := hg.fresh hfresh
  have hcalm : Calm k.life.hosted k.connectEstablished.life.hosted := by
    refine ⟨?_, rfl⟩
    simp [Conn.connectEstablished, connectEstablished, emit, onChannel, setState]
  have hdue : due k.connectEstablished.life = due k.life := hcalm.due Iff.rfl
  refine ⟨hdue.trans_le hg.once, fun hkept => hdue.trans (hg.kept hkept), fun hd => ?_, hg.single, hg.still, ?_⟩
  · rw [hdue] at hd
    have hdown := hg.down hd
    rw [hstate] at hdown
    cases hdown
  · intro he
    cases he

theorem conn_inv {s : System L P} (h : Inv s) {c : Nat} {k : Conn L P} {e : ConnectionLife.Event P}
    (hk : s.conns[c]? = some k) (hserver : System.ofServer e = false) (hest : k.established = true)
    (hen : ConnectionLife.Enabled k.life e) (ho : Orderly s (.conn c e)) :
    Inv { s with conns := s.conns.modify c (Conn.step e) } := by
  refine h.frame (f := Conn.step e) rfl rfl rfl rfl rfl hk ?_
  have hg := h.each c k hk
  have hdue : due (k.step e).life = due k.life := step_due hen hserver
  have hfresh : (k.step e).established = false → (k.step e).life.hosted.conn.state = .kConnecting := by
    intro hf
    rw [show (k.step e).established = k.established from rfl, hest] at hf
    cases hf
  rcases step_closing k e with ⟨hclosing, hstate⟩ | ⟨hcloses, hstate⟩
  · refine ⟨hdue.trans_le hg.once, fun hkept => ?_, fun hd => ?_, fun hc => ?_, fun hs => ?_, hfresh⟩
    · rw [hclosing] at hkept
      exact hdue.trans (hg.kept hkept)
    · rw [hclosing, hdue] at hd
      refine hstate (hg.down hd) ((ho k hk).2 ?_)
      by_contra hleft
      rcases hd with hd | hd | hd
      · rw [h.still hleft] at hd
        cases hd
      · rw [hg.still hleft] at hd
        cases hd
      · exact hleft hd.1
    · exact hg.single (hclosing.symm.trans hc)
    · exact hclosing.trans (hg.still hs)
  · obtain ⟨hserving, hnot⟩ := (ho k hk).1 hcloses
    have hzero : due k.life = 0 := by
      by_contra hpos
      exact hnot (hg.down (.inr (.inr ⟨hserving, Nat.pos_of_ne_zero hpos⟩)))
    have hremoval : c ∉ s.removals := fun hr => hnot (hg.down (.inl hr))
    exact ⟨hdue.trans_le hg.once, fun _ => hdue.trans hzero, fun _ => hstate, fun _ => hremoval,
      fun hs => absurd hserving hs, hfresh⟩

theorem lookup_of_erase {m : AList (fun _ : List Char => Nat)} {n a : List Char} {c : Nat}
    (h : (m.erase n).lookup a = some c) : m.lookup a = some c := by
  by_cases ha : a = n
  · subst a
    rw [AList.lookup_erase] at h
    cases h
  · rwa [AList.lookup_erase_ne ha] at h

theorem queueDestroyed_due (l : Life P) : due (ConnectionLife.next l .queueDestroyed) = due l + 1 := by
  have hq : queued (queueInLoop .connectDestroyed l.hosted) = queued l.hosted + 1 := by
    simp [queued, queueInLoop, List.count_append]
  show runs l + queued (queueInLoop .connectDestroyed l.hosted) = due l + 1
  rw [hq, due, Nat.add_assoc]

theorem Inv.called {s : System L P} (h : Inv s) (hserving : s.stage = .serving) (x : ServerCall) : Inv (s.called x) := by
  refine ⟨h.nodup, h.valid, h.still, fun c k hk => (h.each c k hk).mono id id rfl, fun y hy => ?_⟩
  rcases List.mem_append.mp hy with hy | hy
  · exact h.calls y hy
  · rw [List.mem_singleton.mp hy]
    exact hserving

theorem removeConnectionInLoop_inv {s : System L P} (h : Inv s) {c : Nat} {k : Conn L P} (hk : s.conns[c]? = some k)
    (hdue : due k.life = 0) (hremoval : c ∉ s.removals) (hclosing : k.closing = false)
    (hstate : k.life.hosted.conn.state = .kDisconnected) : Inv (removeConnectionInLoop c s) := by
  have heq := Registry.removeConnectionInLoop_eq hk
  have hq : due (k.step .queueDestroyed).life = 1 := by
    have hq := queueDestroyed_due k.life
    rwa [hdue] at hq
  have hc : (k.step .queueDestroyed).closing = false := by
    simp [Conn.step, ConnectionLife.next, queueInLoop, hclosing]
  have hself : Good (removeConnectionInLoop c s) c (k.step .queueDestroyed) := by
    refine ⟨hq.le, fun hkept => ?_, fun _ => hstate, fun hc' => ?_, fun _ => hc, fun hf => ?_⟩
    · rw [hc, heq] at hkept
      rcases hkept with hkept | hkept | hkept
      · rw [show (k.step .queueDestroyed).name = k.name from rfl, AList.lookup_erase] at hkept
        cases hkept
      · exact absurd hkept hremoval
      · cases hkept
    · rw [hc] at hc'
      cases hc'
    · have hconnecting := (h.each c k hk).fresh hf
      rw [hstate] at hconnecting
      cases hconnecting
  refine ⟨by rw [heq]; exact h.nodup, ?_, by rw [heq]; exact h.still, ?_, by rw [heq]; exact h.calls⟩
  · rw [heq, List.length_modify]
    exact h.valid
  · refine each_modify (f := Conn.step .queueDestroyed) (by rw [heq]) hk hself fun d j _ hj => ?_
    refine (h.each d j hj).mono ?_ (by rw [heq]; exact id) (by rw [heq])
    rw [heq]
    exact lookup_of_erase

theorem removal_inv {s : System L P} (h : Inv s) {c : Nat} {cs : List Nat} (hr : s.removals = c :: cs) :
    Inv (removeConnectionInLoop c (System.called (.removeConnectionInLoop c) { s with removals := cs })) := by
  have hserving : s.stage = .serving := by
    by_contra hs
    rw [h.still hs] at hr
    cases hr
  have hnodup := h.nodup
  rw [hr, List.nodup_cons] at hnodup
  have hmem : c ∈ s.removals := by
    rw [hr]
    exact List.mem_cons_self
  have hsub : ∀ d ∈ cs, d ∈ s.removals := by
    intro d hd
    rw [hr]
    exact List.mem_cons_of_mem c hd
  have hpop : Inv { s with removals := cs } :=
    ⟨hnodup.2, fun d hd => h.valid d (hsub d hd), fun hs => absurd hserving hs,
      fun d k hk => (h.each d k hk).mono id (hsub d) rfl, h.calls⟩
  obtain ⟨k, hk⟩ : ∃ k, s.conns[c]? = some k := ⟨_, List.getElem?_eq_getElem (h.valid c hmem)⟩
  have hg := h.each c k hk
  have hclosing : k.closing = false := by
    by_contra hc
    exact hg.single (Bool.eq_true_of_not_eq_false hc) hmem
  exact removeConnectionInLoop_inv (hpop.called hserving _) hk (hg.kept (.inr (.inl hmem))) hnodup.1 hclosing
    (hg.down (.inl hmem))

theorem Inv.leave {s : System L P} (h : Inv s) {stage : Stage} (hstage : stage ≠ .serving) (hr : s.removals = [])
    (hc : ∀ k ∈ s.conns, k.closing = false) : Inv { s with stage := stage } := by
  refine ⟨h.nodup, h.valid, fun _ => hr, fun c k hk => ?_, h.calls⟩
  have hg := h.each c k hk
  refine ⟨hg.once, hg.kept, fun hd => hg.down ?_, hg.single, fun _ => hc k (List.mem_of_getElem? hk), hg.fresh⟩
  rcases hd with hd | hd | hd
  · exact .inl hd
  · exact .inr (.inl hd)
  · exact absurd hd.1 hstage

theorem start_inv (server : TcpServer L) : Inv (System.start server : System L P) := by
  refine ⟨List.nodup_nil, ?_, fun _ => rfl, ?_, ?_⟩
  · intro c hc
    cases hc
  · intro c k hk
    cases hk
  · intro x hx
    cases hx

variable [DecidableEq L]

theorem removeConnection_inv {s : System L P} (h : Inv s) {c : Nat} {k : Conn L P} (hk : s.conns[c]? = some k)
    (hserving : s.stage = .serving) (hdue : due k.life = 0) (hremoval : c ∉ s.removals) (hclosing : k.closing = false)
    (hstate : k.life.hosted.conn.state = .kDisconnected) : Inv (removeConnection c s) := by
  simp only [removeConnection, hk]
  split
  · exact removeConnectionInLoop_inv (h.called hserving _) hk hdue hremoval hclosing hstate
  · refine ⟨?_, ?_, fun hs => absurd hserving hs, ?_, h.calls⟩
    · refine List.nodup_append.mpr ⟨h.nodup, List.nodup_singleton c, ?_⟩
      intro d hd e he hde
      rw [List.mem_singleton.mp he] at hde
      exact hremoval (hde ▸ hd)
    · intro d hd
      rcases List.mem_append.mp hd with hd | hd
      · exact h.valid d hd
      · rw [List.mem_singleton.mp hd]
        exact (List.getElem?_eq_some_iff.mp hk).1
    · intro d j hj
      by_cases hdc : d = c
      · subst d
        rw [hk] at hj
        cases hj
        have hg := h.each c k hk
        refine ⟨hg.once, fun _ => hdue, fun _ => hstate, fun hc => ?_, hg.still, hg.fresh⟩
        rw [hclosing] at hc
        cases hc
      · refine (h.each d j hj).mono id (fun hd => ?_) rfl
        exact (List.mem_append.mp hd).resolve_right fun hd => hdc (List.mem_singleton.mp hd)

theorem closeCallback_inv {s : System L P} (h : Inv s) {c : Nat} {k : Conn L P} (hk : s.conns[c]? = some k)
    (hclosing : k.closing = true) :
    Inv (removeConnection c (System.called (.removeConnection c)
      { s with conns := s.conns.modify c fun k => { k with closing := false } })) := by
  have hg := h.each c k hk
  have hserving : s.stage = .serving := by
    by_contra hs
    rw [hg.still hs] at hclosing
    cases hclosing
  have hdue := hg.kept (.inr (.inr hclosing))
  have hstate := hg.down (.inr (.inl hclosing))
  have hback : Inv { s with conns := s.conns.modify c fun k => { k with closing := false } } := by
    refine h.frame (f := fun k => { k with closing := false }) rfl rfl rfl rfl rfl hk ?_
    exact ⟨hg.once, fun _ => hdue, fun _ => hstate, fun hc => (by cases hc), fun _ => rfl, hg.fresh⟩
  have hj : (s.conns.modify c fun k => { k with closing := false })[c]? = some { k with closing := false } := by
    rw [List.getElem?_modify_eq, hk]
    rfl
  exact removeConnection_inv (hback.called hserving _) hj hserving hdue (hg.single hclosing) rfl hstate

theorem destroys_due {l : Life P} {e : ConnectionLife.Event P} (he : System.ofServer e = true) (hl : due l = 0) :
    due (ConnectionLife.next l e) = 1 := by
  cases e with
  | queueDestroyed => rw [queueDestroyed_due, hl]
  | destroyInLoop =>
      have hb := beginDestroyed_due l.hosted l
      simp only [due, runs] at hl
      exact hb.trans (by omega)
  | call | test | store | finish | functor | delayedClose | poll | readEvent | writeEvent | others | destroyNotify
  | destroyEnd => cases he

theorem destroys_not_closes {l : Life P} {e : ConnectionLife.Event P} (he : System.ofServer e = true) :
    ¬ Closes l e := by
  cases e with
  | queueDestroyed | destroyInLoop => simp [Closes, Executes]
  | call | test | store | finish | functor | delayedClose | poll | readEvent | writeEvent | others | destroyNotify
  | destroyEnd => cases he

theorem destroys_connecting {l : Life P} {e : ConnectionLife.Event P} (he : System.ofServer e = true)
    (hl : l.hosted.conn.state = .kConnecting) : (ConnectionLife.next l e).hosted.conn.state = .kConnecting := by
  cases e with
  | queueDestroyed => exact hl
  | destroyInLoop => exact hl
  | call | test | store | finish | functor | delayedClose | poll | readEvent | writeEvent | others | destroyNotify
  | destroyEnd => cases he

theorem destroyItem_inv {s : System L P} (h : Inv s) {c : Nat} {k : Conn L P} (hk : s.conns[c]? = some k)
    (hstage : s.stage = .destroying) (hlookup : s.server.connections.lookup k.name = some c) :
    Inv (destroyItem c s) := by
  have hg := h.each c k hk
  have hleft : s.stage ≠ .serving := by
    rw [hstage]
    decide
  have hnone := h.still hleft
  obtain ⟨e, he, heq⟩ : ∃ e, System.ofServer e = true ∧ destroyItem c s =
      { s with
        server := { s.server with connections := s.server.connections.erase k.name }
        conns := s.conns.modify c (Conn.step e) } := by
    refine ⟨_, ?_, by simp only [destroyItem, hk]; rfl⟩
    split
    · rfl
    · rfl
  have hdue : due (k.step e).life = 1 := destroys_due he (hg.kept (.inl hlookup))
  have hclosing : (k.step e).closing = false := by
    rcases step_closing k e with ⟨hc, _⟩ | ⟨hc, _⟩
    · exact hc.trans (hg.still hleft)
    · exact absurd hc (destroys_not_closes he)
  have hself : Good (destroyItem c s) c (k.step e) := by
    rw [heq]
    refine ⟨hdue.le, fun hkept => ?_, fun hd => ?_, fun hc => ?_, fun _ => hclosing, fun hf => ?_⟩
    · rw [hclosing, hnone, show (k.step e).name = k.name from rfl, AList.lookup_erase] at hkept
      simp at hkept
    · rw [hclosing, hnone] at hd
      simp [hstage] at hd
    · rw [hclosing] at hc
      cases hc
    · exact destroys_connecting he (hg.fresh hf)
  refine ⟨by rw [heq]; exact h.nodup, ?_, by rw [heq]; exact h.still, ?_, by rw [heq]; exact h.calls⟩
  · rw [heq, List.length_modify]
    exact h.valid
  · refine each_modify (f := Conn.step e) (by rw [heq]) hk hself fun d j _ hj => ?_
    refine (h.each d j hj).mono ?_ (by rw [heq]; exact id) (by rw [heq])
    rw [heq]
    exact lookup_of_erase

theorem newConnection_fresh (sockfd : Int) (self : P) (s : System L P) :
    ∃ k : Conn L P, (newConnection sockfd self s).conns = s.conns ++ [k] ∧ due k.life = 0 ∧ k.closing = false ∧
      (k.established = false → k.life.hosted.conn.state = .kConnecting) := by
  refine ⟨_, rfl, ?_⟩
  split
  · refine ⟨rfl, rfl, fun hf => ?_⟩
    cases hf
  · exact ⟨rfl, rfl, fun _ => rfl⟩

theorem accept_inv {s : System L P} (h : Inv s) (sockfd : Int) (self : P) : Inv (newConnection sockfd self s) := by
  obtain ⟨k, hconns, hdue, hclosing, hfresh⟩ := newConnection_fresh sockfd self s
  have hnew : s.conns.length ∉ s.removals := fun hm => absurd (h.valid _ hm) (lt_irrefl _)
  refine ⟨h.nodup, fun c hc => ?_, h.still, fun c j hj => ?_, h.calls⟩
  · rw [hconns, List.length_append]
    exact Nat.lt_add_right _ (h.valid c hc)
  · rw [hconns] at hj
    by_cases hc : c < s.conns.length
    · rw [List.getElem?_append_left hc] at hj
      refine (h.each c j hj).mono (fun hl => ?_) id rfl
      have hinsert : (newConnection sockfd self s).server.connections = s.server.connections.insert
          (connName s.server.name s.server.ipPort s.server.nextConnId.val) s.conns.length := rfl
      rw [hinsert] at hl
      by_cases hn : j.name = connName s.server.name s.server.ipPort s.server.nextConnId.val
      · rw [hn, AList.lookup_insert] at hl
        exact absurd (Option.some.inj hl).symm (Nat.ne_of_lt hc)
      · rwa [AList.lookup_insert_ne hn] at hl
    · have hlast : c = s.conns.length := by
        have hlt := (List.getElem?_eq_some_iff.mp hj).1
        rw [List.length_append, List.length_singleton] at hlt
        omega
      subst c
      rw [List.getElem?_concat_length] at hj
      cases hj
      refine ⟨by omega, fun _ => hdue, fun hd => ?_, fun _ => hnew, fun _ => hclosing, hfresh⟩
      rcases hd with hd | hd | hd
      · exact absurd hd hnew
      · rw [hclosing] at hd
        cases hd
      · rw [hdue] at hd
        exact absurd hd.2 (lt_irrefl 0)

theorem step_inv (s : System L P) (e : System.Event P) (h : Inv s) (he : System.Enabled s e ∧ Orderly s e) :
    Inv (s.next e) := by
  obtain ⟨hen, ho⟩ := he
  cases e with
  | accept sockfd self => exact accept_inv h sockfd self
  | established c =>
      obtain ⟨k, hk, hf⟩ := hen
      exact established_inv h hk hf
  | conn c e =>
      obtain ⟨hserver, k, hk, hest, _, hl⟩ := hen
      exact conn_inv h hk hserver hest hl ho
  | closeCallback c =>
      obtain ⟨k, hk, hc⟩ := hen
      exact closeCallback_inv h hk hc
  | removal =>
      simp only [System.next]
      split
      · exact h
      · rename_i c cs hr
        exact removal_inv h hr
  | destroy => exact h.leave (by decide) ho.1 ho.2
  | destroyItem c =>
      obtain ⟨hstage, k, hk, hl⟩ := hen
      exact destroyItem_inv h hk hstage hl
  | destroyed =>
      have hleft : s.stage ≠ .serving := by
        rw [hen.1]
        decide
      refine h.leave (by decide) (h.still hleft) fun k hk => ?_
      obtain ⟨c, hc⟩ := List.getElem?_of_mem hk
      exact (h.each c k hc).still hleft

end Webserver.Teardown
