import Mathlib.Data.List.Induction
import Webserver.ConnectionSteps

namespace Webserver.DownNotification

open Runs TcpConnection ConnectionLife ConnectionSteps

variable {P : Type}

def Up (s : Life P) : Prop := .connectionCallback .kConnected ∈ s.hosted.trace

def Down (s : Life P) : Prop := .connectionCallback .kDisconnected ∈ s.hosted.trace

def Matched (s : Life P) : Prop := Up s → Returned s → Down s

def WasDisconnected (s : Life P) (es : List (Event P)) : Prop :=
  ∃ ds, ds <+: es ∧ (run next s ds).hosted.conn.state = .kDisconnected

/-- connectDestroyed does not reach its end in state kDisconnecting, but for a
connection that has been disconnected and was put back by another thread's store. -/
def Settled (s : Life P) (es : List (Event P)) : Prop :=
  ∀ ds fs, es = ds ++ .destroyEnd :: fs → (run next s ds).destroying = .notified →
    (run next s ds).hosted.conn.state = .kDisconnecting → WasDisconnected s ds

structure Announced (s : Life P) : Prop where
  up : Up s
  down : s.hosted.conn.state = .kDisconnected → Down s
  started : s.hosted.conn.state ≠ .kConnecting
  past : s.destroying = .tested false ∨ s.destroying = .notified → s.hosted.conn.state ≠ .kConnected

theorem up_iff (s : Life P) : Up s ↔ .connectionCallback .kConnected ∈ lifeTrace s.hosted :=
  (mem_lifeTrace rfl s.hosted).symm

theorem down_iff (s : Life P) : Down s ↔ .connectionCallback .kDisconnected ∈ lifeTrace s.hosted :=
  (mem_lifeTrace rfl s.hosted).symm

theorem step_announced (s : Life P) (e : Event P) (h : Announced s) : Announced (next s e) := by
  have hup := (up_iff s).mp h.up
  have hdown := h.down
  rw [down_iff] at hdown
  cases step_kind s e with
  | mild hlife hstate hdest =>
      refine ⟨?_, ?_, hstate ▸ h.started, ?_⟩
      · rw [up_iff, hlife]; exact hup
      · rw [down_iff, hlife, hstate]; exact hdown
      · rw [hdest, hstate]; exact h.past
  | leaving _ hlife hstate hdest | store _ hlife hstate hdest =>
      refine ⟨?_, by simp [hstate], by simp [hstate], by simp [hstate]⟩
      rw [up_iff, hlife]; exact hup
  | close _ hlife hstate | notify _ _ hlife hstate =>
      refine ⟨?_, fun _ => ?_, by simp [hstate], by simp [hstate]⟩
      · rw [up_iff, hlife]; exact List.mem_append_left _ hup
      · rw [down_iff, hlife]; simp [closing]
  | begins _ hlife hstate hdest =>
      refine ⟨?_, ?_, hstate ▸ h.started, ?_⟩
      · rw [up_iff, hlife]; exact hup
      · rw [down_iff, hlife, hstate]; exact hdown
      · rw [hdest, hstate]; simp
  | skip hevent hbefore hlife hstate hdest =>
      refine ⟨?_, ?_, hstate ▸ h.started, fun _ => hstate ▸ h.past (.inl hbefore)⟩
      · rw [up_iff, hlife]; exact hup
      · rw [down_iff, hlife, hstate]; exact hdown
  | finish hevent hbefore hlife hstate hdest =>
      refine ⟨?_, fun hd => ?_, hstate ▸ h.started, by simp [hdest]⟩
      · rw [up_iff, hlife]; exact List.mem_append_left _ hup
      · rw [down_iff, hlife]; exact List.mem_append_left _ (hdown (hstate ▸ hd))

theorem Down.step {s : Life P} (hd : Down s) (e : Event P) : Down (next s e) := by
  rw [down_iff] at hd ⊢
  cases step_kind s e with
  | mild hlife | leaving _ hlife | store _ hlife | begins _ hlife | skip _ _ hlife => rw [hlife]; exact hd
  | close _ hlife | notify _ _ hlife | finish _ _ hlife => rw [hlife]; exact List.mem_append_left _ hd

theorem returned_before {s : Life P} {e : Event P} (hend : ¬ (e = .destroyEnd ∧ s.destroying = .notified))
    (hr : Returned (next s e)) : Returned s := by
  rw [returned_iff] at hr ⊢
  cases step_kind s e with
  | mild hlife | leaving _ hlife | store _ hlife | begins _ hlife | skip _ _ hlife => rwa [hlife] at hr
  | close _ hlife =>
      rw [hlife, List.mem_append] at hr
      exact hr.resolve_right (by simp [closing])
  | notify _ _ hlife =>
      rw [hlife, List.mem_append] at hr
      exact hr.resolve_right (by simp)
  | finish hevent hbefore => exact absurd ⟨hevent, hbefore⟩ hend

def Told (s : Life P) : Event P → Prop
  | .destroyEnd => s.destroying = .notified → s.hosted.conn.state = .kDisconnecting → Down s
  | _ => True

theorem step_matched (s : Life P) (e : Event P) (h : Announced s) (hm : Matched s) (htold : Told s e) :
    Matched (next s e) := by
  intro _ hret
  by_cases hend : e = .destroyEnd ∧ s.destroying = .notified
  · obtain ⟨rfl, hd⟩ := hend
    have hdown : Down s := by
      have hconnected := h.past (.inr hd)
      have hconnecting := h.started
      cases hst : s.hosted.conn.state with
      | kConnecting => exact absurd hst hconnecting
      | kConnected => exact absurd hst hconnected
      | kDisconnecting => exact htold hd hst
      | kDisconnected => exact h.down hst
    exact hdown.step .destroyEnd
  · exact (hm h.up (returned_before hend hret)).step e

theorem step_matched_iff (s : Life P) (e : Event P) (h : Announced s) (hm : Matched s) :
    Matched (next s e) ↔ Told s e := by
  refine ⟨fun hmatched => ?_, step_matched s e h hm⟩
  cases e with
  | destroyEnd =>
      intro hd _
      have hlife : lifeTrace (next s .destroyEnd).hosted = lifeTrace s.hosted ++ [.returnConnectDestroyed] := by
        simp only [next, hd]
        exact removeDestroyed_life s.hosted
      have hret : Returned (next s .destroyEnd) := by
        rw [returned_iff, hlife]
        simp
      have hdown := hmatched (step_announced s .destroyEnd h).up hret
      rw [down_iff, hlife, List.mem_append] at hdown
      exact (down_iff s).mpr (hdown.resolve_right (by simp))
  | call | test | store | finish | functor | delayedClose | poll | readEvent | writeEvent | others | queueDestroyed
  | destroyInLoop | destroyNotify => trivial

theorem down_before {s : Life P} {e : Event P} (hd : Down (next s e)) :
    Down s ∨ (next s e).hosted.conn.state = .kDisconnected := by
  rw [down_iff] at hd ⊢
  cases step_kind s e with
  | mild hlife | leaving _ hlife | store _ hlife | begins _ hlife | skip _ _ hlife =>
      rw [hlife] at hd
      exact .inl hd
  | close _ _ hstate | notify _ _ _ hstate => exact .inr hstate
  | finish _ _ hlife =>
      rw [hlife, List.mem_append] at hd
      exact .inl (hd.resolve_right (by simp))

theorem Down.run {s : Life P} (hd : Down s) (es : List (Event P)) : Down (run next s es) := by
  induction es generalizing s with
  | nil => exact hd
  | cons e es ih => exact ih (hd.step e)

theorem run_announced {s : Life P} (h : Announced s) (es : List (Event P)) : Announced (run next s es) :=
  (always_of_step (fun s e h _ => step_announced s e h) h (meets_true s es)).last

theorem down_iff_was {s : Life P} (h : Announced s) (hs : ¬ Down s) (es : List (Event P)) :
    Down (run next s es) ↔ WasDisconnected s es := by
  constructor
  · intro hd
    induction es using List.reverseRecOn with
    | nil => exact absurd hd hs
    | append_singleton es e ih =>
        rw [run_append] at hd
        rcases down_before hd with hbefore | hnow
        · obtain ⟨ds, hds, hst⟩ := ih hbefore
          exact ⟨ds, hds.trans (List.prefix_append es [e]), hst⟩
        · exact ⟨es ++ [e], List.prefix_rfl, by rw [run_append]; exact hnow⟩
  · rintro ⟨ds, ⟨fs, rfl⟩, hst⟩
    rw [run_append]
    exact ((run_announced h ds).down hst).run fs

theorem told_iff_settled {s : Life P} (h : Announced s) (hs : ¬ Down s) (es : List (Event P)) :
    Meets next Told s es ↔ Settled s es := by
  rw [meets_iff]
  constructor
  · intro htold ds fs hes hd hst
    exact (down_iff_was h hs ds).mp (htold ds .destroyEnd fs hes hd hst)
  · intro hset ds e fs hes
    cases e with
    | destroyEnd => exact fun hd hst => (down_iff_was h hs ds).mpr (hset ds fs hes hd hst)
    | call | test | store | finish | functor | delayedClose | poll | readEvent | writeEvent | others | queueDestroyed
    | destroyInLoop | destroyNotify => trivial

theorem start_announced (self : P) (fd : Int) (callback : Bool) : Announced (start self fd callback) := by
  constructor <;> simp [Up, Down, start, established, connectEstablished, emit, onChannel, setState]

theorem start_not_down (self : P) (fd : Int) (callback : Bool) : ¬ Down (start self fd callback) := by
  simp [Down, start, established, connectEstablished, emit, onChannel, setState]

theorem start_matched (self : P) (fd : Int) (callback : Bool) : Matched (start self fd callback) := by
  intro _ hret
  simp [Returned, start, established, connectEstablished, emit, onChannel, setState] at hret

end Webserver.DownNotification
