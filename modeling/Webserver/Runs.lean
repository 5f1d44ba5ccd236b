import Mathlib.Data.List.Basic

namespace Webserver.Runs

variable {σ ε : Type} (next : σ → ε → σ)

def run (s : σ) (es : List ε) : σ := es.foldl next s

/-- Every step of the run meets C, a condition on the state before the step
and on the event that is taken. -/
def Meets (C : σ → ε → Prop) : σ → List ε → Prop
  | _, [] => True
  | s, e :: es => C s e ∧ Meets C (next s e) es

def Always (P : σ → Prop) : σ → List ε → Prop
  | s, [] => P s
  | s, e :: es => P s ∧ Always P (next s e) es

instance decidableMeets (C : σ → ε → Prop) [∀ s e, Decidable (C s e)] :
    ∀ s es, Decidable (Meets next C s es)
  | _, [] => isTrue trivial
  | s, e :: es => @instDecidableAnd _ _ _ (decidableMeets C (next s e) es)

instance decidableAlways (P : σ → Prop) [∀ s, Decidable (P s)] :
    ∀ s es, Decidable (Always next P s es)
  | s, [] => inferInstanceAs (Decidable (P s))
  | s, e :: es => @instDecidableAnd _ _ _ (decidableAlways P (next s e) es)

theorem run_append (s : σ) (ds es : List ε) : run next s (ds ++ es) = run next (run next s ds) es := by
  simp [run]

theorem meets_append (C : σ → ε → Prop) (s : σ) (ds es : List ε) :
    Meets next C s (ds ++ es) ↔ Meets next C s ds ∧ Meets next C (run next s ds) es := by
  induction ds generalizing s with
  | nil => simp [Meets, run]
  | cons d ds ih => simp [Meets, run, ih, and_assoc]

variable {next}

theorem meets_and {C D : σ → ε → Prop} {s : σ} {es : List ε} :
    Meets next (fun s e => C s e ∧ D s e) s es ↔ Meets next C s es ∧ Meets next D s es := by
  induction es generalizing s with
  | nil => simp [Meets]
  | cons e es ih => simp only [Meets, ih]; tauto

theorem meets_mono {C D : σ → ε → Prop} (h : ∀ s e, C s e → D s e) {s : σ} {es : List ε}
    (hC : Meets next C s es) : Meets next D s es := by
  induction es generalizing s with
  | nil => trivial
  | cons e es ih => exact ⟨h s e hC.1, ih hC.2⟩

theorem meets_congr {C D : σ → ε → Prop} (h : ∀ s e, C s e ↔ D s e) {s : σ} {es : List ε} :
    Meets next C s es ↔ Meets next D s es :=
  ⟨meets_mono fun s e => (h s e).mp, meets_mono fun s e => (h s e).mpr⟩

theorem always_mono {P Q : σ → Prop} (h : ∀ s, P s → Q s) {s : σ} {es : List ε}
    (hP : Always next P s es) : Always next Q s es := by
  induction es generalizing s with
  | nil => exact h s hP
  | cons e es ih => exact ⟨h s hP.1, ih hP.2⟩

theorem Always.first {P : σ → Prop} {s : σ} {es : List ε} (h : Always next P s es) : P s := by
  cases es with
  | nil => exact h
  | cons e es => exact h.1

theorem Always.last {P : σ → Prop} {s : σ} {es : List ε} (h : Always next P s es) :
    P (run next s es) := by
  induction es generalizing s with
  | nil => exact h
  | cons e es ih => exact ih h.2

theorem Always.meets {P : σ → Prop} {s : σ} {es : List ε} (h : Always next P s es) :
    Meets next (fun s _ => P s) s es := by
  induction es generalizing s with
  | nil => trivial
  | cons e es ih => exact ⟨h.1, ih h.2⟩

theorem Always.meets_next {P : σ → Prop} {s : σ} {es : List ε} (h : Always next P s es) :
    Meets next (fun s e => P (next s e)) s es := by
  induction es generalizing s with
  | nil => trivial
  | cons e es ih => exact ⟨h.2.first, ih h.2⟩

/-- The invariant rule: what holds at the start and survives every step that
meets C holds all along a run whose steps meet C. -/
theorem always_of_step {P : σ → Prop} {C : σ → ε → Prop}
    (hstep : ∀ s e, P s → C s e → P (next s e)) {s : σ} {es : List ε}
    (hs : P s) (hC : Meets next C s es) : Always next P s es := by
  induction es generalizing s with
  | nil => exact hs
  | cons e es ih => exact ⟨hs, ih (hstep s e hs hC.1) hC.2⟩

theorem history_of_step {P : List ε → σ → Prop} {C : σ → ε → Prop}
    (hstep : ∀ ds s e, P ds s → C s e → P (ds ++ [e]) (next s e)) {s : σ} {es : List ε}
    (hs : P [] s) (hC : Meets next C s es) : P es (run next s es) := by
  have hall : ∀ (ds es : List ε) (s : σ), P ds s → Meets next C s es → P (ds ++ es) (run next s es) := by
    intro ds es
    induction es generalizing ds with
    | nil =>
        intro s hs _
        rwa [List.append_nil]
    | cons e es ih =>
        intro s hs hC
        have hrest := ih (ds ++ [e]) (next s e) (hstep ds s e hs hC.1) hC.2
        rwa [List.append_assoc] at hrest
  exact hall [] es s hs hC

theorem meets_iff {C : σ → ε → Prop} {s : σ} {es : List ε} :
    Meets next C s es ↔ ∀ ds e fs, es = ds ++ e :: fs → C (run next s ds) e := by
  constructor
  · rintro hC ds e fs rfl
    exact ((meets_append next C s ds (e :: fs)).mp hC).2.1
  · intro h
    induction es generalizing s with
    | nil => trivial
    | cons e es ih =>
        refine ⟨h [] e es rfl, ih fun ds d fs hes => ?_⟩
        exact h (e :: ds) d fs (by rw [hes, List.cons_append])

/-- The exact form of the invariant rule: a step does D and keeps P exactly
when it meets C, so a run does so throughout exactly when all its steps meet C. -/
theorem always_and_meets_iff {P : σ → Prop} {C D : σ → ε → Prop}
    (hstep : ∀ s e, P s → (D s e ∧ P (next s e) ↔ C s e)) {s : σ} {es : List ε} (hs : P s) :
    Always next P s es ∧ Meets next D s es ↔ Meets next C s es := by
  induction es generalizing s with
  | nil => exact ⟨fun _ => trivial, fun _ => ⟨hs, trivial⟩⟩
  | cons e es ih =>
      constructor
      · rintro ⟨⟨_, ha⟩, hd, hm⟩
        have hn : P (next s e) := ha.first
        exact ⟨(hstep s e hs).mp ⟨hd, hn⟩, (ih hn).mp ⟨ha, hm⟩⟩
      · rintro ⟨hc, hm⟩
        obtain ⟨hd, hn⟩ := (hstep s e hs).mpr hc
        obtain ⟨ha, hm⟩ := (ih hn).mpr hm
        exact ⟨⟨hs, ha⟩, hd, hm⟩

theorem always_iff_meets {I P : σ → Prop} {C D : σ → ε → Prop} (hI : ∀ s e, I s → D s e → I (next s e))
    (hstep : ∀ s e, I s → D s e → P s → (P (next s e) ↔ C s e)) {s : σ} {es : List ε} (hi : I s) (hs : P s)
    (hD : Meets next D s es) : Always next P s es ↔ Meets next C s es := by
  induction es generalizing s with
  | nil => exact ⟨fun _ => trivial, fun _ => hs⟩
  | cons e es ih =>
      have hn := hI s e hi hD.1
      constructor
      · rintro ⟨_, ha⟩
        have hp : P (next s e) := ha.first
        exact ⟨(hstep s e hi hD.1 hs).mp hp, (ih hn hp hD.2).mp ha⟩
      · rintro ⟨hc, hm⟩
        have hp := (hstep s e hi hD.1 hs).mpr hc
        exact ⟨hs, (ih hn hp hD.2).mpr hm⟩

theorem meets_of_step {I : σ → Prop} {C D : σ → ε → Prop} (hI : ∀ s e, I s → D s e → I (next s e))
    (h : ∀ s e, I s → D s e → C s e) {s : σ} {es : List ε} (hi : I s) (hD : Meets next D s es) :
    Meets next C s es := by
  induction es generalizing s with
  | nil => trivial
  | cons e es ih => exact ⟨h s e hi hD.1, ih (hI s e hi hD.1) hD.2⟩

theorem meets_of_forall {C : ε → Prop} (s : σ) {es : List ε} (h : ∀ e ∈ es, C e) : Meets next (fun _ e => C e) s es := by
  induction es generalizing s with
  | nil => trivial
  | cons e es ih => exact ⟨h e List.mem_cons_self, ih (next s e) fun d hd => h d (List.mem_cons_of_mem e hd)⟩

/-- The rule of ranks: where no step raises the rank and every counted step lowers
it while there is something left, as many counted steps as the rank use it up. -/
theorem rank_run_le {I : σ → Prop} {C : σ → ε → Prop} (rank : σ → Nat) (counted : ε → Bool)
    (hI : ∀ s e, I s → C s e → I (next s e)) (hle : ∀ s e, I s → C s e → rank (next s e) ≤ rank s)
    (hlt : ∀ s e, I s → C s e → counted e = true → rank (next s e) ≤ rank s - 1) {s : σ} {es : List ε} (hi : I s)
    (hC : Meets next C s es) : rank (run next s es) ≤ rank s - es.countP counted := by
  induction es generalizing s with
  | nil => exact Nat.le_refl _
  | cons e es ih =>
      have hrest := ih (hI s e hi hC.1) hC.2
      have hrun : run next s (e :: es) = run next (next s e) es := rfl
      rw [hrun, List.countP_cons]
      by_cases he : counted e = true
      · have hstep := hlt s e hi hC.1 he
        rw [if_pos he]
        omega
      · have hstep := hle s e hi hC.1
        rw [if_neg he]
        omega

variable (next) in
def Reaches (C : σ → ε → Prop) (P : σ → Prop) (s : σ) : Prop := ∃ es, Meets next C s es ∧ P (run next s es)

theorem not_reaches_of_step {I P : σ → Prop} {C : σ → ε → Prop} (hI : ∀ s e, I s → C s e → I (next s e))
    (hP : ∀ s, I s → ¬ P s) {s : σ} (hi : I s) : ¬ Reaches next C P s := by
  rintro ⟨es, hC, hp⟩
  exact hP _ (always_of_step hI hi hC).last hp

theorem meets_true (s : σ) (es : List ε) : Meets next (fun _ _ => True) s es := by
  induction es generalizing s with
  | nil => trivial
  | cons e es ih => exact ⟨trivial, ih (next s e)⟩

end Webserver.Runs
