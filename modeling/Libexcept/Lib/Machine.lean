import Mathlib.Logic.Relation

/-! Runs of a machine given by an executable step. An action that is not possible has no next state,
    and neither has a run that comes to it. -/

namespace Machine

variable {σ τ α : Type} {step : σ → α → Option σ} {s t : σ} {acts : List α}

def run (step : σ → α → Option σ) : σ → List α → Option σ
  | s, [] => some s
  | s, a :: acts => (step s a).bind fun t => run step t acts

theorem run_cons {a : α} : run step s (a :: acts) = some t ↔ ∃ u, step s a = some u ∧ run step u acts = some t :=
  Option.bind_eq_some_iff

theorem run_append {acts' : List α} :
    run step s (acts ++ acts') = some t ↔ ∃ u, run step s acts = some u ∧ run step u acts' = some t := by
  induction acts generalizing s with
  | nil => simp [run]
  | cons a acts ih =>
    rw [List.cons_append, run_cons]
    simp only [run_cons, ih]
    constructor
    · rintro ⟨u, hu, v, hv, hrest⟩
      exact ⟨v, ⟨u, hu, hv⟩, hrest⟩
    · rintro ⟨v, ⟨u, hu, hv⟩, hrest⟩
      exact ⟨u, hu, v, hv, hrest⟩

/-- What every step keeps, from the actions of a kind, every run of such actions keeps. -/
theorem run_invariant_of {P : α → Prop} {I : σ → Prop} (hstep : ∀ {s t a}, P a → step s a = some t → I s → I t)
    (hacts : ∀ a ∈ acts, P a) (hrun : run step s acts = some t) (hs : I s) : I t := by
  induction acts generalizing s with
  | nil =>
    cases hrun
    exact hs
  | cons a acts ih =>
    obtain ⟨u, hu, hrest⟩ := run_cons.mp hrun
    have hnext := hstep (hacts a List.mem_cons_self) hu hs
    exact ih (fun b hb => hacts b (List.mem_cons_of_mem a hb)) hrest hnext

theorem run_invariant {I : σ → Prop} (hstep : ∀ {s t a}, step s a = some t → I s → I t)
    (hrun : run step s acts = some t) (hs : I s) : I t :=
  run_invariant_of (P := fun _ => True) (fun _ => hstep) (fun _ _ => trivial) hrun hs

/-- A machine whose steps are steps of a relation, or nothing to it, has its runs among the relation's. -/
theorem run_refines {R : τ → τ → Prop} {I : σ → Prop} (view : σ → τ)
    (hinv : ∀ {s t a}, step s a = some t → I s → I t)
    (hstep : ∀ {s t a}, step s a = some t → I s → Relation.ReflGen R (view s) (view t))
    (hrun : run step s acts = some t) (hs : I s) : Relation.ReflTransGen R (view s) (view t) := by
  induction acts generalizing s with
  | nil =>
    cases hrun
    exact .refl
  | cons a acts ih =>
    obtain ⟨u, hu, hrest⟩ := run_cons.mp hrun
    exact (hstep hu hs).to_reflTransGen.trans (ih hrest (hinv hu hs))

/-- A machine whose actions are possible for another one too, and keep the two related. -/
theorem run_lockstep {step' : τ → α → Option τ} {S : σ → τ → Prop} {u : τ}
    (hstep : ∀ {s t a u}, step s a = some t → S s u → ∃ v, step' u a = some v ∧ S t v)
    (hrun : run step s acts = some t) (hs : S s u) : ∃ v, run step' u acts = some v ∧ S t v := by
  induction acts generalizing s u with
  | nil =>
    cases hrun
    exact ⟨u, rfl, hs⟩
  | cons a acts ih =>
    obtain ⟨s', hs', hrest⟩ := run_cons.mp hrun
    obtain ⟨u', hu', hnext⟩ := hstep hs' hs
    obtain ⟨v, hv, ht⟩ := ih hrest hnext
    exact ⟨v, run_cons.mpr ⟨u', hu', hv⟩, ht⟩

/-! ### Measures -/

section Measure

variable {I : σ → Prop} {μ : σ → Nat}

/-- A run is no longer than the measure that its steps use up. -/
theorem run_length_le (hinv : ∀ {s t a}, step s a = some t → I s → I t)
    (hstep : ∀ {s t a}, step s a = some t → I s → μ t < μ s) (hrun : run step s acts = some t) (hs : I s) :
    acts.length + μ t ≤ μ s := by
  induction acts generalizing s with
  | nil =>
    cases hrun
    exact Nat.le_of_eq (Nat.zero_add _)
  | cons a acts ih =>
    obtain ⟨u, hu, hrest⟩ := run_cons.mp hrun
    have hused := hstep hu hs
    have htail := ih hrest (hinv hu hs)
    rw [List.length_cons]
    omega

/-- Actions of a kind that is possible up to a goal, and uses up the measure, reach the goal. -/
theorem run_reaches {P : α → Prop} {Q : σ → Prop} {f : Nat → α}
    (hstep : ∀ {s a}, P a → I s → ∃ t, step s a = some t ∧ μ t < μ s ∧ (Q t ∨ I t)) (hf : ∀ n, P (f n)) (hs : I s) :
    ∃ n t, n ≤ μ s ∧ run step s ((List.range n).map f) = some t ∧ Q t := by
  induction h : μ s using Nat.strongRecOn generalizing s f with
  | ind m ih =>
    subst h
    obtain ⟨u, hu, hused, hgoal | hnext⟩ := hstep (hf 0) hs
    · exact ⟨1, u, by omega, run_cons.mpr ⟨u, hu, rfl⟩, hgoal⟩
    · obtain ⟨n, t, hn, hrun, hgoal⟩ := ih (μ u) hused (f := fun n => f (n + 1)) (fun n => hf (n + 1)) hnext rfl
      refine ⟨n + 1, t, by omega, ?_, hgoal⟩
      rw [List.range_succ_eq_map, List.map_cons, List.map_map]
      exact run_cons.mpr ⟨u, hu, hrun⟩

end Measure

/-! ### Outputs -/

section Outputs

variable {ω : Type} {out : σ → α → List ω}

/-- What the actions of a run emit, one after the other. -/
def emitted (step : σ → α → Option σ) (out : σ → α → List ω) : σ → List α → List ω
  | _, [] => []
  | s, a :: acts => out s a ++ (step s a).elim [] fun t => emitted step out t acts

theorem emitted_cons {a : α} (h : step s a = some t) : emitted step out s (a :: acts) = out s a ++ emitted step out t acts := by
  rw [emitted, h, Option.elim_some]

theorem flatMap_emitted {ψ : Type} (f : ω → List ψ) (s : σ) (acts : List α) :
    (emitted step out s acts).flatMap f = emitted step (fun s a => (out s a).flatMap f) s acts := by
  induction acts generalizing s with
  | nil => rfl
  | cons a acts ih =>
    rw [emitted, emitted, List.flatMap_append]
    cases step s a with
    | none => rfl
    | some t => rw [Option.elim_some, Option.elim_some, ih]

/-- Machines in lockstep emit the same when their related states do. -/
theorem emitted_lockstep {step' : τ → α → Option τ} {out' : τ → α → List ω} {S : σ → τ → Prop} {u : τ}
    (hstep : ∀ {s t a u}, step s a = some t → S s u → out s a = out' u a ∧ ∃ v, step' u a = some v ∧ S t v)
    (hrun : run step s acts = some t) (hs : S s u) : emitted step out s acts = emitted step' out' u acts := by
  induction acts generalizing s u with
  | nil => rfl
  | cons a acts ih =>
    obtain ⟨s', hs', hrest⟩ := run_cons.mp hrun
    obtain ⟨hsame, u', hu', hnext⟩ := hstep hs' hs
    rw [emitted_cons hs', emitted_cons hu', hsame, ih hrest hnext]

/-- What is emitted, is emitted by an action of the run. -/
theorem mem_emitted {o : ω} (hrun : run step s acts = some t) (ho : o ∈ emitted step out s acts) :
    ∃ before a after u v, acts = before ++ a :: after ∧ run step s before = some u ∧ step u a = some v ∧
      run step v after = some t ∧ o ∈ out u a := by
  induction acts generalizing s with
  | nil => cases ho
  | cons a acts ih =>
    obtain ⟨s', hs', hrest⟩ := run_cons.mp hrun
    rw [emitted_cons hs', List.mem_append] at ho
    rcases ho with ho | ho
    · exact ⟨[], a, acts, s, s', rfl, rfl, hs', hrest, ho⟩
    · obtain ⟨before, b, after, u, v, rfl, hbefore, hv, hafter, ho⟩ := ih hrest ho
      exact ⟨a :: before, b, after, u, v, rfl, run_cons.mpr ⟨s', hs', hbefore⟩, hv, hafter, ho⟩

end Outputs

end Machine
