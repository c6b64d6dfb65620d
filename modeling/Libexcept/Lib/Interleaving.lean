import Libexcept.Lib.Machine

/-! Processes that share a state. Each is at a point of its own, and one step advances one of them, or
    starts a new one; the order of the steps is arbitrary. -/

namespace Interleaving

structure State (γ π : Type) where
  shared : γ
  /-- the oldest first -/
  procs : List π
deriving DecidableEq

inductive Op
  | start
  | advance (i : Nat)

variable {γ π : Type}

/-- `next` is what a process does at a point; one that has finished has no next point. -/
def step (init : π) (next : γ → π → Option (π × γ)) (s : State γ π) : Op → Option (State γ π)
  | .start => some { s with procs := s.procs ++ [init] }
  | .advance i =>
    match s.procs[i]? with
    | some p => (next s.shared p).map fun (p', shared) => ⟨shared, s.procs.set i p'⟩
    | none => none

variable {init : π} {next : γ → π → Option (π × γ)} {s t : State γ π} {op : Op}

inductive Effect (init : π) (next : γ → π → Option (π × γ)) (s t : State γ π) : Prop
  | started (hshared : t.shared = s.shared) (hprocs : t.procs = s.procs ++ [init])
  | advanced (before after : List π) (p p' : π) (hnext : next s.shared p = some (p', t.shared))
      (hold : s.procs = before ++ p :: after) (hnew : t.procs = before ++ p' :: after)

theorem step_effect (h : step init next s op = some t) : Effect init next s t := by
  cases op with
  | start =>
    cases h
    exact .started rfl rfl
  | advance i =>
    cases hp : s.procs[i]? with
    | none => simp [step, hp] at h
    | some p =>
      simp only [step, hp] at h
      obtain ⟨⟨p', shared⟩, hnext, ht⟩ := Option.map_eq_some_iff.mp h
      obtain ⟨hi, hget⟩ := List.getElem?_eq_some_iff.mp hp
      cases ht
      refine .advanced (s.procs.take i) (s.procs.drop (i + 1)) p p' hnext ?_ ?_
      · rw [← hget, List.getElem_cons_drop hi, List.take_append_drop]
      · exact List.set_eq_take_append_cons_drop.trans (if_pos hi)

/-- What holds of the shared state, and of each process beside it, is kept when no process disturbs the
    others by what it does. -/
theorem keeps_step {I : γ → Prop} {P : γ → π → Prop} (hinit : ∀ g, I g → P g init)
    (hnext : ∀ {g p p' g'}, I g → P g p → next g p = some (p', g') → I g' ∧ P g' p' ∧ ∀ q, P g q → P g' q)
    (h : step init next s op = some t) (hs : I s.shared ∧ ∀ p ∈ s.procs, P s.shared p) :
    I t.shared ∧ ∀ p ∈ t.procs, P t.shared p := by
  obtain ⟨hshared, hprocs⟩ := hs
  cases step_effect h with
  | started hsame hnew =>
    rw [hsame, hnew]
    refine ⟨hshared, fun p hp => ?_⟩
    rcases List.mem_append.mp hp with hp | hp
    · exact hprocs p hp
    · cases List.mem_singleton.mp hp
      exact hinit _ hshared
  | advanced before after p p' hadvance hold hnew =>
    rw [hold] at hprocs
    obtain ⟨hshared', hp', hstable⟩ := hnext hshared (hprocs p (by simp)) hadvance
    rw [hnew]
    refine ⟨hshared', fun q hq => ?_⟩
    rcases List.mem_append.mp hq with hq | hq
    · exact hstable q (hprocs q (by simp [hq]))
    · rcases List.mem_cons.mp hq with rfl | hq
      · exact hp'
      · exact hstable q (hprocs q (by simp [hq]))

/-- Processes that have finished are nothing to the others. -/
theorem run_finished {ops : List Op} {old : List π} (hold : ∀ p ∈ old, ∀ g, next g p = none) {new : List π} {g : γ}
    (hrun : Machine.run (step init next) ⟨g, old ++ new⟩ ops = some t) :
    ∃ ops' new', Machine.run (step init next) ⟨g, new⟩ ops' = some ⟨t.shared, new'⟩ ∧ t.procs = old ++ new' := by
  induction ops generalizing g new with
  | nil =>
    cases hrun
    exact ⟨[], new, rfl, rfl⟩
  | cons op ops ih =>
    obtain ⟨u, hu, hrest⟩ := Machine.run_cons.mp hrun
    cases op with
    | start =>
      cases hu
      rw [List.append_assoc] at hrest
      obtain ⟨ops', new', hnew, hprocs⟩ := ih hrest
      exact ⟨.start :: ops', new', Machine.run_cons.mpr ⟨_, rfl, hnew⟩, hprocs⟩
    | advance i =>
      by_cases hi : i < old.length
      · -- a finished process does not advance
        simp [step, List.getElem?_append_left hi, List.getElem?_eq_getElem hi, hold _ (List.getElem_mem hi)] at hu
      · have hle : old.length ≤ i := Nat.le_of_not_lt hi
        cases hp : new[i - old.length]? with
        | none => simp [step, List.getElem?_append_right hle, hp] at hu
        | some p =>
          simp only [step, List.getElem?_append_right hle, hp, List.set_append_right _ _ hle] at hu
          obtain ⟨⟨p', g'⟩, hnext, rfl⟩ := Option.map_eq_some_iff.mp hu
          obtain ⟨ops', new', hnew, hprocs⟩ := ih hrest
          refine ⟨.advance (i - old.length) :: ops', new', Machine.run_cons.mpr ⟨_, ?_, hnew⟩, hprocs⟩
          simp [step, hp, hnext]

end Interleaving
