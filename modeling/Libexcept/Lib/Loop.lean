import Mathlib.Tactic.Push

/-! Loops that change a value element by element and throw at the first element they refuse, and loops
    each round of which writes a place of its own. -/

namespace Loop

variable {ε σ ι β : Type}

/-- One round: `f` when the element is accepted, the exception of the element otherwise. -/
def guarded (accepts : ι → Bool) (refuse : ι → ε) (f : β → ι → β) (b : β) (i : ι) : EStateM ε σ β :=
  if accepts i then pure (f b i) else throw (refuse i)

variable {accepts : ι → Bool} {refuse : ι → ε} {f : β → ι → β} {is : List ι} {b : β} {s : σ}

theorem run_foldlM_guarded_cons {i : ι} :
    ((i :: is).foldlM (guarded accepts refuse f) b : EStateM ε σ β).run s =
      if accepts i then (is.foldlM (guarded accepts refuse f) (f b i) : EStateM ε σ β).run s
      else .error (refuse i) s := by
  rw [List.foldlM_cons]
  unfold guarded
  split <;> rfl

theorem run_foldlM_guarded_ok (h : ∀ i ∈ is, accepts i = true) :
    (is.foldlM (guarded accepts refuse f) b : EStateM ε σ β).run s = .ok (is.foldl f b) s := by
  induction is generalizing b with
  | nil => rfl
  | cons i is ih =>
    obtain ⟨hi, his⟩ := List.forall_mem_cons.mp h
    rw [run_foldlM_guarded_cons, if_pos hi, List.foldl_cons, ih his]

/-- The exception is that of the first refused element, whatever the elements around it are. -/
theorem run_foldlM_guarded_error {i : ι} (h : is.find? (fun i => !accepts i) = some i) :
    (is.foldlM (guarded accepts refuse f) b : EStateM ε σ β).run s = .error (refuse i) s := by
  induction is generalizing b with
  | nil => cases h
  | cons j is ih =>
    rw [run_foldlM_guarded_cons]
    cases hj : accepts j with
    | true =>
      rw [List.find?_cons_of_neg (by simp [hj])] at h
      rw [if_pos rfl, ih h]
    | false =>
      rw [List.find?_cons_of_pos (by simp [hj])] at h
      rw [if_neg Bool.false_ne_true, Option.some.inj h]

theorem find?_refused (h : ¬ ∀ i ∈ is, accepts i = true) : ∃ i, is.find? (fun i => !accepts i) = some i := by
  push Not at h
  obtain ⟨i, hi, hrefused⟩ := h
  exact Option.isSome_iff_exists.mp (List.find?_isSome.mpr ⟨i, hi, by simpa using hrefused⟩)

/-! ### Rounds with a place of their own -/

section Rounds

variable {round : σ → ι → σ} {i : ι}

/-- What no round changes, the loop does not change. -/
theorem foldl_keeps {g : σ → β} (h : ∀ s, ∀ i ∈ is, g (round s i) = g s) : g (is.foldl round s) = g s := by
  induction is generalizing s with
  | nil => rfl
  | cons i is ih => rw [List.foldl_cons, ih fun s j hj => h s j (List.mem_cons_of_mem i hj), h s i List.mem_cons_self]

/-- After the loop, a place is what its own round makes of it. -/
theorem foldl_own {get : σ → ι → β} (hother : ∀ s i j, i ≠ j → get (round s j) i = get s i)
    (hown : ∀ {s s'}, get s i = get s' i → get (round s i) i = get (round s' i) i) (hnodup : is.Nodup) (hi : i ∈ is) :
    get (is.foldl round s) i = get (round s i) i := by
  induction is generalizing s with
  | nil => cases hi
  | cons j is ih =>
    obtain ⟨hj, his⟩ := List.nodup_cons.mp hnodup
    rw [List.foldl_cons]
    rcases List.mem_cons.mp hi with rfl | hi
    · exact foldl_keeps (g := (get · i)) fun s k hk => hother s i k fun hsame => hj (hsame ▸ hk)
    · have hne : i ≠ j := fun hsame => hj (hsame ▸ hi)
      rw [ih his hi]
      exact hown (hother s i j hne)

end Rounds

end Loop
