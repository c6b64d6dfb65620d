/-! Computations that return. -/

namespace Except

variable {ε α β ι : Type}

theorem ok_bind (x : α) (f : α → Except ε β) : (Except.ok x >>= f) = f x := rfl

theorem pure_ok (x : α) : (pure x : Except ε α) = .ok x := rfl

/-- A loop whose rounds return is a fold. -/
theorem foldlM_ok {f : β → ι → Except ε β} {g : β → ι → β} (h : ∀ b i, f b i = .ok (g b i)) (is : List ι) (b : β) :
    is.foldlM f b = .ok (is.foldl g b) := by
  induction is generalizing b with
  | nil => rfl
  | cons i is ih => rw [List.foldlM_cons, h, ok_bind, ih, List.foldl_cons]

end Except
