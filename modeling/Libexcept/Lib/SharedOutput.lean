import Mathlib.Logic.Function.Basic
import Mathlib.Logic.Relation

/-! Writers that share one output. A writer starts once, with the items it has to write, and writes them
    one by one between those of the others. -/

namespace SharedOutput

structure State (ι β : Type) where
  /-- what each writer that has started has to write -/
  content : ι → Option (List β)
  /-- what it has not written yet -/
  left : ι → List β
  output : List (ι × β)

variable {ι β : Type} [DecidableEq ι]

/-- The items of one writer, in the order of the output. -/
def itemsOf (i : ι) (output : List (ι × β)) : List β :=
  output.filterMap fun entry => if entry.1 = i then some entry.2 else none

inductive Step : State ι β → State ι β → Prop
  | start {s : State ι β} {i : ι} (items : List β) (hnew : s.content i = none) :
      Step s { s with content := Function.update s.content i (some items), left := Function.update s.left i items }
  | write {s : State ι β} {i : ι} {b : β} {rest : List β} (hleft : s.left i = b :: rest) :
      Step s { s with left := Function.update s.left i rest, output := s.output ++ [(i, b)] }

def State.empty : State ι β := { content := fun _ => none, left := fun _ => [], output := [] }

/-- The items of a writer in the output, and those it has left, are what it started with. -/
def Intact (s : State ι β) : Prop := ∀ i, itemsOf i s.output ++ s.left i = (s.content i).getD []

variable {s t : State ι β} {output : List (ι × β)} {i j : ι}

theorem itemsOf_concat_self (b : β) : itemsOf i (output ++ [(i, b)]) = itemsOf i output ++ [b] := by
  simp [itemsOf]

theorem itemsOf_concat_of_ne (h : j ≠ i) (b : β) : itemsOf i (output ++ [(j, b)]) = itemsOf i output := by
  simp [itemsOf, h]

theorem mem_itemsOf {b : β} : b ∈ itemsOf i output ↔ (i, b) ∈ output := by
  simp only [itemsOf, List.mem_filterMap, Option.ite_none_right_eq_some, Option.some.injEq]
  constructor
  · rintro ⟨entry, hentry, rfl, rfl⟩
    exact hentry
  · intro h
    exact ⟨_, h, rfl, rfl⟩

theorem Intact.empty : Intact (.empty : State ι β) := fun _ => rfl

theorem Intact.of_none (hs : Intact s) (h : s.content i = none) : itemsOf i s.output = [] ∧ s.left i = [] := by
  have hnone := hs i
  rw [h] at hnone
  exact List.append_eq_nil_iff.mp hnone

theorem Intact.step (h : Step s t) (hs : Intact s) : Intact t := by
  intro j
  cases h with
  | @start i items hnew =>
    dsimp only
    by_cases hji : j = i
    · subst hji
      rw [Function.update_self, Function.update_self, (hs.of_none hnew).1]
      rfl
    · rw [Function.update_of_ne hji, Function.update_of_ne hji]
      exact hs j
  | @write i b rest hleft =>
    dsimp only
    by_cases hji : j = i
    · subst hji
      rw [itemsOf_concat_self, Function.update_self, List.append_assoc, List.singleton_append, ← hleft]
      exact hs j
    · rw [itemsOf_concat_of_ne (Ne.symm hji), Function.update_of_ne hji]
      exact hs j

theorem Intact.run (h : Relation.ReflTransGen Step s t) (hs : Intact s) : Intact t := by
  induction h with
  | refl => exact hs
  | tail _ h ih => exact ih.step h

/-! ### Writers that are not resumed -/

/-- The output is that of the writers one after the other, the last of `order` first. -/
def Grouped (order : List ι) (output : List (ι × β)) : Prop :=
  output = order.reverse.flatMap fun i => (itemsOf i output).map (Prod.mk i)

variable {order : List ι}

theorem Grouped.start (h : Grouped order output) (hnew : itemsOf i output = []) : Grouped (i :: order) output := by
  unfold Grouped
  rw [List.reverse_cons, List.flatMap_append, ← h, List.flatMap_singleton, hnew, List.map_nil, List.append_nil]

theorem Grouped.write (h : Grouped (i :: order) output) (hi : i ∉ order) (b : β) :
    Grouped (i :: order) (output ++ [(i, b)]) := by
  have hother : (order.reverse.flatMap fun j => (itemsOf j (output ++ [(i, b)])).map (Prod.mk j)) =
      order.reverse.flatMap fun j => (itemsOf j output).map (Prod.mk j) := by
    refine congrArg List.flatten (List.map_congr_left fun j hj => ?_)
    have hne : i ≠ j := fun hsame => hi (hsame ▸ List.mem_reverse.mp hj)
    rw [itemsOf_concat_of_ne hne]
  unfold Grouped at h ⊢
  rw [List.reverse_cons, List.flatMap_append, List.flatMap_singleton] at h ⊢
  rw [hother, itemsOf_concat_self, List.map_append, ← List.append_assoc, ← h]
  rfl

/-- The items of all writers, in the order in which they started. -/
theorem Grouped.items (h : Grouped order output) :
    output.map Prod.snd = (order.map fun i => itemsOf i output).reverse.flatten := by
  have hmap := congrArg (List.map Prod.snd) h
  rw [List.map_flatMap] at hmap
  simp only [List.map_map, Function.comp_def, List.map_id'] at hmap
  rw [hmap, ← List.map_reverse, List.flatMap_def]

end SharedOutput
