import Mathlib.Data.Finset.Card
import Mathlib.Data.Finset.Dedup
import Mathlib.Logic.Relation

/-! Shots that can be fired once each, in any order. Firing a shot disarms it, so the shots that were
    fired are distinct, and they are no more than there were at the start. -/

namespace OneShot

structure State (α : Type) where
  armed : Finset α
  /-- the newest shot first -/
  fired : List α

variable {α : Type}

inductive Step [DecidableEq α] : State α → State α → Prop
  | fire {s : State α} {a : α} (ha : a ∈ s.armed) : Step s ⟨s.armed.erase a, a :: s.fired⟩

/-- Each shot of the start is armed or was fired, and not both. -/
structure Accounted (initial : Finset α) (s : State α) : Prop where
  nodup : s.fired.Nodup
  fired : ∀ a ∈ s.fired, a ∈ initial
  armed : ∀ a, a ∈ s.armed ↔ a ∈ initial ∧ a ∉ s.fired

variable {initial : Finset α} {s t : State α}

theorem Accounted.start (initial : Finset α) : Accounted initial ⟨initial, []⟩ where
  nodup := List.nodup_nil
  fired _ h := nomatch h
  armed a := by simp

variable [DecidableEq α]

theorem Accounted.step (hs : Accounted initial s) (h : Step s t) : Accounted initial t := by
  cases h with
  | @fire a ha =>
    obtain ⟨hinitial, hnew⟩ := (hs.armed a).mp ha
    refine ⟨List.nodup_cons.mpr ⟨hnew, hs.nodup⟩, fun b hb => ?_, fun b => ?_⟩
    · rcases List.mem_cons.mp hb with rfl | hb
      · exact hinitial
      · exact hs.fired b hb
    · rw [Finset.mem_erase, hs.armed b, List.mem_cons, not_or]
      tauto

theorem Accounted.run (h : Relation.ReflTransGen Step s t) (hs : Accounted initial s) : Accounted initial t := by
  induction h with
  | refl => exact hs
  | tail _ h ih => exact ih.step h

/-- No more shots are fired than there were. -/
theorem Accounted.length_le (hs : Accounted initial s) : s.fired.length ≤ initial.card := by
  rw [← List.toFinset_card_of_nodup hs.nodup]
  exact Finset.card_le_card fun a ha => hs.fired a (List.mem_toFinset.mp ha)

end OneShot
