import Mathlib.Order.Basic
import Mathlib.Logic.Relation

/-! A value and the holders of snapshots of it.

A save takes a snapshot just before it changes the value; its holder keeps the snapshot, may be
duplicated, and writes the snapshot back when it is dropped. Holders are dropped in any order, so
neither the value nor the order of the holders says what a restore writes: the log does. Each save has
a turn of its own, by which the log relates the restores to the saves. -/

namespace Snapshot

inductive Event (σ : Type)
  | saved (turn : Nat) (before after : σ)
  | restored (turn : Nat) (after : σ)

structure State (σ : Type) where
  current : σ
  /-- the turn and the snapshot of each holder -/
  held : List (Nat × σ)
  /-- no turn from this one on is taken -/
  next : Nat
  /-- the newest event first -/
  log : List (Event σ)

variable {σ : Type}

/-- `G` is what a save, and a change by others, may do to the value. -/
inductive Step (G : σ → σ → Prop) : State σ → State σ → Prop
  | change {s : State σ} {v : σ} {n : Nat} (hv : G s.current v) (hn : s.next ≤ n) :
      Step G s { s with current := v, next := n }
  | save {s : State σ} {v : σ} {n : Nat} (hv : G s.current v) (hn : s.next < n) :
      Step G s ⟨v, (s.next, s.current) :: s.held, n, .saved s.next s.current v :: s.log⟩
  | copy {s : State σ} {h : Nat × σ} (hh : h ∈ s.held) : Step G s { s with held := h :: s.held }
  | restore {s : State σ} {turn : Nat} {v : σ} {held : List (Nat × σ)} (hv : (turn, v) ∈ s.held)
      (hheld : held ⊆ s.held) : Step G s ⟨v, held, s.next, .restored turn v :: s.log⟩

/-- The log accounts for every snapshot: those held, and those written back. -/
structure Logged (s : State σ) : Prop where
  held : ∀ {turn v}, (turn, v) ∈ s.held → ∃ after, .saved turn v after ∈ s.log
  restored : ∀ {turn v}, .restored turn v ∈ s.log → ∃ after, .saved turn v after ∈ s.log
  fresh : ∀ {turn before after}, .saved turn before after ∈ s.log → turn < s.next
  unique : ∀ {turn before after before' after'}, .saved turn before after ∈ s.log →
    .saved turn before' after' ∈ s.log → before = before'

variable {G : σ → σ → Prop} {s t : State σ}

theorem Logged.start (v : σ) (n : Nat) : Logged ⟨v, [], n, []⟩ where
  held h := nomatch h
  restored h := nomatch h
  fresh h := nomatch h
  unique h := nomatch h

theorem Logged.step (hs : Logged s) (h : Step G s t) : Logged t := by
  cases h with
  | change hv hn => exact ⟨hs.held, hs.restored, fun h => Nat.lt_of_lt_of_le (hs.fresh h) hn, hs.unique⟩
  | @save v n hv hn =>
    refine ⟨fun h => ?_, fun h => ?_, fun h => ?_, fun h h' => ?_⟩
    · rcases List.mem_cons.mp h with h | h
      · cases h
        exact ⟨v, List.mem_cons_self⟩
      · obtain ⟨after, hafter⟩ := hs.held h
        exact ⟨after, List.mem_cons_of_mem _ hafter⟩
    · rcases List.mem_cons.mp h with h | h
      · cases h
      · obtain ⟨after, hafter⟩ := hs.restored h
        exact ⟨after, List.mem_cons_of_mem _ hafter⟩
    · rcases List.mem_cons.mp h with h | h
      · cases h
        exact hn
      · exact Nat.lt_trans (hs.fresh h) hn
    · -- the new turn is none of the log
      rcases List.mem_cons.mp h with h | h <;> rcases List.mem_cons.mp h' with h' | h'
      · cases h
        cases h'
        rfl
      · cases h
        exact absurd (hs.fresh h') (Nat.lt_irrefl _)
      · cases h'
        exact absurd (hs.fresh h) (Nat.lt_irrefl _)
      · exact hs.unique h h'
  | copy hh =>
    refine ⟨fun h => ?_, hs.restored, hs.fresh, hs.unique⟩
    rcases List.mem_cons.mp h with rfl | h
    · exact hs.held hh
    · exact hs.held h
  | restore hv hheld =>
    have keep : ∀ {turn before after turn' v}, Event.saved turn before after ∈ .restored turn' v :: s.log →
        Event.saved turn before after ∈ s.log := by
      intro _ _ _ _ _ h
      rcases List.mem_cons.mp h with h | h
      · cases h
      · exact h
    refine ⟨fun h => ?_, fun h => ?_, fun h => hs.fresh (keep h), fun h h' => hs.unique (keep h) (keep h')⟩
    · obtain ⟨after, hafter⟩ := hs.held (hheld h)
      exact ⟨after, List.mem_cons_of_mem _ hafter⟩
    · rcases List.mem_cons.mp h with h | h
      · cases h
        obtain ⟨after, hafter⟩ := hs.held hv
        exact ⟨after, List.mem_cons_of_mem _ hafter⟩
      · obtain ⟨after, hafter⟩ := hs.restored h
        exact ⟨after, List.mem_cons_of_mem _ hafter⟩

theorem Logged.run (h : Relation.ReflTransGen (Step G) s t) (hs : Logged s) : Logged t := by
  induction h with
  | refl => exact hs
  | tail _ h ih => exact ih.step h

/-- A restore writes back the value of just before the save of its turn. -/
theorem Logged.restored_eq (hs : Logged s) {turn : Nat} {v before after : σ} (hr : .restored turn v ∈ s.log)
    (hsaved : .saved turn before after ∈ s.log) : v = before := by
  obtain ⟨_, h⟩ := hs.restored hr
  exact hs.unique h hsaved

/-! ### Saves that only raise the value -/

section Order

variable [Preorder σ]

/-- While no snapshot as old as a save is restored, the value stays above what the save made of it. The
    younger snapshots are above it too, which is what their restores need. -/
def Kept (s : State σ) : Prop :=
  ∀ later turn before after earlier, s.log = later ++ .saved turn before after :: earlier →
    (∀ t v, .restored t v ∈ later → turn < t) →
    after ≤ s.current ∧ ∀ t v, (t, v) ∈ s.held → turn < t → after ≤ v

theorem Kept.start (v : σ) (n : Nat) : Kept ⟨v, [], n, []⟩ := by
  intro later _ _ _ _ hlog
  cases later <;> cases hlog

theorem Kept.step (hs : Logged s) (hk : Kept s) (h : Step (· ≤ ·) s t) : Kept t := by
  intro later turn before after earlier hlog hlater
  cases h with
  | change hv hn =>
    obtain ⟨hcur, hheld⟩ := hk later turn before after earlier hlog hlater
    exact ⟨hcur.trans hv, hheld⟩
  | @save v n hv hn =>
    cases later with
    | nil =>
      -- the save itself: every snapshot is as old
      obtain ⟨hevent, -⟩ := List.cons.inj hlog
      cases hevent
      refine ⟨le_refl _, fun t u hu ht => ?_⟩
      rcases List.mem_cons.mp hu with hu | hu
      · cases hu
        exact absurd ht (Nat.lt_irrefl _)
      · obtain ⟨_, hsaved⟩ := hs.held hu
        exact absurd (hs.fresh hsaved) (Nat.lt_asymm ht)
    | cons e later =>
      obtain ⟨rfl, htail⟩ := List.cons.inj hlog
      obtain ⟨hcur, hheld⟩ :=
        hk later turn before after earlier htail fun t u hu => hlater t u (List.mem_cons_of_mem _ hu)
      refine ⟨hcur.trans hv, fun t u hu ht => ?_⟩
      rcases List.mem_cons.mp hu with hu | hu
      · cases hu
        exact hcur
      · exact hheld t u hu ht
  | copy hh =>
    obtain ⟨hcur, hheld⟩ := hk later turn before after earlier hlog hlater
    refine ⟨hcur, fun t u hu ht => ?_⟩
    rcases List.mem_cons.mp hu with rfl | hu
    · exact hheld t u hh ht
    · exact hheld t u hu ht
  | restore hv hsub =>
    cases later with
    | nil => cases hlog
    | cons e later =>
      obtain ⟨rfl, htail⟩ := List.cons.inj hlog
      obtain ⟨-, hheld⟩ :=
        hk later turn before after earlier htail fun t u hu => hlater t u (List.mem_cons_of_mem _ hu)
      exact ⟨hheld _ _ hv (hlater _ _ List.mem_cons_self), fun t u hu ht => hheld t u (hsub hu) ht⟩

theorem Kept.run (h : Relation.ReflTransGen (Step (· ≤ ·)) s t) (hs : Logged s) (hk : Kept s) : Kept t := by
  induction h with
  | refl => exact hk
  | tail hrun h ih => exact ih.step (hs.run hrun) h

end Order

end Snapshot
