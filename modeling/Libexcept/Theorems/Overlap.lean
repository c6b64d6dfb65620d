import Libexcept.Theorems.SignalMask
import Libexcept.Lib.Machine

/-! Objects that are destroyed in any order. A destructor writes back the whole mask of before its own
    constructor, so it undoes what the objects that were constructed since have blocked, and leaves
    blocked what they have left. In the order of scopes it does neither. -/

namespace Libexcept

variable {lib : SignalLibrary}

instance : Preorder Mask := Preorder.lift Mask.signals

namespace Overlap

variable {s t : Overlap} {op : Op}

inductive Effect (s t : Overlap) : Op → Prop
  | refused (blockSignals : List Int) (hmask : t.thread.mask = s.thread.mask) (hobjects : t.objects = s.objects)
      (hturns : t.turns = s.turns) (hlog : t.log = s.log) : Effect s t (.construct blockSignals)
  | constructed (blockSignals : List Int) (set : SigSet)
      (hmask : t.thread.mask = .ofSet (s.thread.mask.signals ∪ set))
      (hobjects : t.objects = ⟨s.turns, { fSet := true, fOriginalMask := s.thread.mask.signals }⟩ :: s.objects)
      (hturns : t.turns = s.turns + 1) (hlog : t.log = .constructed s.turns set s.thread.mask :: s.log) :
      Effect s t (.construct blockSignals)
  | copied (i : Nat) (g : Guard) (hg : g ∈ s.objects) (ht : t = { s with objects := g :: s.objects }) :
      Effect s t (.copy i)
  | destroyed (i : Nat) (g : Guard) (hg : s.objects[i]? = some g)
      (hdestroy : destroyScopedSignalMask true g.object s.thread = some t.thread)
      (hobjects : t.objects = s.objects.eraseIdx i) (hturns : t.turns = s.turns)
      (hlog : t.log = .destroyed g.turn t.thread.mask :: s.log) : Effect s t (.destroy i)

theorem step_effect (h : step lib s op = some t) : Effect s t op := by
  cases op with
  | construct blockSignals =>
    rcases run_scopedSignalMask_cases lib true blockSignals s.thread with ⟨e, thread', hrun, hmask⟩ | ⟨thread', hrun, hmask⟩
    · simp only [step, hrun, Option.some.injEq] at h
      subst h
      exact .refused _ hmask rfl rfl rfl
    · simp only [step, hrun, Option.some.injEq] at h
      subst h
      exact .constructed _ _ hmask rfl rfl rfl
  | copy i =>
    cases hg : s.objects[i]? with
    | none => simp [step, hg] at h
    | some g =>
      simp only [step, hg, Option.some.injEq] at h
      exact .copied i g (List.mem_of_getElem? hg) h.symm
  | destroy i =>
    cases hg : s.objects[i]? with
    | none => simp [step, hg] at h
    | some g =>
      cases hdestroy : destroyScopedSignalMask true g.object s.thread with
      | none => simp [step, hg, hdestroy] at h
      | some thread' =>
        simp only [step, hg, hdestroy, Option.some.injEq] at h
        subst h
        exact .destroyed i g hg hdestroy rfl rfl rfl

/-! ### Runs -/

def view (s : Overlap) : Snapshot.State Mask := snapshots s.thread.mask s.objects s.turns s.log

theorem objects_set (h : step lib s op = some t) (hs : ∀ g ∈ s.objects, g.object.fSet = true) :
    ∀ g ∈ t.objects, g.object.fSet = true := by
  intro g hg
  cases step_effect h with
  | refused _ _ hobjects => exact hs g (hobjects ▸ hg)
  | constructed _ _ _ hobjects =>
    rw [hobjects] at hg
    rcases List.mem_cons.mp hg with rfl | hg
    · rfl
    · exact hs g hg
  | copied i g' hg' ht =>
    rw [ht] at hg
    rcases List.mem_cons.mp hg with rfl | hg
    · exact hs _ hg'
    · exact hs g hg
  | destroyed i g' _ _ hobjects =>
    rw [hobjects] at hg
    exact hs g (List.mem_of_mem_eraseIdx hg)

theorem set_subset (mask : Mask) (set : SigSet) : set \ unblockable ⊆ (Mask.ofSet (mask.signals ∪ set)).signals := by
  rw [Mask.signals_ofSet, Finset.union_sdiff_distrib]
  exact Finset.subset_union_right

theorem le_construct (mask : Mask) (set : SigSet) : mask ≤ .ofSet (mask.signals ∪ set) := by
  intro sig hsig
  rw [Mask.signals_ofSet, Finset.union_sdiff_distrib, Mask.signals_sdiff]
  exact Finset.mem_union_left _ hsig

/-- Each step is one of the snapshots, and only the destructors lower the mask. -/
theorem view_step (h : step lib s op = some t) (hs : ∀ g ∈ s.objects, g.object.fSet = true) :
    Relation.ReflGen (Snapshot.Step (· ≤ ·)) s.view t.view := by
  refine .single ?_
  unfold view
  cases step_effect h with
  | refused _ hmask hobjects hturns hlog =>
    rw [hmask, hobjects, hturns, hlog]
    exact .change (le_refl _) (Nat.le_refl _)
  | constructed _ set hmask hobjects hturns hlog =>
    rw [hmask, hobjects, hturns, hlog]
    exact snapshots_construct (le_construct _ _)
  | copied i g hg ht =>
    rw [ht]
    exact .copy (List.mem_map_of_mem hg)
  | destroyed i g hg hdestroy hobjects hturns hlog =>
    have hmem := List.mem_of_getElem? hg
    rw [hlog, destroy_mask (hs g hmem) hdestroy, hobjects, hturns]
    exact snapshots_destroy hmem List.eraseIdx_subset

theorem view_run {thread : Thread} {ops : List Op} (hrun : Machine.run (step lib) (start thread) ops = some s) :
    Relation.ReflTransGen (Snapshot.Step (· ≤ ·)) (start thread).view s.view :=
  Machine.run_refines view objects_set view_step hrun fun _ h => nomatch h

/-! ### Nested lifetimes -/

/-- The mask each object saved is below the mask of while it was the youngest, and so is its set. -/
def Stacked (log : List Event) (initial : Mask) : Mask → List Guard → Prop
  | mask, [] => mask = initial
  | mask, g :: objects =>
    (∀ set before, .constructed g.turn set before ∈ log → set \ unblockable ⊆ mask.signals) ∧
      g.snapshot.2 ≤ mask ∧ Stacked log initial g.snapshot.2 objects

theorem Stacked.blocked {log : List Event} {initial mask : Mask} {objects : List Guard}
    (h : Stacked log initial mask objects) {g : Guard} (hg : g ∈ objects) {set : SigSet} {before : Mask}
    (hcons : .constructed g.turn set before ∈ log) : set \ unblockable ⊆ mask.signals := by
  induction objects generalizing mask with
  | nil => cases hg
  | cons g' objects ih =>
    obtain ⟨hset, hsaved, hrest⟩ := h
    rcases List.mem_cons.mp hg with rfl | hg
    · exact hset set before hcons
    · have hbelow : g'.snapshot.2.signals ⊆ mask.signals := hsaved
      exact (ih hrest hg).trans hbelow

/-- An event that constructs none of the objects is nothing to them. -/
theorem Stacked.event {log : List Event} {initial mask : Mask} {objects : List Guard} {e : Event}
    (h : Stacked log initial mask objects) (he : ∀ g ∈ objects, ∀ set before, e ≠ .constructed g.turn set before) :
    Stacked (e :: log) initial mask objects := by
  induction objects generalizing mask with
  | nil => exact h
  | cons g objects ih =>
    obtain ⟨hset, hsaved, hrest⟩ := h
    refine ⟨fun set before hcons => ?_, hsaved, ih hrest fun g' hg' => he g' (List.mem_cons_of_mem _ hg')⟩
    rcases List.mem_cons.mp hcons with heq | hcons
    · exact absurd heq.symm (he g List.mem_cons_self set before)
    · exact hset set before hcons

/-- No object is copied, and the youngest is the one that is destroyed. -/
def Op.nests : Op → Prop
  | .construct _ => True
  | .copy _ => False
  | .destroy i => i = 0

structure Nested (initial : Mask) (s : Overlap) : Prop where
  set : ∀ g ∈ s.objects, g.object.fSet = true
  logged : Snapshot.Logged s.view
  stacked : Stacked s.log initial s.thread.mask s.objects

theorem Nested.turn_lt {initial : Mask} (hs : Nested initial s) {g : Guard} (hg : g ∈ s.objects) : g.turn < s.turns := by
  have hheld : (g.turn, g.snapshot.2) ∈ s.view.held := List.mem_map_of_mem hg
  obtain ⟨_, hsaved⟩ := hs.logged.held hheld
  exact hs.logged.fresh hsaved

theorem Nested.step {initial : Mask} (hop : op.nests) (h : step lib s op = some t) (hs : Nested initial s) :
    Nested initial t := by
  refine ⟨objects_set h hs.set, hs.logged.run (view_step h hs.set).to_reflTransGen, ?_⟩
  cases step_effect h with
  | refused _ hmask hobjects _ hlog =>
    rw [hmask, hobjects, hlog]
    exact hs.stacked
  | constructed _ set hmask hobjects _ hlog =>
    rw [hmask, hobjects, hlog]
    refine ⟨fun set' before hcons => ?_, ?_, ?_⟩
    · rcases List.mem_cons.mp hcons with heq | hcons
      · cases heq
        exact set_subset _ _
      · exact absurd (hs.logged.fresh (saved_mem hcons)) (Nat.lt_irrefl _)
    · rw [Guard.snapshot, Mask.ofSet_signals]
      exact le_construct _ _
    · rw [Guard.snapshot, Mask.ofSet_signals]
      refine hs.stacked.event fun g hg set' before heq => ?_
      obtain ⟨hturn, -⟩ := Event.constructed.inj heq
      exact absurd hturn (Nat.ne_of_gt (hs.turn_lt hg))
  | copied => cases hop
  | destroyed i g hg hdestroy hobjects _ hlog =>
    cases (show i = 0 from hop)
    obtain ⟨rest, hrest⟩ : ∃ rest, s.objects = g :: rest := by
      cases hobj : s.objects with
      | nil => simp [hobj] at hg
      | cons g' rest =>
        rw [hobj] at hg
        cases hg
        exact ⟨rest, rfl⟩
    have hstacked := hs.stacked
    rw [hrest] at hstacked
    rw [hlog, destroy_mask (hs.set g (List.mem_of_getElem? hg)) hdestroy, hobjects, hrest]
    refine hstacked.2.2.event fun g' _ set before heq => ?_
    cases heq

end Overlap

/-- What each live object has blocked is blocked, and without objects the mask is the initial one. -/
def Undisturbed (initial : Mask) (s : Overlap) : Prop :=
  (∀ g ∈ s.objects, ∀ set before, .constructed g.turn set before ∈ s.log →
    set \ {SIGKILL, SIGSTOP} ⊆ s.thread.mask.signals) ∧
  (s.objects = [] → s.thread.mask = initial)

theorem Overlap.Nested.undisturbed {initial : Mask} {s : Overlap} (hs : Nested initial s) : Undisturbed initial s := by
  refine ⟨fun g hg set before hcons => hs.stacked.blocked hg hcons, fun hnone => ?_⟩
  have hstacked := hs.stacked
  rw [hnone] at hstacked
  exact hstacked

/-- Whatever the order, a destructor restores the mask of before its constructor, and the set of an
    object stays blocked until an object as old is destroyed. Nested lifetimes disturb nothing. -/
theorem overlap_restores (lib : SignalLibrary) (thread : Thread) (ops : List Overlap.Op) (s : Overlap)
    (hrun : Machine.run (Overlap.step lib) (.start thread) ops = some s) :
    (∀ turn after, .destroyed turn after ∈ s.log →
      (∃ set before, .constructed turn set before ∈ s.log) ∧
        ∀ set before, .constructed turn set before ∈ s.log → after = before) ∧
    (∀ later turn set before earlier, s.log = later ++ .constructed turn set before :: earlier →
      (∀ turn' after, .destroyed turn' after ∈ later → turn < turn') →
        set \ {SIGKILL, SIGSTOP} ⊆ s.thread.mask.signals) ∧
    ((∀ op ∈ ops, op.nests) → Undisturbed thread.mask s) := by
  have hlogged : Snapshot.Logged s.view := (Snapshot.Logged.start _ _).run (Overlap.view_run hrun)
  refine ⟨fun turn after h => ⟨?_, fun set before hcons => ?_⟩, ?_, fun hnests => ?_⟩
  · obtain ⟨_, hsaved⟩ := hlogged.restored (restored_mem h)
    obtain ⟨set, hcons⟩ := constructed_of_saved hsaved
    exact ⟨set, _, hcons⟩
  · exact hlogged.restored_eq (restored_mem h) (saved_mem hcons)
  · intro later turn set before earlier hlog hlater
    have hkept : Snapshot.Kept s.view := .run (Overlap.view_run hrun) (.start _ _) (.start _ _)
    have hview : s.view.log = later.filterMap Event.snapshot? ++
        .saved turn before (.ofSet (before.signals ∪ set)) :: earlier.filterMap Event.snapshot? := by
      rw [show s.view.log = s.log.filterMap Event.snapshot? from rfl, hlog, List.filterMap_append]
      rfl
    obtain ⟨hle, -⟩ := hkept _ _ _ _ _ hview fun turn' after h => hlater turn' after (destroyed_of_restored h)
    exact (Overlap.set_subset before set).trans hle
  · have hnested : Overlap.Nested thread.mask s :=
      Machine.run_invariant_of Overlap.Nested.step hnests hrun ⟨(fun _ h => nomatch h), .start _ _, rfl⟩
    exact hnested.undisturbed

/-- The second object is copied, and the first destroyed before both. -/
theorem overlap_restores_copy : ∃ s, Machine.run (Overlap.step (glibc false)) (.start usrThread)
      [.construct [10], .construct [15, 9], .copy 0, .destroy 2, .destroy 0] = some s ∧
    (∀ turn after, .destroyed turn after ∈ s.log →
      (∃ set before, .constructed turn set before ∈ s.log) ∧
        ∀ set before, .constructed turn set before ∈ s.log → after = before) := by
  refine (Option.isSome_iff_exists.mp ?_).imp fun s hs => ⟨hs, (overlap_restores _ _ _ _ hs).1⟩
  decide

/-- A thread that blocks nothing, as it is once the sanitizer was looked for. -/
def openThread (signals : SigSet) : Thread :=
  { mask := .ofSet signals, gHasSanitizerDefined := true, gHasSanitizer := false }

/-- Three orders that disturb: the first of two objects is destroyed and the set of the other is
    unblocked; the other follows and leaves the set of the first blocked; of an object and its copy, one
    is destroyed and the set of the other is unblocked. -/
theorem overlap_disturbs :
    (∃ s, Machine.run (Overlap.step (glibc false)) (.start (openThread ∅))
      [.construct [10], .construct [12], .destroy 1] = some s ∧ ¬ Undisturbed (.ofSet ∅) s) ∧
    (∃ s, Machine.run (Overlap.step (glibc false)) (.start (openThread ∅))
      [.construct [10], .construct [12], .destroy 1, .destroy 0] = some s ∧ ¬ Undisturbed (.ofSet ∅) s) ∧
    ∃ s, Machine.run (Overlap.step (glibc false)) (.start (openThread ∅))
      [.construct [10], .copy 0, .destroy 0] = some s ∧ ¬ Undisturbed (.ofSet ∅) s := by
  refine ⟨⟨
    { thread := openThread ∅
      objects := [⟨1, { fSet := true, fOriginalMask := {10} }⟩]
      turns := 2
      log := [.destroyed 0 (.ofSet ∅), .constructed 1 {12} (.ofSet {10}), .constructed 0 {10} (.ofSet ∅)] }, ?_, ?_⟩, ⟨
    { thread := openThread {10}
      objects := []
      turns := 2
      log := [.destroyed 1 (.ofSet {10}), .destroyed 0 (.ofSet ∅), .constructed 1 {12} (.ofSet {10}),
        .constructed 0 {10} (.ofSet ∅)] }, ?_, ?_⟩,
    { thread := openThread ∅
      objects := [⟨0, { fSet := true, fOriginalMask := ∅ }⟩]
      turns := 1
      log := [.destroyed 0 (.ofSet ∅), .constructed 0 {10} (.ofSet ∅)] }, ?_, ?_⟩
  · decide
  · rintro ⟨h, -⟩
    exact absurd (h _ List.mem_cons_self {12} (.ofSet {10}) (by simp)) (by decide)
  · decide
  · rintro ⟨-, h⟩
    exact absurd (h rfl) (by decide)
  · decide
  · rintro ⟨h, -⟩
    exact absurd (h _ List.mem_cons_self {10} (.ofSet ∅) (by simp)) (by decide)

end Libexcept
