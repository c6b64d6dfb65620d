import Libexcept.SignalMask
import Libexcept.Lib.Loop
import Libexcept.Lib.Snapshot

/-! What the constructor and the destructor of a signal mask object do to the mask of the thread. -/

namespace Libexcept

variable {lib : SignalLibrary} {thread thread' : Thread} {blockSignals : List Int} {ok answer : Bool}

/-- The signals a list asks for: all of them when it is empty. -/
def requested (lib : SignalLibrary) (blockSignals : List Int) : SigSet :=
  if blockSignals = [] then lib.sigfillset else blockSignals.toFinset

/-- The signals that are not blocked, by the answer about the sanitizer. -/
def incompatible (answer : Bool) : SigSet := if answer then gIncompatibleSignals.toFinset else ∅

@[simp] theorem Mask.signals_ofSet (set : SigSet) : (Mask.ofSet set).signals = set \ unblockable := rfl

@[simp] theorem Mask.signals_sdiff (mask : Mask) : mask.signals \ unblockable = mask.signals :=
  Finset.sdiff_eq_self_of_disjoint mask.blockable

theorem Mask.ext {m m' : Mask} (h : m.signals = m'.signals) : m = m' := by
  cases m
  cases m'
  cases h
  rfl

/-- A mask that was read back from the kernel is restored as it was. -/
@[simp] theorem Mask.ofSet_signals (mask : Mask) : Mask.ofSet mask.signals = mask := Mask.ext mask.signals_sdiff

/-! ### The loops over the signals -/

theorem foldl_insert (sigs : List Int) (set : SigSet) :
    sigs.foldl (fun set sig => insert sig set) set = set ∪ sigs.toFinset := by
  induction sigs generalizing set with
  | nil => simp
  | cons sig sigs ih =>
    rw [List.foldl_cons, ih, List.toFinset_cons]
    ext x
    simp only [Finset.mem_union, Finset.mem_insert]
    tauto

theorem foldl_erase (sigs : List Int) (set : SigSet) : sigs.foldl Finset.erase set = set \ sigs.toFinset := by
  induction sigs generalizing set with
  | nil => simp
  | cons sig sigs ih =>
    rw [List.foldl_cons, ih, List.toFinset_cons]
    ext x
    simp only [Finset.mem_sdiff, Finset.mem_erase, Finset.mem_insert]
    tauto

theorem addSignal_eq : addSignal lib = Loop.guarded lib.sigaddset
    (fun sig => fixme ("sigaddset() failed to set signal " ++ toString sig)) (fun set sig => insert sig set) := rfl

theorem deleteSignal_eq : deleteSignal lib = Loop.guarded lib.sigdelset
    (fun sig => fixme ("sigdelset() failed to delete signal " ++ toString sig)) Finset.erase := rfl

/-! ### The constructor in closed form -/

/-- The thread once `has_sanitizer()` was called. -/
def Thread.asked (lib : SignalLibrary) (thread : Thread) : Thread :=
  if thread.gHasSanitizerDefined then thread
  else { thread with gHasSanitizerDefined := true, gHasSanitizer := lib.lsanEnable }

theorem Thread.asked_mask (lib : SignalLibrary) (thread : Thread) : (thread.asked lib).mask = thread.mask := by
  unfold asked
  split <;> rfl

theorem run_hasSanitizer (lib : SignalLibrary) (thread : Thread) :
    (hasSanitizer lib).run thread = .ok (thread.asked lib).gHasSanitizer (thread.asked lib) := by
  obtain ⟨mask, defined, sanitizer⟩ := thread
  cases defined <;> rfl

theorem run_requestSignals (lib : SignalLibrary) (blockSignals : List Int) (thread : Thread) :
    (requestSignals lib blockSignals).run thread =
      match blockSignals.find? fun sig => !lib.sigaddset sig with
      | some sig => .error (fixme ("sigaddset() failed to set signal " ++ toString sig)) thread
      | none => .ok (requested lib blockSignals) thread := by
  unfold requestSignals requested
  cases blockSignals with
  | nil => rfl
  | cons sig sigs =>
    rw [if_neg (by simp), if_neg (by simp), addSignal_eq]
    cases hfind : (sig :: sigs).find? fun sig => !lib.sigaddset sig with
    | some _ => exact Loop.run_foldlM_guarded_error hfind
    | none =>
      rw [Loop.run_foldlM_guarded_ok (by simpa using List.find?_eq_none.mp hfind), foldl_insert]
      simp

/-- The signals that the constructor deletes from its set. -/
def deleted (answer : Bool) : List Int := if answer then gIncompatibleSignals else []

/-- The sanitizer's signals are removed after all of the list was added, so they win over it. -/
theorem run_removeIncompatible (lib : SignalLibrary) (set : SigSet) (thread : Thread) :
    (removeIncompatible lib set).run thread =
      match (deleted (thread.asked lib).gHasSanitizer).find? fun sig => !lib.sigdelset sig with
      | some sig => .error (fixme ("sigdelset() failed to delete signal " ++ toString sig)) (thread.asked lib)
      | none => .ok (set \ incompatible (thread.asked lib).gHasSanitizer) (thread.asked lib) := by
  unfold removeIncompatible
  rw [EStateM.run_bind, run_hasSanitizer]
  cases h : (thread.asked lib).gHasSanitizer with
  | false => simp [deleted, incompatible]
  | true =>
    simp only [↓reduceIte, deleted]
    rw [deleteSignal_eq]
    cases hfind : gIncompatibleSignals.find? fun sig => !lib.sigdelset sig with
    | some sig => exact Loop.run_foldlM_guarded_error hfind
    | none =>
      rw [Loop.run_foldlM_guarded_ok (by simpa using List.find?_eq_none.mp hfind), foldl_erase]
      rfl

theorem run_signalsToBlock (lib : SignalLibrary) (blockSignals : List Int) (thread : Thread) :
    (signalsToBlock lib blockSignals).run thread =
      match blockSignals.find? fun sig => !lib.sigaddset sig with
      | some sig => .error (fixme ("sigaddset() failed to set signal " ++ toString sig)) thread
      | none =>
        match (deleted (thread.asked lib).gHasSanitizer).find? fun sig => !lib.sigdelset sig with
        | some sig => .error (fixme ("sigdelset() failed to delete signal " ++ toString sig)) (thread.asked lib)
        | none => .ok (requested lib blockSignals \ incompatible (thread.asked lib).gHasSanitizer) (thread.asked lib) := by
  unfold signalsToBlock
  rw [EStateM.run_bind, run_requestSignals]
  cases blockSignals.find? fun sig => !lib.sigaddset sig with
  | some sig => rfl
  | none => exact run_removeIncompatible lib _ thread

/-- The constructor, by the first thing that fails. -/
theorem run_scopedSignalMask (lib : SignalLibrary) (ok : Bool) (blockSignals : List Int) (thread : Thread) :
    (scopedSignalMask lib ok blockSignals).run thread =
      match blockSignals.find? fun sig => !lib.sigaddset sig with
      | some sig => .error (fixme ("sigaddset() failed to set signal " ++ toString sig)) thread
      | none =>
        match (deleted (thread.asked lib).gHasSanitizer).find? fun sig => !lib.sigdelset sig with
        | some sig => .error (fixme ("sigdelset() failed to delete signal " ++ toString sig)) (thread.asked lib)
        | none =>
          if ok then
            .ok { fSet := true, fOriginalMask := thread.mask.signals }
              { thread.asked lib with
                mask := .ofSet (thread.mask.signals ∪
                  (requested lib blockSignals \ incompatible (thread.asked lib).gHasSanitizer)) }
          else .error (fixme "sigprocmask() failed to block signals.") (thread.asked lib) := by
  unfold scopedSignalMask
  rw [EStateM.run_bind, run_signalsToBlock]
  cases blockSignals.find? fun sig => !lib.sigaddset sig with
  | some sig => rfl
  | none =>
    cases (deleted (thread.asked lib).gHasSanitizer).find? fun sig => !lib.sigdelset sig with
    | some sig => rfl
    | none =>
      rw [← Thread.asked_mask lib thread]
      cases ok <;> rfl

theorem blockedSet_eq (lib : SignalLibrary) (blockSignals : List Int) (thread : Thread) :
    blockedSet lib blockSignals thread =
      match blockSignals.find? fun sig => !lib.sigaddset sig with
      | some _ => ∅
      | none =>
        match (deleted (thread.asked lib).gHasSanitizer).find? fun sig => !lib.sigdelset sig with
        | some _ => ∅
        | none => requested lib blockSignals \ incompatible (thread.asked lib).gHasSanitizer := by
  unfold blockedSet
  rw [run_signalsToBlock]
  cases blockSignals.find? fun sig => !lib.sigaddset sig with
  | some sig => rfl
  | none => cases (deleted (thread.asked lib).gHasSanitizer).find? fun sig => !lib.sigdelset sig <;> rfl

/-- A constructor that throws leaves the mask as it was; one that returns keeps it, and blocks its set. -/
theorem run_scopedSignalMask_cases (lib : SignalLibrary) (ok : Bool) (blockSignals : List Int) (thread : Thread) :
    (∃ e thread', (scopedSignalMask lib ok blockSignals).run thread = .error e thread' ∧
      thread'.mask = thread.mask) ∨
    ∃ thread', (scopedSignalMask lib ok blockSignals).run thread =
        .ok { fSet := true, fOriginalMask := thread.mask.signals } thread' ∧
      thread'.mask = .ofSet (thread.mask.signals ∪ blockedSet lib blockSignals thread) := by
  have hmask := thread.asked_mask lib
  rw [run_scopedSignalMask, blockedSet_eq]
  cases blockSignals.find? fun sig => !lib.sigaddset sig with
  | some sig => exact Or.inl ⟨_, thread, rfl, rfl⟩
  | none =>
    cases (deleted (thread.asked lib).gHasSanitizer).find? fun sig => !lib.sigdelset sig with
    | some sig => exact Or.inl ⟨_, _, rfl, hmask⟩
    | none =>
      cases ok with
      | true => exact Or.inr ⟨_, rfl, rfl⟩
      | false => exact Or.inl ⟨_, _, rfl, hmask⟩

/-- The effect of the constructor when `sigprocmask()` succeeds. -/
theorem scopedSignalMask_effect (lib : SignalLibrary) (hdel : ∀ sig ∈ gIncompatibleSignals, lib.sigdelset sig = true)
    (thread : Thread) (blockSignals : List Int) (answer : Bool) (thread₁ : Thread)
    (hs : (hasSanitizer lib).run thread = .ok answer thread₁) :
    ((∃ sig ∈ blockSignals, lib.sigaddset sig = false) →
      ∃ sig ∈ blockSignals, lib.sigaddset sig = false ∧ ∃ thread',
        (scopedSignalMask lib true blockSignals).run thread =
          .error (fixme ("sigaddset() failed to set signal " ++ toString sig)) thread' ∧
        thread'.mask = thread.mask) ∧
    ((∀ sig ∈ blockSignals, lib.sigaddset sig = true) →
      ∃ object thread', (scopedSignalMask lib true blockSignals).run thread = .ok object thread' ∧
        object.fOriginalMask = thread.mask.signals ∧
        thread'.mask.signals = thread.mask.signals ∪
          ((requested lib blockSignals \ incompatible answer) \ {SIGKILL, SIGSTOP}) ∧
        ∀ sig ∈ incompatible answer, sig ∈ thread'.mask.signals ↔ sig ∈ thread.mask.signals) := by
  rw [run_hasSanitizer] at hs
  cases hs
  refine ⟨fun h => ?_, fun hadd => ?_⟩
  · have hrefused : ¬ ∀ sig ∈ blockSignals, lib.sigaddset sig = true := by
      obtain ⟨sig, hsig, hrej⟩ := h
      intro hall
      rw [hall sig hsig] at hrej
      cases hrej
    obtain ⟨sig, hsig⟩ := Loop.find?_refused hrefused
    refine ⟨sig, List.mem_of_find?_eq_some hsig, by simpa using List.find?_some hsig, thread, ?_, rfl⟩
    rw [run_scopedSignalMask, hsig]
  · have hadded : blockSignals.find? (fun sig => !lib.sigaddset sig) = none :=
      List.find?_eq_none.mpr fun sig hsig => by simp [hadd sig hsig]
    have hdeleted : (deleted (thread.asked lib).gHasSanitizer).find? (fun sig => !lib.sigdelset sig) = none := by
      refine List.find?_eq_none.mpr fun sig hsig => ?_
      unfold deleted at hsig
      split at hsig
      · simp [hdel sig hsig]
      · cases hsig
    have hsignals : ∀ set, (Mask.ofSet (thread.mask.signals ∪ set)).signals =
        thread.mask.signals ∪ (set \ {SIGKILL, SIGSTOP}) := fun set => by
      rw [Mask.signals_ofSet, Finset.union_sdiff_distrib, Mask.signals_sdiff]
      rfl
    have hrun := run_scopedSignalMask lib true blockSignals thread
    rw [hadded, hdeleted] at hrun
    refine ⟨_, _, hrun, rfl, hsignals _, fun sig hsig => ?_⟩
    rw [hsignals, Finset.mem_union, Finset.mem_sdiff, Finset.mem_sdiff]
    constructor
    · rintro (hold | ⟨⟨-, hnew⟩, -⟩)
      · exact hold
      · exact absurd hsig hnew
    · exact Or.inl

/-- The C library of Linux: 64 signals, two of them its own. -/
def glibc (lsanEnable : Bool) : SignalLibrary :=
  let accepts (sig : Int) : Bool := 1 ≤ sig && sig ≤ 64 && sig != 32 && sig != 33
  { sigaddset := accepts
    sigdelset := accepts
    sigfillset := (((List.range 65).map Int.ofNat).filter accepts).toFinset
    lsanEnable }

/-- A thread that blocks `SIGUSR2`. -/
def usrThread : Thread := { mask := .ofSet {12} }

/-- `SIGUSR1` is blocked, `SIGSEGV` and `SIGKILL` are not. -/
theorem scopedSignalMask_effect_usr : ∃ object thread',
    (scopedSignalMask (glibc true) true [10, 11, 9, 10]).run usrThread = .ok object thread' ∧
      object.fOriginalMask = {12} ∧ thread'.mask.signals = {10, 12} := by
  obtain ⟨-, h⟩ := scopedSignalMask_effect (glibc true) (by decide) usrThread [10, 11, 9, 10] true _ rfl
  obtain ⟨object, thread', hrun, horiginal, hmask, -⟩ := h (by decide)
  exact ⟨object, thread', hrun, horiginal.trans (by decide), hmask.trans (by decide)⟩

/-! ### The objects as holders of snapshots

The constructor saves, the destructor restores. -/

/-- An event as one of the snapshots. A constructor that threw is none. -/
def Event.snapshot? : Event → Option (Snapshot.Event Mask)
  | .constructed turn set before => some (.saved turn before (.ofSet (before.signals ∪ set)))
  | .threw _ _ _ => none
  | .destroyed turn after => some (.restored turn after)

def Guard.snapshot (g : Guard) : Nat × Mask := (g.turn, .ofSet g.object.fOriginalMask)

/-- The mask of a thread with its objects, as a value with holders of snapshots. -/
def snapshots (mask : Mask) (guards : List Guard) (turns : Nat) (log : List Event) : Snapshot.State Mask :=
  { current := mask, held := guards.map Guard.snapshot, next := turns, log := log.filterMap Event.snapshot? }

theorem saved_mem {turn : Nat} {set : SigSet} {before : Mask} {log : List Event}
    (h : .constructed turn set before ∈ log) :
    .saved turn before (.ofSet (before.signals ∪ set)) ∈ log.filterMap Event.snapshot? :=
  List.mem_filterMap.mpr ⟨_, h, rfl⟩

theorem restored_mem {turn : Nat} {after : Mask} {log : List Event} (h : .destroyed turn after ∈ log) :
    .restored turn after ∈ log.filterMap Event.snapshot? :=
  List.mem_filterMap.mpr ⟨_, h, rfl⟩

theorem constructed_of_saved {turn : Nat} {before after : Mask} {log : List Event}
    (h : .saved turn before after ∈ log.filterMap Event.snapshot?) : ∃ set, .constructed turn set before ∈ log := by
  obtain ⟨e, he, hsome⟩ := List.mem_filterMap.mp h
  cases e <;> cases hsome
  exact ⟨_, he⟩

theorem destroyed_of_restored {turn : Nat} {after : Mask} {log : List Event}
    (h : .restored turn after ∈ log.filterMap Event.snapshot?) : .destroyed turn after ∈ log := by
  obtain ⟨e, he, hsome⟩ := List.mem_filterMap.mp h
  cases e <;> cases hsome
  exact he

/-- The destructor of an object that was constructed writes back the mask it saved. -/
theorem destroy_mask {ok : Bool} {g : Guard} {thread thread' : Thread} (hset : g.object.fSet = true)
    (h : destroyScopedSignalMask ok g.object thread = some thread') : thread'.mask = g.snapshot.2 := by
  unfold destroyScopedSignalMask sigprocmask at h
  rw [if_pos hset] at h
  cases ok with
  | true =>
    cases h
    rfl
  | false => cases h

section Steps

variable {G : Mask → Mask → Prop} {mask : Mask} {guards : List Guard} {turns : Nat} {log : List Event}

theorem snapshots_construct {set : SigSet} (hG : G mask (.ofSet (mask.signals ∪ set))) :
    Snapshot.Step G (snapshots mask guards turns log)
      (snapshots (.ofSet (mask.signals ∪ set)) (⟨turns, { fSet := true, fOriginalMask := mask.signals }⟩ :: guards)
        (turns + 1) (.constructed turns set mask :: log)) := by
  have hsnap : Guard.snapshot ⟨turns, { fSet := true, fOriginalMask := mask.signals }⟩ = (turns, mask) := by
    rw [Guard.snapshot, Mask.ofSet_signals]
  unfold snapshots
  rw [List.map_cons, hsnap]
  exact .save hG (Nat.lt_succ_self _)

theorem snapshots_destroy {g : Guard} {rest : List Guard} (hg : g ∈ guards) (hrest : rest ⊆ guards) :
    Snapshot.Step G (snapshots mask guards turns log)
      (snapshots g.snapshot.2 rest turns (.destroyed g.turn g.snapshot.2 :: log)) :=
  .restore (List.mem_map_of_mem hg) (List.map_subset _ hrest)

end Steps

/-! ### The answer about the sanitizer -/

/-- The answer about the sanitizer stays the same. -/
theorem Thread.asked_asked (lib : SignalLibrary) (thread : Thread) (mask : Mask) :
    ({ thread.asked lib with mask }.asked lib).gHasSanitizer = (thread.asked lib).gHasSanitizer := by
  obtain ⟨_, defined, _⟩ := thread
  cases defined <;> rfl

theorem asked_of_error {e : Fixme} (h : (scopedSignalMask lib ok blockSignals).run thread = .error e thread') :
    (thread'.asked lib).gHasSanitizer = (thread.asked lib).gHasSanitizer := by
  rw [run_scopedSignalMask] at h
  split at h
  · cases h
    rfl
  · split at h
    · cases h
      exact Thread.asked_asked lib thread _
    · split at h <;> cases h
      exact Thread.asked_asked lib thread _

theorem asked_of_ok {object : ScopedSignalMask}
    (h : (scopedSignalMask lib ok blockSignals).run thread = .ok object thread') :
    (thread'.asked lib).gHasSanitizer = (thread.asked lib).gHasSanitizer := by
  rw [run_scopedSignalMask] at h
  split at h
  · cases h
  · split at h
    · cases h
    · split at h <;> cases h
      exact Thread.asked_asked lib thread _

theorem asked_of_destroy {object : ScopedSignalMask} (h : destroyScopedSignalMask ok object thread = some thread') :
    (thread'.asked lib).gHasSanitizer = (thread.asked lib).gHasSanitizer := by
  unfold destroyScopedSignalMask at h
  split at h
  · split at h <;> cases h
    obtain ⟨_, defined, _⟩ := thread
    cases defined <;> rfl
  · cases h
    rfl

end Libexcept
