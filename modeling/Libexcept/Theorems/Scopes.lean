import Libexcept.Theorems.SignalMask
import Libexcept.Lib.Machine
import Mathlib.Data.List.Pairwise

/-! Scopes restore the mask. A thread in its scopes is a value with holders of snapshots of it, and what
    the bodies of the scopes do to the mask is a change of the value. -/

namespace Libexcept

variable {lib : SignalLibrary}

def Event.call? : Event → Option Nat
  | .constructed turn _ _ => some turn
  | .threw turn _ _ => some turn
  | .destroyed _ _ => none

def Frame.guard? : Frame → Option Guard
  | .scope g => some g
  | _ => none

/-- The objects of some frames, the innermost first. -/
def guardsOf (frames : List Frame) : List Guard := frames.filterMap Frame.guard?

theorem mem_guardsOf {frames : List Frame} {g : Guard} : g ∈ guardsOf frames ↔ .scope g ∈ frames := by
  unfold guardsOf
  rw [List.mem_filterMap]
  constructor
  · rintro ⟨f, hf, hsome⟩
    cases f <;> cases hsome
    exact hf
  · exact fun h => ⟨_, h, rfl⟩

theorem guardsOf_append (frames frames' : List Frame) : guardsOf (frames ++ frames') = guardsOf frames ++ guardsOf frames' :=
  List.filterMap_append

theorem guardsOf_scopes (gs : List Guard) : guardsOf (gs.map .scope) = gs := by
  unfold guardsOf
  rw [List.filterMap_map]
  exact List.filterMap_some

theorem guardsOf_cons (f : Frame) (frames : List Frame) : guardsOf (f :: frames) = f.guard?.toList ++ guardsOf frames := by
  unfold guardsOf
  rw [List.filterMap_cons]
  cases f.guard? <;> rfl

namespace Scopes

variable {s t : Scopes} {op : Op}

abbrev guards (s : Scopes) : List Guard := guardsOf s.stack

def Op.edits : Op → Prop
  | .edit _ => True
  | _ => False

/-! ### Steps -/

/-- A step without an entry: an edit of the mask, or a frame that is no object comes or goes, or none. -/
inductive Moves (s t : Scopes) (op : Op) : Prop
  | edited (hop : op.edits) (hstack : t.stack = s.stack)
  | still (hmask : t.thread.mask = s.thread.mask) (hstack : t.stack = s.stack)
  | entered (f : Frame) (hf : f.guard? = none) (hmask : t.thread.mask = s.thread.mask) (hstack : t.stack = f :: s.stack)
  | left (f : Frame) (hf : f.guard? = none) (hmask : t.thread.mask = s.thread.mask) (hstack : s.stack = f :: t.stack)

/-- What a step does to the mask, the frames and the log. -/
inductive Effect (s t : Scopes) (op : Op) : Prop
  | moved (hmoves : Moves s t op) (hturns : t.turns = s.turns) (hlog : t.log = s.log)
  | constructed (set : SigSet) (hmask : t.thread.mask = .ofSet (s.thread.mask.signals ∪ set))
      (hstack : t.stack = .scope ⟨s.turns, { fSet := true, fOriginalMask := s.thread.mask.signals }⟩ :: s.stack)
      (hturns : t.turns = s.turns + 1) (hlog : t.log = .constructed s.turns set s.thread.mask :: s.log)
  | threw (hmask : t.thread.mask = s.thread.mask) (hstack : t.stack = s.stack) (hturns : t.turns = s.turns + 1)
      (hlog : t.log = .threw s.turns s.thread.mask t.thread.mask :: s.log)
  | destroyed (g : Guard) (ok : Bool) (hdestroy : destroyScopedSignalMask ok g.object s.thread = some t.thread)
      (hstack : s.stack = .scope g :: t.stack) (hturns : t.turns = s.turns)
      (hlog : t.log = .destroyed g.turn t.thread.mask :: s.log)

theorem effect_construct (lib : SignalLibrary) (blockSignals : List Int) (ok : Bool) (s : Scopes) :
    Effect s (s.construct lib blockSignals ok) op := by
  unfold construct
  rcases run_scopedSignalMask_cases lib ok blockSignals s.thread with ⟨e, thread', h, hmask⟩ | ⟨thread', h, hmask⟩
  · rw [h]
    exact .threw hmask rfl rfl rfl
  · rw [h]
    exact .constructed _ hmask rfl rfl rfl

theorem effect_destroy {ok : Bool} {g : Guard} {rest : List Frame} (hstack : s.stack = .scope g :: rest) :
    Effect s (s.destroy ok g rest) op := by
  unfold destroy
  cases h : destroyScopedSignalMask ok g.object s.thread with
  | some thread => exact .destroyed g ok h hstack rfl rfl
  | none => exact .moved (.still rfl rfl) rfl rfl

theorem step_effect (h : step lib s op = some t) : Effect s t op := by
  obtain ⟨thread, stack, mode, turns, log⟩ := s
  unfold step at h
  split at h <;> cases h
  case h_1 => exact .moved (.edited trivial rfl) rfl rfl
  case h_2 => exact effect_construct lib _ _ _
  case h_3 hstack => exact effect_destroy hstack
  case h_4 => exact .moved (.entered .handler rfl rfl rfl) rfl rfl
  case h_5 hstack => exact .moved (.left .handler rfl rfl hstack) rfl rfl
  case h_6 => exact .moved (.still rfl rfl) rfl rfl
  case h_7 => exact .moved (.entered (.destructor false) rfl rfl rfl) rfl rfl
  case h_8 hstack => exact .moved (.left (.destructor _) rfl rfl hstack) rfl rfl
  case h_9 => exact .moved (.entered (.destructor true) rfl rfl rfl) rfl rfl
  case h_10 hstack => exact effect_destroy hstack
  case h_11 hstack => exact .moved (.left .handler rfl rfl hstack) rfl rfl
  case h_12 => exact .moved (.still rfl rfl) rfl rfl
  case h_13 => exact .moved (.still rfl rfl) rfl rfl

theorem Moves.guards (h : Moves s t op) : t.guards = s.guards := by
  unfold Scopes.guards
  cases h with
  | edited _ hstack => rw [hstack]
  | still _ hstack => rw [hstack]
  | entered f hf _ hstack =>
    rw [hstack, guardsOf_cons, hf]
    rfl
  | left f hf _ hstack =>
    rw [hstack, guardsOf_cons, hf]
    rfl

/-- What the log says of a step is what the step has done to the mask, and no object comes or goes without
    its entry. -/
inductive Records (s t : Scopes) : Prop
  | nothing (hguards : t.guards = s.guards) (hlog : t.log = s.log)
  | constructed (g : Guard) (set : SigSet) (hguards : t.guards = g :: s.guards)
      (hlog : t.log = .constructed g.turn set s.thread.mask :: s.log)
  | threw (turn : Nat) (hguards : t.guards = s.guards) (hlog : t.log = .threw turn s.thread.mask t.thread.mask :: s.log)
  | destroyed (g : Guard) (hguards : s.guards = g :: t.guards) (hlog : t.log = .destroyed g.turn t.thread.mask :: s.log)

theorem Effect.records (h : Effect s t op) : Records s t := by
  cases h with
  | moved hmoves _ hlog => exact .nothing hmoves.guards hlog
  | constructed set _ hstack _ hlog => exact .constructed _ set (congrArg guardsOf hstack) hlog
  | threw _ hstack _ hlog => exact .threw _ (congrArg guardsOf hstack) hlog
  | destroyed g ok _ hstack _ hlog => exact .destroyed g (congrArg guardsOf hstack) hlog

/-! ### Runs -/

def view (s : Scopes) : Snapshot.State Mask := snapshots s.thread.mask s.guards s.turns s.log

/-- The bodies of the scopes may do anything to the mask. -/
abbrev Any : Mask → Mask → Prop := fun _ _ => True

theorem guards_set (h : step lib s op = some t) (hs : ∀ g ∈ s.guards, g.object.fSet = true) :
    ∀ g ∈ t.guards, g.object.fSet = true := by
  cases step_effect h with
  | moved hmoves _ _ =>
    rw [hmoves.guards]
    exact hs
  | constructed set _ hstack _ _ =>
    intro g hg
    unfold guards at hg
    rw [hstack] at hg
    rcases List.mem_cons.mp hg with rfl | hg
    · rfl
    · exact hs g hg
  | threw _ hstack _ _ =>
    unfold guards
    rw [hstack]
    exact hs
  | destroyed g _ _ hstack _ _ =>
    unfold guards at hs
    rw [hstack] at hs
    exact fun g hg => hs g (List.mem_cons_of_mem _ hg)

/-- Each step is one of the snapshots. -/
theorem view_step (h : step lib s op = some t) (hs : ∀ g ∈ s.guards, g.object.fSet = true) :
    Relation.ReflGen (Snapshot.Step Any) s.view t.view := by
  refine .single ?_
  unfold view
  cases step_effect h with
  | moved hmoves hturns hlog =>
    rw [hmoves.guards, hturns, hlog]
    exact .change trivial (Nat.le_refl _)
  | constructed set hmask hstack hturns hlog =>
    rw [hturns, hlog, hmask, show t.guards = _ from congrArg guardsOf hstack]
    exact snapshots_construct trivial
  | threw _ hstack hturns hlog =>
    rw [hturns, hlog, show t.guards = s.guards from congrArg guardsOf hstack]
    exact .change trivial (Nat.le_succ _)
  | destroyed g ok hdestroy hstack hturns hlog =>
    have hguards : s.guards = g :: t.guards := congrArg guardsOf hstack
    have hg : g ∈ s.guards := by rw [hguards]; exact List.mem_cons_self
    rw [hturns, hlog, destroy_mask (hs g hg) hdestroy]
    exact snapshots_destroy hg (by rw [hguards]; exact List.subset_cons_self _ _)

theorem view_run {thread : Thread} {ops : List Op} (hrun : Machine.run (step lib) (start thread) ops = some s) :
    Relation.ReflTransGen (Snapshot.Step Any) (start thread).view s.view :=
  Machine.run_refines view guards_set view_step hrun fun _ h => nomatch h

/-- The turns are those of the constructor calls, in order, and one that threw changed nothing. -/
structure Attributed (s : Scopes) : Prop where
  calls : s.log.filterMap Event.call? = (List.range s.turns).reverse
  threw : ∀ {turn before after}, .threw turn before after ∈ s.log → after = before

theorem calls_cons {e : Event} {turns : Nat} {log : List Event} (he : e.call? = some turns)
    (h : log.filterMap Event.call? = (List.range turns).reverse) :
    (e :: log).filterMap Event.call? = (List.range (turns + 1)).reverse := by
  rw [List.filterMap_cons_some he, h, List.range_succ, List.reverse_append]
  rfl

theorem threw_cons {e : Event} {log : List Event} (he : ∀ turn before after, e = .threw turn before after → after = before)
    (h : ∀ {turn before after}, .threw turn before after ∈ log → after = before) {turn : Nat} {before after : Mask}
    (hevent : .threw turn before after ∈ e :: log) : after = before := by
  rcases List.mem_cons.mp hevent with hevent | hevent
  · exact he turn before after hevent.symm
  · exact h hevent

theorem Attributed.step (h : step lib s op = some t) (hs : Attributed s) : Attributed t := by
  cases step_effect h with
  | moved _ hturns hlog => exact ⟨by rw [hlog, hturns, hs.calls], by rw [hlog]; exact hs.threw⟩
  | constructed set _ _ hturns hlog =>
    constructor <;> rw [hlog]
    · rw [hturns]
      exact calls_cons rfl hs.calls
    · exact threw_cons (fun _ _ _ he => by cases he) hs.threw
  | threw hmask _ hturns hlog =>
    constructor <;> rw [hlog]
    · rw [hturns]
      exact calls_cons rfl hs.calls
    · refine threw_cons (fun turn before after he => ?_) hs.threw
      cases he
      exact hmask
  | destroyed _ _ _ _ hturns hlog =>
    constructor <;> rw [hlog]
    · rw [List.filterMap_cons_none (f := Event.call?) rfl, hturns, hs.calls]
    · exact threw_cons (fun _ _ _ he => by cases he) hs.threw

theorem Attributed.unique (hs : Attributed s) {e e' : Event} {turn : Nat} (he : e ∈ s.log) (he' : e' ∈ s.log)
    (hturn : e.call? = some turn) (hturn' : e'.call? = some turn) : e = e' := by
  by_contra hne
  have hnodup : (s.log.filterMap Event.call?).Nodup := by
    rw [hs.calls]
    exact List.nodup_reverse.mpr List.nodup_range
  have hsymm : Std.Symm fun e e' : Event => ∀ n, e.call? = some n → ∀ m, e'.call? = some m → n ≠ m :=
    ⟨fun _ _ h n hn m hm => (h m hm n hn).symm⟩
  exact (List.pairwise_filterMap.mp hnodup).forall he he' hne turn hturn turn hturn' rfl

/-- An object that was constructed is there, or its destructor has run. -/
def Ended (s : Scopes) : Prop :=
  ∀ turn set before, .constructed turn set before ∈ s.log →
    (∃ g ∈ s.guards, g.turn = turn) ∨ ∃ after, .destroyed turn after ∈ s.log

theorem Ended.step (h : Scopes.step lib s op = some t) (hs : Ended s) : Ended t := by
  intro turn set before hcons
  cases (step_effect h).records with
  | nothing hguards hlog =>
    rw [hlog] at hcons ⊢
    rw [hguards]
    exact hs turn set before hcons
  | constructed g _ hguards hlog =>
    rw [hlog] at hcons ⊢
    rw [hguards]
    rcases List.mem_cons.mp hcons with hnew | hcons
    · cases hnew
      exact Or.inl ⟨g, List.mem_cons_self, rfl⟩
    · refine (hs turn set before hcons).imp (fun ⟨g', hg', hturn⟩ => ⟨g', List.mem_cons_of_mem _ hg', hturn⟩) ?_
      exact fun ⟨after, hafter⟩ => ⟨after, List.mem_cons_of_mem _ hafter⟩
  | threw _ hguards hlog =>
    rw [hlog] at hcons ⊢
    rw [hguards]
    rcases List.mem_cons.mp hcons with hnew | hcons
    · cases hnew
    · exact (hs turn set before hcons).imp_right fun ⟨after, hafter⟩ => ⟨after, List.mem_cons_of_mem _ hafter⟩
  | destroyed g hguards hlog =>
    rw [hlog] at hcons ⊢
    rcases List.mem_cons.mp hcons with hnew | hcons
    · cases hnew
    · rcases hs turn set before hcons with ⟨g', hg', hturn⟩ | ⟨after, hafter⟩
      · rw [hguards] at hg'
        rcases List.mem_cons.mp hg' with rfl | hg'
        · subst hturn
          exact Or.inr ⟨_, List.mem_cons_self⟩
        · exact Or.inl ⟨g', hg', hturn⟩
      · exact Or.inr ⟨after, List.mem_cons_of_mem _ hafter⟩

end Scopes

/-- Each scope has ended with the mask of just before its constructor was called, and a constructor
    that threw has left the mask as it was and is followed by no restoration. -/
def RestoresExactly (log : List Event) : Prop :=
  (∀ turn after, .destroyed turn after ∈ log →
    (∃ set before, .constructed turn set before ∈ log) ∧
      ∀ set before, .constructed turn set before ∈ log → after = before) ∧
  ∀ turn before after, .threw turn before after ∈ log → after = before ∧ ∀ after', .destroyed turn after' ∉ log

/-- Scopes restore the mask, whatever their bodies do and however they are left. The log that says so has
    an entry for each scope that was entered or left, with the mask that the thread had then. -/
theorem scopes_restore (lib : SignalLibrary) (thread : Thread) (ops : List Scopes.Op) (s : Scopes)
    (hrun : Machine.run (Scopes.step lib) (.start thread) ops = some s) :
    RestoresExactly s.log ∧
    (∀ op t, Scopes.step lib s op = some t → Scopes.Records s t) ∧
    ∀ turn set before, .constructed turn set before ∈ s.log →
      (∃ g ∈ s.guards, g.turn = turn) ∨ ∃ after, .destroyed turn after ∈ s.log := by
  have hlogged : Snapshot.Logged s.view := (Snapshot.Logged.start _ _).run (Scopes.view_run hrun)
  have hattributed : Scopes.Attributed s :=
    Machine.run_invariant Scopes.Attributed.step hrun ⟨rfl, fun h => nomatch h⟩
  have hleft : Scopes.Ended s := Machine.run_invariant Scopes.Ended.step hrun fun _ _ _ h => nomatch h
  have hended : ∀ turn after, .destroyed turn after ∈ s.log → ∃ set before, .constructed turn set before ∈ s.log := by
    intro turn after h
    obtain ⟨_, hsaved⟩ := hlogged.restored (restored_mem h)
    obtain ⟨set, h⟩ := constructed_of_saved hsaved
    exact ⟨set, _, h⟩
  refine ⟨⟨fun turn after h => ⟨hended turn after h, fun set before hcons => ?_⟩, fun turn before after h => ?_⟩,
    fun op t h => (Scopes.step_effect h).records, hleft⟩
  · exact hlogged.restored_eq (restored_mem h) (saved_mem hcons)
  · refine ⟨hattributed.threw h, fun after' hdestroyed => ?_⟩
    obtain ⟨set, before', hcons⟩ := hended turn after' hdestroyed
    cases hattributed.unique h hcons rfl rfl

/-- A scope whose body changes the mask and opens another one, left by the exceptions of two more; the
    destructor of another object changes the mask in between. -/
theorem scopes_restore_nested : ∃ s,
    Machine.run (Scopes.step (glibc true)) (.start usrThread)
      [.construct [10] true, .edit (.ofSet {17}), .enterTry, .construct [] true, .construct [23, 0] true,
        .enterDestructor, .construct [21] true, .edit (.ofSet ∅), .leave true, .edit (.ofSet {22}), .leaveDestructor,
        .unwind true, .unwind true, .construct [23] false, .unwind true] = some s ∧ RestoresExactly s.log := by
  refine (Option.isSome_iff_exists.mp ?_).imp fun s hs => ⟨hs, (scopes_restore _ _ _ _ hs).1⟩
  decide

end Libexcept
