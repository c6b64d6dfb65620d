import Libexcept.Theorems.Scopes
import Libexcept.Theorems.Overlap

/-! Whole lifetimes. A piece of a program that comes back to frames it started with has ended the scopes it
    left, in their order, whether it left them itself or by an exception; objects destroyed in any order keep
    the mask between the initial one and what was asked for. -/

namespace Libexcept

variable {lib : SignalLibrary}

/-- What the destructor of an object logs. -/
def Guard.ended (g : Guard) : Event := .destroyed g.turn g.snapshot.2

/-- The event is that of the destructor of an object made before a turn. -/
def Event.endsBefore (turns : Nat) : Event → Bool
  | .destroyed turn _ => turn < turns
  | _ => false

namespace Scopes

variable {s t u : Scopes} {op : Op} {quiet : Prop} {gone above base passed : List Frame}

/-! ### Frames -/

/-- The mask once some objects were destroyed, the first of them first. -/
def under (mask : Mask) (gs : List Guard) : Mask := gs.foldl (fun _ g => g.snapshot.2) mask

theorem under_append (mask : Mask) (gs gs' : List Guard) : under mask (gs ++ gs') = under (under mask gs) gs' :=
  List.foldl_append

theorem filter_ended {turns : Nat} {gs : List Guard} (h : ∀ g ∈ gs, g.turn < turns) :
    (gs.map Guard.ended).filter (Event.endsBefore turns) = gs.map Guard.ended :=
  List.filter_eq_self.mpr (List.forall_mem_map.mpr fun g hg => decide_eq_true (h g hg))

theorem filter_ended_new {turns : Nat} {gs : List Guard} (h : ∀ g ∈ gs, turns ≤ g.turn) :
    (gs.map Guard.ended).filter (Event.endsBefore turns) = [] := by
  refine List.filter_eq_nil_iff.mpr (List.forall_mem_map.mpr fun g hg => ?_)
  simpa [Guard.ended, Event.endsBefore] using h g hg

/-- What a step does to the frames, and to the mask under them. -/
inductive Framing (s t : Scopes) (op : Op) : Prop
  | still (new : List Event) (hstack : t.stack = s.stack) (hmask : ¬ op.edits → t.thread.mask = s.thread.mask)
      (hturns : s.turns ≤ t.turns) (hlog : t.log = new ++ s.log) (hnew : ∀ turns, new.filter (Event.endsBefore turns) = [])
  | pushed (f : Frame) (new : List Event) (hstack : t.stack = f :: s.stack)
      (hmask : under t.thread.mask f.guard?.toList = s.thread.mask) (hfresh : ∀ g, f = .scope g → s.turns ≤ g.turn)
      (hturns : s.turns ≤ t.turns) (hlog : t.log = new ++ s.log) (hnew : ∀ turns, new.filter (Event.endsBefore turns) = [])
  | popped (f : Frame) (hstack : s.stack = f :: t.stack) (hmask : t.thread.mask = under s.thread.mask f.guard?.toList)
      (hturns : s.turns ≤ t.turns) (hlog : t.log = f.guard?.toList.map Guard.ended ++ s.log)

theorem step_framing (h : step lib s op = some t) (hs : ∀ g ∈ s.guards, g.object.fSet = true) : Framing s t op := by
  cases step_effect h with
  | moved hmoves hturns hlog =>
    have hturns := Nat.le_of_eq hturns.symm
    cases hmoves with
    | edited hop hstack => exact .still [] hstack (absurd hop) hturns hlog fun _ => rfl
    | still hmask hstack => exact .still [] hstack (fun _ => hmask) hturns hlog fun _ => rfl
    | entered f hf hmask hstack =>
      refine .pushed f [] hstack (by rw [hf]; exact hmask) (fun g hg => ?_) hturns hlog fun _ => rfl
      subst hg
      cases hf
    | left f hf hmask hstack => exact .popped f hstack (by rw [hf]; exact hmask) hturns (by rw [hf]; exact hlog)
  | constructed set _ hstack hturns hlog =>
    refine .pushed _ [_] hstack (Mask.ofSet_signals _) (fun g hg => ?_) (by omega) hlog fun _ => rfl
    cases hg
    exact Nat.le_refl _
  | threw hmask hstack hturns hlog => exact .still [_] hstack (fun _ => hmask) (by omega) hlog fun _ => rfl
  | destroyed g ok hdestroy hstack hturns hlog =>
    have hg : g ∈ s.guards := mem_guardsOf.mpr (hstack ▸ List.mem_cons_self)
    have hmask := destroy_mask (hs g hg) hdestroy
    exact .popped _ hstack hmask (Nat.le_of_eq hturns.symm) (by rw [hlog, hmask]; rfl)

/-! ### Coming back -/

/-- The objects are those of constructors, and older than the next turn. -/
structure Turned (s : Scopes) : Prop where
  set : ∀ g ∈ s.guards, g.object.fSet = true
  logged : Snapshot.Logged s.view

theorem Turned.step (h : Scopes.step lib s op = some t) (hs : Turned s) : Turned t :=
  ⟨guards_set h hs.set, hs.logged.run (view_step h hs.set).to_reflTransGen⟩

theorem Turned.run {thread : Thread} {ops : List Op} (hrun : Machine.run (Scopes.step lib) (start thread) ops = some s) :
    Turned s :=
  Machine.run_invariant Turned.step hrun ⟨fun _ h => (nomatch h), .start _ _⟩

/-- The mask of before the constructor of a live object is in the log. -/
theorem Turned.constructed (hs : Turned s) {g : Guard} (hg : g ∈ s.guards) :
    g.turn < s.turns ∧ ∃ set, .constructed g.turn set g.snapshot.2 ∈ s.log := by
  have hheld : (g.turn, g.snapshot.2) ∈ s.view.held := List.mem_map_of_mem hg
  obtain ⟨_, hsaved⟩ := hs.logged.held hheld
  exact ⟨hs.logged.fresh hsaved, constructed_of_saved hsaved⟩

/-- Since `s` the frames `gone` were left and the frames `above` were entered; the destructors of the objects
    of `s` that have run are those of `gone`, in their order. -/
structure Since (quiet : Prop) (s : Scopes) (gone above base : List Frame) (t : Scopes) : Prop where
  start : Turned s
  before : s.stack = gone ++ base
  now : t.stack = above ++ base
  fresh : ∀ g ∈ guardsOf above, s.turns ≤ g.turn
  turns : s.turns ≤ t.turns
  turned : Turned t
  log : ∃ new, t.log = new ++ s.log ∧ new.filter (Event.endsBefore s.turns) = ((guardsOf gone).map Guard.ended).reverse
  under_eq : quiet → under t.thread.mask (guardsOf above) = under s.thread.mask (guardsOf gone)

theorem Since.refl (quiet : Prop) (hs : Turned s) : Since quiet s [] [] s.stack s :=
  ⟨hs, rfl, rfl, (fun _ h => nomatch h), Nat.le_refl _, hs, ⟨[], rfl, rfl⟩, fun _ => rfl⟩

theorem since_step (hop : quiet → ¬ op.edits) (h : step lib t op = some u)
    (hs : ∃ gone above base, Since quiet s gone above base t) : ∃ gone above base, Since quiet s gone above base u := by
  obtain ⟨gone, above, base, hs⟩ := hs
  have hturned := hs.turned.step h
  obtain ⟨old, hold, hends⟩ := hs.log
  cases step_framing h hs.turned.set with
  | still new hstack hmask hturns hlog hnew =>
    refine ⟨gone, above, base, hs.start, hs.before, hstack.trans hs.now, hs.fresh, hs.turns.trans hturns, hturned, ?_,
      fun hquiet => by rw [hmask (hop hquiet), hs.under_eq hquiet]⟩
    exact ⟨new ++ old, by rw [hlog, hold, List.append_assoc], by rw [List.filter_append, hnew, List.nil_append, hends]⟩
  | pushed f new hstack hmask hfresh hturns hlog hnew =>
    refine ⟨gone, f :: above, base, hs.start, hs.before, by rw [hstack, hs.now, List.cons_append], fun g hg => ?_,
      hs.turns.trans hturns, hturned, ?_, fun hquiet => ?_⟩
    · rcases List.mem_cons.mp (mem_guardsOf.mp hg) with heq | hg
      · exact hs.turns.trans (hfresh g heq.symm)
      · exact hs.fresh g (mem_guardsOf.mpr hg)
    · exact ⟨new ++ old, by rw [hlog, hold, List.append_assoc], by rw [List.filter_append, hnew, List.nil_append, hends]⟩
    · rw [guardsOf_cons, under_append, hmask, hs.under_eq hquiet]
  | popped f hstack hmask hturns hlog =>
    have hnow := hs.now
    rw [hstack] at hnow
    have hlog' : u.log = (f.guard?.toList.map Guard.ended ++ old) ++ s.log := by rw [hlog, hold, List.append_assoc]
    cases above with
    | nil =>
      -- the frame is one of `s`, left now
      rw [List.nil_append] at hnow
      have hbefore : s.stack = (gone ++ [f]) ++ u.stack := by rw [hs.before, ← hnow, List.append_assoc]; rfl
      have hold' : ∀ g ∈ f.guard?.toList, g.turn < s.turns := fun g hg => by
        refine (hs.start.constructed (mem_guardsOf.mpr ?_)).1
        rw [hbefore, ← mem_guardsOf, guardsOf_append, guardsOf_append, guardsOf_cons]
        simp [hg]
      have hone : guardsOf [f] = f.guard?.toList := by cases f <;> rfl
      refine ⟨gone ++ [f], [], u.stack, hs.start, hbefore, rfl, (fun _ hg => nomatch hg), hs.turns.trans hturns, hturned,
        ⟨_, hlog', ?_⟩, fun hquiet => ?_⟩
      · rw [List.filter_append, filter_ended hold', hends, guardsOf_append, List.map_append, List.reverse_append, hone]
        cases f.guard? <;> rfl
      · rw [guardsOf_append, under_append, ← hs.under_eq hquiet, hone]
        exact hmask
    | cons f' above =>
      obtain ⟨rfl, hrest⟩ := List.cons.inj hnow
      have hfresh := hs.fresh
      rw [guardsOf_cons] at hfresh
      refine ⟨gone, above, base, hs.start, hs.before, hrest, fun g hg => hfresh g (List.mem_append_right _ hg),
        hs.turns.trans hturns, hturned, ⟨_, hlog', ?_⟩, fun hquiet => ?_⟩
      · rw [List.filter_append, filter_ended_new fun g hg => hfresh g (List.mem_append_left _ hg), List.nil_append, hends]
      · rw [← hs.under_eq hquiet, hmask, guardsOf_cons, under_append]

/-- A piece of a program that comes back to frames it started with has ended the objects of those that it
    left on the way, in their order; and the mask is theirs, unless the piece edits it. -/
theorem run_back (passed : List Frame) {piece : List Op} (hs : Turned s)
    (hpiece : Machine.run (step lib) s piece = some t) (hback : s.stack = passed ++ t.stack) :
    (∃ new, t.log = new ++ s.log ∧
      new.filter (Event.endsBefore s.turns) = ((guardsOf passed).map Guard.ended).reverse) ∧
    ((∀ op ∈ piece, ¬ op.edits) → t.thread.mask = under s.thread.mask (guardsOf passed)) := by
  have hstart : ∃ gone above base, Since (∀ op ∈ piece, ¬ op.edits) s gone above base s := ⟨_, _, _, .refl _ hs⟩
  obtain ⟨gone, above, base, hsince⟩ :=
    Machine.run_invariant_of since_step (fun op hop hquiet => hquiet op hop) hpiece hstart
  have hgone : gone = passed ++ above := by
    rw [hsince.before, hsince.now, ← List.append_assoc] at hback
    exact List.append_cancel_right hback
  -- the frames above are old and new at once, so none is a scope
  have habove : guardsOf above = [] := by
    refine List.eq_nil_iff_forall_not_mem.mpr fun g hg => ?_
    have hlive : g ∈ s.guards := by
      unfold guards
      rw [hsince.before, hgone, guardsOf_append, guardsOf_append]
      simp [hg]
    exact absurd (hsince.fresh g hg) (Nat.not_le_of_lt (hs.constructed hlive).1)
  have hguards : guardsOf gone = guardsOf passed := by rw [hgone, guardsOf_append, habove, List.append_nil]
  refine ⟨hguards ▸ hsince.log, fun hquiet => ?_⟩
  rw [← hguards, ← hsince.under_eq hquiet, habove]
  rfl

/-! ### Unwinding -/

/-- The scopes that an exception leaves, the innermost first. -/
def inner : List Frame → List Guard
  | .scope g :: frames => g :: inner frames
  | _ => []

/-- What is left of the frames past the handler that an exception comes to. -/
def outer : List Frame → Option (List Frame)
  | .scope _ :: frames => outer frames
  | .handler :: frames => some frames
  | _ => none

theorem stack_eq {stack frames : List Frame} (h : outer stack = some frames) :
    stack = (inner stack).map .scope ++ .handler :: frames := by
  induction stack with
  | nil => cases h
  | cons f stack ih =>
    cases f with
    | scope g => exact congrArg (Frame.scope g :: ·) (ih h)
    | handler =>
      cases h
      rfl
    | destructor _ => cases h

/-- The state once the scopes of `gs` were left. -/
def left (s : Scopes) (gs : List Guard) (stack : List Frame) : Scopes :=
  { s with
    thread := { s.thread with mask := under s.thread.mask gs }
    stack
    log := (gs.map Guard.ended).reverse ++ s.log }

theorem unwind_scope {g : Guard} {stack : List Frame} (hmode : s.mode = .unwinding) (hstack : s.stack = .scope g :: stack)
    (hset : g.object.fSet = true) : step lib s (.unwind true) = some (s.left [g] stack) := by
  obtain ⟨thread, _, _, turns, log⟩ := s
  cases hmode
  cases hstack
  simp only [step, destroy, destroyScopedSignalMask, if_pos hset]
  rfl

theorem run_unwind {gs : List Guard} {stack : List Frame} (hmode : s.mode = .unwinding)
    (hstack : s.stack = gs.map .scope ++ stack) (hset : ∀ g ∈ gs, g.object.fSet = true) :
    Machine.run (step lib) s (List.replicate gs.length (.unwind true)) = some (s.left gs stack) := by
  induction gs generalizing s with
  | nil =>
    cases s
    cases hstack
    rfl
  | cons g gs ih =>
    have hstep : step lib s (.unwind true) = some (s.left [g] (gs.map .scope ++ stack)) :=
      unwind_scope hmode hstack (hset g List.mem_cons_self)
    have hrest := ih (s := s.left [g] (gs.map .scope ++ stack)) hmode rfl fun g' hg' => hset g' (List.mem_cons_of_mem g hg')
    refine Machine.run_cons.mpr ⟨_, hstep, hrest.trans ?_⟩
    simp [left, under, Guard.ended]

end Scopes

/-- A piece of a program that comes back to the frames it started with, by the ends of its scopes or by
    the handlers of its exceptions, leaves the mask as it was, unless its bodies edit it. -/
theorem scopes_return (lib : SignalLibrary) (thread : Thread) (ops : List Scopes.Op) (s : Scopes)
    (hrun : Machine.run (Scopes.step lib) (.start thread) ops = some s) (piece : List Scopes.Op) (t : Scopes)
    (hpiece : Machine.run (Scopes.step lib) s piece = some t) (hedits : ∀ op ∈ piece, ¬ op.edits)
    (hstack : t.stack = s.stack) : t.thread.mask = s.thread.mask :=
  (Scopes.run_back [] (.run hrun) hpiece hstack.symm).2 hedits

/-- A try block in a scope: it leaves its outer scope, opens two more and throws. -/
theorem scopes_return_try : ∃ s t : Scopes,
    Machine.run (Scopes.step (glibc true)) (.start usrThread) [.construct [10] true, .edit (.ofSet {17})] = some s ∧
    Machine.run (Scopes.step (glibc true)) s
      [.enterTry, .construct [23] true, .leave true, .construct [23, 21] true, .construct [22] false, .unwind true,
        .unwind true] = some t ∧
    t.thread.mask = s.thread.mask := by
  have hs : (Machine.run (Scopes.step (glibc true)) (.start usrThread) [.construct [10] true, .edit (.ofSet {17})]).any
      (fun s => (Machine.run (Scopes.step (glibc true)) s
        [.enterTry, .construct [23] true, .leave true, .construct [23, 21] true, .construct [22] false, .unwind true,
          .unwind true]).any fun t => t.stack == s.stack) = true := by decide
  obtain ⟨s, hrun, hs⟩ := (Option.any_eq_true _ _).mp hs
  obtain ⟨t, hpiece, hstack⟩ := (Option.any_eq_true _ _).mp hs
  refine ⟨s, t, hrun, hpiece, scopes_return _ _ _ _ hrun _ _ hpiece ?_ (eq_of_beq hstack)⟩
  simp [Scopes.Op.edits]

/-- An exception ends the scopes up to its handler, the innermost first, each with the mask of before its
    constructor, whatever destructors of other objects do in between; unless these edit the mask, the handler
    goes on with that of before the outermost scope. A destructor that fails ends the process at its scope. -/
theorem scopes_unwind (lib : SignalLibrary) (thread : Thread) (ops : List Scopes.Op) (s : Scopes)
    (hrun : Machine.run (Scopes.step lib) (.start thread) ops = some s) (hmode : s.mode = .unwinding)
    (frames : List Frame) (hcaught : Scopes.outer s.stack = some frames) :
    (∀ g ∈ Scopes.inner s.stack, ∃ set, .constructed g.turn set g.snapshot.2 ∈ s.log) ∧
    Machine.run (Scopes.step lib) s (List.replicate ((Scopes.inner s.stack).length + 1) (.unwind true)) =
      some { s.left (Scopes.inner s.stack) frames with mode := .running } ∧
    (∀ piece t, Machine.run (Scopes.step lib) s piece = some t → t.stack = frames →
      (∃ new, t.log = new ++ s.log ∧
        new.filter (Event.endsBefore s.turns) = ((Scopes.inner s.stack).map Guard.ended).reverse) ∧
      ((∀ op ∈ piece, ¬ op.edits) → t.thread.mask = Scopes.under s.thread.mask (Scopes.inner s.stack))) ∧
    ∀ piece t done g rest, Machine.run (Scopes.step lib) s piece = some t → t.mode = .unwinding →
      Scopes.inner s.stack = done ++ g :: rest → t.stack = (g :: rest).map .scope ++ .handler :: frames →
      (∃ new, t.log = new ++ s.log ∧ new.filter (Event.endsBefore s.turns) = (done.map Guard.ended).reverse) ∧
      Scopes.step lib t (.unwind false) = some { t with mode := .terminated } := by
  have hs : Scopes.Turned s := .run hrun
  have hstack := Scopes.stack_eq hcaught
  have hlive : ∀ g ∈ Scopes.inner s.stack, g ∈ s.guards := fun g hg => by
    unfold Scopes.guards
    rw [hstack, guardsOf_append, guardsOf_scopes]
    exact List.mem_append_left _ hg
  refine ⟨fun g hg => (hs.constructed (hlive g hg)).2, ?_, fun piece t hpiece ht => ?_,
    fun piece t done g rest hpiece hunwinding hinner ht => ⟨?_, ?_⟩⟩
  · rw [List.replicate_succ']
    refine Machine.run_append.mpr ⟨_, Scopes.run_unwind hmode hstack fun g hg => hs.set g (hlive g hg), ?_⟩
    simp [Machine.run, Scopes.step, Scopes.left, hmode]
  · have hpassed : guardsOf ((Scopes.inner s.stack).map .scope ++ [.handler]) = Scopes.inner s.stack := by
      rw [guardsOf_append, guardsOf_scopes]
      exact List.append_nil _
    have hback := Scopes.run_back ((Scopes.inner s.stack).map .scope ++ [.handler]) hs hpiece
      (by rw [ht, List.append_assoc]; exact hstack)
    rwa [hpassed] at hback
  · have hback := Scopes.run_back (done.map .scope) hs hpiece
      (by rw [ht, hstack, hinner, List.map_append, List.append_assoc])
    rw [guardsOf_scopes] at hback
    exact hback.1
  · have hset : g.object.fSet = true := hs.set g (hlive g (by simp [hinner]))
    rw [List.map_cons, List.cons_append] at ht
    simp [Scopes.step, Scopes.destroy, destroyScopedSignalMask, sigprocmask, hunwinding, ht, hset]

/-- The constructor of a third scope in a try block throws, and the destructor of another object uses a
    scope of its own and edits the mask ahead of the end of the second one. -/
theorem scopes_unwind_construct : ∃ s t : Scopes,
    Machine.run (Scopes.step (glibc true)) (.start usrThread)
      [.construct [10] true, .enterTry, .construct [23] true, .construct [21] true, .construct [0] true] = some s ∧
    Machine.run (Scopes.step (glibc true)) s
      [.enterDestructor, .construct [22] true, .edit (.ofSet {17}), .leave true, .leaveDestructor, .unwind true,
        .unwind true, .unwind true] = some t ∧
    ∃ new, t.log = new ++ s.log ∧
      new.filter (Event.endsBefore s.turns) = ((Scopes.inner s.stack).map Guard.ended).reverse := by
  have hs : (Machine.run (Scopes.step (glibc true)) (.start usrThread)
      [.construct [10] true, .enterTry, .construct [23] true, .construct [21] true, .construct [0] true]).any
      (fun s => s.mode == .unwinding && (Machine.run (Scopes.step (glibc true)) s
        [.enterDestructor, .construct [22] true, .edit (.ofSet {17}), .leave true, .leaveDestructor, .unwind true,
          .unwind true, .unwind true]).any fun t => Scopes.outer s.stack == some t.stack) = true := by decide
  obtain ⟨s, hrun, hs⟩ := (Option.any_eq_true _ _).mp hs
  obtain ⟨hmode, hs⟩ := Bool.and_eq_true_iff.mp hs
  obtain ⟨t, hpiece, hframes⟩ := (Option.any_eq_true _ _).mp hs
  obtain ⟨-, -, hends, -⟩ := scopes_unwind _ _ _ _ hrun (eq_of_beq hmode) _ (eq_of_beq hframes)
  exact ⟨s, t, hrun, hpiece, (hends _ t hpiece rfl).1⟩

/-! ### Any order -/

/-- A mask keeps the initial one, and blocks more only for the constructors of before a turn. -/
structure Backed (initial : Mask) (log : List Event) (turn : Nat) (mask : Mask) : Prop where
  kept : initial ≤ mask
  backed : ∀ sig ∈ mask.signals, sig ∈ initial.signals ∨
    ∃ turn' set before, turn' < turn ∧ .constructed turn' set before ∈ log ∧ sig ∈ set

variable {initial mask : Mask} {log log' : List Event} {turn turn' : Nat}

theorem Backed.mono (h : Backed initial log turn mask) (hlog : log ⊆ log') (hturn : turn ≤ turn') :
    Backed initial log' turn' mask := by
  refine ⟨h.kept, fun sig hsig => (h.backed sig hsig).imp_right ?_⟩
  rintro ⟨by', set, before, hby, hcons, hset⟩
  exact ⟨by', set, before, Nat.lt_of_lt_of_le hby hturn, hlog hcons, hset⟩

theorem Backed.construct (h : Backed initial log turn mask) (set : SigSet) :
    Backed initial (.constructed turn set mask :: log) (turn + 1) (.ofSet (mask.signals ∪ set)) := by
  refine ⟨h.kept.trans (Overlap.le_construct mask set), fun sig hsig => ?_⟩
  rw [Mask.signals_ofSet, Finset.mem_sdiff, Finset.mem_union] at hsig
  rcases hsig.1 with hold | hnew
  · exact (h.mono (List.subset_cons_self _ _) (Nat.le_succ _)).backed sig hold
  · exact Or.inr ⟨turn, set, mask, Nat.lt_succ_self _, List.mem_cons_self, hnew⟩

/-- The masks of a run: the current one, and those that the constructors saved. -/
structure Overlap.Bounded (initial : Mask) (s : Overlap) : Prop where
  set : ∀ g ∈ s.objects, g.object.fSet = true
  logged : Snapshot.Logged s.view
  current : Backed initial s.log s.turns s.thread.mask
  saved : ∀ {turn set before}, .constructed turn set before ∈ s.log → Backed initial s.log turn before

theorem Overlap.Bounded.step {s t : Overlap} {op : Overlap.Op} (h : Overlap.step lib s op = some t)
    (hs : Bounded initial s) : Bounded initial t := by
  have hset := Overlap.objects_set h hs.set
  have hlogged := hs.logged.run (Overlap.view_step h hs.set).to_reflTransGen
  cases Overlap.step_effect h with
  | refused _ hmask _ hturns hlog =>
    refine ⟨hset, hlogged, ?_, ?_⟩
    · rw [hmask, hturns, hlog]
      exact hs.current
    · rw [hlog]
      exact hs.saved
  | constructed _ set hmask _ hturns hlog =>
    refine ⟨hset, hlogged, ?_, ?_⟩ <;> rw [hlog]
    · rw [hmask, hturns]
      exact hs.current.construct set
    · intro turn set' before hcons
      refine Backed.mono ?_ (List.subset_cons_self _ _) (Nat.le_refl _)
      rcases List.mem_cons.mp hcons with heq | hcons
      · cases heq
        exact hs.current
      · exact hs.saved hcons
  | copied i g hg ht =>
    rw [ht] at hset hlogged ⊢
    exact ⟨hset, hlogged, hs.current, hs.saved⟩
  | destroyed i g hg hdestroy _ hturns hlog =>
    have hmem := List.mem_of_getElem? hg
    have hheld : (g.turn, g.snapshot.2) ∈ s.view.held := List.mem_map_of_mem hmem
    obtain ⟨_, hsaved⟩ := hs.logged.held hheld
    obtain ⟨_, hcons⟩ := constructed_of_saved hsaved
    refine ⟨hset, hlogged, ?_, ?_⟩ <;> rw [hlog]
    · rw [destroy_mask (hs.set g hmem) hdestroy, hturns]
      exact (hs.saved hcons).mono (List.subset_cons_self _ _) (Nat.le_of_lt (hs.logged.fresh hsaved))
    · intro turn set before hcons'
      rcases List.mem_cons.mp hcons' with heq | hcons'
      · cases heq
      · exact (hs.saved hcons').mono (List.subset_cons_self _ _) (Nat.le_refl _)

theorem Overlap.Bounded.run {thread : Thread} {ops : List Overlap.Op} {s : Overlap}
    (hrun : Machine.run (Overlap.step lib) (.start thread) ops = some s) : Bounded thread.mask s := by
  refine Machine.run_invariant Overlap.Bounded.step hrun ⟨(fun _ h => nomatch h), .start _ _, ?_, fun h => nomatch h⟩
  exact ⟨le_refl _, fun _ h => Or.inl h⟩

/-- In whatever order the objects are copied and destroyed, what was blocked at first stays blocked,
    nothing is blocked that no constructor was asked to block, and a destructor leaves blocked only what
    the constructors of before its own were asked to. -/
theorem overlap_between (lib : SignalLibrary) (thread : Thread) (ops : List Overlap.Op) (s : Overlap)
    (hrun : Machine.run (Overlap.step lib) (.start thread) ops = some s) :
    Backed thread.mask s.log s.turns s.thread.mask ∧
    ∀ turn after, .destroyed turn after ∈ s.log → Backed thread.mask s.log turn after := by
  have hs : Overlap.Bounded thread.mask s := .run hrun
  refine ⟨hs.current, fun turn after h => ?_⟩
  obtain ⟨_, hsaved⟩ := hs.logged.restored (restored_mem h)
  obtain ⟨_, hcons⟩ := constructed_of_saved hsaved
  exact hs.saved hcons

/-- The first of two objects is destroyed first: the second one leaves its signal blocked. -/
theorem overlap_between_crossed : ∃ s, Machine.run (Overlap.step (glibc false)) (.start usrThread)
      [.construct [10], .construct [15, 9], .destroy 1, .destroy 0] = some s ∧
    Backed usrThread.mask s.log s.turns s.thread.mask := by
  refine (Option.isSome_iff_exists.mp ?_).imp fun s hs => ⟨hs, (overlap_between _ _ _ _ hs).1⟩
  decide

/-! ### With the sanitizer -/

theorem blockedSet_incompatible {thread : Thread} {blockSignals : List Int} (hanswer : (thread.asked lib).gHasSanitizer = true) :
    ∀ sig ∈ gIncompatibleSignals, sig ∉ blockedSet lib blockSignals thread := by
  intro sig hsig
  rw [blockedSet_eq]
  cases blockSignals.find? fun sig => !lib.sigaddset sig with
  | some _ => simp
  | none =>
    cases (deleted (thread.asked lib).gHasSanitizer).find? fun sig => !lib.sigdelset sig with
    | some _ => simp
    | none =>
      rw [hanswer]
      simp [incompatible, hsig]

namespace Overlap

/-- The sanitizer was found, or will be, and no constructor was asked to block one of its signals. -/
structure Spared (lib : SignalLibrary) (s : Overlap) : Prop where
  answer : (s.thread.asked lib).gHasSanitizer = true
  sets : ∀ {turn set before}, .constructed turn set before ∈ s.log → ∀ sig ∈ gIncompatibleSignals, sig ∉ set

theorem Spared.step {s t : Overlap} {op : Overlap.Op} (h : Overlap.step lib s op = some t) (hs : Spared lib s) :
    Spared lib t := by
  cases op with
  | construct blockSignals =>
    rcases run_scopedSignalMask_cases lib true blockSignals s.thread with ⟨e, thread', hrun, -⟩ | ⟨thread', hrun, -⟩
    · simp only [Overlap.step, hrun, Option.some.injEq] at h
      subst h
      exact ⟨(asked_of_error hrun).trans hs.answer, hs.sets⟩
    · simp only [Overlap.step, hrun, Option.some.injEq] at h
      subst h
      refine ⟨(asked_of_ok hrun).trans hs.answer, fun hcons => ?_⟩
      rcases List.mem_cons.mp hcons with heq | hcons
      · cases heq
        exact blockedSet_incompatible hs.answer
      · exact hs.sets hcons
  | copy i =>
    cases step_effect h with
    | copied i g hg ht =>
      subst ht
      exact ⟨hs.answer, hs.sets⟩
  | destroy i =>
    cases step_effect h with
    | destroyed i g hg hdestroy _ _ hlog =>
      refine ⟨(asked_of_destroy hdestroy).trans hs.answer, fun hcons => ?_⟩
      rw [hlog] at hcons
      rcases List.mem_cons.mp hcons with heq | hcons
      · cases heq
      · exact hs.sets hcons

end Overlap

/-- Once the sanitizer is found, the signals it needs are blocked after any run as they were at first,
    whatever the constructors were asked to block. -/
theorem overlap_incompatible (lib : SignalLibrary) (thread thread' : Thread)
    (hsanitizer : (hasSanitizer lib).run thread = .ok true thread') (ops : List Overlap.Op) (s : Overlap)
    (hrun : Machine.run (Overlap.step lib) (.start thread) ops = some s) :
    ∀ sig ∈ gIncompatibleSignals, sig ∈ s.thread.mask.signals ↔ sig ∈ thread.mask.signals := by
  have hanswer : (thread.asked lib).gHasSanitizer = true := by
    rw [run_hasSanitizer] at hsanitizer
    cases hasked : (thread.asked lib).gHasSanitizer with
    | true => rfl
    | false =>
      rw [hasked] at hsanitizer
      cases hsanitizer
  have hspared : Overlap.Spared lib s := Machine.run_invariant Overlap.Spared.step hrun ⟨hanswer, fun h => nomatch h⟩
  have hbacked : Backed thread.mask s.log s.turns s.thread.mask := (Overlap.Bounded.run hrun).current
  refine fun sig hsig => ⟨fun hblocked => ?_, fun hblocked => hbacked.kept hblocked⟩
  rcases hbacked.backed sig hblocked with hinitial | ⟨_, _, _, -, hcons, hset⟩
  · exact hinitial
  · exact absurd hset (hspared.sets hcons sig hsig)

/-- All signals are blocked, and `SIGHUP` again. -/
theorem overlap_incompatible_all : ∃ s,
    Machine.run (Overlap.step (glibc true)) (.start usrThread) [.construct [], .construct [1, 10], .copy 1, .destroy 2] =
      some s ∧ (1 ∈ s.thread.mask.signals ↔ 1 ∈ usrThread.mask.signals) := by
  have hruns : (Machine.run (Overlap.step (glibc true)) (.start usrThread)
      [.construct [], .construct [1, 10], .copy 1, .destroy 2]).isSome = true := by decide
  obtain ⟨s, hs⟩ := Option.isSome_iff_exists.mp hruns
  exact ⟨s, hs, overlap_incompatible (glibc true) usrThread _ rfl _ s hs 1 (by decide)⟩

end Libexcept
