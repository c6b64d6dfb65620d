import Libexcept.Exception
import Libexcept.Theorems.Complete
import Libexcept.Lib.Machine

/-! The exceptions of a program. An object keeps the text and the trace it was built with, whatever the
    flag is set to later, and of its parameters the last value that was set under each name, on it or on
    the object it is a copy of. -/

namespace Libexcept
open CString (bytes)

/-! ### Classes -/

namespace Class

def std : Class → StdException
  | logicException => .logicError
  | outOfRange => .outOfRange
  | exception => .runtimeError
  | declareLogicError _ => .logicError
  | declareOutOfRange _ => .outOfRange
  | declareMainException _ => .runtimeError
  | declareException base _ => base.std

/-- What a class puts ahead of a message: the name of the class that the library's own is the base of. -/
def label : Class → List UInt8
  | logicException => []
  | outOfRange => []
  | exception => []
  | declareLogicError name => bytes name ++ bytes ": "
  | declareOutOfRange name => bytes name ++ bytes ": "
  | declareMainException name => bytes name ++ bytes ": "
  | declareException base _ => base.label

/-- The classes in between pass the message on. -/
theorem construct_eq (cls : Class) (p : Process) (msg : List UInt8) :
    cls.construct p msg = Libexcept.construct cls.std p (cStr (cls.label ++ msg)) STACK_TRACE_DEPTH := by
  induction cls with
  | logicException => rfl
  | outOfRange => rfl
  | exception => rfl
  | declareLogicError name => rfl
  | declareOutOfRange name => rfl
  | declareMainException name => rfl
  | declareException base name ih => exact ih

end Class

/-! ### Parameters -/

/-- The value of the last write under a name. -/
def lastWrite (writes : List (List UInt8 × List UInt8)) (name : List UInt8) : Option (List UInt8) :=
  writes.reverse.lookup name

theorem lastWrite_concat (writes : List (List UInt8 × List UInt8)) (name value name' : List UInt8) :
    lastWrite (writes ++ [(name, value)]) name' = if name' = name then some value else lastWrite writes name' := by
  unfold lastWrite
  rw [List.reverse_append, List.reverse_singleton, List.singleton_append, List.lookup_cons]
  by_cases h : name' = name
  · rw [if_pos h, beq_iff_eq.mpr h]
  · rw [if_neg h, beq_eq_false_iff_ne.mpr h]

theorem getElem?_setParameter (e : Exception) (name value name' : List UInt8) :
    (e.setParameter name value).fParameters[name']? =
      if name ≠ [] ∧ name' = name then some value else e.fParameters[name']? := by
  unfold Exception.setParameter
  by_cases h : name = []
  · simp [h]
  · simp only [h, ne_eq, not_false_eq_true, if_true, true_and, Std.ExtTreeMap.getElem?_insert,
      Std.LawfulEqCmp.compare_eq_iff_eq]
    simp [eq_comm]

theorem getParameter_eq (e : Exception) (name : List UInt8) : e.getParameter name = e.getParameters[name]?.getD [] := by
  unfold Exception.getParameter Exception.getParameters
  cases e.fParameters[name]? <;> rfl

/-- The object after some calls of `set_parameter()`. -/
def setParameters (e : Exception) (calls : List (List UInt8 × List UInt8)) : Exception :=
  calls.foldl (fun e call => e.setParameter call.1 call.2) e

theorem getElem?_setParameters (e : Exception) (calls : List (List UInt8 × List UInt8)) (name : List UInt8) :
    (setParameters e calls).getParameters[name]? =
      if name = [] then e.getParameters[name]? else (lastWrite calls name).or e.getParameters[name]? := by
  induction calls using List.reverseRecOn with
  | nil =>
    have hnone : lastWrite [] name = none := rfl
    rw [hnone, Option.none_or, ite_self]
    rfl
  | append_singleton calls call ih =>
    unfold setParameters at ih ⊢
    rw [List.foldl_append, List.foldl_cons, List.foldl_nil]
    refine (getElem?_setParameter _ _ _ _).trans ?_
    have hlast := lastWrite_concat calls call.1 call.2 name
    rw [Prod.mk.eta] at hlast
    rw [hlast]
    by_cases hname : name = call.1
    · by_cases hempty : call.1 = []
      · rw [if_neg (fun h => h.1 hempty), if_pos (hname.trans hempty)]
        rw [if_pos (hname.trans hempty)] at ih
        exact ih
      · rw [if_pos ⟨hempty, hname⟩, if_neg (fun h => hempty (hname ▸ h)), if_pos hname]
        rfl
    · rw [if_neg (fun h => hname h.2), if_neg hname]
      exact ih

/-- The parameters after some calls are in the order of their names and are the last values that were
    set, so they depend on no other order: two sequences of calls give the same parameters exactly when
    they set the same last value, or none, under each name that is not empty. -/
theorem setParameters_last (e : Exception) (calls : List (List UInt8 × List UInt8)) :
    (setParameters e calls).getParameters.keys.Pairwise (fun name name' => compare name name' = .lt) ∧
    (∀ name, (setParameters e calls).getParameter name =
      ((if name = [] then none else lastWrite calls name).or e.getParameters[name]?).getD []) ∧
    ∀ calls', (setParameters e calls).getParameters = (setParameters e calls').getParameters ↔
      ∀ name, name ≠ [] → (lastWrite calls name).or e.getParameters[name]? = (lastWrite calls' name).or e.getParameters[name]? := by
  refine ⟨Std.ExtTreeMap.ordered_keys, fun name => ?_, fun calls' => ⟨fun h name hname => ?_, fun h => ?_⟩⟩
  · rw [getParameter_eq, getElem?_setParameters]
    by_cases hname : name = []
    · rw [if_pos hname, if_pos hname, Option.none_or]
    · rw [if_neg hname, if_neg hname]
  · have hget := getElem?_setParameters e calls name
    have hget' := getElem?_setParameters e calls' name
    rw [if_neg hname] at hget hget'
    rw [← hget, ← hget', h]
  · refine Std.ExtTreeMap.ext_getElem? fun name => ?_
    rw [getElem?_setParameters, getElem?_setParameters]
    by_cases hname : name = []
    · rw [if_pos hname, if_pos hname]
    · rw [if_neg hname, if_neg hname, h name hname]

/-! ### Histories -/

/-- What an object was built with, and the writes to it and to the objects it is a copy of. -/
structure History where
  std : StdException
  text : CString
  process : Process
  stackTraceDepth : Int
  /-- the oldest write first -/
  writes : List (List UInt8 × List UInt8)

def History.write (h : History) (name value : List UInt8) : History :=
  if name ≠ [] then { h with writes := h.writes ++ [(name, value)] } else h

/-- A program as its flag and the histories of its live objects. -/
structure Histories where
  collectStack : CollectStack
  objects : List History

namespace Histories
open Exceptions (Op)

def start : Histories := { collectStack := .collectStackYes, objects := [] }

def step (s : Histories) : Op → Option Histories
  | .setCollectStack collectStack => some { s with collectStack }
  | .construct std p what depth =>
    some { s with objects := s.objects ++ [⟨std, what, setCollectStack p s.collectStack, depth, []⟩] }
  | .constructClass cls p msg => some
    { s with objects := s.objects ++
        [⟨cls.std, cStr (cls.label ++ msg), setCollectStack p s.collectStack, STACK_TRACE_DEPTH, []⟩] }
  | .copy i => s.objects[i]?.map fun h => { s with objects := s.objects ++ [h] }
  | .setParameter i name value => s.objects[i]?.map fun h => { s with objects := s.objects.set i (h.write name value) }
  | .destroy i => s.objects[i]?.map fun _ => { s with objects := s.objects.eraseIdx i }

end Histories

/-- An object is what its history says: its class and text, the trace that the flag of the time gave, and
    the last write under each name. -/
structure Recalls (e : Exception) (h : History) : Prop where
  std : e.std = h.std
  what : e.what = h.text.chars
  trace : (exceptionBase h.process h.stackTraceDepth).result = .ok e.base
  parameters : ∀ name, e.getParameters[name]? = lastWrite h.writes name

theorem Recalls.setParameter {e : Exception} {h : History} (hr : Recalls e h) (name value : List UInt8) :
    Recalls (e.setParameter name value) (h.write name value) := by
  have hget := getElem?_setParameter e name value
  unfold History.write
  unfold Exception.setParameter at hget ⊢
  by_cases hname : name ≠ []
  · rw [if_pos hname] at hget ⊢
    rw [if_pos hname]
    refine ⟨hr.std, hr.what, hr.trace, fun name' => (hget name').trans ?_⟩
    rw [lastWrite_concat, ← hr.parameters name']
    simp [hname, Exception.getParameters]
  · rw [if_neg hname, if_neg hname]
    exact hr

section Lists

variable {α β : Type} {R : α → β → Prop} {l : List α} {l' : List β} {a : α}

theorem exists_getElem? (h : List.Forall₂ R l l') {i : Nat} (ha : l[i]? = some a) : ∃ b, l'[i]? = some b ∧ R a b := by
  induction h generalizing i with
  | nil => cases ha
  | @cons a' b' l l' hab _ ih =>
    cases i with
    | zero =>
      cases ha
      exact ⟨b', rfl, hab⟩
    | succ i => exact ih ha

theorem forall₂_set (h : List.Forall₂ R l l') {b : β} (hab : R a b) (i : Nat) :
    List.Forall₂ R (l.set i a) (l'.set i b) := by
  induction h generalizing i with
  | nil => exact .nil
  | cons hab' hrest ih =>
    cases i with
    | zero => exact .cons hab hrest
    | succ i => exact .cons hab' (ih i)

theorem forall₂_eraseIdx (h : List.Forall₂ R l l') (i : Nat) : List.Forall₂ R (l.eraseIdx i) (l'.eraseIdx i) := by
  induction h generalizing i with
  | nil => exact .nil
  | cons hab hrest ih =>
    cases i with
    | zero => exact hrest
    | succ i => exact .cons hab (ih i)

end Lists

namespace Exceptions

variable {s t : Exceptions} {op : Op} {u : Histories}

/-- The objects are those of the histories, while no constructor has faulted. -/
def Related (s : Exceptions) (u : Histories) : Prop :=
  s.alive = true → s.gCollectStack = u.collectStack ∧ List.Forall₂ Recalls s.objects u.objects

theorem recalls_construct {std : StdException} {p : Process} {what : CString} {depth : Int} {e : Exception}
    (h : (construct std p what depth).result = .ok e) : Recalls e ⟨std, what, p, depth, []⟩ := by
  obtain ⟨base, hbase, he⟩ := Exec.bind_eq_ok.mp h
  cases he
  exact ⟨rfl, rfl, hbase, fun name => Std.ExtTreeMap.getElem?_empty⟩

theorem related_build {std : StdException} {p : Process} {what : CString} {depth : Int} (h : Related s u)
    (halive : s.alive = true) : Related (s.build (construct std p what depth))
      { u with objects := u.objects ++ [⟨std, what, p, depth, []⟩] } := by
  obtain ⟨hflag, hobjects⟩ := h halive
  unfold build
  cases hresult : (construct std p what depth).result with
  | ok e => exact fun _ => ⟨hflag, List.rel_append hobjects (.cons (recalls_construct hresult) .nil)⟩
  | error _ => exact fun hdead => nomatch hdead

/-- Every action of the program is one on the histories. -/
theorem Related.step (h : Exceptions.step s op = some t) (hs : Related s u) :
    ∃ v, Histories.step u op = some v ∧ Related t v := by
  unfold Exceptions.step at h
  split at h
  · rename_i halive
    have hrelated := hs halive
    obtain ⟨hflag, hobjects⟩ := hrelated
    cases op with
    | setCollectStack collectStack =>
      cases h
      exact ⟨_, rfl, fun _ => ⟨rfl, hobjects⟩⟩
    | construct std p what depth =>
      cases h
      refine ⟨_, rfl, ?_⟩
      rw [hflag]
      exact related_build hs halive
    | constructClass cls p msg =>
      cases h
      refine ⟨_, rfl, ?_⟩
      rw [Class.construct_eq, hflag]
      exact related_build hs halive
    | copy i =>
      obtain ⟨e, he, rfl⟩ := Option.map_eq_some_iff.mp h
      obtain ⟨h', hh', hrecalls⟩ := exists_getElem? hobjects he
      exact ⟨_, Option.map_eq_some_iff.mpr ⟨h', hh', rfl⟩, fun _ => ⟨hflag, List.rel_append hobjects (.cons hrecalls .nil)⟩⟩
    | setParameter i name value =>
      obtain ⟨e, he, rfl⟩ := Option.map_eq_some_iff.mp h
      obtain ⟨h', hh', hrecalls⟩ := exists_getElem? hobjects he
      exact ⟨_, Option.map_eq_some_iff.mpr ⟨h', hh', rfl⟩,
        fun _ => ⟨hflag, forall₂_set hobjects (hrecalls.setParameter name value) i⟩⟩
    | destroy i =>
      obtain ⟨e, he, rfl⟩ := Option.map_eq_some_iff.mp h
      obtain ⟨h', hh', -⟩ := exists_getElem? hobjects he
      exact ⟨_, Option.map_eq_some_iff.mpr ⟨h', hh', rfl⟩, fun _ => ⟨hflag, forall₂_eraseIdx hobjects i⟩⟩
  · cases h

end Exceptions

/-- The objects of a program recall what they were built with and the writes to them, and nothing that
    happened to the flag or to other objects. -/
theorem exceptions_recall (ops : List Exceptions.Op) (s : Exceptions)
    (hrun : Machine.run Exceptions.step .start ops = some s) (halive : s.alive = true) :
    ∃ u, Machine.run Histories.step .start ops = some u ∧ s.gCollectStack = u.collectStack ∧
      List.Forall₂ Recalls s.objects u.objects := by
  have hstart : Exceptions.Related .start .start := fun _ => ⟨rfl, .nil⟩
  obtain ⟨u, hu, hrelated⟩ := Machine.run_lockstep Exceptions.Related.step hrun hstart
  exact ⟨u, hu, hrelated halive⟩

def fixmeText : CString := ⟨bytes "fixme: what", by decide⟩

/-- An object is copied, and both copies get a value of their own. -/
theorem exceptions_recall_copy : ∃ s u,
    Machine.run Exceptions.step .start
      [.setCollectStack .collectStackNo, .construct .logicError silentTool fixmeText 20, .copy 0,
        .setParameter 0 (bytes "name") (bytes "a"), .setParameter 1 (bytes "name") (bytes "b")] = some s ∧
    Machine.run Histories.step .start
      [.setCollectStack .collectStackNo, .construct .logicError silentTool fixmeText 20, .copy 0,
        .setParameter 0 (bytes "name") (bytes "a"), .setParameter 1 (bytes "name") (bytes "b")] = some u ∧
    List.Forall₂ Recalls s.objects u.objects := by
  have hruns : (Machine.run Exceptions.step .start
      [.setCollectStack .collectStackNo, .construct .logicError silentTool fixmeText 20, .copy 0,
        .setParameter 0 (bytes "name") (bytes "a"), .setParameter 1 (bytes "name") (bytes "b")]).any (fun s => s.alive) =
      true := by decide
  obtain ⟨s, hs, halive⟩ := (Option.any_eq_true _ _).mp hruns
  obtain ⟨u, hu, -, hrecalls⟩ := exceptions_recall _ s hs halive
  exact ⟨s, u, hs, hu, hrecalls⟩

/-! ### What is caught -/

/-- What a caller catches of the library's own throws: an object of `std::logic_error` with the text that the
    throw gives it, at most 20 frames, and no parameter. -/
structure Caught (text : List UInt8) (object : Exception) : Prop where
  std : object.std = .logicError
  what : object.what = text
  trace : object.getStackTrace.length ≤ 20
  parameters : object.getParameters = ∅

theorem exceptionBase_length_le {p : Process} {d : Int} {base : ExceptionBase}
    (h : (exceptionBase p d).result = .ok base) : base.fStackTrace.length ≤ d.toNat := by
  unfold exceptionBase getCollectStack at h
  split at h
  · cases h
    exact Nat.zero_le _
  · obtain ⟨out, hout, hbase⟩ := Exec.bind_eq_ok.mp h
    cases hbase
    rw [plain_result] at hout
    cases hout
    exact plainTrace_length_le p d
  · obtain ⟨out, hout, hbase⟩ := Exec.bind_eq_ok.mp h
    cases hbase
    exact complete_length_le hout

theorem cStr_chars {what : List UInt8} (h : (0 : UInt8) ∉ what) : (cStr what).chars = what := by
  have hcut := Delimited.before_append (l := []) (Delimited.beq_of_notMem h)
  rw [List.append_nil] at hcut
  exact hcut.trans (List.append_nil what)

theorem caught_of_construct {p : Process} {name : String} {msg : List UInt8} {object : Exception}
    (hname : (0 : UInt8) ∉ bytes name) (hmsg : (0 : UInt8) ∉ msg)
    (h : (Class.construct p (.declareLogicError name) msg).result = .ok object) :
    Caught (bytes name ++ bytes ": " ++ msg) object := by
  have htext : (0 : UInt8) ∉ bytes name ++ bytes ": " ++ msg := by
    simp only [List.mem_append, not_or]
    exact ⟨⟨hname, by decide⟩, hmsg⟩
  rw [Class.construct_eq] at h
  obtain ⟨base, hbase, hobject⟩ := Exec.bind_eq_ok.mp h
  cases hobject
  exact ⟨rfl, cStr_chars htext, exceptionBase_length_le hbase, rfl⟩

/-! ### Crashes -/

/-- A complete trace fails where a frame was captured, and there is no table or a lookup has no stream. -/
theorem complete_fails {p : Process} {d : Int} : (∃ fault, (collectStackTraceWithLineNumbers p d).result = .error fault) ↔
    p.captured d ≠ [] ∧ (p.symbolTable = false ∨ ¬ StreamsOpen p d) := by
  have hfails : (∃ fault, (collectStackTraceWithLineNumbers p d).result = .error fault) ↔
      ¬ ∃ out, (collectStackTraceWithLineNumbers p d).result = .ok out := by
    cases (collectStackTraceWithLineNumbers p d).result <;> simp
  rw [hfails]
  by_cases hempty : p.captured d = []
  · exact ⟨fun h => absurd ⟨[], complete_of_empty hempty⟩ h, fun h => absurd hempty h.1⟩
  · have hd : 0 < d := by
      by_contra hd
      exact hempty (captured_of_nonpos (Int.not_lt.mp hd))
    cases ht : p.symbolTable with
    | true => simp [complete_returns hd ht, hempty]
    | false => simp [complete_null_returns hd ht, hempty]

theorem exceptionBase_fails {p : Process} {d : Int} : (∃ fault, (exceptionBase p d).result = .error fault) ↔
    p.gCollectStack = .collectStackComplete ∧ p.captured d ≠ [] ∧ (p.symbolTable = false ∨ ¬ StreamsOpen p d) := by
  rw [← complete_fails]
  unfold exceptionBase getCollectStack
  cases p.gCollectStack with
  | collectStackNo => simp
  | collectStackYes => simp [Exec.bind_eq_error, plain_result]
  | collectStackComplete => simp [Exec.bind_eq_error]

/-- The constructor of an exception with the depth of a declared class returns for this process. -/
def Builds (p : Process) : Prop :=
  p.gCollectStack = .collectStackComplete →
    p.captured STACK_TRACE_DEPTH = [] ∨ p.symbolTable = true ∧ StreamsOpen p STACK_TRACE_DEPTH

theorem construct_returns {cls : Class} {p : Process} {msg : List UInt8} :
    (∃ object, (cls.construct p msg).result = .ok object) ↔ Builds p := by
  have hfails : (∃ object, (cls.construct p msg).result = .ok object) ↔
      ¬ ∃ fault, (exceptionBase p STACK_TRACE_DEPTH).result = .error fault := by
    rw [Class.construct_eq]
    unfold construct
    cases hbase : (exceptionBase p STACK_TRACE_DEPTH).result <;> simp [Exec.bind_eq_ok, hbase]
  rw [hfails, exceptionBase_fails]
  unfold Builds
  rw [not_and, not_and, not_or, Bool.not_eq_false, not_not]
  exact forall_congr' fun _ => or_iff_not_imp_left.symm

namespace Exceptions

variable {s t : Exceptions} {op : Op}

/-- The stack and the depth of the trace that a constructor collects. -/
def Op.collects : Op → Option (Process × Int)
  | .construct _ p _ depth => some (p, depth)
  | .constructClass _ p _ => some (p, STACK_TRACE_DEPTH)
  | _ => none

/-- The flag after an action. -/
def Op.flag (collectStack : CollectStack) : Op → CollectStack
  | .setCollectStack collectStack' => collectStack'
  | _ => collectStack

/-- The constructor of an exception faults. -/
def Crashes (collectStack : CollectStack) (op : Op) : Prop :=
  collectStack = .collectStackComplete ∧ ∃ p d, op.collects = some (p, d) ∧ p.captured d ≠ [] ∧
    (p.symbolTable = false ∨ ¬ StreamsOpen p d)

theorem build_alive {std : StdException} {p : Process} {what : CString} {d : Int} (halive : s.alive = true) :
    (s.build (construct std (setCollectStack p s.gCollectStack) what d)).alive = false ↔
      s.gCollectStack = .collectStackComplete ∧ p.captured d ≠ [] ∧ (p.symbolTable = false ∨ ¬ StreamsOpen p d) := by
  have hbase := exceptionBase_fails (p := setCollectStack p s.gCollectStack) (d := d)
  have hresult : (∃ fault, (construct std (setCollectStack p s.gCollectStack) what d).result = .error fault) ↔
      ∃ fault, (exceptionBase (setCollectStack p s.gCollectStack) d).result = .error fault := by
    simp [construct, Exec.bind_eq_error]
  refine Iff.trans ?_ (hresult.trans hbase)
  unfold build
  cases (construct std (setCollectStack p s.gCollectStack) what d).result <;> simp [halive]

theorem build_flag {r : Run Exception} : (s.build r).gCollectStack = s.gCollectStack := by
  unfold build
  cases r.result <;> rfl

theorem step_crashes (h : step s op = some t) :
    s.alive = true ∧ t.gCollectStack = op.flag s.gCollectStack ∧ (t.alive = false ↔ Crashes s.gCollectStack op) := by
  unfold step at h
  split at h
  · rename_i halive
    refine ⟨halive, ?_⟩
    have hno : op.collects = none → ¬ Crashes s.gCollectStack op := by
      rintro hnone ⟨-, p, d, hcollects, -⟩
      rw [hnone] at hcollects
      cases hcollects
    cases op with
    | setCollectStack collectStack =>
      cases h
      exact ⟨rfl, by simp [halive, hno rfl]⟩
    | construct std p what depth =>
      cases h
      refine ⟨build_flag, (build_alive halive).trans ?_⟩
      simp [Crashes, Op.collects]
    | constructClass cls p msg =>
      cases h
      rw [Class.construct_eq]
      refine ⟨build_flag, (build_alive halive).trans ?_⟩
      simp [Crashes, Op.collects]
    | copy i =>
      obtain ⟨e, -, rfl⟩ := Option.map_eq_some_iff.mp h
      exact ⟨rfl, by simp [halive, hno rfl]⟩
    | setParameter i name value =>
      obtain ⟨e, -, rfl⟩ := Option.map_eq_some_iff.mp h
      exact ⟨rfl, by simp [halive, hno rfl]⟩
    | destroy i =>
      obtain ⟨e, -, rfl⟩ := Option.map_eq_some_iff.mp h
      exact ⟨rfl, by simp [halive, hno rfl]⟩
  · cases h

theorem run_flag {ops : List Op} (h : Machine.run step s ops = some t) :
    t.gCollectStack = ops.foldl Op.flag s.gCollectStack := by
  induction ops generalizing s with
  | nil =>
    cases h
    rfl
  | cons op ops ih =>
    obtain ⟨u, hu, hrest⟩ := Machine.run_cons.mp h
    rw [ih hrest, (step_crashes hu).2.1, List.foldl_cons]

end Exceptions

/-- A program crashes exactly when its last action is the constructor of an exception, with the flag set
    for complete traces, where a frame is captured and there is no table or a lookup has no stream. -/
theorem exceptions_crash (ops : List Exceptions.Op) (s : Exceptions)
    (hrun : Machine.run Exceptions.step .start ops = some s) :
    s.alive = false ↔ ∃ before op p d, ops = before ++ [op] ∧ op.collects = some (p, d) ∧
      before.foldl Exceptions.Op.flag .collectStackYes = .collectStackComplete ∧
      p.captured d ≠ [] ∧ (p.symbolTable = false ∨ ¬ StreamsOpen p d) := by
  have hlast : ∀ before op, ops = before ++ [op] →
      (s.alive = false ↔ Exceptions.Crashes (before.foldl Exceptions.Op.flag .collectStackYes) op) := by
    rintro before op rfl
    obtain ⟨u, hbefore, hstep⟩ := Machine.run_append.mp hrun
    obtain ⟨v, hv, hend⟩ := Machine.run_cons.mp hstep
    cases hend
    rw [(Exceptions.step_crashes hv).2.2, Exceptions.run_flag hbefore]
    rfl
  constructor
  · intro hdead
    rcases List.eq_nil_or_concat ops with rfl | ⟨before, op, hops⟩
    · cases hrun
      cases hdead
    · rw [List.concat_eq_append] at hops
      obtain ⟨hflag, p, d, hcollects, hfails⟩ := (hlast before op hops).mp hdead
      exact ⟨before, op, p, d, hops, hcollects, hflag, hfails⟩
  · rintro ⟨before, op, p, d, hops, hcollects, hflag, hfails⟩
    exact (hlast before op hops).mpr ⟨hflag, p, d, hcollects, hfails⟩

/-- The flag is set between two constructors of a process that is short of memory. -/
theorem exceptions_crash_noTable : ∃ s,
    Machine.run Exceptions.step .start
      [.constructClass fixmeClass noTable (bytes "what"), .setCollectStack .collectStackComplete,
        .constructClass fixmeClass noTable (bytes "what")] = some s ∧ s.alive = false := by
  have hruns : (Machine.run Exceptions.step .start
      [.constructClass fixmeClass noTable (bytes "what"), .setCollectStack .collectStackComplete,
        .constructClass fixmeClass noTable (bytes "what")]).isSome = true := by decide
  obtain ⟨s, hs⟩ := Option.isSome_iff_exists.mp hruns
  refine ⟨s, hs, (exceptions_crash _ s hs).mpr ⟨[_, _], _, noTable, _, rfl, rfl, rfl, by decide, Or.inl rfl⟩⟩

end Libexcept
