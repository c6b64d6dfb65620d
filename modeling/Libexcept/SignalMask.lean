import Mathlib.Data.Finset.Basic
import Mathlib.Order.Basic

/-! The signal masks: `scoped_signal_mask.cpp`, and the two ways its objects are used in a thread, as
    scopes that nest and as objects that are destroyed in any order.

A signal is the number it has on Linux. What the C library accepts, and whether `sigprocmask()`
succeeds, are parameters. -/

namespace Libexcept

abbrev SigSet := Finset Int

def SIGKILL : Int := 9

def SIGSTOP : Int := 19

def unblockable : SigSet := {SIGKILL, SIGSTOP}

structure Mask where
  signals : SigSet
  blockable : Disjoint signals unblockable

instance : DecidableEq Mask := fun m m' => decidable_of_iff (m.signals = m'.signals)
  ⟨fun h => by cases m; cases m'; cases h; rfl, congrArg Mask.signals⟩

/-- The mask that the kernel makes of a set. -/
def Mask.ofSet (set : SigSet) : Mask := ⟨set \ unblockable, Finset.sdiff_disjoint⟩

structure SignalLibrary where
  /-- the numbers `sigaddset()` accepts -/
  sigaddset : Int → Bool
  sigdelset : Int → Bool
  /-- the signals `sigfillset()` sets -/
  sigfillset : SigSet
  /-- whether `dlsym()` finds `__lsan_enable` -/
  lsanEnable : Bool

structure Thread where
  mask : Mask
  gHasSanitizerDefined : Bool := false
  gHasSanitizer : Bool := false
deriving DecidableEq

/-- An exception, by its `what()`. -/
structure Fixme where
  what : String
deriving DecidableEq

def fixme (msg : String) : Fixme := ⟨"fixme: " ++ msg⟩

abbrev ThreadM := EStateM Fixme Thread

/-! ### The class -/

structure ScopedSignalMask where
  fSet : Bool := false
  fOriginalMask : SigSet := ∅
deriving DecidableEq

def gIncompatibleSignals : List Int :=
  [1,        -- SIGHUP
   2,        -- SIGINT
   4,        -- SIGILL
   6,        -- SIGABRT
   8,        -- SIGFPE
   SIGKILL,
   11,       -- SIGSEGV
   15,       -- SIGTERM
   18,       -- SIGCONT
   SIGSTOP,
   20,       -- SIGTSTP
   27,       -- SIGPROF
   29]       -- SIGIO

inductive How
  | sigBlock
  | sigSetmask

/-- `sigprocmask()`: the mask after the call. A failing call changes nothing. -/
def sigprocmask (ok : Bool) (how : How) (set : SigSet) (mask : Mask) : Option Mask :=
  if ok then
    match how with
    | .sigBlock => some (.ofSet (mask.signals ∪ set))
    | .sigSetmask => some (.ofSet set)
  else none

def hasSanitizer (lib : SignalLibrary) : ThreadM Bool := do
  if !(← get).gHasSanitizerDefined then
    modify fun thread => { thread with gHasSanitizerDefined := true, gHasSanitizer := lib.lsanEnable }
  return (← get).gHasSanitizer

def addSignal (lib : SignalLibrary) (set : SigSet) (sig : Int) : ThreadM SigSet :=
  if lib.sigaddset sig then pure (insert sig set)
  else throw (fixme ("sigaddset() failed to set signal " ++ toString sig))

def deleteSignal (lib : SignalLibrary) (set : SigSet) (sig : Int) : ThreadM SigSet :=
  if lib.sigdelset sig then pure (set.erase sig)
  else throw (fixme ("sigdelset() failed to delete signal " ++ toString sig))

/-- The set of the signals of a list, all of them when it is empty. -/
def requestSignals (lib : SignalLibrary) (blockSignals : List Int) : ThreadM SigSet :=
  if blockSignals.isEmpty then pure lib.sigfillset else blockSignals.foldlM (addSignal lib) ∅

def removeIncompatible (lib : SignalLibrary) (set : SigSet) : ThreadM SigSet := do
  if ← hasSanitizer lib then gIncompatibleSignals.foldlM (deleteSignal lib) set else pure set

/-- The constructor up to its `sigprocmask()` call: the set it blocks. -/
def signalsToBlock (lib : SignalLibrary) (blockSignals : List Int) : ThreadM SigSet := do
  let set ← requestSignals lib blockSignals
  removeIncompatible lib set

/-- The set that a constructor passes to `SIG_BLOCK`. -/
def blockedSet (lib : SignalLibrary) (blockSignals : List Int) (thread : Thread) : SigSet :=
  match (signalsToBlock lib blockSignals).run thread with
  | .ok set _ => set
  | .error _ _ => ∅

/-- The constructor. `ok` is whether `sigprocmask()` succeeds. -/
def scopedSignalMask (lib : SignalLibrary) (ok : Bool) (blockSignals : List Int) : ThreadM ScopedSignalMask := do
  let set ← signalsToBlock lib blockSignals
  let original := (← get).mask
  match sigprocmask ok .sigBlock set original with
  | some mask =>
    modify fun thread => { thread with mask }
    return { fSet := true, fOriginalMask := original.signals }
  | none => throw (fixme "sigprocmask() failed to block signals.")

/-- The destructor: `none` is `std::terminate()`. -/
def destroyScopedSignalMask (ok : Bool) (object : ScopedSignalMask) (thread : Thread) : Option Thread :=
  if object.fSet then
    match sigprocmask ok .sigSetmask object.fOriginalMask thread.mask with
    | some mask => some { thread with mask }
    | none => none
  else some thread

/-! ### What a thread does with the objects

The log has the newest event first. The turn of an object is the number of the constructor call that
made it, or made the object it is a copy of. -/

inductive Event
  | constructed (turn : Nat) (set : SigSet) (before : Mask)
  | threw (turn : Nat) (before after : Mask)
  | destroyed (turn : Nat) (after : Mask)
deriving DecidableEq

structure Guard where
  turn : Nat
  object : ScopedSignalMask
deriving DecidableEq

/-- What is on the stack of a thread: the objects of the scopes it is in, the handlers, and the destructors
    of other objects that it runs. -/
inductive Frame
  | scope (guard : Guard)
  | handler
  /-- a destructor that the thread goes on unwinding from, or running -/
  | destructor (unwinding : Bool)
deriving DecidableEq

inductive Mode
  | running
  | unwinding
  | terminated
deriving DecidableEq

/-- A thread that uses the objects as scopes. -/
structure Scopes where
  thread : Thread
  /-- the innermost frame first -/
  stack : List Frame
  mode : Mode
  turns : Nat
  log : List Event
deriving DecidableEq

namespace Scopes

inductive Op
  /-- the body of a scope or of a destructor changes the mask itself -/
  | edit (mask : Mask)
  | construct (blockSignals : List Int) (ok : Bool)
  /-- the end of the innermost scope, in the order of the program -/
  | leave (ok : Bool)
  | enterTry
  | leaveTry
  | throw
  /-- one step of the unwinding to the innermost handler -/
  | unwind (ok : Bool)
  /-- the destructor of another object, at the end of its scope or while the thread unwinds -/
  | enterDestructor
  | leaveDestructor

def start (thread : Thread) : Scopes := { thread, stack := [], mode := .running, turns := 0, log := [] }

def construct (lib : SignalLibrary) (blockSignals : List Int) (ok : Bool) (s : Scopes) : Scopes :=
  match (scopedSignalMask lib ok blockSignals).run s.thread with
  | .ok object thread =>
    { s with
      thread
      stack := .scope ⟨s.turns, object⟩ :: s.stack
      turns := s.turns + 1
      log := .constructed s.turns (blockedSet lib blockSignals s.thread) s.thread.mask :: s.log }
  | .error _ thread =>
    { s with
      thread
      mode := .unwinding
      turns := s.turns + 1
      log := .threw s.turns s.thread.mask thread.mask :: s.log }

def destroy (ok : Bool) (guard : Guard) (rest : List Frame) (s : Scopes) : Scopes :=
  match destroyScopedSignalMask ok guard.object s.thread with
  | some thread => { s with thread, stack := rest, log := .destroyed guard.turn thread.mask :: s.log }
  | none => { s with mode := .terminated }

def step (lib : SignalLibrary) (s : Scopes) (op : Op) : Option Scopes :=
  match s.mode, op, s.stack with
  | .running, .edit mask, _ => some { s with thread := { s.thread with mask } }
  | .running, .construct blockSignals ok, _ => some (s.construct lib blockSignals ok)
  | .running, .leave ok, .scope guard :: rest => some (s.destroy ok guard rest)
  | .running, .enterTry, stack => some { s with stack := .handler :: stack }
  | .running, .leaveTry, .handler :: rest => some { s with stack := rest }
  | .running, .throw, _ => some { s with mode := .unwinding }
  | .running, .enterDestructor, stack => some { s with stack := .destructor false :: stack }
  | .running, .leaveDestructor, .destructor unwinding :: rest =>
    some { s with stack := rest, mode := if unwinding then .unwinding else .running }
  | .unwinding, .enterDestructor, stack => some { s with stack := .destructor true :: stack, mode := .running }
  | .unwinding, .unwind ok, .scope guard :: rest => some (s.destroy ok guard rest)
  | .unwinding, .unwind _, .handler :: rest => some { s with stack := rest, mode := .running }
  -- no exception leaves a destructor
  | .unwinding, .unwind _, .destructor _ :: _ => some { s with mode := .terminated }
  | .unwinding, .unwind _, [] => some { s with mode := .terminated }
  | _, _, _ => none

end Scopes

/-- A thread that constructs, copies and destroys the objects in any order. -/
structure Overlap where
  thread : Thread
  /-- the youngest object first -/
  objects : List Guard
  turns : Nat
  log : List Event
deriving DecidableEq

namespace Overlap

/-- An object is named by its place among the live objects. -/
inductive Op
  | construct (blockSignals : List Int)
  | copy (i : Nat)
  | destroy (i : Nat)
deriving DecidableEq

def start (thread : Thread) : Overlap := { thread, objects := [], turns := 0, log := [] }

def step (lib : SignalLibrary) (s : Overlap) : Op → Option Overlap
  | .construct blockSignals =>
    match (scopedSignalMask lib true blockSignals).run s.thread with
    | .ok object thread => some
      { thread
        objects := ⟨s.turns, object⟩ :: s.objects
        turns := s.turns + 1
        log := .constructed s.turns (blockedSet lib blockSignals s.thread) s.thread.mask :: s.log }
    | .error _ thread => some { s with thread }
  | .copy i =>
    match s.objects[i]? with
    | some g => some { s with objects := g :: s.objects }
    | none => none
  | .destroy i =>
    match s.objects[i]? with
    | some g =>
      match destroyScopedSignalMask true g.object s.thread with
      | some thread => some
        { s with
          thread
          objects := s.objects.eraseIdx i
          log := .destroyed g.turn thread.mask :: s.log }
      | none => none
    | none => none

end Overlap

end Libexcept
