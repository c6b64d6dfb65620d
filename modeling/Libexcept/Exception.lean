import Libexcept.StackTrace
import Mathlib.Data.Finset.Basic

/-! The exceptions: `exception.h` and `exception.cpp`, with the classes that the macros declare.

A string is the list of its bytes, and what is passed as a pointer to characters is a `CString`: the text
that an exception is built with ends at its first NUL. -/

namespace Libexcept
open CString (bytes)

/-- `parameter_t`: a `std::map`, in the order of the names. -/
abbrev Parameters := Std.ExtTreeMap (List UInt8) (List UInt8)

/-- The classes of the standard library that those of this one derive from. -/
inductive StdException
  | logicError
  | outOfRange
  | runtimeError
deriving DecidableEq

/-- An object of `logic_exception_t`, `out_of_range_t` or `exception_t`, by its standard base. The
    parameters are those of its `exception_base_t`. -/
structure Exception where
  std : StdException
  text : CString
  base : ExceptionBase
  fParameters : Parameters := ∅

/-- `what.c_str()`, as the constructors of the standard library read it. -/
def cStr (what : List UInt8) : CString where
  chars := Delimited.before (fun c => c == 0) what
  noNul h := by simpa using List.mem_takeWhile_imp h

namespace Exception

def what (e : Exception) : List UInt8 := e.text.chars

def getStackTrace (e : Exception) : List (List UInt8) := e.base.fStackTrace

def getParameters (e : Exception) : Parameters := e.fParameters

def getParameter (e : Exception) (name : List UInt8) : List UInt8 :=
  match e.fParameters[name]? with
  | none => []
  | some value => value

def setParameter (e : Exception) (name value : List UInt8) : Exception :=
  if name ≠ [] then { e with fParameters := e.fParameters.insert name value } else e

end Exception

/-! ### The constructors -/

/-- The constructors that take a pointer: that of the standard base, then that of `exception_base_t`. -/
def construct (std : StdException) (p : Process) (what : CString) (stackTraceDepth : Int) : Run Exception := do
  let base ← exceptionBase p stackTraceDepth
  return { std, text := what, base }

def logicException (p : Process) (what : List UInt8) (stackTraceDepth : Int) : Run Exception :=
  construct .logicError p (cStr what) stackTraceDepth

def logicExceptionOfChars (p : Process) (what : CString) (stackTraceDepth : Int) : Run Exception :=
  construct .logicError p what stackTraceDepth

def outOfRange (p : Process) (what : List UInt8) (stackTraceDepth : Int) : Run Exception :=
  construct .outOfRange p (cStr what) stackTraceDepth

def outOfRangeOfChars (p : Process) (what : CString) (stackTraceDepth : Int) : Run Exception :=
  construct .outOfRange p what stackTraceDepth

def exception (p : Process) (what : List UInt8) (stackTraceDepth : Int) : Run Exception :=
  construct .runtimeError p (cStr what) stackTraceDepth

def exceptionOfChars (p : Process) (what : CString) (stackTraceDepth : Int) : Run Exception :=
  construct .runtimeError p what stackTraceDepth

/-! ### The declared classes -/

/-- A class that a `DECLARE_...` macro can be given for its base, or declares. -/
inductive Class
  | logicException
  | outOfRange
  | exception
  | declareLogicError (name : String)
  | declareOutOfRange (name : String)
  | declareMainException (name : String)
  | declareException (base : Class) (name : String)
deriving DecidableEq

/-- The constructor of a class from a `std::string`. -/
def Class.construct (p : Process) : Class → List UInt8 → Run Exception
  | .logicException, msg => Libexcept.logicException p msg STACK_TRACE_DEPTH
  | .outOfRange, msg => Libexcept.outOfRange p msg STACK_TRACE_DEPTH
  | .exception, msg => Libexcept.exception p msg STACK_TRACE_DEPTH
  | .declareLogicError name, msg => Libexcept.logicException p (bytes name ++ bytes ": " ++ msg) STACK_TRACE_DEPTH
  | .declareOutOfRange name, msg => Libexcept.outOfRange p (bytes name ++ bytes ": " ++ msg) STACK_TRACE_DEPTH
  | .declareMainException name, msg => Libexcept.exception p (bytes name ++ bytes ": " ++ msg) STACK_TRACE_DEPTH
  | .declareException base _, msg => base.construct p msg

def fixmeClass : Class := .declareLogicError "fixme"

def fileInheritedClass : Class := .declareLogicError "file_inherited"

/-! ### What a program does with the exceptions -/

/-- A program that builds exceptions, copies them as a `throw` does, sets their parameters and destroys
    them. -/
structure Exceptions where
  /-- whether no constructor has faulted -/
  alive : Bool
  gCollectStack : CollectStack
  /-- the live objects, in the order in which they were made -/
  objects : List Exception

namespace Exceptions

inductive Op
  | setCollectStack (collectStack : CollectStack)
  /-- a constructor with the depth of a trace; `p` is what its stack is then -/
  | construct (std : StdException) (p : Process) (what : CString) (stackTraceDepth : Int)
  | constructClass (cls : Class) (p : Process) (msg : List UInt8)
  /-- an object is named by its place among the live ones -/
  | copy (i : Nat)
  | setParameter (i : Nat) (name value : List UInt8)
  | destroy (i : Nat)

/-- The flag is set when the program starts. -/
def start : Exceptions := { alive := true, gCollectStack := .collectStackYes, objects := [] }

/-- An object is there once its constructor has returned. -/
def build (s : Exceptions) (r : Run Exception) : Exceptions :=
  match r.result with
  | .ok e => { s with objects := s.objects ++ [e] }
  | .error _ => { s with alive := false }

def step (s : Exceptions) (op : Op) : Option Exceptions :=
  if s.alive then
    match op with
    | .setCollectStack collectStack => some { s with gCollectStack := collectStack }
    | .construct std p what depth => some (s.build (Libexcept.construct std (setCollectStack p s.gCollectStack) what depth))
    | .constructClass cls p msg => some (s.build (cls.construct (setCollectStack p s.gCollectStack) msg))
    | .copy i => s.objects[i]?.map fun e => { s with objects := s.objects ++ [e] }
    | .setParameter i name value =>
      s.objects[i]?.map fun e => { s with objects := s.objects.set i (e.setParameter name value) }
    | .destroy i => s.objects[i]?.map fun _ => { s with objects := s.objects.eraseIdx i }
  else none

end Exceptions

end Libexcept
