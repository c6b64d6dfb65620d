import Libexcept.Lib.CString
import Libexcept.Lib.Exec

/-! The stack trace: `stack_trace.cpp`, `demangle.cpp`, and the constructor of `exception_base_t` that
    collects a trace.

A frame is represented by the raw line that `backtrace_symbols()` renders for it, so `backtrace()`
stores raw lines in its array. What the C library and the external tool answer is a parameter of the
process (`Process`): NULL is `none`. -/

namespace Libexcept
open CString (bytes)

/-- What ends the process in place of a trace. -/
inductive Fault
  | memory (fault : CString.Fault)
  | arrayOverflow (slots stored : Nat)
  | nullTable
  | tableIndex (idx : Nat)
  | nullStream
deriving DecidableEq

/-- The depth of a trace where a caller gives none. -/
def STACK_TRACE_DEPTH : Int := 20

/-- The calls whose arguments the collectors compute. -/
inductive Call
  | resize (slots : Nat)
  | backtrace (slots : Nat) (count : Int)
  | backtraceSymbols (size : Nat)
  | popen (command : List UInt8)
deriving DecidableEq

abbrev Run := Exec Call Fault

inductive CollectStack
  | collectStackNo
  | collectStackYes
  | collectStackComplete
deriving DecidableEq

structure Process where
  getpid : Int
  /-- the raw line of each frame of the call stack, the innermost frame first -/
  stack : List CString
  /-- whether `backtrace_symbols()` returns a table -/
  symbolTable : Bool
  /-- the bytes read from the stream that `popen()` opens for a command, up to EOF, by the index of
      the frame it is run for -/
  popen : Nat → List UInt8 → Option (List UInt8)
  /-- the result of `abi::__cxa_demangle()` when its status is 0 -/
  cxaDemangle : List UInt8 → Option (List UInt8)
  gCollectStack : CollectStack

/-- `std::to_string(int)`. -/
def toBytes (n : Int) : List UInt8 := bytes (toString n)

/-! ### Demangling -/

def demangleCppName (p : Process) (typeIdName : List UInt8) : List UInt8 :=
  match p.cxaDemangle typeIdName with
  | some res => res
  | none => typeIdName

/-! ### The frame line scanner -/

/-- What the scanner extracts of a frame line, with the pointer its address was copied from. -/
structure ScannedFrame where
  filename : List UInt8
  rawFunctionName : List UInt8
  addr : List UInt8
  start : Nat
deriving DecidableEq

/-- From `start`, just after the opening parenthesis: the function name, when a `+` ends it, and the
    pointer to the closing parenthesis. -/
def scanFunctionName (raw : CString) (start : Nat) : Except CString.Fault (List UInt8 × Nat) := do
  let s ← raw.skip (fun c => c == '+'.toUInt8 || c == ')'.toUInt8) start
  if (← raw.read s) == '+'.toUInt8 then
    let rawFunctionName ← raw.copy start s
    -- skip the offset
    let s ← raw.skip (fun c => c == ')'.toUInt8) (s + 1)
    return (rawFunctionName, s)
  else
    -- no function name
    return ([], s)

/-- From the closing parenthesis: the address, and the pointer it starts at. -/
def scanAddr (raw : CString) (s : Nat) : Except CString.Fault (Option (List UInt8 × Nat)) := do
  if ← raw.looksAt s (bytes ") [0x") then
    let start := s + 5
    let s ← raw.skip (fun c => c == ']'.toUInt8) start
    if (← raw.read s) == ']'.toUInt8 then
      let addr ← raw.copy start s
      return some (addr, start)
    else return none
  else return none

/-- The scanner of a raw line, expected to be `<filename>(<function-name>+<offset>) [<addr>]`: `none`
    when the address lookup is not reached. -/
def scanFrameLine (raw : CString) : Except CString.Fault (Option ScannedFrame) := do
  -- go to end of filename
  let s ← raw.skip (fun c => c == '('.toUInt8) 0
  if (← raw.read s) == '('.toUInt8 then
    let filename ← raw.copy 0 s
    let (rawFunctionName, s) ← scanFunctionName raw (s + 1)
    match ← scanAddr raw s with
    | some (addr, start) => return some { filename, rawFunctionName, addr, start }
    | none => return none
  else return none

/-! ### One frame -/

def addr2line (p : Process) (addr : List UInt8) : List UInt8 :=
  bytes "eu-addr2line --pid=" ++ toBytes p.getpid ++ bytes " " ++ addr

/-- The `fgetc()` loop: every byte up to EOF but the newlines. -/
def readLine : List UInt8 → List UInt8 → List UInt8
  | [], line => line
  | c :: stream, line => if c != '\n'.toUInt8 then readLine stream (line ++ [c]) else readLine stream line

def lookup (p : Process) (idx : Nat) (addr : List UInt8) : Run (List UInt8) := do
  Exec.call (.popen (addr2line p addr))
  match p.popen idx (addr2line p addr) with
  | some stream => return readLine stream []
  | none => Exec.fault .nullStream

def fallbackLocation (frame : ScannedFrame) : List UInt8 :=
  frame.filename ++ bytes "[" ++ frame.addr ++ bytes "]"

/-- The location of a frame: the output of the tool, unless it says that it found no debug info. -/
def location (frame : ScannedFrame) (line : List UInt8) : List UInt8 :=
  if line = bytes "??:0" then fallbackLocation frame else line

def functionSuffix (p : Process) (rawFunctionName : List UInt8) : List UInt8 :=
  if rawFunctionName ≠ [] then bytes " in " ++ demangleCppName p rawFunctionName else bytes " <no function name>"

/-- `result` after the parsing of the raw line of frame `idx`. -/
def frameResult (p : Process) (idx : Nat) (raw : CString) : Run (List UInt8) := do
  match ← Exec.lift ((scanFrameLine raw).mapError .memory) with
  | some frame =>
    let line ← lookup p idx frame.addr
    return location frame line ++ functionSuffix p frame.rawFunctionName
  | none => return []

/-- The entry of frame `idx`: the raw line when the result is empty. -/
def frameEntry (p : Process) (idx : Nat) (raw : CString) : Run (List UInt8) := do
  let result ← frameResult p idx raw
  if result = [] then return raw.chars else return result

/-! ### The collectors -/

def resize (slots : Int) : Run Nat := do
  Exec.call (.resize slots.toNat)
  return slots.toNat

/-- `backtrace(&array[0], count)` with an array of `slots` slots: the first `count` frames of the
    stack, all of them when it has fewer. -/
def backtrace (p : Process) (slots : Nat) (count : Int) : Run (List CString) := do
  Exec.call (.backtrace slots count)
  let array := p.stack.take count.toNat
  if slots < array.length then Exec.fault (.arrayOverflow slots array.length) else return array

def backtraceSymbols (p : Process) (array : List CString) : Run (Option (List CString)) := do
  Exec.call (.backtraceSymbols array.length)
  return if p.symbolTable then some array else none

/-- `stack_string_list.get()[idx]`. -/
def tableEntry (stackStringList : Option (List CString)) (idx : Nat) : Run CString :=
  match stackStringList with
  | none => Exec.fault .nullTable
  | some table =>
    match table[idx]? with
    | some raw => return raw
    | none => Exec.fault (.tableIndex idx)

/-- `for(int idx(0); idx < size; ++idx)`: one entry is pushed back for each string of the table. -/
def pushFrames (entry : Nat → CString → Run (List UInt8)) (stackStringList : Option (List CString)) (size : Nat) :
    Run (List (List UInt8)) :=
  Exec.collect (fun idx => do
    let raw ← tableEntry stackStringList idx
    entry idx raw) (List.range size) []

def collectStackTrace (p : Process) (stackTraceDepth : Int) : Run (List (List UInt8)) := do
  if stackTraceDepth > 0 then
    let slots ← resize (max stackTraceDepth 1000)
    let array ← backtrace p slots stackTraceDepth
    let stackStringList ← backtraceSymbols p array
    if stackStringList ≠ none then
      pushFrames (fun _ stackString => return stackString.chars) stackStringList array.length
    else return []
  else return []

def collectStackTraceWithLineNumbers (p : Process) (stackTraceDepth : Int) : Run (List (List UInt8)) := do
  if stackTraceDepth > 0 then
    let slots ← resize stackTraceDepth
    let array ← backtrace p slots stackTraceDepth
    let stackStringList ← backtraceSymbols p array
    pushFrames (frameEntry p) stackStringList array.length
  else return []

/-! ### Exceptions -/

structure ExceptionBase where
  fStackTrace : List (List UInt8)
deriving DecidableEq

def getCollectStack (p : Process) : CollectStack := p.gCollectStack

def setCollectStack (p : Process) (collectStack : CollectStack) : Process := { p with gCollectStack := collectStack }

/-- The constructor of `exception_base_t`. -/
def exceptionBase (p : Process) (stackTraceDepth : Int) : Run ExceptionBase := do
  match getCollectStack p with
  | .collectStackNo => return { fStackTrace := [] }
  | .collectStackYes => return { fStackTrace := ← collectStackTrace p stackTraceDepth }
  | .collectStackComplete => return { fStackTrace := ← collectStackTraceWithLineNumbers p stackTraceDepth }

end Libexcept
