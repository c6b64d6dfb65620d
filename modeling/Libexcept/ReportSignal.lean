import Libexcept.StackTrace
import Libexcept.SignalMask

/-! The crash reports: `report_signal.cpp`, and what the kernel does with the signals that are raised
    while they are written.

A handler runs in the thread it interrupted, on top of what that thread was doing, and what it does may
raise a signal in turn. A signal that a thread blocks is acted on later or never: the order in which
signals are raised here is the one in which the kernel acts on them. -/

namespace Libexcept
open CString (bytes)

def SIGHUP : Int := 1

def SIGILL : Int := 4

def SIGTRAP : Int := 5

def SIGBUS : Int := 7

def SIGFPE : Int := 8

def SIGSEGV : Int := 11

inductive Handler
  | sigDfl
  | sigIgn
  | reportSignal
  /-- a handler of the program -/
  | other (address : Nat)
deriving DecidableEq

def SA_SIGINFO : BitVec 32 := 0x00000004

def SA_RESETHAND : BitVec 32 := 0x80000000

structure Sigaction where
  saSigaction : Handler := .sigDfl
  saFlags : BitVec 32 := 0
  saMask : SigSet := ∅
deriving DecidableEq

abbrev Dispositions := Int → Sigaction

def Dispositions.set (dispositions : Dispositions) (sig : Int) (action : Sigaction) : Dispositions :=
  fun sig' => if sig' = sig then action else dispositions sig'

/-- What `init_report_signal()` writes. -/
structure SignalTable where
  dispositions : Dispositions
  gSignalActions : Fin 64 → Option Sigaction

/-! ### The registration -/

/-- `sigaction()`: the action it replaces, and the dispositions after the call. It fails for what is
    no signal, for the two that cannot be caught, and for those of the C library. -/
def sigaction (sig : Int) (action : Sigaction) (dispositions : Dispositions) : Option (Sigaction × Dispositions) :=
  if 1 ≤ sig ∧ sig ≤ 64 ∧ sig ∉ unblockable ∧ sig ≠ 32 ∧ sig ≠ 33 then
    some (dispositions sig, dispositions.set sig action)
  else none

def sigs : BitVec 64 :=
  1#64 <<< SIGHUP.toNat ||| 1#64 <<< SIGILL.toNat ||| 1#64 <<< SIGTRAP.toNat ||| 1#64 <<< SIGBUS.toNat |||
    1#64 <<< SIGFPE.toNat ||| 1#64 <<< SIGSEGV.toNat

def reportAction : Sigaction := { saSigaction := .reportSignal, saFlags := SA_SIGINFO ||| SA_RESETHAND }

/-- One round of the loop. The result of `sigaction()` is not tested. -/
def registerSignal (table : SignalTable) (i : Fin 64) : SignalTable :=
  if sigs &&& 1#64 <<< i.val ≠ 0 then
    let (oact, dispositions) := (sigaction i.val reportAction table.dispositions).getD ({}, table.dispositions)
    { dispositions, gSignalActions := fun j => if j = i then some oact else table.gSignalActions j }
  else table

def initReportSignal (table : SignalTable) : SignalTable := (List.finRange 64).foldl registerSignal table

/-! ### The handler -/

inductive Statement
  | collectTrace
  | printTrace
  | abort
deriving DecidableEq

/-- What a handler does, in order. A handler of the program installs no handler, and returns. -/
def Handler.body : Handler → List Statement
  | .reportSignal => [.collectTrace, .printTrace, .abort]
  | _ => []

/-- What is inserted into `std::cerr` for a line, in order. The stream has no buffer: each insertion is
    written on its own. -/
def backtraceLine (sig : Int) (stackLine : List UInt8) : List (List UInt8) :=
  [bytes "report_signal():", toBytes sig, bytes ": backtrace=", stackLine, bytes "\n"]

/-- A handler that was entered and has not returned. -/
structure Activation where
  thread : Nat
  handler : Handler
  sig : Int
  rest : List Statement
  trace : List (List UInt8) := []
  /-- what is left to insert of the line that it prints -/
  line : List (List UInt8) := []
  /-- whether it waits for a lock that will not be released -/
  waits : Bool := false
deriving DecidableEq

namespace Reports

inductive Event
  | entered (thread : Nat) (handler : Handler) (sig : Int)
  | returned (thread : Nat) (handler : Handler) (sig : Int)
deriving DecidableEq

end Reports

/-- A process in which signals are raised. -/
structure Reports where
  /-- no default action has ended it, and no handler has called `abort()` -/
  alive : Bool
  dispositions : Dispositions
  /-- those of all threads, the newest first -/
  activations : List Activation
  cerr : List UInt8
  /-- the newest event first -/
  log : List Reports.Event

namespace Reports

/-- The signals of a crash. -/
def crashSignals : Finset Int := {SIGHUP, SIGILL, SIGTRAP, SIGBUS, SIGFPE, SIGSEGV}

inductive Op
  | raise (thread : Nat) (sig : crashSignals)
  /-- the innermost handler of a thread does what is next; `p` is what its stack is then -/
  | advance (thread : Nat) (p : Process)
  /-- it comes to a lock that is held by code that a handler has interrupted: the collection of the trace
      allocates, and what follows may lock too -/
  | wait (thread : Nat)

def start (table : SignalTable) : Reports :=
  { alive := true, dispositions := table.dispositions, activations := [], cerr := [], log := [] }

/-- The default action of the signals of a crash terminates the process. -/
def raise (thread : Nat) (sig : Int) (s : Reports) : Reports :=
  match (s.dispositions sig).saSigaction with
  | .sigDfl => { s with alive := false }
  | .sigIgn => s
  | handler =>
    { s with
      dispositions :=
        if (s.dispositions sig).saFlags &&& SA_RESETHAND ≠ 0 then
          s.dispositions.set sig { s.dispositions sig with saSigaction := .sigDfl }
        else s.dispositions
      activations := { thread, handler, sig, rest := handler.body } :: s.activations
      log := .entered thread handler sig :: s.log }

/-- The innermost activation of its thread becomes `a`. -/
def update (a : Activation) (s : Reports) : Reports :=
  { s with activations := s.activations.replaceF fun b => if b.thread = a.thread then some a else none }

def advance (thread : Nat) (p : Process) (s : Reports) : Option Reports :=
  match s.activations.find? (·.thread == thread) with
  | none => none
  | some a =>
    if a.waits then none
    else
      match a.rest with
      | [] => some
        { s with
          activations := s.activations.eraseP (·.thread == thread)
          log := .returned thread a.handler a.sig :: s.log }
      | .collectTrace :: rest =>
        match (collectStackTrace p STACK_TRACE_DEPTH).result with
        | .ok trace => some (s.update { a with rest, trace })
        | .error _ => some (s.raise thread SIGSEGV)
      | .printTrace :: rest =>
        match a.line, a.trace with
        | text :: line, _ => some { s.update { a with line } with cerr := s.cerr ++ text }
        | [], stackLine :: trace => some (s.update { a with trace, line := backtraceLine a.sig stackLine })
        | [], [] => some (s.update { a with rest })
      | .abort :: _ => some { s with alive := false }

def wait (thread : Nat) (s : Reports) : Option Reports :=
  match s.activations.find? (·.thread == thread) with
  | none => none
  | some a => if a.waits then none else some (s.update { a with waits := true })

def step (s : Reports) (op : Op) : Option Reports :=
  if s.alive then
    match op with
    | .raise thread sig => some (s.raise thread sig)
    | .advance thread p => s.advance thread p
    | .wait thread => s.wait thread
  else none

end Reports

/-- A process that calls `init_report_signal()` whenever it likes. -/
structure Registering where
  reports : Reports
  gSignalActions : Fin 64 → Option Sigaction
  /-- the calls made so far -/
  calls : Nat

namespace Registering

inductive Op
  | initReportSignal
  | report (op : Reports.Op)

def start (table : SignalTable) : Registering :=
  { reports := Reports.start table, gSignalActions := table.gSignalActions, calls := 0 }

def table (s : Registering) : SignalTable := ⟨s.reports.dispositions, s.gSignalActions⟩

def step (s : Registering) : Op → Option Registering
  | .initReportSignal =>
    if s.reports.alive then
      let table := initReportSignal s.table
      some
        { reports := { s.reports with dispositions := table.dispositions }
          gSignalActions := table.gSignalActions
          calls := s.calls + 1 }
    else none
  | .report op => (s.reports.step op).map fun reports => { s with reports }

end Registering

end Libexcept
