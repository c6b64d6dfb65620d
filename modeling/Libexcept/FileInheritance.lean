import Libexcept.Exception
import Libexcept.Lib.Digits
import Mathlib.Data.Finset.Basic

/-! The inherited files: `file_inheritance.cpp`.

The function reads the directory of the descriptors that it changes itself while it reads: it has the
directory open, and opens a file for each warning. `readdir()` returns the entries of a kernel read one
by one, and what a kernel read may return is a matter of the table of that moment. -/

namespace Libexcept
open CString (bytes)

abbrev Fd := { n : Nat // n < 2 ^ 31 }

abbrev FdTable := Finset Fd

def STDERR_FILENO : Fd := ⟨2, by decide⟩

structure System where
  getpid : Int
  getppid : Int
  /-- the descriptor that a file is opened with; `none` when it cannot be opened -/
  openFile : List UInt8 → FdTable → Option Fd
  openFile_fresh : ∀ {path table fd}, openFile path table = some fd → fd ∉ table
  content : List UInt8 → List UInt8
  /-- the target of a link; `none` when `readlink()` fails -/
  readlink : List UInt8 → Option CString
  /-- whether `std::cerr` is good, and what descriptor 2 refers to at the call takes all that is written -/
  stderrTakes : Bool
  /-- the process in which an exception is built, with the table of that moment -/
  process : FdTable → Process

/-- The descriptors are those below a limit: a file is opened unless none of them is free, or it is
    refused for another reason. -/
def System.Limited (sys : System) (limit : Nat) (refused : List UInt8 → FdTable → Prop) : Prop :=
  ∀ path table, sys.openFile path table = none ↔ refused path table ∨ ∀ fd : Fd, fd.val < limit → fd ∈ table

inductive DirFault
  | memory (fault : CString.Fault)
  | nullDir
  /-- no kernel read returns this with the table of the moment -/
  | impossibleRead
deriving DecidableEq

/-! ### The directory -/

/-- The name of a descriptor in `/proc/<pid>/fd`. -/
def fdName (fd : Fd) : CString := ⟨Digits.decimal fd.val, Digits.notMem_decimal fd.val (by decide)⟩

def dot : CString := ⟨bytes ".", by decide⟩

def dotDot : CString := ⟨bytes "..", by decide⟩

def IsEntry (table : FdTable) (name : CString) : Prop := name = dot ∨ name = dotDot ∨ ∃ fd ∈ table, name = fdName fd

instance (table : FdTable) (name : CString) : Decidable (IsEntry table name) :=
  inferInstanceAs (Decidable (name = dot ∨ name = dotDot ∨ ∃ fd ∈ table, name = fdName fd))

def HoldsEntries (table : FdTable) (names : List CString) : Prop :=
  dot ∈ names ∧ dotDot ∈ names ∧ ∀ fd ∈ table, fdName fd ∈ names

instance (table : FdTable) (names : List CString) : Decidable (HoldsEntries table names) :=
  inferInstanceAs (Decidable (dot ∈ names ∧ dotDot ∈ names ∧ ∀ fd ∈ table, fdName fd ∈ names))

/-- The names are the entries of `/proc/<pid>/fd`, each once, in some order. -/
structure IsListing (table : FdTable) (names : List CString) : Prop where
  nodup : names.Nodup
  entries : ∀ name ∈ names, IsEntry table name
  holds : HoldsEntries table names

/-- A kernel read returns some entries that were not read yet. -/
def PossibleRead (table : FdTable) (seen chunk : List CString) : Prop :=
  chunk ≠ [] ∧ (seen ++ chunk).Nodup ∧ ∀ name ∈ chunk, IsEntry table name

instance (table : FdTable) (seen chunk : List CString) : Decidable (PossibleRead table seen chunk) :=
  inferInstanceAs (Decidable (chunk ≠ [] ∧ (seen ++ chunk).Nodup ∧ ∀ name ∈ chunk, IsEntry table name))

/-! ### The command line -/

/-- `std::getline(cmdline, line, '\0')` from the file of the process, which is closed on return. -/
def getCommandLine (sys : System) (pid : Int) (table : FdTable) : List UInt8 × FdTable :=
  let filename := bytes "/proc/" ++ toBytes pid ++ bytes "/cmdline"
  match sys.openFile filename table with
  | none => ([], table)
  | some cmdline =>
    let table := insert cmdline table
    let line := Delimited.before (fun c => c == 0) (sys.content filename)
    (line, table.erase cmdline)

/-! ### The check -/

/-- The text between the parentheses: what fits of the target of the link. -/
def linkText (sys : System) (path : List UInt8) : List UInt8 :=
  match sys.readlink path with
  | some target => target.chars.take 255
  | none => []

def warningText (sys : System) (fd : Int) (link commandLine : List UInt8) : List UInt8 :=
  bytes "warning: file descriptor " ++ toBytes fd ++ bytes " (" ++ link ++
    bytes ") leaked on invocation. Parent PID " ++ toBytes sys.getppid ++ bytes ": " ++ commandLine ++ bytes "\n"

/-- Whether an insertion into `std::cerr` is written. What is opened where descriptor 2 was free is the
    directory, or a file that is closed again ahead of the next insertion: neither takes a write. -/
def cerrTakes (sys : System) (dirfd : Fd) (table : FdTable) : Bool :=
  sys.stderrTakes && decide (STDERR_FILENO ∈ table) && decide (STDERR_FILENO ≠ dirfd)

structure Scan where
  table : FdTable
  cerr : List UInt8
  errcnt : Nat
deriving DecidableEq

/-- `basename[0] >= '0' && basename[0] <= '2' && basename[1] == '\0'`. -/
def isStandard (basename : CString) : Except CString.Fault Bool := do
  let first ← basename.read 0
  if '0'.toUInt8 ≤ first ∧ first ≤ '2'.toUInt8 then return (← basename.read 1) == 0 else return false

/-- The number that a warning is printed for, if the tests of the loop let the entry through. -/
def leakedFd (allowed : Finset Int) (dirfd : Fd) (basename : CString) : Except CString.Fault (Option Int) := do
  if (← basename.read 0) == '.'.toUInt8 then
    -- ignore all hidden files
    return none
  else if ← isStandard basename then
    -- skip stdin, stdout, stderr
    return none
  else
    let fd := Digits.atoi basename.chars
    if fd = dirfd.val then return none
    else if fd ∈ allowed then return none
    else return some fd

def visit (sys : System) (path : List UInt8) (allowed : Finset Int) (dirfd : Fd) (scan : Scan) (basename : CString) :
    Except CString.Fault Scan := do
  match ← leakedFd allowed dirfd basename with
  | none => return scan
  | some fd =>
    let link := linkText sys (path ++ bytes "/" ++ basename.chars)
    let (commandLine, table) := getCommandLine sys sys.getppid scan.table
    let text := if cerrTakes sys dirfd table then warningText sys fd link commandLine else []
    return { table, cerr := scan.cerr ++ text, errcnt := scan.errcnt + 1 }

/-- The loop, by the kernel reads that its `readdir()` calls make. -/
def readLoop (sys : System) (path : List UInt8) (allowed : Finset Int) (dirfd : Fd) :
    List (List CString) → List CString → Scan → Except DirFault Scan
  | [], seen, scan => if HoldsEntries scan.table seen then .ok scan else .error .impossibleRead
  | chunk :: reads, seen, scan =>
    if PossibleRead scan.table seen chunk then do
      let scan ← (chunk.foldlM (visit sys path allowed dirfd) scan).mapError .memory
      readLoop sys path allowed dirfd reads (seen ++ chunk) scan
    else .error .impossibleRead

inductive CheckExit
  | returned
  | thrown (cls : Class) (object : Exception)
  /-- the constructor of the exception has ended the process -/
  | crashed (fault : Fault)

structure Report where
  table : FdTable
  cerr : List UInt8
  exit : CheckExit

def fdPath (sys : System) : List UInt8 := bytes "/proc/" ++ toBytes sys.getpid ++ bytes "/fd"

/-- `debug` is whether `_DEBUG` is defined. `auto_close` closes the directory on return and on the throw, once
    the exception is built. -/
def verifyInheritedFiles (sys : System) (debug : Bool) (allowed : Finset Int) (reads : List (List CString))
    (table : FdTable) : Except DirFault Report := do
  match sys.openFile (fdPath sys) table with
  | none => .error .nullDir
  | some dirfd =>
    let scan ← readLoop sys (fdPath sys) allowed dirfd reads [] { table := insert dirfd table, cerr := [], errcnt := 0 }
    if debug ∧ scan.errcnt > 0 then
      match (fileInheritedClass.construct (sys.process scan.table)
          (bytes "found unexpected file descriptor leaks.")).result with
      | .ok object =>
        return { table := scan.table.erase dirfd, cerr := scan.cerr, exit := .thrown fileInheritedClass object }
      | .error fault => return { table := scan.table, cerr := scan.cerr, exit := .crashed fault }
    else return { table := scan.table.erase dirfd, cerr := scan.cerr, exit := .returned }

/-! ### The tool -/

namespace VerifyFileInheritance

inductive Exit
  | returned (status : Int)
  /-- `std::terminate()`, for an exception that nothing caught -/
  | terminated (cls : Class) (object : Exception)
  | crashed (fault : Fault)

/-- `verify_file_inheritance.cpp`: what it prints, and how the process ends. -/
def main (sys : System) (debug : Bool) (reads : List (List CString)) (table : FdTable) :
    Except DirFault (List UInt8 × Exit) := do
  let report ← verifyInheritedFiles sys debug ∅ reads table
  match report.exit with
  | .thrown cls object => return (report.cerr, .terminated cls object)
  | .crashed fault => return (report.cerr, .crashed fault)
  | .returned => return (report.cerr, .returned 0)

end VerifyFileInheritance

end Libexcept
