import Libexcept.SignalMask
import Libexcept.Lib.Interleaving

/-! The calls of `has_sanitizer()` by the threads of a process: `scoped_signal_mask.cpp`.

The globals of the function are plain, and a call reads and writes them one at a time. -/

namespace Libexcept

/-- `g_has_sanitizer_defined` and `g_has_sanitizer`. -/
structure SanitizerGlobals where
  gHasSanitizerDefined : Bool := false
  gHasSanitizer : Bool := false
deriving DecidableEq

def Thread.globals (thread : Thread) : SanitizerGlobals := ⟨thread.gHasSanitizerDefined, thread.gHasSanitizer⟩

/-- What a call does next. -/
inductive SanitizerCall
  /-- reads `g_has_sanitizer_defined` -/
  | test
  /-- writes `g_has_sanitizer_defined` -/
  | define
  | dlsym
  /-- writes `g_has_sanitizer` -/
  | store (found : Bool)
  /-- reads `g_has_sanitizer` -/
  | answer
  | returned (answer : Bool)
deriving DecidableEq

namespace SanitizerCall

def next (lib : SignalLibrary) (g : SanitizerGlobals) : SanitizerCall → Option (SanitizerCall × SanitizerGlobals)
  | .test => some (if !g.gHasSanitizerDefined then .define else .answer, g)
  | .define => some (.dlsym, { g with gHasSanitizerDefined := true })
  | .dlsym => some (.store lib.lsanEnable, g)
  | .store found => some (.answer, { g with gHasSanitizer := found })
  | .answer => some (.returned g.gHasSanitizer, g)
  | .returned _ => none

inductive Global
  | gHasSanitizerDefined
  | gHasSanitizer
deriving DecidableEq

def reads : SanitizerCall → Option Global
  | .test => some .gHasSanitizerDefined
  | .answer => some .gHasSanitizer
  | _ => none

def writes : SanitizerCall → Option Global
  | .define => some .gHasSanitizerDefined
  | .store _ => some .gHasSanitizer
  | _ => none

end SanitizerCall

/-- The calls of a process: those that were made, by any thread. -/
abbrev SanitizerCalls := Interleaving.State SanitizerGlobals SanitizerCall

namespace SanitizerCalls

def step (lib : SignalLibrary) : SanitizerCalls → Interleaving.Op → Option SanitizerCalls :=
  Interleaving.step .test (SanitizerCall.next lib)

/-- Two calls are about to access the same global, and one of them to write it. -/
def Races (s : SanitizerCalls) : Prop :=
  ∃ (i j : Nat) (c c' : SanitizerCall) (global : SanitizerCall.Global), i ≠ j ∧
    s.procs[i]? = some c ∧ s.procs[j]? = some c' ∧ c.writes = some global ∧ (c'.reads = some global ∨ c'.writes = some global)

end SanitizerCalls

end Libexcept
