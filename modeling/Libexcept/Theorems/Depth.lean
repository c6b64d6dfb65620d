import Libexcept.Theorems.Collect
import Mathlib.Algebra.GroupWithZero.Nat

/-! The depth of a trace. The documentation clamps it to 1,000; the code takes the maximum of the depth
    and 1,000 for the array of the plain trace, and the depth alone for the complete one, so a larger
    depth is clamped nowhere. -/

namespace Libexcept

variable {p : Process} {d : Int}

/-- The array never has more than 1,000 slots, nor fewer than the count passed to `backtrace()`. -/
def BufferBounded (calls : List Call) : Prop :=
  (∀ slots : Nat, .resize slots ∈ calls → slots ≤ 1000) ∧
    ∀ (slots : Nat) (count : Int), .backtrace slots count ∈ calls → count ≤ slots

def converted (calls : List Call) : Nat :=
  (calls.filterMap fun
    | .backtraceSymbols size => some size
    | _ => none).sum

/-- The first frames of the stack, at most 1,000 of them. -/
def clamped (p : Process) (d : Int) : List CString := p.stack.take (min d 1000).toNat

def DepthClamped (p : Process) (d : Int) : Prop :=
  (collectStackTrace p d).result = .ok ((clamped p d).map CString.chars) ∧
  BufferBounded (collectStackTrace p d).calls ∧
  converted (collectStackTraceWithLineNumbers p d).calls = (clamped p d).length ∧
  (∀ out, (collectStackTraceWithLineNumbers p d).result = .ok out → out.length = (clamped p d).length) ∧
  BufferBounded (collectStackTraceWithLineNumbers p d).calls

theorem clamped_eq (hd : d ≤ 1000) : clamped p d = p.captured d := by
  unfold clamped Process.captured
  rw [Int.min_eq_left hd]

theorem bufferBounded_nil : BufferBounded [] := ⟨(fun _ h => nomatch h), (fun _ _ h => nomatch h)⟩

/-- After the array is filled, a trace only converts and looks up frames. -/
theorem bufferBounded_cons {slots : Nat} {calls : List Call} (hslots : slots ≤ 1000) (hd : d ≤ slots)
    (hcalls : ∀ c ∈ calls, (∃ size, c = .backtraceSymbols size) ∨ ∃ command, c = .popen command) :
    BufferBounded (.resize slots :: .backtrace slots d :: calls) := by
  refine ⟨fun slots' h => ?_, fun slots' count h => ?_⟩
  · rcases List.mem_cons.mp h with h | h
    · cases h
      exact hslots
    · rcases List.mem_cons.mp h with h | h
      · cases h
      · rcases hcalls _ h with ⟨_, h⟩ | ⟨_, h⟩ <;> cases h
  · rcases List.mem_cons.mp h with h | h
    · cases h
    · rcases List.mem_cons.mp h with h | h
      · cases h
        exact hd
      · rcases hcalls _ h with ⟨_, h⟩ | ⟨_, h⟩ <;> cases h

theorem table_of (ht : p.symbolTable = true) : p.table d = some (p.captured d) := if_pos ht

theorem converted_withLineNumbers (hd : 0 < d) (ht : p.symbolTable = true) :
    converted (collectStackTraceWithLineNumbers p d).calls = (p.captured d).length := by
  have hpopen : (pushFrames (frameEntry p) (some (p.captured d)) (p.captured d).length).calls.filterMap
      (fun
        | .backtraceSymbols size => some size
        | _ => none) = [] := by
    refine List.filterMap_eq_nil_iff.mpr fun c hc => ?_
    obtain ⟨_, _, -, hc⟩ := mem_calls_pushFrames hc
    obtain ⟨_, rfl⟩ := mem_calls_frameEntry hc
    rfl
  rw [collectStackTraceWithLineNumbers_eq hd, table_of ht]
  simp only [converted, List.filterMap_cons, hpopen, List.sum_cons, List.sum_nil, Nat.add_zero]

/-- The depth is clamped exactly when there is nothing to clamp. -/
theorem depthClamped_iff (p : Process) (d : Int) (ht : p.symbolTable = true) : DepthClamped p d ↔ d ≤ 1000 := by
  constructor
  · rintro ⟨-, ⟨hslots, -⟩, -⟩
    by_contra hd
    have hpos : 0 < d := by omega
    rw [collectStackTrace_eq hpos ht] at hslots
    have := hslots _ List.mem_cons_self
    omega
  · intro hd
    unfold DepthClamped
    rw [clamped_eq hd]
    by_cases hpos : 0 < d
    · have hmax : (max d 1000).toNat = 1000 := by omega
      refine ⟨by rw [collectStackTrace_eq hpos ht], ?_, converted_withLineNumbers hpos ht, fun out hout => ?_, ?_⟩
      · rw [collectStackTrace_eq hpos ht, hmax]
        refine bufferBounded_cons (Nat.le_refl _) hd fun c hc => Or.inl ⟨_, List.mem_singleton.mp hc⟩
      · rw [collectStackTraceWithLineNumbers_eq hpos, table_of ht] at hout
        exact (pushFrames_eq_ok.mp hout).1
      · rw [collectStackTraceWithLineNumbers_eq hpos, table_of ht]
        refine bufferBounded_cons (by omega) (by omega) fun c hc => ?_
        rcases List.mem_cons.mp hc with rfl | hc
        · exact Or.inl ⟨_, rfl⟩
        · obtain ⟨_, _, -, hc⟩ := mem_calls_pushFrames hc
          exact Or.inr (mem_calls_frameEntry hc)
    · have hnonpos : d ≤ 0 := by omega
      rw [collectStackTrace_nonpos hnonpos, collectStackTraceWithLineNumbers_nonpos hnonpos, captured_of_nonpos hnonpos]
      refine ⟨rfl, bufferBounded_nil, rfl, fun out hout => ?_, bufferBounded_nil⟩
      rw [← Except.ok.inj hout]
      rfl

def deepStack : Process := { silentTool with stack := List.replicate 1500 mainFrame }

/-- A depth of 1,000 is less than its frames. -/
theorem depthClamped_iff_1000 : DepthClamped deepStack 1000 ↔ (1000 : Int) ≤ 1000 := depthClamped_iff deepStack 1000 rfl

/-- A depth of 1,001 returns 1,001 frames of it, from an array of 1,001 slots. -/
theorem deepStack_not_clamped :
    (∃ out, (collectStackTrace deepStack 1001).result = .ok out ∧ out.length = 1001) ∧
    .resize 1001 ∈ (collectStackTrace deepStack 1001).calls ∧ ¬ DepthClamped deepStack 1001 := by
  have htrace := collectStackTrace_eq (p := deepStack) (d := 1001) (by decide) rfl
  have hslots : Call.resize 1001 ∈ (collectStackTrace deepStack 1001).calls := by
    rw [htrace]
    exact List.mem_cons_self
  refine ⟨⟨_, by rw [htrace], ?_⟩, hslots, fun h => ?_⟩
  · simp only [Process.captured, deepStack, List.length_map, List.length_take, List.length_replicate]
    rfl
  · exact absurd (h.2.1.1 _ hslots) (by decide)

end Libexcept
