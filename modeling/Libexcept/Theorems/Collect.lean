import Libexcept.Theorems.Frame

/-! The two collectors. Both capture the first frames of the stack into an array and push one entry for
    each string of the table that `backtrace_symbols()` returns; they differ in the size of the array,
    in the test of the table, and in the entry. -/

namespace Libexcept
open CString (bytes)

/-- The frames that `backtrace()` stores for a count. -/
def Process.captured (p : Process) (count : Int) : List CString := p.stack.take count.toNat

variable {p : Process} {d : Int} {slots : Nat} {array : List CString}

def Process.table (p : Process) (count : Int) : Option (List CString) :=
  if p.symbolTable then some (p.captured count) else none

/-! ### The array and the table -/

theorem resize_eq : resize d = ⟨[.resize d.toNat], .ok d.toNat⟩ := rfl

theorem backtrace_eq (h : d.toNat ≤ slots) : backtrace p slots d = ⟨[.backtrace slots d], .ok (p.captured d)⟩ := by
  have hlen : (p.captured d).length ≤ slots := (List.length_take_le _ _).trans h
  have hfits : ¬ slots < (p.stack.take d.toNat).length := Nat.not_lt.mpr hlen
  unfold backtrace
  dsimp only
  rw [if_neg hfits]
  rfl

theorem backtraceSymbols_eq : backtraceSymbols p (p.captured d) =
    ⟨[.backtraceSymbols (p.captured d).length], .ok (p.table d)⟩ := rfl

theorem captured_of_nonpos (hd : d ≤ 0) : p.captured d = [] := by
  unfold Process.captured
  rw [Int.toNat_of_nonpos hd, List.take_zero]

theorem tableEntry_bind {β : Type} {idx : Nat} {raw : CString} {f : CString → Run β} (h : array[idx]? = some raw) :
    (tableEntry (some array) idx >>= f) = f raw := by
  simp only [tableEntry, h]
  rfl

theorem pushFrames_eq_ok {entry : Nat → CString → Run (List UInt8)} {out : List (List UInt8)} :
    (pushFrames entry (some array) array.length).result = .ok out ↔ out.length = array.length ∧
      ∀ i raw, array[i]? = some raw → ∃ e, out[i]? = some e ∧ (entry i raw).result = .ok e := by
  unfold pushFrames
  rw [Exec.collect_range_eq_ok]
  constructor
  · rintro ⟨hlen, h⟩
    refine ⟨hlen, fun i raw hraw => ?_⟩
    obtain ⟨hi, -⟩ := List.getElem?_eq_some_iff.mp hraw
    have he := List.getElem?_eq_getElem (hlen ▸ hi : i < out.length)
    have hround := h i _ he
    rw [tableEntry_bind hraw] at hround
    exact ⟨_, he, hround⟩
  · rintro ⟨hlen, h⟩
    refine ⟨hlen, fun i e he => ?_⟩
    obtain ⟨hi, -⟩ := List.getElem?_eq_some_iff.mp he
    have hraw := List.getElem?_eq_getElem (hlen ▸ hi : i < array.length)
    obtain ⟨e', he', hround⟩ := h i _ hraw
    rw [he] at he'
    rw [tableEntry_bind hraw, hround, Option.some.inj he']

theorem pushFrames_returns {entry : Nat → CString → Run (List UInt8)} :
    (∃ out, (pushFrames entry (some array) array.length).result = .ok out) ↔
      ∀ i raw, array[i]? = some raw → ∃ e, (entry i raw).result = .ok e := by
  unfold pushFrames
  rw [Exec.collect_returns]
  constructor
  · intro h i raw hraw
    obtain ⟨hi, -⟩ := List.getElem?_eq_some_iff.mp hraw
    obtain ⟨e, he⟩ := h i (List.mem_range.mpr hi)
    rw [tableEntry_bind hraw] at he
    exact ⟨e, he⟩
  · intro h i hi
    have hraw := List.getElem?_eq_getElem (List.mem_range.mp hi)
    obtain ⟨e, he⟩ := h i _ hraw
    exact ⟨e, by rw [tableEntry_bind hraw, he]⟩

theorem mem_calls_pushFrames {entry : Nat → CString → Run (List UInt8)} {c : Call}
    (h : c ∈ (pushFrames entry (some array) array.length).calls) :
    ∃ i raw, array[i]? = some raw ∧ c ∈ (entry i raw).calls := by
  obtain ⟨i, hi, hc⟩ := Exec.mem_calls_collect h
  have hraw := List.getElem?_eq_getElem (List.mem_range.mp hi)
  rw [tableEntry_bind hraw] at hc
  exact ⟨i, _, hraw, hc⟩

/-- Without a table the loop returns only when it has no round. -/
theorem pushFrames_null {entry : Nat → CString → Run (List UInt8)} {size : Nat} :
    (∃ out, (pushFrames entry none size).result = .ok out) ↔ size = 0 := by
  unfold pushFrames
  rw [Exec.collect_returns]
  constructor
  · intro h
    by_contra hne
    obtain ⟨b, hb⟩ := h 0 (List.mem_range.mpr (Nat.pos_of_ne_zero hne))
    cases hb
  · rintro rfl
    simp

/-! ### The collectors -/

theorem collectStackTrace_nonpos (hd : d ≤ 0) : collectStackTrace p d = ⟨[], .ok []⟩ := by
  unfold collectStackTrace
  rw [if_neg (by omega)]
  rfl

theorem collectStackTraceWithLineNumbers_nonpos (hd : d ≤ 0) :
    collectStackTraceWithLineNumbers p d = ⟨[], .ok []⟩ := by
  unfold collectStackTraceWithLineNumbers
  rw [if_neg (by omega)]
  rfl

theorem collectStackTraceWithLineNumbers_eq (hd : 0 < d) : collectStackTraceWithLineNumbers p d =
    ⟨.resize d.toNat :: .backtrace d.toNat d :: .backtraceSymbols (p.captured d).length ::
      (pushFrames (frameEntry p) (p.table d) (p.captured d).length).calls,
      (pushFrames (frameEntry p) (p.table d) (p.captured d).length).result⟩ := by
  unfold collectStackTraceWithLineNumbers
  rw [if_pos hd, resize_eq, Exec.ok_bind, backtrace_eq (Nat.le_refl _), Exec.ok_bind, backtraceSymbols_eq, Exec.ok_bind]
  rfl

theorem pushFrames_chars : pushFrames (fun _ stackString => return stackString.chars) (some array) array.length =
    ⟨[], .ok (array.map CString.chars)⟩ := by
  refine Exec.ext ?_ ?_
  · rw [List.eq_nil_iff_forall_not_mem]
    intro c hc
    obtain ⟨_, _, -, hc⟩ := mem_calls_pushFrames hc
    cases hc
  · rw [pushFrames_eq_ok]
    refine ⟨List.length_map _, fun i raw hraw => ⟨raw.chars, ?_, rfl⟩⟩
    rw [List.getElem?_map, hraw]
    rfl

theorem collectStackTrace_eq (hd : 0 < d) (ht : p.symbolTable = true) : collectStackTrace p d =
    ⟨[.resize (max d 1000).toNat, .backtrace (max d 1000).toNat d, .backtraceSymbols (p.captured d).length],
      .ok ((p.captured d).map CString.chars)⟩ := by
  have hslots : d.toNat ≤ (max d 1000).toNat := by omega
  have htable : p.table d = some (p.captured d) := if_pos ht
  unfold collectStackTrace
  rw [if_pos hd, resize_eq, Exec.ok_bind, backtrace_eq hslots, Exec.ok_bind, backtraceSymbols_eq, Exec.ok_bind, htable,
    if_pos (Option.some_ne_none _), pushFrames_chars]
  rfl

end Libexcept
