import Libexcept.Theorems.SignalMask
import Libexcept.Theorems.Exception
import Libexcept.Lib.Digits

/-! When a signal mask object throws, and what its caller catches. -/

namespace Libexcept
open CString (bytes)

variable {lib : SignalLibrary} {thread : Thread} {blockSignals : List Int} {ok : Bool}

/-- The message of an exception of the constructor. -/
theorem message_of_error {e : Fixme} {thread' : Thread}
    (h : (scopedSignalMask lib ok blockSignals).run thread = .error e thread') :
    ∃ msg, e = fixme msg ∧ (0 : UInt8) ∉ bytes msg := by
  have hsig : ∀ (msg : String) (sig : Int), (0 : UInt8) ∉ bytes msg → (0 : UInt8) ∉ bytes (msg ++ toString sig) := by
    intro msg sig hmsg
    rw [Digits.bytes_append, List.mem_append, not_or]
    exact ⟨hmsg, Digits.notMem_bytes_toString sig (by decide) (by decide)⟩
  rw [run_scopedSignalMask] at h
  split at h
  · cases h
    exact ⟨_, rfl, hsig _ _ (by decide)⟩
  · split at h
    · cases h
      exact ⟨_, rfl, hsig _ _ (by decide)⟩
    · split at h <;> cases h
      exact ⟨_, rfl, by decide⟩

/-- The constructor throws for the first signal that cannot be added, else for the first of the sanitizer's
    signals that cannot be deleted, else for the mask, and asks for the sanitizer unless it throws for the
    list. Its caller catches a `fixme` with the message of that failure. -/
theorem scopedSignalMask_thrown (lib : SignalLibrary) (ok : Bool) (blockSignals : List Int) (thread : Thread) :
    ((scopedSignalMask lib ok blockSignals).run thread =
      match blockSignals.find? fun sig => !lib.sigaddset sig with
      | some sig => .error (fixme ("sigaddset() failed to set signal " ++ toString sig)) thread
      | none =>
        match (deleted (thread.asked lib).gHasSanitizer).find? fun sig => !lib.sigdelset sig with
        | some sig => .error (fixme ("sigdelset() failed to delete signal " ++ toString sig)) (thread.asked lib)
        | none =>
          if ok then
            .ok { fSet := true, fOriginalMask := thread.mask.signals }
              { thread.asked lib with
                mask := .ofSet (thread.mask.signals ∪
                  (requested lib blockSignals \ incompatible (thread.asked lib).gHasSanitizer)) }
          else .error (fixme "sigprocmask() failed to block signals.") (thread.asked lib)) ∧
    ∀ e thread', (scopedSignalMask lib ok blockSignals).run thread = .error e thread' →
      ∃ msg, e = fixme msg ∧ ∀ p object, (fixmeClass.construct p (bytes msg)).result = .ok object →
        Caught (bytes e.what) object := by
  refine ⟨run_scopedSignalMask lib ok blockSignals thread, fun e thread' h => ?_⟩
  obtain ⟨msg, rfl, hmsg⟩ := message_of_error h
  refine ⟨msg, rfl, fun p object hobject => ?_⟩
  have htext : bytes (fixme msg).what = bytes "fixme" ++ bytes ": " ++ bytes msg := Digits.bytes_append "fixme: " msg
  rw [htext]
  exact caught_of_construct (by decide) hmsg hobject

end Libexcept
