import Libexcept.Sanitizer
import Libexcept.Theorems.SignalMask

/-! Whether the process has the sanitizer. The first call writes the globals that every call reads, so
    it has to be over before another one starts; from then on no call writes, and all are right. -/

namespace Libexcept

variable {lib : SignalLibrary}

namespace SanitizerCalls

variable {s t : SanitizerCalls} {op : Interleaving.Op}

/-! ### One call -/

/-- A call that nothing interrupts is the function. -/
theorem run_alone (lib : SignalLibrary) (thread : Thread) (calls : List SanitizerCall) :
    ∃ n answer thread', (hasSanitizer lib).run thread = .ok answer thread' ∧
      Machine.run (step lib) ⟨thread.globals, calls⟩ (.start :: List.replicate n (.advance calls.length)) =
        some ⟨thread'.globals, calls ++ [.returned answer]⟩ := by
  obtain ⟨mask, defined, sanitizer⟩ := thread
  have advance : ∀ {g c c' g' n u}, SanitizerCall.next lib g c = some (c', g') →
      Machine.run (step lib) ⟨g', calls ++ [c']⟩ (List.replicate n (.advance calls.length)) = some u →
      Machine.run (step lib) ⟨g, calls ++ [c]⟩ (List.replicate (n + 1) (.advance calls.length)) = some u := by
    intro g c c' g' n u hnext hrest
    refine Machine.run_cons.mpr ⟨_, ?_, hrest⟩
    simp [step, Interleaving.step, hnext]
  cases defined with
  | true =>
    refine ⟨2, sanitizer, _, rfl, Machine.run_cons.mpr ⟨_, rfl, ?_⟩⟩
    exact advance rfl (advance rfl rfl)
  | false =>
    refine ⟨5, lib.lsanEnable, _, rfl, Machine.run_cons.mpr ⟨_, rfl, ?_⟩⟩
    exact advance rfl (advance rfl (advance rfl (advance rfl (advance rfl rfl))))

/-! ### Any interleaving -/

/-- What a call knows. -/
def Knows (lib : SignalLibrary) (g : SanitizerGlobals) : SanitizerCall → Prop
  | .test | .define => True
  | .dlsym | .answer => g.gHasSanitizerDefined = true
  | .store found => g.gHasSanitizerDefined = true ∧ found = lib.lsanEnable
  | .returned answer => g.gHasSanitizerDefined = true ∧ (answer = true → lib.lsanEnable = true)

/-- The sanitizer is never found where it is not. -/
def Found (lib : SignalLibrary) (g : SanitizerGlobals) : Prop := g.gHasSanitizer = true → lib.lsanEnable = true

theorem knows_mono {g g' : SanitizerGlobals} {c : SanitizerCall}
    (h : g.gHasSanitizerDefined = true → g'.gHasSanitizerDefined = true) (hc : Knows lib g c) : Knows lib g' c := by
  cases c with
  | test | define => trivial
  | dlsym | answer => exact h hc
  | store | returned => exact ⟨h hc.1, hc.2⟩

theorem knows_next {g g' : SanitizerGlobals} {c c' : SanitizerCall} (hg : Found lib g) (hc : Knows lib g c)
    (h : SanitizerCall.next lib g c = some (c', g')) : Found lib g' ∧ Knows lib g' c' ∧ ∀ d, Knows lib g d → Knows lib g' d := by
  cases c with
  | test =>
    cases h
    refine ⟨hg, ?_, fun _ hd => hd⟩
    cases hdefined : g.gHasSanitizerDefined
    · trivial
    · exact hdefined
  | define =>
    cases h
    exact ⟨hg, rfl, fun _ => knows_mono fun _ => rfl⟩
  | dlsym =>
    cases h
    exact ⟨hg, ⟨hc, rfl⟩, fun _ hd => hd⟩
  | store found =>
    cases h
    exact ⟨fun hfound => hc.2 ▸ hfound, hc.1, fun _ => knows_mono id⟩
  | answer =>
    cases h
    exact ⟨hg, ⟨hc, hg⟩, fun _ hd => hd⟩
  | returned => cases h

theorem knows_step (h : step lib s op = some t) (hs : Found lib s.shared ∧ ∀ c ∈ s.procs, Knows lib s.shared c) :
    Found lib t.shared ∧ ∀ c ∈ t.procs, Knows lib t.shared c :=
  Interleaving.keeps_step (P := Knows lib) (fun _ _ => by trivial) knows_next h hs

/-- The call that defines the answer is under way until the answer is there. -/
structure Sound (lib : SignalLibrary) (s : SanitizerCalls) : Prop where
  found : Found lib s.shared
  knows : ∀ c ∈ s.procs, Knows lib s.shared c
  pending : s.shared.gHasSanitizerDefined = true →
    s.shared.gHasSanitizer = lib.lsanEnable ∨ .dlsym ∈ s.procs ∨ .store lib.lsanEnable ∈ s.procs

theorem Sound.start (lib : SignalLibrary) : Sound lib ⟨{}, []⟩ where
  found h := nomatch h
  knows _ h := nomatch h
  pending h := nomatch h

theorem Sound.step (h : SanitizerCalls.step lib s op = some t) (hs : Sound lib s) : Sound lib t := by
  obtain ⟨hfound, hknows⟩ := knows_step h ⟨hs.found, hs.knows⟩
  refine ⟨hfound, hknows, fun hdefined => ?_⟩
  obtain ⟨shared, procs⟩ := t
  cases Interleaving.step_effect h with
  | started hshared hprocs =>
    cases hshared
    cases hprocs
    simpa using hs.pending hdefined
  | advanced before after c c' hnext hold hnew =>
    -- only the call that advances can be no longer where it was
    cases hnew
    have hkeep : ∀ d ∈ s.procs, d ≠ c → d ∈ before ++ c' :: after := by
      intro d hd hne
      rw [hold] at hd
      simp only [List.mem_append, List.mem_cons] at hd ⊢
      tauto
    have hcall : c' ∈ before ++ c' :: after := by simp
    have hsame : s.shared = shared → c ≠ .dlsym → c ≠ .store lib.lsanEnable →
        shared.gHasSanitizer = lib.lsanEnable ∨ .dlsym ∈ before ++ c' :: after ∨
          .store lib.lsanEnable ∈ before ++ c' :: after := by
      rintro rfl hdlsym hstore
      rcases hs.pending hdefined with h | h | h
      · exact Or.inl h
      · exact Or.inr (Or.inl (hkeep _ h hdlsym.symm))
      · exact Or.inr (Or.inr (hkeep _ h hstore.symm))
    cases c with
    | test | answer =>
      exact hsame (congrArg Prod.snd (Option.some.inj hnext)) (by simp) (by simp)
    | define =>
      cases hnext
      exact Or.inr (Or.inl hcall)
    | dlsym =>
      cases hnext
      exact Or.inr (Or.inr hcall)
    | store found =>
      have hknown : Knows lib s.shared (.store found) := hs.knows _ (by simp [hold])
      cases hnext
      exact Or.inl hknown.2
    | returned => cases hnext

/-! ### Once a call is over -/

/-- When the calls are over, the globals are written, and right. -/
theorem Sound.shared_eq (hs : Sound lib s) (hcalled : s.procs ≠ []) (hover : ∀ c ∈ s.procs, ∃ answer, c = .returned answer) :
    s.shared = ⟨true, lib.lsanEnable⟩ := by
  obtain ⟨c, hc⟩ := List.exists_mem_of_ne_nil _ hcalled
  obtain ⟨answer, rfl⟩ := hover c hc
  have hdefined := (hs.knows _ hc).1
  have hsanitizer : s.shared.gHasSanitizer = lib.lsanEnable := by
    rcases hs.pending hdefined with h | h | h
    · exact h
    · obtain ⟨_, h⟩ := hover _ h
      cases h
    · obtain ⟨_, h⟩ := hover _ h
      cases h
  obtain ⟨⟨defined, sanitizer⟩, procs⟩ := s
  cases hdefined
  cases hsanitizer
  rfl

/-- A call that finds the globals written. -/
def Late (lib : SignalLibrary) (c : SanitizerCall) : Prop := c = .test ∨ c = .answer ∨ c = .returned lib.lsanEnable

theorem late_next {g g' : SanitizerGlobals} {c c' : SanitizerCall} (hg : g = ⟨true, lib.lsanEnable⟩) (hc : Late lib c)
    (h : SanitizerCall.next lib g c = some (c', g')) :
    g' = ⟨true, lib.lsanEnable⟩ ∧ Late lib c' ∧ ∀ d, Late lib d → Late lib d := by
  subst hg
  rcases hc with rfl | rfl | rfl <;> cases h
  · exact ⟨rfl, Or.inr (Or.inl rfl), fun _ => id⟩
  · exact ⟨rfl, Or.inr (Or.inr rfl), fun _ => id⟩

def Settled (lib : SignalLibrary) (s : SanitizerCalls) : Prop :=
  s.shared = ⟨true, lib.lsanEnable⟩ ∧ ∀ c ∈ s.procs, Late lib c

theorem Settled.step (h : SanitizerCalls.step lib s op = some t) (hs : Settled lib s) : Settled lib t :=
  Interleaving.keeps_step (I := fun g : SanitizerGlobals => g = ⟨true, lib.lsanEnable⟩) (P := fun _ => Late lib)
    (fun _ _ => Or.inl rfl) late_next h hs

theorem Late.writes {c : SanitizerCall} (hc : Late lib c) : c.writes = none := by
  rcases hc with rfl | rfl | rfl <;> rfl

theorem not_races (h : ∀ c ∈ s.procs, c.writes = none) : ¬ s.Races := by
  rintro ⟨i, _, c, _, _, -, hi, -, hwrites, -⟩
  rw [h c (List.mem_of_getElem? hi)] at hwrites
  cases hwrites

end SanitizerCalls

/-- In any interleaving no call finds a sanitizer that is not there. Once the calls that were made are
    over, no call races another one or writes the globals, and each returns the right answer. -/
theorem hasSanitizer_settles (lib : SignalLibrary) (ops : List Interleaving.Op) (s : SanitizerCalls)
    (hrun : Machine.run (SanitizerCalls.step lib) ⟨{}, []⟩ ops = some s) :
    (.returned true ∈ s.procs → lib.lsanEnable = true) ∧
    (s.procs ≠ [] → (∀ c ∈ s.procs, ∃ answer, c = .returned answer) →
      ∀ later t, Machine.run (SanitizerCalls.step lib) s later = some t →
        t.shared = s.shared ∧ ¬ t.Races ∧
        ∃ calls, t.procs = s.procs ++ calls ∧
          ∀ c ∈ calls, c = .test ∨ c = .answer ∨ c = .returned lib.lsanEnable) := by
  have hs : SanitizerCalls.Sound lib s := Machine.run_invariant SanitizerCalls.Sound.step hrun (.start lib)
  refine ⟨fun h => (hs.knows _ h).2 rfl, fun hcalled hover later t hlater => ?_⟩
  have hshared : s.shared = ⟨true, lib.lsanEnable⟩ := hs.shared_eq hcalled hover
  have hfinished : ∀ c ∈ s.procs, ∀ g, SanitizerCall.next lib g c = none := by
    intro c hc g
    obtain ⟨answer, rfl⟩ := hover c hc
    rfl
  rw [show s = ⟨s.shared, s.procs ++ []⟩ by rw [List.append_nil]] at hlater
  obtain ⟨later', calls, hcalls, hprocs⟩ := Interleaving.run_finished hfinished hlater
  have hlate : SanitizerCalls.Settled lib ⟨t.shared, calls⟩ :=
    Machine.run_invariant SanitizerCalls.Settled.step hcalls ⟨hshared, fun _ h => nomatch h⟩
  refine ⟨hlate.1.trans hshared.symm, SanitizerCalls.not_races fun c hc => ?_, calls, hprocs, hlate.2⟩
  rw [hprocs] at hc
  rcases List.mem_append.mp hc with hc | hc
  · obtain ⟨_, rfl⟩ := hover c hc
    rfl
  · exact (hlate.2 c hc).writes

/-- The first call is alone, as the documentation of the function asks; then two calls interleave. -/
theorem hasSanitizer_settles_alone : ∃ s t : SanitizerCalls,
    Machine.run (SanitizerCalls.step (glibc true)) ⟨{}, []⟩ (.start :: List.replicate 5 (.advance 0)) = some s ∧
    Machine.run (SanitizerCalls.step (glibc true)) s [.start, .start, .advance 1, .advance 2, .advance 2, .advance 1] =
      some t ∧ t.shared = s.shared ∧ ¬ t.Races := by
  have hfirst : Machine.run (SanitizerCalls.step (glibc true)) ⟨{}, []⟩ (.start :: List.replicate 5 (.advance 0)) =
      some ⟨⟨true, true⟩, [.returned true]⟩ := by decide
  have hlater : Machine.run (SanitizerCalls.step (glibc true)) ⟨⟨true, true⟩, [.returned true]⟩
      [.start, .start, .advance 1, .advance 2, .advance 2, .advance 1] =
      some ⟨⟨true, true⟩, [.returned true, .returned true, .returned true]⟩ := by decide
  obtain ⟨-, hsettles⟩ := hasSanitizer_settles _ _ _ hfirst
  obtain ⟨hshared, hraces, -⟩ := hsettles (by simp) (by simp) _ _ hlater
  exact ⟨_, _, hfirst, hlater, hshared, hraces⟩

/-- Without that, a second call can return before the first has stored what it found. -/
example : (Machine.run (SanitizerCalls.step (glibc true)) ⟨{}, []⟩
    [.start, .start, .advance 0, .advance 0, .advance 0, .advance 1, .advance 1]).map (fun s => s.procs) =
      some [.store true, .returned false] := by decide

end Libexcept
