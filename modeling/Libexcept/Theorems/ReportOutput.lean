import Libexcept.Theorems.ReportEnd
import Libexcept.Lib.Digits
import Libexcept.Lib.SharedOutput

/-! What the reports print. The handlers share `std::cerr`, and a line is inserted in pieces: a report that is
    interrupted may have those of another one between its own. The pieces of each report are there as its
    trace has them, up to where its handler is; in one thread, each report comes after those it interrupted. -/

namespace Libexcept
open CString (bytes)
open SharedOutput (itemsOf)

/-- What a report inserts for its trace. -/
def reportInsertions (sig : Int) (trace : List (List UInt8)) : List (List UInt8) := trace.flatMap (backtraceLine sig)

namespace Reports

variable {s t : Reports} {op : Op} {ops : List Op} {initial : Dispositions} {a : Activation}

/-- A signal whose handler is registered has no activation. -/
theorem Reporting.new (hs : Reporting initial s) (sig : crashSignals) (harmed : s.dispositions sig = reportAction) :
    (sig : Int) ∉ s.activations.map Activation.sig := by
  have hmem : (sig : Int) ∈ s.view.armed := Finset.mem_filter.mpr ⟨sig.property, by rw [harmed]; rfl⟩
  rw [← hs.fired]
  exact ((hs.accounted.armed sig).mp hmem).2

theorem Reporting.others {inner outer : List Activation} (hs : Reporting initial s)
    (hsplit : s.activations = inner ++ a :: outer) {c : Activation} (hc : c ∈ inner ∨ c ∈ outer) :
    c ∈ s.activations ∧ c.sig ≠ a.sig := by
  have hnodup := hs.nodup
  rw [hsplit, List.map_append, List.map_cons, List.nodup_middle, List.nodup_cons, ← List.map_append] at hnodup
  refine ⟨?_, fun hsame => hnodup.1 (hsame ▸ List.mem_map_of_mem (List.mem_append.mpr hc))⟩
  rw [hsplit, List.mem_append, List.mem_cons]
  exact hc.imp_right Or.inr

/-! ### The handlers as writers -/

/-- A handler has not collected its trace yet, or it has, and what it has left to insert is that of the lines
    that it has left. -/
def Phase (ops : List Op) (a : Activation) (content : Option (List (List UInt8))) (left : List (List UInt8)) : Prop :=
  (a.rest = Handler.reportSignal.body ∧ a.line = [] ∧ content = none) ∨
    ((a.rest = [.printTrace, .abort] ∨ a.rest = [.abort] ∧ a.line = [] ∧ a.trace = []) ∧
      left = a.line ++ reportInsertions a.sig a.trace ∧
      ∃ p, .advance a.thread p ∈ ops ∧ content = some (reportInsertions a.sig (p.plainTrace STACK_TRACE_DEPTH)))

/-- The signals are all raised in one thread. -/
def Alone (ops : List Op) : Prop := ∃ main, ∀ thread sig, .raise thread sig ∈ ops → thread = main

/-- The process shows what the writers have written, each of them under its signal. -/
structure Shows (initial : Dispositions) (ops : List Op) (s : Reports) (u : SharedOutput.State Int (List UInt8)) :
    Prop where
  reporting : Reporting initial s
  cerr : s.cerr = (u.output.map Prod.snd).flatten
  waiting : ∀ sig, sig ∉ s.activations.map Activation.sig → u.content sig = none
  phase : ∀ a ∈ s.activations, Phase ops a (u.content a.sig) (u.left a.sig)
  raised : ∀ a ∈ s.activations, ∃ sig, .raise a.thread sig ∈ ops
  grouped : Alone ops → SharedOutput.Grouped (s.activations.map Activation.sig) u.output
  intact : SharedOutput.Intact u

variable {u : SharedOutput.State Int (List UInt8)}

theorem Shows.start (table : SignalTable) (ops : List Op) :
    Shows table.dispositions ops (start (initReportSignal table)) .empty where
  reporting := .start table
  cerr := rfl
  waiting _ _ := rfl
  phase _ h := nomatch h
  raised _ h := nomatch h
  grouped _ := rfl
  intact := .empty

section Moved

variable {b : Activation} {text : List UInt8} {inner outer : List Activation} {v : SharedOutput.State Int (List UInt8)}

/-- A handler that prints has collected its trace. -/
theorem Phase.printing {content : Option (List (List UInt8))} {left : List (List UInt8)} {rest : List Statement}
    (h : Phase ops a content left) (hrest : a.rest = .printTrace :: rest) :
    rest = [.abort] ∧ left = a.line ++ reportInsertions a.sig a.trace ∧
      ∃ p, .advance a.thread p ∈ ops ∧ content = some (reportInsertions a.sig (p.plainTrace STACK_TRACE_DEPTH)) := by
  rcases h with ⟨hbody, -, -⟩ | ⟨hprint | ⟨habort, -⟩, hleft, hcontent⟩
  · cases hrest.symm.trans hbody
  · exact ⟨(List.cons.inj (hrest.symm.trans hprint)).2, hleft, hcontent⟩
  · cases hrest.symm.trans habort

/-- What a move does to the writers: nothing, the start of one, or an insertion of one. -/
theorem Shows.write (hop : op ∈ ops) (hs : Shows initial ops s u) (ha : a ∈ s.activations) (hmove : Move a op b text) :
    ∃ v, Relation.ReflTransGen SharedOutput.Step u v ∧
      (v.output = u.output ∧ text = [] ∨ v.output = u.output ++ [(a.sig, text)]) ∧
      (∀ sig, sig ≠ a.sig → v.content sig = u.content sig ∧ v.left sig = u.left sig) ∧
      Phase ops b (v.content a.sig) (v.left a.sig) := by
  have hphase := hs.phase a ha
  cases hmove with
  | wait => exact ⟨u, .refl, Or.inl ⟨rfl, rfl⟩, fun _ _ => ⟨rfl, rfl⟩, hphase⟩
  | @collect rest p hrest =>
    rcases hphase with ⟨hbody, hline, hnew⟩ | ⟨hprint | ⟨habort, -⟩, -⟩
    · have hprint : rest = [.printTrace, .abort] := (List.cons.inj (hrest.symm.trans hbody)).2
      refine ⟨_, .single (.start (reportInsertions a.sig (p.plainTrace STACK_TRACE_DEPTH)) hnew), Or.inl ⟨rfl, rfl⟩,
        fun sig hne => ⟨Function.update_of_ne hne _ _, Function.update_of_ne hne _ _⟩, ?_⟩
      refine Or.inr ⟨Or.inl hprint, (Function.update_self _ _ _).trans ?_, p, hop, Function.update_self _ _ _⟩
      dsimp only
      rw [hline, List.nil_append]
    · cases hrest.symm.trans hprint
    · cases hrest.symm.trans habort
  | @next rest stackLine trace p hrest hline htrace =>
    obtain ⟨rfl, hleft, hcontent⟩ := hphase.printing hrest
    refine ⟨u, .refl, Or.inl ⟨rfl, rfl⟩, fun _ _ => ⟨rfl, rfl⟩, Or.inr ⟨Or.inl hrest, ?_, hcontent⟩⟩
    rw [hleft, hline, htrace]
    rfl
  | @insert rest text line p hrest hline =>
    obtain ⟨rfl, hleft, hcontent⟩ := hphase.printing hrest
    rw [hline] at hleft
    exact ⟨_, .single (.write hleft), Or.inr rfl, fun sig hne => ⟨rfl, Function.update_of_ne hne _ _⟩,
      Or.inr ⟨Or.inl hrest, Function.update_self _ _ _, hcontent⟩⟩
  | @printed rest p hrest hline htrace =>
    obtain ⟨rfl, hleft, hcontent⟩ := hphase.printing hrest
    exact ⟨u, .refl, Or.inl ⟨rfl, rfl⟩, fun _ _ => ⟨rfl, rfl⟩, Or.inr ⟨Or.inr ⟨rfl, hline, htrace⟩, hleft, hcontent⟩⟩

theorem Shows.moved (hop : op ∈ ops) (hs : Shows initial ops s u) (hsplit : s.activations = inner ++ a :: outer)
    (hinner : ∀ c ∈ inner, c.thread ≠ a.thread) (hmove : Move a op b text)
    (hkept : Reporting initial { s with activations := inner ++ b :: outer, cerr := s.cerr ++ text }) :
    ∃ v, Relation.ReflTransGen SharedOutput.Step u v ∧
      Shows initial ops { s with activations := inner ++ b :: outer, cerr := s.cerr ++ text } v := by
  have ha : a ∈ s.activations := hsplit ▸ List.mem_append_right _ List.mem_cons_self
  obtain ⟨v, hwrites, houtput, hother, hphase⟩ := hs.write hop ha hmove
  obtain ⟨hthread, -, hsig, -⟩ := hmove.kept
  have hsigs : (inner ++ b :: outer).map Activation.sig = s.activations.map Activation.sig := by
    rw [hsplit, List.map_append, List.map_append, List.map_cons, List.map_cons, hsig]
  have hcases : ∀ c ∈ inner ++ b :: outer, c = b ∨ c ∈ s.activations ∧ c.sig ≠ a.sig := by
    intro c hc
    rcases List.mem_append.mp hc with hc | hc
    · exact Or.inr (hs.reporting.others hsplit (Or.inl hc))
    · exact (List.mem_cons.mp hc).imp_right fun hc => hs.reporting.others hsplit (Or.inr hc)
  refine ⟨v, hwrites, hkept, ?_, fun sig hnew => ?_, fun c hc => ?_, fun c hc => ?_, fun halone => ?_,
    .run hwrites hs.intact⟩
  · rcases houtput with ⟨hsame, rfl⟩ | hwritten
    · rw [hsame, List.append_nil, hs.cerr]
    · simp [hwritten, hs.cerr]
  · rw [hsigs] at hnew
    have hne : sig ≠ a.sig := fun hsame => hnew (hsame ▸ List.mem_map_of_mem ha)
    rw [(hother sig hne).1]
    exact hs.waiting sig hnew
  · rcases hcases c hc with rfl | ⟨hmem, hne⟩
    · rw [hsig]
      exact hphase
    · rw [(hother c.sig hne).1, (hother c.sig hne).2]
      exact hs.phase c hmem
  · rcases hcases c hc with rfl | ⟨hmem, -⟩
    · rw [hthread]
      exact hs.raised a ha
    · exact hs.raised c hmem
  · have hgrouped := hs.grouped halone
    rw [hsigs]
    rcases houtput with ⟨hsame, -⟩ | hwritten
    · rw [hsame]
      exact hgrouped
    · -- in one thread the innermost handler is the newest
      obtain ⟨main, hmain⟩ := halone
      have hfirst : ∀ c ∈ s.activations, c.thread = main := fun c hc => (hs.raised c hc).elim fun sig h => hmain _ sig h
      have hnone : inner = [] := by
        refine List.eq_nil_iff_forall_not_mem.mpr fun c hc => hinner c hc ?_
        rw [hfirst a ha, hfirst c (hsplit ▸ List.mem_append_left _ hc)]
      subst hnone
      have hnodup := hs.reporting.nodup
      rw [hsplit, List.nil_append, List.map_cons] at hgrouped hnodup ⊢
      rw [hwritten]
      exact hgrouped.write (List.nodup_cons.mp hnodup).1 text

end Moved

theorem Shows.step (hop : op ∈ ops) (h : step s op = some t) (hs : Shows initial ops s u) :
    ∃ v, Relation.ReflTransGen SharedOutput.Step u v ∧ Shows initial ops t v := by
  have hkept := hs.reporting.step h
  cases (crashStep hs.reporting.crashing h).2 with
  | ended ht =>
    subst ht
    exact ⟨u, .refl, hkept, hs.cerr, hs.waiting, hs.phase, hs.raised, hs.grouped, hs.intact⟩
  | entered thread sig hraise harmed ht =>
    subst ht
    have hnew : u.content sig = none := hs.waiting _ (hs.reporting.new sig harmed)
    refine ⟨u, .refl, hkept, hs.cerr, fun sig' hsig' => ?_, List.forall_mem_cons.mpr ⟨Or.inl ⟨rfl, rfl, hnew⟩, hs.phase⟩,
      List.forall_mem_cons.mpr ⟨⟨sig, hraise ▸ hop⟩, hs.raised⟩, fun halone => ?_, hs.intact⟩
    · rw [List.map_cons, List.mem_cons, not_or] at hsig'
      exact hs.waiting sig' hsig'.2
    · exact (hs.grouped halone).start (hs.intact.of_none hnew).1
  | moved a b text inner outer hsplit hinner _ hmove ht =>
    subst ht
    exact hs.moved hop hsplit hinner hmove hkept

theorem Shows.active (hs : Shows initial ops s u) : ∀ entry ∈ u.output, ∃ a ∈ s.activations, a.sig = entry.1 := by
  intro entry hentry
  by_contra hnone
  have hnew : u.content entry.1 = none := hs.waiting entry.1 fun hmem => hnone (List.mem_map.mp hmem)
  have hitem : entry.2 ∈ itemsOf entry.1 u.output := SharedOutput.mem_itemsOf.mpr hentry
  rw [(hs.intact.of_none hnew).1] at hitem
  cases hitem

end Reports

end Libexcept
