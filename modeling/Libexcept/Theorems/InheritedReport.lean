import Libexcept.Theorems.InheritedEnd
import Mathlib.Data.List.Perm.Basic

/-! What the check of the inherited files prints: one line for each leaked descriptor, in the order of the
    directory, with a text that depends on the descriptor alone. Two checks of a table can be compared by
    the descriptors they allow. -/

namespace Libexcept
open CString (bytes)

/-- A check warns of each leaked descriptor, in the order of the directory: with the descriptor, what fits of the
    target of its link, and the parent with the start of its command line. It returns, unless it is that of a
    debug build and has warned. -/
theorem inherited_report (sys : System) (debug : Bool) (allowed : Finset Int) (F : FdTable)
    (reads : List (List CString)) (dirfd : Fd) (hopen : sys.openFile (fdPath sys) F = some dirfd)
    (hreads : ∀ chunk ∈ reads, chunk ≠ []) (hlist : IsListing (insert dirfd F) reads.flatten) :
    ∃ (fds : List Fd) (report : Report), verifyInheritedFiles sys debug allowed reads F = .ok report ∧
      (fds.map fdName).Sublist reads.flatten ∧ fds.Nodup ∧
      (∀ fd, fd ∈ fds ↔ fd ∈ F ∧ 2 < fd.val ∧ (fd.val : Int) ∉ allowed) ∧
      report.cerr = leakLines sys dirfd F fds ∧
      (report.exit = .returned ↔ debug = false ∨ fds = []) ∧
      (debug = true → fds ≠ [] →
        (Builds (sys.process (insert dirfd F)) → ∃ object, report.exit = .thrown fileInheritedClass object) ∧
        (¬ Builds (sys.process (insert dirfd F)) → ∃ fault, report.exit = .crashed fault)) ∧
      ((∀ fault, report.exit ≠ .crashed fault) → report.table = F) := by
  obtain ⟨fds, report, hrun, hsub, hnodup, hmem, hcerr, hends⟩ :=
    verifyInheritedFiles_ends sys debug allowed hopen hreads hlist
  refine ⟨fds, report, hrun, hsub, hnodup, hmem, hcerr, hends.returned_iff, fun hdebug hleaks => ⟨fun hbuilds => ?_,
    fun hfails => hends.crashes hfails hdebug hleaks⟩, hends.table⟩
  exact (hends.throws hbuilds hdebug hleaks).imp fun _ h => h.1

/-- Both 5 and 7 have a line. -/
theorem inherited_report_two : ∃ fds report,
    verifyInheritedFiles lowestFree false ∅ inheritedReads inherited = .ok report ∧
    (fds.map fdName).Sublist inheritedReads.flatten ∧ lowFd 5 ∈ fds ∧ lowFd 7 ∈ fds ∧
    report.cerr = leakLines lowestFree (lowFd 3) inherited fds ∧ report.exit = .returned ∧ report.table = inherited := by
  obtain ⟨fds, report, hrun, hsub, -, hmem, hcerr, hreturned, -, htable⟩ := inherited_report lowestFree false ∅ inherited
    inheritedReads (lowFd 3) (by decide) (by decide) inheritedReads_listing
  have hexit := hreturned.mpr (Or.inl rfl)
  exact ⟨fds, report, hrun, hsub, (hmem _).mpr (by decide), (hmem _).mpr (by decide), hcerr, hexit,
    htable fun fault h => nomatch hexit.symm.trans h⟩

/-- Two checks of a table, with the directory read in different orders and groups: the one that allows
    more warns of what the other one warns of, less what it allows; so allowing all of that silences it. -/
theorem inherited_agree (sys : System) (F : FdTable) (dirfd : Fd) (hopen : sys.openFile (fdPath sys) F = some dirfd)
    (debug debug' : Bool) (allowed allowed' : Finset Int) (hallowed : allowed ⊆ allowed')
    (reads reads' : List (List CString)) (hreads : ∀ chunk ∈ reads, chunk ≠ []) (hreads' : ∀ chunk ∈ reads', chunk ≠ [])
    (hlist : IsListing (insert dirfd F) reads.flatten) (hlist' : IsListing (insert dirfd F) reads'.flatten) :
    ∃ (fds fds' : List Fd) (report report' : Report), verifyInheritedFiles sys debug allowed reads F = .ok report ∧
      verifyInheritedFiles sys debug' allowed' reads' F = .ok report' ∧
      report.cerr = leakLines sys dirfd F fds ∧ report'.cerr = leakLines sys dirfd F fds' ∧
      (∀ fd, fd ∈ fds ↔ fd ∈ F ∧ 2 < fd.val ∧ (fd.val : Int) ∉ allowed) ∧
      fds'.Perm (fds.filter fun fd => (fd.val : Int) ∉ allowed') ∧
      ((∀ fd ∈ fds, (fd.val : Int) ∈ allowed') → report'.cerr = [] ∧ report'.exit = .returned) := by
  obtain ⟨fds, report, hrun, -, hnodup, hmem, hcerr, -⟩ := verifyInheritedFiles_ends sys debug allowed hopen hreads hlist
  obtain ⟨fds', report', hrun', -, hnodup', hmem', hcerr', hends'⟩ :=
    verifyInheritedFiles_ends sys debug' allowed' hopen hreads' hlist'
  have hperm : fds'.Perm (fds.filter fun fd => (fd.val : Int) ∉ allowed') := by
    refine (List.perm_ext_iff_of_nodup hnodup' (hnodup.filter _)).mpr fun fd => ?_
    rw [hmem', List.mem_filter, hmem, decide_eq_true_iff]
    constructor
    · rintro ⟨hfd, hstd, hnot⟩
      exact ⟨⟨hfd, hstd, fun h => hnot (hallowed h)⟩, hnot⟩
    · rintro ⟨⟨hfd, hstd, -⟩, hnot⟩
      exact ⟨hfd, hstd, hnot⟩
  refine ⟨fds, fds', report, report', hrun, hrun', hcerr, hcerr', hmem, hperm, fun hsilent => ?_⟩
  have hnone : fds' = [] := by
    refine List.perm_nil.mp (hperm.trans (List.Perm.of_eq (List.filter_eq_nil_iff.mpr fun fd hfd => ?_)))
    simpa using hsilent fd hfd
  refine ⟨?_, hends'.returned_iff.mpr (Or.inr hnone)⟩
  rw [hcerr', hnone, leakLines, List.flatMap_nil, ite_self]

/-- The descriptor that was printed is allowed. -/
theorem inherited_agree_seven : ∃ report',
    verifyInheritedFiles lowestFree true {5, 7} [inheritedReads.flatten.reverse] inherited = .ok report' ∧
      report'.cerr = [] ∧ report'.exit = .returned := by
  obtain ⟨fds, -, -, report', -, hrun', -, -, hmem, -, hsilent⟩ := inherited_agree lowestFree inherited (lowFd 3)
    (by decide) true true {7} {5, 7} (by decide) inheritedReads [inheritedReads.flatten.reverse] (by decide) (by decide)
    inheritedReads_listing ⟨by decide, by decide, by decide⟩
  have hallowed : ∀ fd ∈ inherited, 2 < fd.val → (fd.val : Int) ∉ ({7} : Finset Int) →
      (fd.val : Int) ∈ ({5, 7} : Finset Int) := by decide
  refine ⟨report', hrun', hsilent fun fd hfd => ?_⟩
  obtain ⟨hmem, hstd, hnot⟩ := (hmem fd).mp hfd
  exact hallowed fd hmem hstd hnot

namespace VerifyFileInheritance

/-- How the tool ends, by how the check does. -/
def exitOf : CheckExit → Exit
  | .returned => .returned 0
  | .thrown cls object => .terminated cls object
  | .crashed fault => .crashed fault

theorem exitOf_returned {exit : CheckExit} : exitOf exit = .returned 0 ↔ exit = .returned := by
  cases exit <;> simp [exitOf]

theorem main_eq {sys : System} {debug : Bool} {reads : List (List CString)} {F : FdTable} {report : Report}
    (hrun : verifyInheritedFiles sys debug ∅ reads F = .ok report) :
    main sys debug reads F = .ok (report.cerr, exitOf report.exit) := by
  unfold main
  rw [hrun, Except.ok_bind]
  cases report.exit <;> rfl

/-- The tool crashes where the directory is not opened. Otherwise it warns of each file but the standard ones, and
    returns 0, unless there was one and it is a debug build: that is terminated. -/
theorem main_ends (sys : System) (debug : Bool) (F : FdTable) (reads : List (List CString))
    (hreads : ∀ dirfd, sys.openFile (fdPath sys) F = some dirfd →
      (∀ chunk ∈ reads, chunk ≠ []) ∧ IsListing (insert dirfd F) reads.flatten) :
    (sys.openFile (fdPath sys) F = none → main sys debug reads F = .error .nullDir) ∧
    ∀ dirfd, sys.openFile (fdPath sys) F = some dirfd →
      ∃ (fds : List Fd) (exit : Exit), fds.Nodup ∧ (∀ fd, fd ∈ fds ↔ fd ∈ F ∧ 2 < fd.val) ∧
        main sys debug reads F = .ok (leakLines sys dirfd F fds, exit) ∧
        (exit = .returned 0 ↔ debug = false ∨ ∀ fd ∈ F, fd.val ≤ 2) ∧
        (debug = true → (∃ fd ∈ F, 2 < fd.val) →
          (Builds (sys.process (insert dirfd F)) → ∃ object, exit = .terminated fileInheritedClass object ∧
            Caught (bytes "file_inherited: found unexpected file descriptor leaks.") object) ∧
          (¬ Builds (sys.process (insert dirfd F)) → ∃ fault, exit = .crashed fault)) := by
  refine ⟨fun hnull => ?_, fun dirfd hopen => ?_⟩
  · unfold main
    rw [verifyInheritedFiles_of_null hnull]
    rfl
  · obtain ⟨hchunks, hlist⟩ := hreads dirfd hopen
    obtain ⟨fds, report, hrun, -, hnodup, hmem, hcerr, hends⟩ := verifyInheritedFiles_ends sys debug ∅ hopen hchunks hlist
    have hfds : ∀ fd, fd ∈ fds ↔ fd ∈ F ∧ 2 < fd.val := fun fd => by simp [hmem]
    have hnone : fds = [] ↔ ∀ fd ∈ F, fd.val ≤ 2 := by
      simp [List.eq_nil_iff_forall_not_mem, hfds]
    have hsome : (∃ fd ∈ F, 2 < fd.val) → fds ≠ [] := fun ⟨fd, hfd⟩ => List.ne_nil_of_mem ((hfds fd).mpr hfd)
    refine ⟨fds, exitOf report.exit, hnodup, hfds, by rw [main_eq hrun, hcerr], ?_,
      fun hdebug hleaks => ⟨fun hbuilds => ?_, fun hfails => ?_⟩⟩
    · rw [exitOf_returned, hends.returned_iff, hnone]
    · obtain ⟨object, hexit, hcaught⟩ := hends.throws hbuilds hdebug (hsome hleaks)
      exact ⟨object, congrArg exitOf hexit, hcaught⟩
    · obtain ⟨fault, hexit⟩ := hends.crashes hfails hdebug (hsome hleaks)
      exact ⟨fault, congrArg exitOf hexit⟩

/-- The debug build of the tool is terminated for a descriptor; it crashes where none is free. -/
theorem main_ends_inherited :
    main lowestFree true [] exhausted = .error .nullDir ∧
    ∃ cerr object, main lowestFree true inheritedReads inherited = .ok (cerr, .terminated fileInheritedClass object) ∧
      Caught (bytes "file_inherited: found unexpected file descriptor leaks.") object := by
  have hnull : lowestFree.openFile (fdPath lowestFree) exhausted = none := by decide
  have hopen : lowestFree.openFile (fdPath lowestFree) inherited = some (lowFd 3) := by decide
  refine ⟨(main_ends lowestFree true exhausted [] fun dirfd h => nomatch hnull.symm.trans h).1 hnull, ?_⟩
  have hreads : ∀ dirfd, lowestFree.openFile (fdPath lowestFree) inherited = some dirfd →
      (∀ chunk ∈ inheritedReads, chunk ≠ []) ∧ IsListing (insert dirfd inherited) inheritedReads.flatten := by
    intro dirfd h
    rw [hopen] at h
    cases h
    exact ⟨by decide, inheritedReads_listing⟩
  obtain ⟨fds, exit, -, -, hmain, -, hends⟩ := (main_ends lowestFree true inherited inheritedReads hreads).2 _ hopen
  obtain ⟨object, rfl, hcaught⟩ := (hends rfl ⟨lowFd 5, by decide, by decide⟩).1 (builds_of_stream [] rfl fun _ _ => rfl)
  exact ⟨_, object, hmain, hcaught⟩

end VerifyFileInheritance

end Libexcept
