import Libexcept.Theorems.FileInheritance

/-! How the check of the inherited files ends. It crashes without a directory, and in a debug build where the
    exception that it throws cannot be built. -/

namespace Libexcept
open CString (bytes)

variable {sys : System} {debug : Bool} {allowed : Finset Int} {dirfd : Fd}

/-- The check ends: it reads an open directory only, and returns, or throws in a debug build. -/
def CheckEnds (sys : System) (debug : Bool) (allowed : Finset Int) (reads : List (List CString)) (F : FdTable) : Prop :=
  ∃ report, verifyInheritedFiles sys debug allowed reads F = .ok report ∧
    (report.exit = .returned ∨ debug = true ∧ ∃ object, report.exit = .thrown fileInheritedClass object)

/-- Every system has such a limit: all descriptors, with what it fails to open as what it refuses. -/
theorem System.limited (sys : System) : sys.Limited (2 ^ 31) fun path table => sys.openFile path table = none := by
  intro path table
  refine ⟨Or.inl, fun h => h.elim id fun hfull => ?_⟩
  cases hopen : sys.openFile path table with
  | none => rfl
  | some fd => exact absurd (hfull fd fd.property) (sys.openFile_fresh hopen)

theorem verifyInheritedFiles_of_null {reads : List (List CString)} {F : FdTable}
    (hopen : sys.openFile (fdPath sys) F = none) : verifyInheritedFiles sys debug allowed reads F = .error .nullDir := by
  unfold verifyInheritedFiles
  rw [hopen]

/-- Once the directory is open, the check ends unless a debug build cannot build the exception. -/
theorem checkEnds_of_open {reads : List (List CString)} {F : FdTable} (hopen : sys.openFile (fdPath sys) F = some dirfd)
    (hreads : ∀ chunk ∈ reads, chunk ≠ []) (hlist : IsListing (insert dirfd F) reads.flatten) :
    CheckEnds sys debug allowed reads F ↔
      (debug = true → (∃ fd, Leaks F allowed fd) → Builds (sys.process (insert dirfd F))) := by
  obtain ⟨fds, report, hrun, -, -, hmem, -, hends⟩ := verifyInheritedFiles_ends sys debug allowed hopen hreads hlist
  have hsome : fds ≠ [] ↔ ∃ fd, Leaks F allowed fd := by
    rw [Ne, List.eq_nil_iff_forall_not_mem]
    push Not
    exact exists_congr hmem
  constructor
  · rintro ⟨report', hrun', hexit'⟩ hdebug hleaks
    cases Except.ok.inj (hrun.symm.trans hrun')
    cases hends with
    | returned hquiet _ _ => exact absurd hquiet (not_or.mpr ⟨by simp [hdebug], hsome.mpr hleaks⟩)
    | thrown object _ _ hobject _ _ => exact construct_returns.mp ⟨object, hobject⟩
    | crashed fault _ _ _ hexit => simp [hexit] at hexit'
  · intro hbuilds
    refine ⟨report, hrun, ?_⟩
    cases hends with
    | returned _ hexit _ => exact Or.inl hexit
    | thrown object hdebug _ _ hexit _ => exact Or.inr ⟨hdebug, object, hexit⟩
    | crashed fault hdebug hleaks hfault _ => exact absurd (hbuilds hdebug (hsome.mp hleaks)) hfault

/-- The check ends exactly when the directory is opened, as it is not refused and the table leaves a descriptor
    below the limit, and the exception of a debug build is built, if there is something to throw it for. -/
theorem checkEnds_iff (sys : System) (limit : Nat) (refused : List UInt8 → FdTable → Prop)
    (hlimited : sys.Limited limit refused) (debug : Bool) (allowed : Finset Int) (F : FdTable)
    (reads : List (List CString))
    (hreads : ∀ dirfd, sys.openFile (fdPath sys) F = some dirfd →
      (∀ chunk ∈ reads, chunk ≠ []) ∧ IsListing (insert dirfd F) reads.flatten) :
    CheckEnds sys debug allowed reads F ↔ (¬ refused (fdPath sys) F ∧ ∃ fd : Fd, fd.val < limit ∧ fd ∉ F) ∧
      (debug = true → (∃ fd ∈ F, 2 < fd.val ∧ (fd.val : Int) ∉ allowed) →
        ∀ dirfd, sys.openFile (fdPath sys) F = some dirfd → Builds (sys.process (insert dirfd F))) := by
  have hcondition : sys.openFile (fdPath sys) F ≠ none ↔
      ¬ refused (fdPath sys) F ∧ ∃ fd : Fd, fd.val < limit ∧ fd ∉ F := by
    rw [Ne, hlimited]
    push Not
    rfl
  rw [← hcondition]
  cases hopen : sys.openFile (fdPath sys) F with
  | none =>
    refine iff_of_false ?_ fun h => h.1 rfl
    rintro ⟨report, hrun, -⟩
    rw [verifyInheritedFiles_of_null hopen] at hrun
    cases hrun
  | some dirfd =>
    obtain ⟨hchunks, hlist⟩ := hreads dirfd hopen
    rw [checkEnds_of_open hopen hchunks hlist]
    simp

theorem mem_descriptors (fd : Fd) : fd ∈ descriptors ↔ fd.val < 16 := by
  unfold descriptors
  rw [List.mem_map]
  constructor
  · rintro ⟨n, -, rfl⟩
    exact n.isLt
  · exact fun h => ⟨⟨fd.val, h⟩, List.mem_finRange _, rfl⟩

theorem lowestFree_limited : lowestFree.Limited 16 fun _ _ => False := by
  intro path table
  rw [false_or]
  show descriptors.find? (fun fd => decide (fd ∉ table)) = none ↔ _
  simp [mem_descriptors]

/-- The directory is opened with descriptor 3, and complete traces have their streams. -/
theorem checkEnds_iff_inherited : CheckEnds lowestFree true {7} inheritedReads inherited := by
  have hopen : lowestFree.openFile (fdPath lowestFree) inherited = some (lowFd 3) := by decide
  refine (checkEnds_iff lowestFree 16 _ lowestFree_limited true {7} inherited _ fun dirfd h => ?_).mpr
    ⟨⟨id, lowFd 3, by decide, by decide⟩, fun _ _ dirfd h => ?_⟩
  · rw [hopen] at h
    cases h
    exact ⟨by decide, inheritedReads_listing⟩
  · rw [hopen] at h
    cases h
    exact builds_of_stream [] rfl fun _ _ => rfl

/-- Every descriptor below 16 was inherited. -/
def exhausted : FdTable := descriptors.toFinset

/-- All of them but the last. -/
def almostExhausted : FdTable := exhausted.erase (lowFd (Fin.last 15))

def almostExhaustedReads : List (List CString) := [dot :: dotDot :: descriptors.map fdName]

/-- In both builds `readdir()` is called with a null pointer; and where the directory takes the last descriptor, the
    constructor of the exception of a debug build calls `fgetc()` with one. -/
theorem exhausted_check_crashes :
    verifyInheritedFiles lowestFree false ∅ [] exhausted = .error .nullDir ∧
    ¬ CheckEnds lowestFree false ∅ [] exhausted ∧ ¬ CheckEnds lowestFree true ∅ [] exhausted ∧
    ¬ CheckEnds lowestFree true ∅ almostExhaustedReads almostExhausted := by
  have hnull : lowestFree.openFile (fdPath lowestFree) exhausted = none := by decide
  have hfails : ∀ debug, ¬ CheckEnds lowestFree debug ∅ [] exhausted := by
    rintro debug ⟨report, hrun, -⟩
    rw [verifyInheritedFiles_of_null hnull] at hrun
    cases hrun
  have hopen : lowestFree.openFile (fdPath lowestFree) almostExhausted = some (lowFd 15) := by decide
  refine ⟨verifyInheritedFiles_of_null hnull, hfails false, hfails true, fun hends => ?_⟩
  have hlist : IsListing (insert (lowFd 15) almostExhausted) almostExhaustedReads.flatten := ⟨by decide, by decide, by decide⟩
  have hbuilds := (checkEnds_of_open hopen (by decide) hlist).mp hends rfl ⟨lowFd 5, by decide⟩
  have hcrashes : (fileInheritedClass.construct
      (lowestFree.process (insert (lowFd 15) almostExhausted)) []).result.toOption.isSome = false := by decide
  obtain ⟨object, hobject⟩ := construct_returns.mpr hbuilds
  rw [hobject] at hcrashes
  cases hcrashes

end Libexcept
