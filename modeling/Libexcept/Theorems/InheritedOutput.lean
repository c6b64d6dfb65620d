import Libexcept.Theorems.FileInheritance

/-! The text of a check can be read back: into the descriptor, the target of its link, the parent and its
    command line of each line, when no file name or command line holds what separates them. -/

namespace Libexcept
open CString (bytes)

/-! ### Lines -/

namespace LeakLine

variable {line line' : LeakLine}

/-- Nothing in the line looks like what separates its fields or ends it. -/
structure Plain (line : LeakLine) : Prop where
  link : '\n'.toUInt8 ∉ line.link
  marker : ¬ bytes ") leaked on invocation. Parent PID " <:+: line.link
  commandLine : '\n'.toUInt8 ∉ line.commandLine

theorem Plain.text (h : line.Plain) : '\n'.toUInt8 ∉ line.text := by
  have hnumber : ∀ n : Int, '\n'.toUInt8 ∉ toBytes n := fun n => Digits.notMem_bytes_toString n (by decide) (by decide)
  simp only [LeakLine.text, List.mem_append, not_or]
  exact ⟨⟨⟨⟨⟨⟨⟨by decide, hnumber _⟩, by decide⟩, h.link⟩, by decide⟩, hnumber _⟩, by decide⟩, h.commandLine⟩

theorem text_inj (h : line.Plain) (h' : line'.Plain) (heq : line.text = line'.text) : line = line' := by
  have hspace : ∀ l, bytes " (" ++ l = ' '.toUInt8 :: ('('.toUInt8 :: l) := fun _ => rfl
  have hcolon : ∀ l, bytes ": " ++ l = ':'.toUInt8 :: (' '.toUInt8 :: l) := fun _ => rfl
  have hmarker : bytes ") leaked on invocation. Parent PID " =
      ')'.toUInt8 :: bytes " leaked on invocation. Parent PID " := rfl
  have hnumber : ∀ c : UInt8, c = ' '.toUInt8 ∨ c = ':'.toUInt8 → ∀ n : Int, c ∉ toBytes n := by
    rintro c (rfl | rfl) n <;> exact Digits.notMem_bytes_toString n (by decide) (by decide)
  simp only [LeakLine.text, List.append_assoc, List.append_cancel_left_eq, hspace, hcolon, List.cons_append] at heq
  obtain ⟨hfd, heq⟩ := Delimited.cut_inj (hnumber _ (Or.inl rfl) _) (hnumber _ (Or.inl rfl) _) heq
  have heq := List.tail_eq_of_cons_eq heq
  rw [hmarker, ← List.append_assoc line.link, ← List.append_assoc line'.link] at heq
  obtain ⟨hlink, heq⟩ := Delimited.marked_inj (by decide) (hmarker ▸ h.marker) (hmarker ▸ h'.marker) heq
  obtain ⟨hppid, heq⟩ := Delimited.cut_inj (hnumber _ (Or.inr rfl) _) (hnumber _ (Or.inr rfl) _) heq
  have hcommandLine := List.tail_eq_of_cons_eq heq
  cases line
  cases line'
  cases Digits.bytes_toString_inj hfd
  cases Digits.bytes_toString_inj hppid
  cases hlink
  cases hcommandLine
  rfl

end LeakLine

/-! ### Two checks -/

theorem leakLines_eq {sys : System} {F : FdTable} {dirfd : Fd} (hprints : Prints sys F) (fds : List Fd) :
    leakLines sys dirfd F fds =
      (fds.map (leakLine sys (insert dirfd F))).flatMap fun line => line.text ++ ['\n'.toUInt8] := by
  unfold leakLines
  rw [if_pos hprints, List.flatMap_map]
  rfl

/-- What a check leaves on `std::cerr` can be read back: checks of two processes that leave the same text, where they
    print what they warn of, warned of the same descriptors, with the same links, parent and command line. -/
theorem inherited_readable (sys sys' : System) (debug debug' : Bool) (allowed allowed' : Finset Int) (F F' : FdTable)
    (reads reads' : List (List CString)) (dirfd dirfd' : Fd) (hopen : sys.openFile (fdPath sys) F = some dirfd)
    (hopen' : sys'.openFile (fdPath sys') F' = some dirfd') (hreads : ∀ chunk ∈ reads, chunk ≠ [])
    (hreads' : ∀ chunk ∈ reads', chunk ≠ []) (hlist : IsListing (insert dirfd F) reads.flatten)
    (hlist' : IsListing (insert dirfd' F') reads'.flatten) (hprints : sys.stderrTakes = true ∧ STDERR_FILENO ∈ F)
    (hprints' : sys'.stderrTakes = true ∧ STDERR_FILENO ∈ F')
    (hplain : ∀ fd, Leaks F allowed fd → (leakLine sys (insert dirfd F) fd).Plain)
    (hplain' : ∀ fd, Leaks F' allowed' fd → (leakLine sys' (insert dirfd' F') fd).Plain) :
    ∃ report report', verifyInheritedFiles sys debug allowed reads F = .ok report ∧
      verifyInheritedFiles sys' debug' allowed' reads' F' = .ok report' ∧
      (report.cerr = report'.cerr → ∀ fd, (Leaks F allowed fd ↔ Leaks F' allowed' fd) ∧
        (Leaks F allowed fd → leakLine sys (insert dirfd F) fd = leakLine sys' (insert dirfd' F') fd)) := by
  obtain ⟨fds, report, hrun, -, -, hmem, hcerr, -⟩ := verifyInheritedFiles_ends sys debug allowed hopen hreads hlist
  obtain ⟨fds', report', hrun', -, -, hmem', hcerr', -⟩ :=
    verifyInheritedFiles_ends sys' debug' allowed' hopen' hreads' hlist'
  refine ⟨report, report', hrun, hrun', fun htext => ?_⟩
  have hlines : fds.map (leakLine sys (insert dirfd F)) = fds'.map (leakLine sys' (insert dirfd' F')) := by
    rw [hcerr, hcerr', leakLines_eq hprints, leakLines_eq hprints'] at htext
    refine Delimited.terminated_inj (fun _ h => h.text) (fun _ _ h h' => LeakLine.text_inj h h') ?_ ?_ htext
    · exact List.forall_mem_map.mpr fun fd hfd => hplain fd ((hmem fd).mp hfd)
    · exact List.forall_mem_map.mpr fun fd hfd => hplain' fd ((hmem' fd).mp hfd)
  have hfds : fds = fds' := by
    have hnumbers : fds.map (fun fd => (fd.val : Int)) = fds'.map fun fd => (fd.val : Int) := by
      have h := congrArg (List.map LeakLine.fd) hlines
      rw [List.map_map, List.map_map] at h
      exact h
    refine List.map_injective_iff.mpr (fun fd fd' h => ?_) hnumbers
    exact Subtype.ext (Int.ofNat.inj h)
  rw [← hfds] at hlines hmem'
  exact fun fd => ⟨(hmem fd).symm.trans (hmem' fd), fun hfd => List.map_inj_left.mp hlines fd ((hmem fd).mpr hfd)⟩

/-- Descriptor 7 is allowed in the one check and closed in the other. -/
theorem inherited_readable_five : ∃ report report',
    verifyInheritedFiles lowestFree true {7} inheritedReads inherited = .ok report ∧
      verifyInheritedFiles lowestFree false ∅
        [(descriptors.filter fun fd => fd.val ≤ 3 ∨ fd.val = 5).map fdName ++ [dot, dotDot]]
        (inherited.erase (lowFd 7)) = .ok report' ∧
      ∀ fd, Leaks inherited {7} fd ↔ Leaks (inherited.erase (lowFd 7)) ∅ fd := by
  have hplain : ∀ table fd, (leakLine lowestFree table fd).Plain := by
    intro table fd
    have hlink : (leakLine lowestFree table fd).link = bytes "/dev/null" := rfl
    refine ⟨hlink ▸ by decide, fun hinfix => absurd hinfix.length_le (hlink ▸ by decide), ?_⟩
    unfold leakLine
    dsimp only
    split
    · show '\n'.toUInt8 ∉ (bytes "init" ++ [0]).takeWhile (· ≠ 0)
      decide
    · exact List.not_mem_nil
  obtain ⟨report, report', hrun, hrun', htells⟩ := inherited_readable lowestFree lowestFree true false {7} ∅ inherited
    (inherited.erase (lowFd 7)) inheritedReads
    [(descriptors.filter fun fd => fd.val ≤ 3 ∨ fd.val = 5).map fdName ++ [dot, dotDot]] (lowFd 3) (lowFd 3)
    (by decide) (by decide) (by decide) (by decide) inheritedReads_listing ⟨by decide, by decide, by decide⟩ (by decide)
    (by decide) (fun fd _ => hplain _ fd) fun fd _ => hplain _ fd
  have htexts : (verifyInheritedFiles lowestFree true {7} inheritedReads inherited).toOption.map Report.cerr =
      (verifyInheritedFiles lowestFree false ∅
        [(descriptors.filter fun fd => fd.val ≤ 3 ∨ fd.val = 5).map fdName ++ [dot, dotDot]]
        (inherited.erase (lowFd 7))).toOption.map Report.cerr := by decide
  rw [hrun, hrun'] at htexts
  exact ⟨report, report', hrun, hrun', fun fd => (htells (Option.some.inj htexts) fd).1⟩

end Libexcept
