import Libexcept.FileInheritance
import Libexcept.Theorems.Exception
import Libexcept.Lib.Except

/-! The report of the inherited files is exact. Each round of the loop leaves the table as it was, so every
    kernel read sees the table of the call with the directory's own descriptor, and the names decide alone
    which entries are warned of. The warnings are printed only where descriptor 2 was open. -/

namespace Libexcept
open CString (bytes)
open Except (ok_bind pure_ok)

variable {sys : System} {debug : Bool} {path : List UInt8} {allowed : Finset Int} {dirfd fd : Fd} {scan : Scan}

/-! ### The tests of an entry -/

theorem read_zero (basename : CString) : basename.read 0 = .ok (basename.chars.headD 0) := by
  rw [CString.read_eq (Nat.zero_le _), CString.suffix_zero]

theorem isStandard_nil {basename : CString} (h : basename.chars = []) : isStandard basename = .ok false := by
  unfold isStandard
  rw [read_zero, ok_bind, h]
  rfl

/-- The second byte is read behind a digit only, so it is a byte of the name or its terminator. -/
theorem isStandard_cons {basename : CString} {c : UInt8} {rest : List UInt8} (h : basename.chars = c :: rest) :
    isStandard basename = .ok (decide ('0'.toUInt8 ≤ c ∧ c ≤ '2'.toUInt8) && rest.isEmpty) := by
  obtain ⟨hlen, -, hrest⟩ := CString.suffix_cons (c := basename) (s := 0) h
  have hread : basename.read 1 = .ok (rest.headD 0) := by
    rw [CString.read_eq hlen, hrest]
  have hend : (rest.headD 0 == 0) = rest.isEmpty := by
    cases rest with
    | nil => rfl
    | cons c' rest =>
      have hne : c' ≠ 0 := fun h0 => basename.noNul (by rw [h, h0]; simp)
      simpa using hne
  unfold isStandard
  rw [read_zero, ok_bind, hread, ok_bind, h, hend]
  by_cases hc : '0'.toUInt8 ≤ c ∧ c ≤ '2'.toUInt8
  · rw [List.headD_cons, if_pos hc, decide_eq_true hc]
    rfl
  · rw [List.headD_cons, if_neg hc, decide_eq_false hc]
    rfl

theorem isStandard_returns (basename : CString) : ∃ b, isStandard basename = .ok b := by
  cases h : basename.chars with
  | nil => exact ⟨_, isStandard_nil h⟩
  | cons c rest => exact ⟨_, isStandard_cons h⟩

/-- The textual test of the standard descriptors is one of their numbers. -/
theorem isStandard_fdName (fd : Fd) : isStandard (fdName fd) = .ok (decide (fd.val ≤ 2)) := by
  obtain ⟨n, hn⟩ := fd
  obtain ⟨c, rest, hcons⟩ := List.exists_cons_of_ne_nil (Digits.decimal_ne_nil n)
  have hchars : (fdName ⟨n, hn⟩).chars = c :: rest := hcons
  rw [isStandard_cons hchars]
  congr 1
  by_cases hle : n ≤ 2
  · have hsmall : ∀ n ≤ 2, ∃ c, Digits.decimal n = [c] ∧ '0'.toUInt8 ≤ c ∧ c ≤ '2'.toUInt8 := by
      intro n hle
      rcases n with _ | _ | _ | n
      · exact ⟨'0'.toUInt8, rfl, by decide⟩
      · exact ⟨'1'.toUInt8, rfl, by decide⟩
      · exact ⟨'2'.toUInt8, rfl, by decide⟩
      · omega
    obtain ⟨c', hone, hrange⟩ := hsmall n hle
    rw [hcons] at hone
    cases hone
    rw [decide_eq_true hle, decide_eq_true hrange]
    rfl
  · rw [decide_eq_false hle, Bool.and_eq_false_iff]
    by_cases hrest : rest = []
    · left
      refine decide_eq_false fun hrange => hle ?_
      have hvalue := Digits.value_decimal n
      rw [hcons, hrest] at hvalue
      have hhigh : c.toNat ≤ 50 := UInt8.le_iff_toNat_le.mp hrange.2
      unfold Digits.value Digits.value at hvalue
      split at hvalue <;> omega
    · right
      cases rest with
      | nil => exact absurd rfl hrest
      | cons => rfl

def leaked (allowed : Finset Int) (dirfd : Fd) (basename : CString) : Option Int :=
  match leakedFd allowed dirfd basename with
  | .ok fd => fd
  | .error _ => none

theorem leakedFd_eq (allowed : Finset Int) (dirfd : Fd) (basename : CString) :
    leakedFd allowed dirfd basename = .ok (leaked allowed dirfd basename) := by
  have hreturns : ∃ fd, leakedFd allowed dirfd basename = .ok fd := by
    obtain ⟨standard, hstandard⟩ := isStandard_returns basename
    unfold leakedFd
    rw [read_zero, ok_bind, hstandard, ok_bind]
    split
    · exact ⟨_, rfl⟩
    · split
      · exact ⟨_, rfl⟩
      · dsimp only
        split
        · exact ⟨_, rfl⟩
        · split <;> exact ⟨_, rfl⟩
  obtain ⟨fd, h⟩ := hreturns
  unfold leaked
  rw [h]

theorem leaked_fdName : leaked allowed dirfd (fdName fd) =
    if fd.val ≤ 2 ∨ fd = dirfd ∨ (fd.val : Int) ∈ allowed then none else some (fd.val : Int) := by
  have hatoi : Digits.atoi (fdName fd).chars = fd.val := Digits.atoi_decimal fd.property
  have hhidden : ((fdName fd).chars.headD 0 == '.'.toUInt8) = false := by
    obtain ⟨c, rest, hcons⟩ := List.exists_cons_of_ne_nil (Digits.decimal_ne_nil fd.val)
    have hdot := Digits.notMem_decimal (c := '.'.toUInt8) fd.val (by decide)
    rw [hcons] at hdot
    have hne : '.'.toUInt8 ≠ c := fun h => hdot (h ▸ List.mem_cons_self)
    rw [show (fdName fd).chars = c :: rest from hcons, List.headD_cons]
    exact beq_eq_false_iff_ne.mpr hne.symm
  have hown : (fd.val : Int) = dirfd.val ↔ fd = dirfd := by
    rw [Subtype.ext_iff]
    omega
  unfold leaked leakedFd
  rw [read_zero, ok_bind, hhidden, isStandard_fdName, ok_bind, hatoi]
  by_cases hstd : fd.val ≤ 2
  · rw [if_pos (Or.inl hstd), decide_eq_true hstd]
    rfl
  · rw [decide_eq_false hstd]
    by_cases hdir : fd = dirfd
    · rw [if_pos (Or.inr (Or.inl hdir))]
      simp [hdir, pure_ok]
    · by_cases hallowed : (fd.val : Int) ∈ allowed
      · rw [if_pos (Or.inr (Or.inr hallowed))]
        simp [hown, hdir, hallowed, pure_ok]
      · rw [if_neg (not_or.mpr ⟨hstd, not_or.mpr ⟨hdir, hallowed⟩⟩)]
        simp [hown, hdir, hallowed, pure_ok]

/-! ### Lines -/

/-- What a line tells. -/
structure LeakLine where
  fd : Int
  link : List UInt8
  ppid : Int
  commandLine : List UInt8

/-- The line without the newline that ends it. -/
def LeakLine.text (line : LeakLine) : List UInt8 :=
  bytes "warning: file descriptor " ++ toBytes line.fd ++ bytes " (" ++ line.link ++
    bytes ") leaked on invocation. Parent PID " ++ toBytes line.ppid ++ bytes ": " ++ line.commandLine

/-- The line of a descriptor: the first 255 bytes of the target of its link, and the command line of the parent up
    to its first NUL, as far as the one can be read and the other opened with the table of the loop. -/
def leakLine (sys : System) (table : FdTable) (fd : Fd) : LeakLine where
  fd := fd.val
  link :=
    match sys.readlink (bytes "/proc/" ++ toBytes sys.getpid ++ bytes "/fd" ++ bytes "/" ++ Digits.decimal fd.val) with
    | some target => target.chars.take 255
    | none => []
  ppid := sys.getppid
  commandLine :=
    if (sys.openFile (bytes "/proc/" ++ toBytes sys.getppid ++ bytes "/cmdline") table).isSome then
      (sys.content (bytes "/proc/" ++ toBytes sys.getppid ++ bytes "/cmdline")).takeWhile (· ≠ 0)
    else []

def leakText (sys : System) (table : FdTable) (fd : Fd) : List UInt8 := (leakLine sys table fd).text ++ bytes "\n"

/-! ### A round of the loop -/

theorem getCommandLine_table (sys : System) (pid : Int) (table : FdTable) : (getCommandLine sys pid table).2 = table := by
  unfold getCommandLine
  dsimp only
  split
  · rfl
  · rename_i cmdline hopen
    exact Finset.erase_insert (sys.openFile_fresh hopen)

theorem getCommandLine_line (sys : System) (table : FdTable) (fd : Fd) :
    (getCommandLine sys sys.getppid table).1 = (leakLine sys table fd).commandLine := by
  unfold getCommandLine leakLine
  dsimp only
  cases sys.openFile (bytes "/proc/" ++ toBytes sys.getppid ++ bytes "/cmdline") table with
  | none => rfl
  | some cmdline =>
    rw [if_pos (Option.isSome_some)]
    refine congrArg (List.takeWhile · _) (funext fun c => ?_)
    by_cases hc : c = 0 <;> simp [hc]

/-- The warning of a round. -/
def warning (sys : System) (path : List UInt8) (allowed : Finset Int) (dirfd : Fd) (table : FdTable)
    (basename : CString) : Option (List UInt8) :=
  (leaked allowed dirfd basename).map fun fd =>
    warningText sys fd (linkText sys (path ++ bytes "/" ++ basename.chars)) (getCommandLine sys sys.getppid table).1

/-- The loop has warned of some descriptors. -/
def Scan.warn (sys : System) (dirfd : Fd) (scan : Scan) (texts : List (List UInt8)) : Scan :=
  { scan with
    cerr := scan.cerr ++ if cerrTakes sys dirfd scan.table then texts.flatten else []
    errcnt := scan.errcnt + texts.length }

theorem Scan.warn_nil (scan : Scan) : scan.warn sys dirfd [] = scan := by
  simp [Scan.warn]

theorem Scan.warn_warn (scan : Scan) (texts texts' : List (List UInt8)) :
    (scan.warn sys dirfd texts).warn sys dirfd texts' = scan.warn sys dirfd (texts ++ texts') := by
  unfold Scan.warn
  cases cerrTakes sys dirfd scan.table <;> simp [Nat.add_assoc]

theorem visit_eq (sys : System) (path : List UInt8) (allowed : Finset Int) (dirfd : Fd) (scan : Scan)
    (basename : CString) : visit sys path allowed dirfd scan basename =
      .ok (scan.warn sys dirfd (warning sys path allowed dirfd scan.table basename).toList) := by
  unfold visit warning
  rw [leakedFd_eq, ok_bind]
  cases leaked allowed dirfd basename with
  | none => exact congrArg Except.ok scan.warn_nil.symm
  | some fd =>
    have htable := getCommandLine_table sys sys.getppid scan.table
    simp only [Option.map_some, Option.toList_some, Scan.warn, List.length_singleton, List.flatten_singleton]
    rw [htable]
    rfl

theorem foldl_warn (names : List CString) (scan : Scan) :
    names.foldl (fun scan name => scan.warn sys dirfd (warning sys path allowed dirfd scan.table name).toList) scan =
      scan.warn sys dirfd (names.filterMap (warning sys path allowed dirfd scan.table)) := by
  induction names generalizing scan with
  | nil => exact scan.warn_nil.symm
  | cons name names ih =>
    rw [List.foldl_cons, ih, Scan.warn_warn, List.filterMap_cons]
    cases warning sys path allowed dirfd scan.table name <;> rfl

/-- Every kernel read of a listing is one of the table that the rounds before it have left: by induction
    on the reads, with what was seen and what is left to be read a listing of that table. -/
theorem readLoop_eq (sys : System) (path : List UInt8) (allowed : Finset Int) (dirfd : Fd)
    {reads : List (List CString)} {seen : List CString} (hreads : ∀ chunk ∈ reads, chunk ≠ [])
    (hlist : IsListing scan.table (seen ++ reads.flatten)) :
    readLoop sys path allowed dirfd reads seen scan =
      .ok (scan.warn sys dirfd (reads.flatten.filterMap (warning sys path allowed dirfd scan.table))) := by
  induction reads generalizing seen scan with
  | nil =>
    rw [List.flatten_nil, List.append_nil] at hlist
    unfold readLoop
    rw [if_pos hlist.holds, List.flatten_nil, List.filterMap_nil, Scan.warn_nil]
  | cons chunk reads ih =>
    obtain ⟨hchunk, hreads⟩ := List.forall_mem_cons.mp hreads
    rw [List.flatten_cons, ← List.append_assoc] at hlist
    have hpossible : PossibleRead scan.table seen chunk :=
      ⟨hchunk, hlist.nodup.of_append_left, fun name hname => hlist.entries name (by simp [hname])⟩
    have hlist' : IsListing (scan.warn sys dirfd (chunk.filterMap (warning sys path allowed dirfd scan.table))).table
        ((seen ++ chunk) ++ reads.flatten) := hlist
    unfold readLoop
    rw [if_pos hpossible, Except.foldlM_ok (visit_eq sys path allowed dirfd), foldl_warn]
    refine (ih hreads hlist').trans ?_
    rw [Scan.warn_warn, List.flatten_cons, List.filterMap_append]
    rfl

/-! ### The descriptors of a listing -/

/-- The tests of the loop that let a descriptor go without a warning. -/
abbrev Passes (allowed : Finset Int) (dirfd fd : Fd) : Prop := fd.val ≤ 2 ∨ fd = dirfd ∨ (fd.val : Int) ∈ allowed

theorem fdName_inj {fd fd' : Fd} (h : fdName fd = fdName fd') : fd = fd' := by
  have hdecimal : Digits.decimal fd.val = Digits.decimal fd'.val := congrArg CString.chars h
  exact Subtype.ext (Digits.decimal_inj hdecimal)

theorem fdName_ne {name : CString} (h : '.'.toUInt8 ∈ name.chars) : fdName fd ≠ name := by
  rintro rfl
  exact Digits.notMem_decimal fd.val (by decide) h

theorem warning_fdName {table : FdTable} : warning sys (fdPath sys) allowed dirfd table (fdName fd) =
    if Passes allowed dirfd fd then none else some (leakText sys table fd) := by
  unfold warning
  rw [leaked_fdName]
  split
  · rfl
  · rw [Option.map_some, getCommandLine_line sys table fd]
    rfl

theorem warning_none {table table' : FdTable} {name : CString} (hentry : IsEntry table name)
    (h : ∀ fd, name = fdName fd → Passes allowed dirfd fd) :
    warning sys (fdPath sys) allowed dirfd table' name = none := by
  rcases hentry with rfl | rfl | ⟨fd, -, rfl⟩
  · rfl
  · rfl
  · rw [warning_fdName, if_pos (h fd rfl)]

/-- The warnings are those of the descriptors of the names, in their order. -/
theorem warning_listing (sys : System) (allowed : Finset Int) (dirfd : Fd) (table' : FdTable) {table : FdTable}
    {names : List CString} (hentries : ∀ name ∈ names, IsEntry table name) :
    ∃ fds : List Fd, (fds.map fdName).Sublist names ∧
      (∀ fd, fd ∈ fds ↔ fdName fd ∈ names ∧ ¬ Passes allowed dirfd fd) ∧
      names.filterMap (warning sys (fdPath sys) allowed dirfd table') = fds.map (leakText sys table') := by
  induction names with
  | nil => exact ⟨[], .slnil, by simp, rfl⟩
  | cons name names ih =>
    obtain ⟨hentry, hentries⟩ := List.forall_mem_cons.mp hentries
    obtain ⟨fds, hsub, hmem, hwarned⟩ := ih hentries
    by_cases hleaks : ∃ fd, name = fdName fd ∧ ¬ Passes allowed dirfd fd
    · obtain ⟨fd, rfl, hfd⟩ := hleaks
      refine ⟨fd :: fds, hsub.cons_cons _, fun fd' => ?_, ?_⟩
      · rw [List.mem_cons, List.mem_cons, hmem, or_and_right]
        refine or_congr_left ⟨?_, fun h => fdName_inj h.1⟩
        rintro rfl
        exact ⟨rfl, hfd⟩
      · rw [List.filterMap_cons_some (warning_fdName.trans (if_neg hfd)), hwarned, List.map_cons]
    · push Not at hleaks
      refine ⟨fds, hsub.cons _, fun fd => ?_, ?_⟩
      · rw [List.mem_cons, hmem, or_and_right]
        refine ⟨Or.inr, fun h => h.resolve_left ?_⟩
        rintro ⟨rfl, hfd⟩
        exact hfd (hleaks fd rfl)
      · rw [List.filterMap_cons_none (warning_none hentry hleaks), hwarned]

/-- A descriptor that a check with these allowed descriptors warns of. -/
abbrev Leaks (F : FdTable) (allowed : Finset Int) (fd : Fd) : Prop := fd ∈ F ∧ 2 < fd.val ∧ (fd.val : Int) ∉ allowed

section Listing

variable {F : FdTable} {reads : List (List CString)}

/-- The leaked descriptors of a table, in the order of its directory. -/
theorem listing_leaks (sys : System) (allowed : Finset Int) (hdir : dirfd ∉ F)
    (hlist : IsListing (insert dirfd F) reads.flatten) :
    ∃ fds : List Fd, (fds.map fdName).Sublist reads.flatten ∧ fds.Nodup ∧ (∀ fd, fd ∈ fds ↔ Leaks F allowed fd) ∧
      reads.flatten.filterMap (warning sys (fdPath sys) allowed dirfd (insert dirfd F)) =
        fds.map (leakText sys (insert dirfd F)) := by
  obtain ⟨fds, hsub, hmem, hwarned⟩ := warning_listing sys allowed dirfd (insert dirfd F) hlist.entries
  refine ⟨fds, hsub, (hsub.nodup hlist.nodup).of_map, fun fd => ?_, hwarned⟩
  rw [hmem]
  constructor
  · rintro ⟨hname, hfd⟩
    push Not at hfd
    obtain ⟨hstd, hown, hallowed⟩ := hfd
    have hentry : ∃ fd' ∈ insert dirfd F, fdName fd = fdName fd' := by
      rcases hlist.entries _ hname with h | h | h
      · exact absurd h (fdName_ne (by decide))
      · exact absurd h (fdName_ne (by decide))
      · exact h
    obtain ⟨fd', hfd', heq⟩ := hentry
    cases fdName_inj heq
    exact ⟨Finset.mem_of_mem_insert_of_ne hfd' hown, hstd, hallowed⟩
  · rintro ⟨hfd, hstd, hallowed⟩
    refine ⟨hlist.holds.2.2 fd (Finset.mem_insert_of_mem hfd), ?_⟩
    rintro (hle | rfl | h)
    · omega
    · exact hdir hfd
    · exact hallowed h

/-! ### The report -/

/-- Whether the warnings of a call are printed: `std::cerr` has a descriptor 2 that takes them. -/
abbrev Prints (sys : System) (F : FdTable) : Prop := sys.stderrTakes = true ∧ STDERR_FILENO ∈ F

/-- What is printed when some descriptors are warned of. -/
def leakLines (sys : System) (dirfd : Fd) (F : FdTable) (fds : List Fd) : List UInt8 :=
  if Prints sys F then fds.flatMap fun fd => (leakLine sys (insert dirfd F) fd).text ++ bytes "\n" else []

/-- How a call ends, once it has warned of some descriptors. -/
inductive Ends (sys : System) (debug : Bool) (dirfd : Fd) (F : FdTable) (fds : List Fd) (report : Report) : Prop
  | returned (hquiet : debug = false ∨ fds = []) (hexit : report.exit = .returned) (htable : report.table = F)
  | thrown (object : Exception) (hdebug : debug = true) (hleaks : fds ≠ [])
      (hobject : (fileInheritedClass.construct (sys.process (insert dirfd F))
        (bytes "found unexpected file descriptor leaks.")).result = .ok object)
      (hexit : report.exit = .thrown fileInheritedClass object) (htable : report.table = F)
  | crashed (fault : Fault) (hdebug : debug = true) (hleaks : fds ≠ [])
      (hfault : ¬ Builds (sys.process (insert dirfd F))) (hexit : report.exit = .crashed fault)

theorem cerrTakes_insert (hdir : dirfd ∉ F) : cerrTakes sys dirfd (insert dirfd F) = decide (Prints sys F) := by
  have hstderr : STDERR_FILENO ∈ insert dirfd F ∧ STDERR_FILENO ≠ dirfd ↔ STDERR_FILENO ∈ F :=
    ⟨fun h => Finset.mem_of_mem_insert_of_ne h.1 h.2, fun h => ⟨Finset.mem_insert_of_mem h, fun heq => hdir (heq ▸ h)⟩⟩
  unfold cerrTakes
  rw [Bool.eq_iff_iff]
  simp only [Bool.and_eq_true, decide_eq_true_iff, and_assoc, hstderr]

/-- The call, once the directory is open. -/
theorem verifyInheritedFiles_ends (sys : System) (debug : Bool) (allowed : Finset Int)
    (hopen : sys.openFile (fdPath sys) F = some dirfd) (hreads : ∀ chunk ∈ reads, chunk ≠ [])
    (hlist : IsListing (insert dirfd F) reads.flatten) :
    ∃ (fds : List Fd) (report : Report), verifyInheritedFiles sys debug allowed reads F = .ok report ∧
      (fds.map fdName).Sublist reads.flatten ∧ fds.Nodup ∧ (∀ fd, fd ∈ fds ↔ Leaks F allowed fd) ∧
      report.cerr = leakLines sys dirfd F fds ∧ Ends sys debug dirfd F fds report := by
  have hdir := sys.openFile_fresh hopen
  obtain ⟨fds, hsub, hnodup, hmem, hwarned⟩ := listing_leaks sys allowed hdir hlist
  have hstart : IsListing ({ table := insert dirfd F, cerr := [], errcnt := 0 } : Scan).table ([] ++ reads.flatten) :=
    hlist
  have hloop := readLoop_eq sys (fdPath sys) allowed dirfd hreads hstart
  unfold Scan.warn at hloop
  dsimp only at hloop
  rw [hwarned, cerrTakes_insert hdir, List.length_map, Nat.zero_add, List.nil_append, ← List.flatMap_def] at hloop
  have herase : (insert dirfd F).erase dirfd = F := Finset.erase_insert hdir
  have hcerr : (if decide (Prints sys F) = true then fds.flatMap (leakText sys (insert dirfd F)) else []) =
      leakLines sys dirfd F fds := if_congr decide_eq_true_iff rfl rfl
  unfold verifyInheritedFiles
  rw [hopen]
  dsimp only
  rw [hloop, ok_bind]
  dsimp only
  by_cases hthrows : debug = true ∧ fds.length > 0
  · have hleaks : fds ≠ [] := List.ne_nil_of_length_pos hthrows.2
    rw [if_pos hthrows]
    cases hobject : (fileInheritedClass.construct (sys.process (insert dirfd F))
        (bytes "found unexpected file descriptor leaks.")).result with
    | ok object =>
      exact ⟨fds, _, rfl, hsub, hnodup, hmem, hcerr, .thrown object hthrows.1 hleaks hobject rfl herase⟩
    | error fault =>
      refine ⟨fds, _, rfl, hsub, hnodup, hmem, hcerr, .crashed fault hthrows.1 hleaks (fun hbuilds => ?_) rfl⟩
      obtain ⟨object, hok⟩ := construct_returns.mpr hbuilds
      cases hobject.symm.trans hok
  · rw [if_neg hthrows]
    refine ⟨fds, _, rfl, hsub, hnodup, hmem, hcerr, .returned ?_ rfl herase⟩
    rw [not_and, gt_iff_lt, List.length_pos_iff, not_not] at hthrows
    exact (Bool.eq_false_or_eq_true debug).symm.imp_right hthrows

end Listing

theorem fileInherited_caught {p : Process} {object : Exception}
    (h : (fileInheritedClass.construct p (bytes "found unexpected file descriptor leaks.")).result = .ok object) :
    Caught (bytes "file_inherited: found unexpected file descriptor leaks.") object :=
  caught_of_construct (by decide) (by decide) h

namespace Ends

variable {F : FdTable} {fds : List Fd} {report : Report}

theorem returned_iff (h : Ends sys debug dirfd F fds report) : report.exit = .returned ↔ debug = false ∨ fds = [] := by
  have hthrows : debug = true → fds ≠ [] → ¬ (debug = false ∨ fds = []) := fun hdebug hleaks =>
    not_or.mpr ⟨by simp [hdebug], hleaks⟩
  cases h with
  | returned hquiet hexit _ => exact iff_of_true hexit hquiet
  | thrown object hdebug hleaks _ hexit _ => exact iff_of_false (by simp [hexit]) (hthrows hdebug hleaks)
  | crashed fault hdebug hleaks _ hexit => exact iff_of_false (by simp [hexit]) (hthrows hdebug hleaks)

theorem throws (h : Ends sys debug dirfd F fds report) (hbuilds : Builds (sys.process (insert dirfd F)))
    (hdebug : debug = true) (hleaks : fds ≠ []) : ∃ object, report.exit = .thrown fileInheritedClass object ∧
      Caught (bytes "file_inherited: found unexpected file descriptor leaks.") object := by
  cases h with
  | returned hquiet _ _ => exact absurd hquiet (not_or.mpr ⟨by simp [hdebug], hleaks⟩)
  | thrown object _ _ hobject hexit _ => exact ⟨object, hexit, fileInherited_caught hobject⟩
  | crashed fault _ _ hfault _ => exact absurd hbuilds hfault

theorem crashes (h : Ends sys debug dirfd F fds report) (hfails : ¬ Builds (sys.process (insert dirfd F)))
    (hdebug : debug = true) (hleaks : fds ≠ []) : ∃ fault, report.exit = .crashed fault := by
  cases h with
  | returned hquiet _ _ => exact absurd hquiet (not_or.mpr ⟨by simp [hdebug], hleaks⟩)
  | thrown object _ _ hobject _ _ => exact absurd (construct_returns.mp ⟨object, hobject⟩) hfails
  | crashed fault _ _ _ hexit => exact ⟨fault, hexit⟩

theorem table (h : Ends sys debug dirfd F fds report) (halive : ∀ fault, report.exit ≠ .crashed fault) :
    report.table = F := by
  cases h with
  | returned _ _ htable => exact htable
  | thrown _ _ _ _ _ htable => exact htable
  | crashed fault _ _ _ hexit => exact absurd hexit (halive fault)

end Ends

/-- A descriptor of a process that may open 16 files. -/
def lowFd (n : Fin 16) : Fd := ⟨n, n.isLt.trans (by decide)⟩

def descriptors : List Fd := (List.finRange 16).map lowFd

/-- A system that opens every file with the lowest free descriptor, and a stream where one is free. Complete
    traces are asked for. -/
def lowestFree : System where
  getpid := 7
  getppid := 1
  openFile _ table := descriptors.find? (fun fd => decide (fd ∉ table))
  openFile_fresh h := by simpa using List.find?_some h
  content _ := bytes "init" ++ [0]
  readlink _ := some ⟨bytes "/dev/null", by decide⟩
  stderrTakes := true
  process table :=
    { silentTool with
      stack := [mainFrame]
      popen := fun _ _ => if descriptors.all (fun fd => decide (fd ∈ table)) then none else some [] }

/-- Descriptor 5 was inherited, and so was 7, which is allowed. -/
def inherited : FdTable := {lowFd 0, lowFd 1, STDERR_FILENO, lowFd 5, lowFd 7}

/-- The directory of `inherited`, with its own descriptor, in two kernel reads. -/
def inheritedReads : List (List CString) :=
  [((descriptors.filter fun fd => fd.val = 3 ∨ fd ∈ inherited).map fdName).reverse ++ [dot], [dotDot]]

theorem inheritedReads_listing : IsListing (insert (lowFd 3) inherited) inheritedReads.flatten :=
  ⟨by decide, by decide, by decide⟩

theorem builds_of_stream {p : Process} (stream : List UInt8) (ht : p.symbolTable = true)
    (hp : ∀ idx command, p.popen idx command = some stream) : Builds p := fun _ =>
  Or.inr ⟨ht, fun idx _ x _ _ hnull => nomatch hnull.symm.trans (hp idx (addr2line p x.addr))⟩

end Libexcept
