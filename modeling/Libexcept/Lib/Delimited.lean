import Mathlib.Data.List.TakeWhile

/-! Lists cut at their first delimiter. `before` is the part of a list ahead of the first element that
    stops the scan, `after` the rest of it, the delimiter included. A list has one decomposition at a
    delimiter, so a scan that stops at the first one finds it. -/

namespace Delimited

variable {α : Type} {stop : α → Bool} {l xs ys xs' ys' : List α} {c : α}

/-- The elements ahead of the first one that stops the scan. -/
def before (stop : α → Bool) (l : List α) : List α := l.takeWhile fun c => !stop c

/-- The first element that stops the scan and what follows it. -/
def after (stop : α → Bool) (l : List α) : List α := l.dropWhile fun c => !stop c

theorem before_append (h : ∀ x ∈ xs, stop x = false) : before stop (xs ++ l) = xs ++ before stop l :=
  List.takeWhile_append_of_pos fun x hx => by simp [h x hx]

theorem after_append (h : ∀ x ∈ xs, stop x = false) : after stop (xs ++ l) = after stop l :=
  List.dropWhile_append_of_pos fun x hx => by simp [h x hx]

theorem before_cons (h : stop c = true) : before stop (c :: ys) = [] := by simp [before, h]

theorem after_cons (h : stop c = true) : after stop (c :: ys) = c :: ys := by simp [after, h]

theorem before_of_cut (hx : ∀ x ∈ xs, stop x = false) (hc : stop c = true) : before stop (xs ++ c :: ys) = xs := by
  rw [before_append hx, before_cons hc, List.append_nil]

theorem after_of_cut (hx : ∀ x ∈ xs, stop x = false) (hc : stop c = true) :
    after stop (xs ++ c :: ys) = c :: ys := by
  rw [after_append hx, after_cons hc]

theorem beq_of_notMem [BEq α] [LawfulBEq α] (h : c ∉ xs) : ∀ x ∈ xs, (x == c) = false := fun x hx => by
  rw [beq_eq_false_iff_ne]
  rintro rfl
  exact h hx

/-- A list is cut at the first occurrence of an element in one way only. -/
theorem cut_inj [BEq α] [LawfulBEq α] (h : c ∉ xs) (h' : c ∉ xs') (heq : xs ++ c :: ys = xs' ++ c :: ys') :
    xs = xs' ∧ ys = ys' := by
  have hb := congrArg (before (· == c)) heq
  have ha := congrArg (after (· == c)) heq
  rw [before_of_cut (beq_of_notMem h) (beq_self_eq_true c), before_of_cut (beq_of_notMem h') (beq_self_eq_true c)] at hb
  rw [after_of_cut (beq_of_notMem h) (beq_self_eq_true c), after_of_cut (beq_of_notMem h') (beq_self_eq_true c)] at ha
  exact ⟨hb, (List.cons.inj ha).2⟩

/-- What ends with a separator and a word ends with its own last word. -/
theorem suffix_of_word {ws : List α} (h : c ∉ xs) (hsuffix : c :: xs <:+ ws ++ c :: ys) : c :: xs <:+ c :: ys := by
  rcases List.suffix_or_suffix_of_suffix hsuffix (List.suffix_append ws (c :: ys)) with hshort | hlong
  · exact hshort
  · rcases List.suffix_cons_iff.mp hlong with heq | hinner
    · exact heq ▸ List.suffix_rfl
    · exact absurd (hinner.subset List.mem_cons_self) h

theorem marked_start {m zs : List α} (hm : c ∉ m) (h : ¬ c :: m <:+: zs) (hmarker : c :: m <+: zs ++ c :: m ++ ys) :
    zs = [] := by
  rw [List.append_assoc] at hmarker
  rcases List.prefix_or_prefix_of_prefix hmarker (List.prefix_append zs _) with hinside | ⟨rest, hover⟩
  · exact absurd hinside.isInfix h
  · cases zs with
    | nil => rfl
    | cons z zs =>
      cases rest with
      | nil =>
        rw [List.append_nil] at hover
        exact absurd (hover ▸ List.infix_rfl) h
      | cons r rest =>
        -- the second marker would start inside the first one
        obtain ⟨l, hl⟩ := hmarker
        rw [← hover, List.append_assoc, List.append_cancel_left_eq, hover] at hl
        have hr : r ∈ m := (List.cons.inj hover).2 ▸ List.mem_append_right zs List.mem_cons_self
        exact absurd ((List.cons.inj hl).1 ▸ hr) hm

/-- A list is cut at the first occurrence of a marker in one way only, when the marker does not overlap itself. -/
theorem marked_inj {m : List α} (hm : c ∉ m) (h : ¬ c :: m <:+: xs) (h' : ¬ c :: m <:+: xs')
    (heq : xs ++ c :: m ++ ys = xs' ++ c :: m ++ ys') : xs = xs' ∧ ys = ys' := by
  have hcut : ∀ {xs xs' ys ys' : List α}, ¬ c :: m <:+: xs' → xs ++ c :: m ++ ys = xs' ++ c :: m ++ ys' →
      xs <+: xs' → xs = xs' := by
    rintro xs _ ys ys' hnot heq ⟨zs, rfl⟩
    rw [List.append_assoc, List.append_assoc, List.append_assoc, List.append_cancel_left_eq, ← List.append_assoc] at heq
    have hnone : zs = [] := by
      refine marked_start hm (fun hinside => hnot ?_) (heq ▸ List.prefix_append _ _)
      exact hinside.trans (List.suffix_append xs zs).isInfix
    rw [hnone, List.append_nil]
  have hsame : xs = xs' := by
    have hstart : xs <+: xs' ++ (c :: m ++ ys') := by
      rw [← List.append_assoc, ← heq, List.append_assoc]
      exact List.prefix_append _ _
    rcases List.prefix_or_prefix_of_prefix hstart (List.prefix_append xs' _) with hle | hge
    · exact hcut h' heq hle
    · exact (hcut h heq.symm hge).symm
  rw [hsame, List.append_cancel_left_eq] at heq
  exact ⟨hsame, heq⟩

/-- Records that are written without the terminator that follows each of them can be read back. -/
theorem terminated_inj {β : Type} [BEq α] [LawfulBEq α] {w : β → List α} {Good : β → Prop} {rs rs' : List β}
    (hw : ∀ r, Good r → c ∉ w r) (hinj : ∀ r r', Good r → Good r' → w r = w r' → r = r')
    (hrs : ∀ r ∈ rs, Good r) (hrs' : ∀ r ∈ rs', Good r)
    (heq : (rs.flatMap fun r => w r ++ [c]) = rs'.flatMap fun r => w r ++ [c]) : rs = rs' := by
  induction rs generalizing rs' with
  | nil =>
    cases rs' with
    | nil => rfl
    | cons r' rs' => simp at heq
  | cons r rs ih =>
    cases rs' with
    | nil => simp at heq
    | cons r' rs' =>
      obtain ⟨hr, hrs⟩ := List.forall_mem_cons.mp hrs
      obtain ⟨hr', hrs'⟩ := List.forall_mem_cons.mp hrs'
      simp only [List.flatMap_cons, List.append_assoc, List.singleton_append] at heq
      obtain ⟨hsame, hrest⟩ := cut_inj (hw r hr) (hw r' hr') heq
      rw [hinj r r' hr hr' hsame, ih hrs hrs' hrest]

/-! ### Up to the first -/

/-- The elements up to the first one that stops the scan, which is the last of them. -/
def upTo (stop : α → Bool) : List α → List α
  | [] => []
  | c :: l => c :: if stop c then [] else upTo stop l

theorem upTo_mono (l l' : List α) : upTo stop l <+: upTo stop (l ++ l') := by
  induction l with
  | nil => exact List.nil_prefix
  | cons c l ih =>
    rw [List.cons_append, upTo, upTo]
    refine List.cons_prefix_cons.mpr ⟨rfl, ?_⟩
    split
    · exact List.nil_prefix
    · exact ih

theorem upTo_eq_self (h : ∀ c ∈ l, stop c = false) : upTo stop l = l := by
  induction l with
  | nil => rfl
  | cons c l ih =>
    obtain ⟨hc, hl⟩ := List.forall_mem_cons.mp h
    rw [upTo, if_neg (by simp [hc]), ih hl]

/-- Elements that are mapped to nothing stop no scan. -/
theorem filterMap_upTo {β : Type} {g : α → Option β} {stop' : β → Bool} (h : ∀ a, stop a = (g a).any stop') (l : List α) :
    (upTo stop l).filterMap g = upTo stop' (l.filterMap g) := by
  induction l with
  | nil => rfl
  | cons a l ih =>
    rw [upTo]
    cases hg : g a with
    | none =>
      rw [h a, hg, if_neg (by simp), List.filterMap_cons_none hg, List.filterMap_cons_none hg, ih]
    | some b =>
      rw [h a, hg, List.filterMap_cons_some hg, List.filterMap_cons_some hg, upTo, Option.any_some]
      split
      · rfl
      · rw [ih]

end Delimited
