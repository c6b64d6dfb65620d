import Libexcept.Lib.Delimited
import Mathlib.Data.List.Forall2

/-! Computations that make calls and may fault. `calls` are the calls made, in order; a fault ends a
    computation, and the calls made before it stay recorded. -/

@[ext] structure Exec (κ ε α : Type) where
  calls : List κ
  result : Except ε α

namespace Exec

variable {κ ε α β ι : Type}

instance : Monad (Exec κ ε) where
  pure a := ⟨[], .ok a⟩
  bind x f :=
    match x.result with
    | .ok a => ⟨x.calls ++ (f a).calls, (f a).result⟩
    | .error e => ⟨x.calls, .error e⟩

def call (k : κ) : Exec κ ε Unit := ⟨[k], .ok ()⟩

def fault (e : ε) : Exec κ ε α := ⟨[], .error e⟩

def lift (x : Except ε α) : Exec κ ε α := ⟨[], x⟩

@[simp] theorem result_pure (a : α) : (pure a : Exec κ ε α).result = .ok a := rfl

variable {x : Exec κ ε α} {f : α → Exec κ ε β} {a : α} {e : ε}

theorem ok_bind (calls : List κ) : ((⟨calls, .ok a⟩ : Exec κ ε α) >>= f) = ⟨calls ++ (f a).calls, (f a).result⟩ := rfl

theorem result_bind : (x >>= f).result = x.result.bind fun a => (f a).result := by
  cases hx : x.result <;> simp [bind, hx, Except.bind]

theorem result_bind_ok (hx : x.result = .ok a) : (x >>= f).result = (f a).result := by
  rw [result_bind, hx]
  rfl

theorem result_bind_error (hx : x.result = .error e) : (x >>= f).result = .error e := by
  rw [result_bind, hx]
  rfl

theorem calls_bind_ok (hx : x.result = .ok a) : (x >>= f).calls = x.calls ++ (f a).calls := by
  simp [bind, hx]

theorem calls_bind_error (hx : x.result = .error e) : (x >>= f).calls = x.calls := by
  simp [bind, hx]

theorem bind_eq_ok {b : β} : (x >>= f).result = .ok b ↔ ∃ a, x.result = .ok a ∧ (f a).result = .ok b := by
  cases hx : x.result with
  | ok a => simp [result_bind_ok hx]
  | error e => simp [result_bind_error hx]

theorem bind_eq_error : (x >>= f).result = .error e ↔
    x.result = .error e ∨ ∃ a, x.result = .ok a ∧ (f a).result = .error e := by
  cases hx : x.result with
  | ok a => simp [result_bind_ok hx]
  | error e' => simp [result_bind_error hx]

/-- A call of a sequence is a call of its first part, or of the second part once the first returned. -/
theorem mem_calls_bind {k : κ} (hk : k ∈ (x >>= f).calls) :
    k ∈ x.calls ∨ ∃ a, x.result = .ok a ∧ k ∈ (f a).calls := by
  cases hx : x.result with
  | ok a =>
    rw [calls_bind_ok hx] at hk
    rcases List.mem_append.mp hk with hk | hk
    · exact Or.inl hk
    · exact Or.inr ⟨a, rfl, hk⟩
  | error e =>
    rw [calls_bind_error hx] at hk
    exact Or.inl hk

/-! ### Loops that push back

`collect f is out` is the loop `for(i : is) out.push_back(f(i));`. -/

def collect (f : ι → Exec κ ε β) : List ι → List β → Exec κ ε (List β)
  | [], out => pure out
  | i :: is, out => do
    let b ← f i
    collect f is (out ++ [b])

variable {g : ι → Exec κ ε β} {is : List ι} {out : List β}

/-- A loop returns one element for each round, in order, each the result of its own round. -/
theorem collect_eq_ok {bs : List β} : (collect g is out).result = .ok bs ↔
    ∃ new, bs = out ++ new ∧ List.Forall₂ (fun i b => (g i).result = .ok b) is new := by
  induction is generalizing out with
  | nil =>
    simp only [collect, result_pure, Except.ok.injEq, List.forall₂_nil_left_iff]
    constructor
    · intro h
      exact ⟨[], by rw [List.append_nil, h], rfl⟩
    · rintro ⟨new, h, rfl⟩
      rw [h, List.append_nil]
  | cons i is ih =>
    rw [collect, bind_eq_ok]
    constructor
    · rintro ⟨b, hb, h⟩
      obtain ⟨new, rfl, hnew⟩ := ih.mp h
      exact ⟨b :: new, by rw [List.append_assoc, List.singleton_append], .cons hb hnew⟩
    · rintro ⟨new, rfl, hnew⟩
      obtain ⟨b, new, hb, hrest, rfl⟩ := List.forall₂_cons_left_iff.mp hnew
      exact ⟨b, hb, ih.mpr ⟨new, by rw [List.append_assoc, List.singleton_append], hrest⟩⟩

theorem collect_returns : (∃ bs, (collect g is out).result = .ok bs) ↔ ∀ i ∈ is, ∃ b, (g i).result = .ok b := by
  induction is generalizing out with
  | nil => simp [collect]
  | cons i is ih =>
    simp only [collect, bind_eq_ok, List.forall_mem_cons]
    constructor
    · rintro ⟨bs, b, hb, h⟩
      exact ⟨⟨b, hb⟩, ih.mp ⟨bs, h⟩⟩
    · rintro ⟨⟨b, hb⟩, h⟩
      have hrest : ∃ bs, (collect g is (out ++ [b])).result = .ok bs := ih.mpr h
      obtain ⟨bs, hbs⟩ := hrest
      exact ⟨bs, b, hb, hbs⟩

theorem mem_calls_collect {k : κ} (hk : k ∈ (collect g is out).calls) : ∃ i ∈ is, k ∈ (g i).calls := by
  induction is generalizing out with
  | nil => cases hk
  | cons i is ih =>
    rcases mem_calls_bind hk with hk | ⟨b, -, hk⟩
    · exact ⟨i, List.mem_cons_self, hk⟩
    · obtain ⟨j, hj, hk⟩ := ih hk
      exact ⟨j, List.mem_cons_of_mem i hj, hk⟩

def faults (x : Exec κ ε α) : Bool := !x.result.toOption.isSome

/-- A loop makes the calls of its rounds, up to the first round that faults. -/
theorem calls_collect (g : ι → Exec κ ε β) (is : List ι) (out : List β) :
    (collect g is out).calls = (Delimited.upTo (fun i => (g i).faults) is).flatMap fun i => (g i).calls := by
  induction is generalizing out with
  | nil => rfl
  | cons i is ih =>
    rw [collect, Delimited.upTo, List.flatMap_cons]
    cases hi : (g i).result with
    | ok b =>
      rw [calls_bind_ok hi, ih, if_neg (by simp [faults, hi, Except.toOption])]
    | error e =>
      rw [calls_bind_error hi, if_pos (by simp [faults, hi, Except.toOption]), List.flatMap_nil, List.append_nil]

/-- A loop that faults has done so in the first round that does. -/
theorem collect_eq_error {e : ε} : (collect g is out).result = .error e ↔
    ∃ i, is.find? (fun i => (g i).faults) = some i ∧ (g i).result = .error e := by
  induction is generalizing out with
  | nil => simp [collect]
  | cons i is ih =>
    rw [collect, bind_eq_error]
    cases hi : (g i).result with
    | ok b => simp [hi, faults, Except.toOption, ih]
    | error e' => simp [hi, faults, Except.toOption]

theorem collect_map {γ : Type} (h : γ → ι) (is : List γ) : collect g (is.map h) out = collect (fun i => g (h i)) is out := by
  induction is generalizing out with
  | nil => rfl
  | cons i is ih =>
    rw [List.map_cons, collect, collect]
    simp only [ih]

theorem collect_congr {g' : ι → Exec κ ε β} (h : ∀ i ∈ is, g i = g' i) : collect g is out = collect g' is out := by
  induction is generalizing out with
  | nil => rfl
  | cons i is ih =>
    obtain ⟨hi, his⟩ := List.forall_mem_cons.mp h
    simp only [collect, hi, ih his]

/-- The same by positions, for a loop over an index. -/
theorem collect_range_eq_ok {g : Nat → Exec κ ε β} {n : Nat} {bs : List β} :
    (collect g (List.range n) []).result = .ok bs ↔
      bs.length = n ∧ ∀ i b, bs[i]? = some b → (g i).result = .ok b := by
  rw [collect_eq_ok]
  constructor
  · rintro ⟨new, rfl, hnew⟩
    have hlen := hnew.length_eq
    rw [List.length_range] at hlen
    refine ⟨hlen.symm, fun i b hb => ?_⟩
    obtain ⟨hi, rfl⟩ := List.getElem?_eq_some_iff.mp hb
    have hget := (List.forall₂_iff_get.mp hnew).2 i (by simpa [hlen] using hi) hi
    simpa using hget
  · rintro ⟨rfl, h⟩
    refine ⟨bs, rfl, List.forall₂_iff_get.mpr ⟨List.length_range, fun i _ hi => ?_⟩⟩
    simpa using h i bs[i] (List.getElem?_eq_getElem hi)

end Exec
