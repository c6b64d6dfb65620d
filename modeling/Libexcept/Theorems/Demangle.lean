import Libexcept.Theorems.Command
import Libexcept.Theorems.Complete

/-! The function name of a frame. One demangler serves the names of types and the symbols of the frames,
    so a function whose name is not mangled is reported under the name of a type when its own name
    happens to be the encoding of one. -/

namespace Libexcept
open CString (bytes)

/-- An identifier of C: it does not start with a digit. -/
structure CIdentifier where
  chars : List UInt8
  nonempty : chars ≠ []
  first : ∀ c ∈ chars.head?, Digits.isDigit c = false
  ident : chars.all isIdentifier = true

/-- What `abi::__cxa_demangle()` does with a string that is no mangled symbol: the encoding of a type
    gives the name of the type, which does not have it for its last word; any other string fails. -/
structure Demangles {T : Type} (encode name : T → List UInt8) (cxaDemangle : List UInt8 → Option (List UInt8)) : Prop where
  type : ∀ t, cxaDemangle (encode t) = some (name t)
  other : ∀ s, ¬ bytes "_Z" <+: s → (∀ t, encode t ≠ s) → cxaDemangle s = none
  name_ne : ∀ t, ¬ bytes " " ++ encode t <:+ bytes " " ++ name t

/-! ### Pointers to the types of the language -/

def builtinTypes : List (Char × String) :=
  [('v', "void"), ('w', "wchar_t"), ('b', "bool"), ('c', "char"), ('a', "signed char"), ('h', "unsigned char"),
    ('s', "short"), ('t', "unsigned short"), ('i', "int"), ('j', "unsigned int"), ('l', "long"),
    ('m', "unsigned long"), ('x', "long long"), ('y', "unsigned long long"), ('f', "float"), ('d', "double"),
    ('e', "long double")]

inductive CType
  | builtin (i : Fin builtinTypes.length)
  | pointer (t : CType)
  | const (t : CType)

namespace CType

def encode : CType → List UInt8
  | builtin i => [builtinTypes[i].1.toUInt8]
  | pointer t => 'P'.toUInt8 :: encode t
  | const t => 'K'.toUInt8 :: encode t

def name : CType → List UInt8
  | builtin i => bytes builtinTypes[i].2
  | pointer t => name t ++ bytes "*"
  | const t => name t ++ bytes " const"

/-- The names of these types, by their encodings. -/
def demangle : List UInt8 → Option (List UInt8)
  | [] => none
  | c :: rest =>
    if c = 'P'.toUInt8 then (demangle rest).map (· ++ bytes "*")
    else if c = 'K'.toUInt8 then (demangle rest).map (· ++ bytes " const")
    else if rest = [] then (builtinTypes.find? fun b => b.1.toUInt8 == c).map fun b => bytes b.2
    else none

theorem encode_identifier (t : CType) : t.encode.all isIdentifier = true := by
  induction t with
  | builtin i =>
    revert i
    decide
  | pointer t ih => exact (Bool.true_and _).trans ih
  | const t ih => exact (Bool.true_and _).trans ih

theorem demangle_encode (t : CType) : demangle t.encode = some t.name := by
  induction t with
  | builtin i =>
    revert i
    decide
  | pointer t ih => rw [encode, demangle, if_pos rfl, ih, Option.map_some, name]
  | const t ih => rw [encode, demangle, if_neg (by decide), if_pos rfl, ih, Option.map_some, name]

theorem exists_of_demangle {s n : List UInt8} (h : demangle s = some n) : ∃ t : CType, t.encode = s := by
  induction s generalizing n with
  | nil => cases h
  | cons c rest ih =>
    unfold demangle at h
    split at h
    case isTrue hc =>
      obtain ⟨n', hn', -⟩ := Option.map_eq_some_iff.mp h
      obtain ⟨t, ht⟩ := ih hn'
      exact ⟨.pointer t, by rw [encode, ht, hc]⟩
    case isFalse =>
      split at h
      case isTrue hc =>
        obtain ⟨n', hn', -⟩ := Option.map_eq_some_iff.mp h
        obtain ⟨t, ht⟩ := ih hn'
        exact ⟨.const t, by rw [encode, ht, hc]⟩
      case isFalse =>
        split at h
        case isTrue hrest =>
          obtain ⟨b, hb, -⟩ := Option.map_eq_some_iff.mp h
          obtain ⟨i, hi, rfl⟩ := List.getElem_of_mem (List.mem_of_find?_eq_some hb)
          have hc : builtinTypes[i].1.toUInt8 = c := by simpa using List.find?_some hb
          exact ⟨.builtin ⟨i, hi⟩, by rw [encode, hrest]; exact congrArg (fun c => [c]) hc⟩
        case isFalse => cases h

theorem name_ne_encode (t : CType) : ¬ bytes " " ++ t.encode <:+ bytes " " ++ t.name := by
  intro h
  cases t with
  | builtin i =>
    revert i
    decide
  | pointer t =>
    -- the name ends with a star, which is in no encoding
    have hstar : '*'.toUInt8 ∉ (pointer t).encode := notMem_of_identifier (encode_identifier _) (by decide)
    rw [name, ← List.append_assoc] at h
    rcases List.suffix_concat_iff.mp h with hnil | ⟨l, hl, -⟩
    · cases hnil
    · have hmem : '*'.toUInt8 ∈ bytes " " ++ (pointer t).encode := by
        rw [hl]
        exact List.mem_append_right _ (by decide)
      rcases List.mem_append.mp hmem with hmem | hmem
      · exact absurd hmem (by decide)
      · exact hstar hmem
  | const t =>
    -- the last word of the name is `const`, and an encoding that starts so does not start with a `K`
    have hspace : ' '.toUInt8 ∉ (const t).encode := notMem_of_identifier (encode_identifier _) (by decide)
    rw [name, ← List.append_assoc] at h
    have hword := Delimited.suffix_of_word hspace h
    rcases List.suffix_cons_iff.mp hword with heq | hinner
    · rw [encode] at heq
      exact absurd (List.cons.inj (List.cons.inj heq).2).1 (by decide)
    · exact absurd (hinner.subset List.mem_cons_self) (by decide)

theorem demangles : Demangles encode name demangle where
  type := demangle_encode
  other s _ h := by
    cases hs : demangle s with
    | none => rfl
    | some n =>
      obtain ⟨t, ht⟩ := exists_of_demangle hs
      exact absurd ht (h t)
  name_ne := name_ne_encode

end CType

/-! ### The entry of a frame -/

/-- A frame's entry ends with the symbol. -/
def EndsWithSymbol (out : List (List UInt8)) (i : Nat) (symbol : List UInt8) : Prop :=
  ∃ e, out[i]? = some e ∧ bytes " in " ++ symbol <:+ e

theorem functionSuffix_of_ne {p : Process} {symbol : List UInt8} (h : symbol ≠ []) :
    functionSuffix p symbol = bytes " in " ++ demangleCppName p symbol := if_pos h

/-- The entry of a frame whose line has parts that enclose a symbol and an offset. -/
theorem frameEntry_of_parts {p : Process} {i : Nat} {raw : CString} {e : List UInt8} {x : FrameParts}
    (hx : x.text = raw.chars) (hoffset : x.offset.isSome = true) (hname : x.name ≠ [])
    (he : (frameEntry p i raw).result = .ok e) : ∃ loc, e = loc ++ bytes " in " ++ demangleCppName p x.name := by
  have hscan := FrameParts.scan hx
  cases hp : p.popen i (addr2line p x.scanned.addr) with
  | none =>
    rw [frameEntry_of_null hscan hp] at he
    cases he
  | some stream =>
    have hsymbol : x.scanned.rawFunctionName = x.name := if_pos hoffset
    rw [frameEntry_of_some hscan hp, hsymbol, functionSuffix_of_ne hname] at he
    exact ⟨_, by rw [← Except.ok.inj he, List.append_assoc]⟩

/-- An entry that ends with a symbol has it for the last word of what follows the location. -/
theorem word_of_entry {loc symbol res : List UInt8} (hspace : ' '.toUInt8 ∉ symbol)
    (h : bytes " in " ++ symbol <:+ loc ++ bytes " in " ++ res) : bytes " " ++ symbol <:+ bytes " " ++ res := by
  have hin : ∀ l : List UInt8, bytes " in " ++ l = bytes " in" ++ ' '.toUInt8 :: l := fun _ => rfl
  rw [List.append_assoc, hin, hin, ← List.append_assoc] at h
  exact Delimited.suffix_of_word hspace ((List.suffix_append _ _).trans h)

/-- A function whose name is not mangled is reported by it exactly when no type is encoded so. -/
theorem endsWithSymbol_iff {T : Type} (encode name : T → List UInt8) (p : Process)
    (hdemangles : Demangles encode name p.cxaDemangle) (file offset addr : List UInt8) (symbol : CIdentifier)
    (hfile : '('.toUInt8 ∉ file) (hmangled : ¬ bytes "_Z" <+: symbol.chars) (hoffset : ')'.toUInt8 ∉ offset)
    (haddr : ']'.toUInt8 ∉ addr) (raw : CString)
    (hraw : raw.chars = file ++ bytes "(" ++ symbol.chars ++ bytes "+" ++ offset ++ bytes ") [0x" ++ addr ++ bytes "]")
    (d : Int) (i : Nat) (hi : (p.captured d)[i]? = some raw) (out : List (List UInt8))
    (hout : (collectStackTraceWithLineNumbers p d).result = .ok out) :
    EndsWithSymbol out i symbol.chars ↔ ∀ t, encode t ≠ symbol.chars := by
  have hlacks : ∀ {c}, isIdentifier c = false → c ∉ symbol.chars := notMem_of_identifier symbol.ident
  obtain ⟨x, hx, -, hname, hoff, -⟩ :=
    FrameParts.exists_of_line hfile (hlacks (by decide)) (hlacks (by decide)) hoffset haddr hraw
  obtain ⟨e, he, hentry⟩ := complete_entry hout hi
  obtain ⟨loc, rfl⟩ := frameEntry_of_parts hx (by rw [hoff]; rfl) (hname ▸ symbol.nonempty) hentry
  rw [hname] at he
  constructor
  · rintro ⟨e, he', hends⟩ t ht
    have hdemangled : demangleCppName p symbol.chars = name t := by
      rw [demangleCppName, ← ht, hdemangles.type t]
    rw [he, hdemangled] at he'
    cases he'
    exact hdemangles.name_ne t (ht ▸ word_of_entry (hlacks (by decide)) hends)
  · intro h
    have hdemangled : demangleCppName p symbol.chars = symbol.chars := by
      rw [demangleCppName, hdemangles.other symbol.chars hmangled h]
    refine ⟨_, he, ?_⟩
    rw [hdemangled, List.append_assoc]
    exact List.suffix_append _ _

/-- A process with the frame of a C function, in which the address lookup writes nothing. -/
def functionFrame (raw : CString) : Process := { silentTool with stack := [raw], cxaDemangle := CType.demangle }

def runFrame : CString := ⟨bytes "prog(run+0x1d) [0x55d1]", by decide⟩

def runSymbol : CIdentifier where
  chars := bytes "run"
  nonempty := by decide
  first c hc := by
    cases hc
    decide
  ident := by decide

theorem endsWithSymbol_iff_run : EndsWithSymbol [bytes " in run"] 0 (bytes "run") := by
  have hrun : CType.demangle (bytes "run") = none := by decide
  refine (endsWithSymbol_iff CType.encode CType.name (functionFrame runFrame) CType.demangles (bytes "prog")
    (bytes "0x1d") (bytes "55d1") runSymbol (by decide) (by decide) (by decide) (by decide) runFrame (by decide) 20 0 rfl
    [bytes " in run"] (by decide)).mpr fun t ht => ?_
  have hdemangled := CType.demangle_encode t
  rw [ht] at hdemangled
  cases hrun.symm.trans hdemangled

/-- A C function `f`, and a C function `Pi`. -/
theorem functions_misnamed :
    (collectStackTraceWithLineNumbers (functionFrame ⟨bytes "prog(f+0x1d) [0x55d1]", by decide⟩) 20).result =
      .ok [bytes " in float"] ∧ ¬ EndsWithSymbol [bytes " in float"] 0 (bytes "f") ∧
    (collectStackTraceWithLineNumbers (functionFrame ⟨bytes "prog(Pi+0x1d) [0x55d1]", by decide⟩) 20).result =
      .ok [bytes " in int*"] ∧ ¬ EndsWithSymbol [bytes " in int*"] 0 (bytes "Pi") := by
  refine ⟨by decide, ?_, by decide, ?_⟩
  · rintro ⟨e, he, hends⟩
    cases he
    exact absurd hends (by decide)
  · rintro ⟨e, he, hends⟩
    cases he
    exact absurd hends (by decide)

end Libexcept
