import HomeControl.Lib.Block
import HomeControl.IniCall

/-!
# The parser in its buffers

`ini_parse_stream` works in three arrays on its stack: `line` of 200 bytes, `section` and
`prev_name` of 50.  It moves pointers through `line` and cuts the line into strings by
storing terminators, and the strings that it hands out point into these arrays.  Here the
parser is modelled with every load and every store that it makes; a pointer is an index.

An access outside of an array, a load of a byte that nothing has written, and a loop that
does not end have no result.

* The lemmas on `CharArray` say what each function does to an array, for any string in it.
* `IniStack.Represents` connects the arrays to the state of `Parser`, and `exists_turn` says
  that a turn of the loop has a result, the one of `Parser.readLine`.
-/

namespace HomeControl

open Text CheckedMemory

/-- An array of `n` bytes. -/
abbrev CharArray (n : Nat) := Block UInt8 n

/-! ## The functions on strings, in place -/

section InPlace

variable {m n : Nat}

/-- The loop of `rstrip`; the second index is `p`. -/
def CharArray.rstripLoop (s : Nat) : Nat → CharArray n → Option (CharArray n)
  | 0, b => some b
  | p + 1, b =>
    if s < p + 1 then
      (b.load p).bind fun c =>
        if isspace c then (b.store p 0).bind (CharArray.rstripLoop s p) else some b
    else some b

/-- `rstrip`. -/
def CharArray.rstrip (b : CharArray n) (s : Nat) : Option (CharArray n) :=
  (b.strlen 0 s).bind fun len => CharArray.rstripLoop s (s + len) b

/-- `lskip`. -/
def CharArray.lskip (b : CharArray n) (s : Nat) : Option Nat :=
  b.scan (fun c => c ≠ 0 && isspace c) s

/-- The loop of `find_chars_or_comment`. -/
def CharArray.findLoop (b : CharArray n) (chars : CString) : Nat → Bool → Nat → Option Nat
  | 0, _, _ => none
  | fuel + 1, wasSpace, s =>
    (b.load s).bind fun c =>
      if c ≠ 0 ∧ c ∉ chars ∧ ¬ (wasSpace ∧ c ∈ inlineCommentPrefixes) then
        b.findLoop chars fuel (isspace c) (s + 1)
      else some s

/-- `find_chars_or_comment`.  No `chars` is a null pointer. -/
def CharArray.findCharsOrComment (b : CharArray n) (s : Nat) (chars : CString) : Option Nat :=
  b.findLoop chars n false s

/-- The loop of `strncpy0`, with the number of bytes that it may still copy, and the store
of the terminator. -/
def CharArray.strncpy0Loop (src : CharArray n) (s : Nat) :
    Nat → Nat → CharArray m → Option (CharArray m)
  | 0, i, dest => dest.store i 0
  | left + 1, i, dest =>
    (src.load (s + i)).bind fun c =>
      if c = 0 then dest.store i 0
      else (dest.store i c).bind (CharArray.strncpy0Loop src s left (i + 1))

/-- `strncpy0`. -/
def CharArray.strncpy0 (dest : CharArray m) (src : CharArray n) (s size : Nat) :
    Option (CharArray m) :=
  CharArray.strncpy0Loop src s (size - 1) 0 dest

/-- The test for a byte order mark, which stops at the first byte that differs. -/
def CharArray.skipBom (b : CharArray n) (lineno : Nat) : Option Nat :=
  if lineno = 1 then do
    let c ← b.load 0
    if c ≠ 0xEF then return 0
    let c ← b.load 1
    if c ≠ 0xBB then return 0
    let c ← b.load 2
    if c ≠ 0xBF then return 0
    return 3
  else some 0

end InPlace

/-! ## `ini_parse_stream` -/

/-- The arrays and the variables of `ini_parse_stream`. -/
structure IniStack (σ : Type) where
  line : CharArray INI_MAX_LINE
  sectionName : CharArray MAX_SECTION
  prevName : CharArray MAX_NAME
  lineno : Nat
  error : Nat
  user : σ

section Stream

variable {σ : Type}

/-- `line` is not initialised, and the other two arrays are. -/
def IniStack.init (user : σ) : IniStack σ where
  line := .fresh UInt8 INI_MAX_LINE
  sectionName := .filled MAX_SECTION 0
  prevName := .filled MAX_NAME 0
  lineno := 0
  error := 0
  user := user

/-- `error = lineno`, when there was no error before. -/
def IniStack.fail (p : IniStack σ) : IniStack σ :=
  { p with error := if p.error = 0 then p.lineno else p.error }

/-- `HANDLER`, which reads its arguments, with the test of what it returns. -/
def IniStack.call (handler : IniHandler σ) (p : IniStack σ) (name : Option CString)
    (value : Nat) : Option (IniStack σ) := do
  let sectionName ← p.sectionName.string 0 0
  let name ← name
  let value ← p.line.string 0 value
  let (user, ok) := handler p.user sectionName name value
  return if ok then { p with user := user } else { p with user := user }.fail

/-- A line that starts with `[`. -/
def IniStack.sectionLine (p : IniStack σ) (start : Nat) : Option (IniStack σ) := do
  let stop ← p.line.findCharsOrComment (start + 1) (ascii "]")
  let c ← p.line.load stop
  if c = 93 then
    let line : CharArray INI_MAX_LINE ← p.line.store stop 0
    let sectionName ← p.sectionName.strncpy0 line (start + 1) MAX_SECTION
    let prevName ← p.prevName.store 0 0
    return { p with line := line, sectionName := sectionName, prevName := prevName }
  else return p.fail

/-- The end of the value, when a comment follows it. -/
def CharArray.cutComment {n : Nat} (b : CharArray n) (value : Nat) : Option (CharArray n) := do
  let stop ← b.findCharsOrComment value []
  let c ← b.load stop
  if c ≠ 0 then b.store stop 0 else return b

/-- A line that must be a pair. -/
def IniStack.pairLine (handler : IniHandler σ) (p : IniStack σ) (start : Nat) :
    Option (IniStack σ) := do
  let stop ← p.line.findCharsOrComment start (ascii "=:")
  let c ← p.line.load stop
  if c = 61 ∨ c = 58 then
    let line : CharArray INI_MAX_LINE ← p.line.store stop 0
    let line ← line.rstrip start
    let line ← line.cutComment (stop + 1)
    let value ← line.lskip (stop + 1)
    let line ← line.rstrip value
    let prevName ← p.prevName.strncpy0 line start MAX_NAME
    { p with line := line, prevName := prevName }.call handler (line.string 0 start) value
  else return p.fail

/-- One turn of the loop, once `reader` has filled `line`. -/
def IniStack.turn (handler : IniHandler σ) (p : IniStack σ) : Option (IniStack σ) := do
  let p := { p with lineno := p.lineno + 1 }
  let bom ← p.line.skipBom p.lineno
  let line ← p.line.rstrip bom
  let start ← line.lskip bom
  let p := { p with line := line }
  let c ← p.line.load start
  -- `strchr` finds the terminator of the prefixes too.
  if c = 0 ∨ c ∈ startCommentPrefixes then return p
  let prev ← p.prevName.load 0
  if prev ≠ 0 ∧ c ≠ 0 ∧ 0 < start then p.call handler (p.prevName.string 0 0) start
  else if c = 91 then p.sectionLine start
  else if c ≠ 0 then p.pairLine handler start
  else return p

end Stream

/-! ## What the functions on strings do to an array -/

section Specs

variable {m n : Nat} {b : CharArray n} {pre post : List (Option UInt8)} {s : CString}

theorem CharArray.rstripLoop_self (k : Nat) (b : CharArray n) :
    CharArray.rstripLoop k k b = some b := by
  cases k with
  | zero => rfl
  | succ k => exact if_neg (Nat.lt_irrefl _)

/-- The loop stores terminators from the end of the string, and nothing else. -/
theorem CharArray.exists_rstripLoop (h : b.cells = pre ++ (s.map some ++ some 0 :: post)) :
    ∃ b', CharArray.rstripLoop pre.length (pre.length + s.length) b = some b' ∧
      b'.cells = pre ++ ((HomeControl.rstrip s).map some ++ some 0 ::
        (List.replicate (s.length - (HomeControl.rstrip s).length) (some 0) ++ post)) := by
  induction s using List.reverseRecOn generalizing b post with
  | nil => exact ⟨b, CharArray.rstripLoop_self _ b, h⟩
  | append_singleton s c ih =>
    have hlast : b.cells = (pre ++ s.map some) ++ some c :: (some 0 :: post) := by
      rw [h, List.map_append, List.append_assoc, List.append_assoc]
      rfl
    have hlength : pre.length + (s ++ [c]).length = (pre.length + s.length) + 1 := by
      rw [List.length_append, List.length_singleton, Nat.add_assoc]
    have hptr : (pre ++ s.map some).length = pre.length + s.length := by
      rw [List.length_append, List.length_map]
    have hload : b.load (pre.length + s.length) = some c := by
      rw [← hptr]
      exact Block.load_eq hlast
    rw [hlength, CharArray.rstripLoop, if_pos (by omega), hload, Option.bind_some]
    by_cases hc : isspace c = true
    · obtain ⟨b₁, hstore, hcells⟩ := Block.exists_store hlast 0
      rw [List.append_assoc] at hcells
      obtain ⟨b₂, hloop, hend⟩ := ih hcells
      rw [hptr] at hstore
      have hstrip : HomeControl.rstrip (s ++ [c]) = HomeControl.rstrip s :=
        List.rdropWhile_concat_pos _ _ _ hc
      refine ⟨b₂, by rw [if_pos hc, hstore, Option.bind_some, hloop], ?_⟩
      rw [hend, hstrip]
      have hle : (HomeControl.rstrip s).length ≤ s.length :=
        (rdropWhile_isPrefix isspace s).length_le
      have hcount : (s ++ [c]).length - (HomeControl.rstrip s).length =
          (s.length - (HomeControl.rstrip s).length) + 1 := by
        rw [List.length_append, List.length_singleton]
        omega
      rw [hcount, List.replicate_succ', List.append_assoc]
      rfl
    · have hstrip : HomeControl.rstrip (s ++ [c]) = s ++ [c] :=
        List.rdropWhile_concat_neg _ _ _ hc
      refine ⟨b, if_neg hc, ?_⟩
      rw [hstrip, Nat.sub_self]
      exact h

theorem CharArray.exists_rstrip (h : b.cells = pre ++ (s.map some ++ some 0 :: post))
    (hs : 0 ∉ s) :
    ∃ b', b.rstrip pre.length = some b' ∧
      b'.cells = pre ++ ((HomeControl.rstrip s).map some ++ some 0 ::
        (List.replicate (s.length - (HomeControl.rstrip s).length) (some 0) ++ post)) := by
  obtain ⟨b', hloop, hcells⟩ := CharArray.exists_rstripLoop h
  refine ⟨b', ?_, hcells⟩
  rw [CharArray.rstrip, Block.strlen_eq h hs, Option.bind_some, hloop]

theorem CharArray.lskip_eq (h : b.cells = pre ++ (s.map some ++ some 0 :: post)) (hs : 0 ∉ s) :
    b.lskip pre.length = some (pre.length + (s.takeWhile isspace).length) ∧
      b.cells = (pre ++ (s.takeWhile isspace).map some) ++
        ((HomeControl.lskip s).map some ++ some 0 :: post) := by
  have hsplit : s.takeWhile isspace ++ HomeControl.lskip s = s := List.takeWhile_append_dropWhile
  have hcells : b.cells = pre ++ ((s.takeWhile isspace).map some ++
      ((HomeControl.lskip s).map some ++ some 0 :: post)) := by
    rw [h, ← List.append_assoc (List.map some _), ← List.map_append, hsplit]
  refine ⟨?_, by rw [hcells, List.append_assoc]⟩
  have hprefix : s.takeWhile isspace <+: s := List.takeWhile_prefix _
  have hspaces : ∀ c ∈ s.takeWhile isspace, (c ≠ 0 && isspace c) = true := by
    intro c hc
    have hspace : isspace c = true := List.mem_takeWhile_imp hc
    have hne : c ≠ 0 := fun hzero => hs (hzero ▸ hprefix.subset hc)
    simp [hspace, hne]
  cases hrest : HomeControl.lskip s with
  | nil =>
    rw [hrest] at hcells
    exact Block.scan_eq hcells hspaces (by simp)
  | cons c rest =>
    rw [hrest] at hcells
    have hc : isspace c = false := by
      have hhead := List.head?_dropWhile_not isspace s
      rw [show s.dropWhile isspace = c :: rest from hrest] at hhead
      simpa using hhead
    exact Block.scan_eq hcells hspaces (by simp [hc])

theorem CharArray.findLoop_eq {chars : CString} {fuel : Nat} {wasSpace : Bool}
    (h : b.cells = pre ++ (s.map some ++ some 0 :: post)) (hs : 0 ∉ s)
    (hfuel : s.length < fuel) :
    b.findLoop chars fuel wasSpace pre.length =
      some (pre.length + (findFrom chars wasSpace s).1.length) := by
  induction s generalizing pre fuel wasSpace with
  | nil =>
    obtain ⟨fuel, rfl⟩ := Nat.exists_eq_succ_of_ne_zero (Nat.ne_of_gt hfuel)
    rw [CharArray.findLoop, Block.load_eq h, Option.bind_some, if_neg fun hgo => hgo.1 rfl]
    rfl
  | cons c s ih =>
    rw [List.length_cons] at hfuel
    obtain ⟨fuel, rfl⟩ := Nat.exists_eq_succ_of_ne_zero (n := fuel) (by omega)
    obtain ⟨hc, hs⟩ := not_or.mp (mt List.mem_cons.mpr hs)
    have hnext : b.cells = (pre ++ [some c]) ++ (s.map some ++ some 0 :: post) := by
      rw [h, List.append_assoc]
      rfl
    rw [CharArray.findLoop, Block.load_eq h, Option.bind_some, findFrom]
    by_cases hstop : c ∈ chars ∨ (wasSpace = true ∧ c ∈ inlineCommentPrefixes)
    · rw [if_pos hstop, if_neg fun hgo => hstop.elim hgo.2.1 hgo.2.2]
      rfl
    · have hgo := not_or.mp hstop
      have hrest : b.findLoop chars fuel (isspace c) (pre ++ [some c]).length = _ :=
        ih hnext hs (by omega)
      rw [List.length_append, List.length_singleton] at hrest
      rw [if_neg hstop, if_pos ⟨fun hzero => hc hzero.symm, hgo.1, hgo.2⟩, hrest,
        List.length_cons]
      congr 1
      omega

/-- The search returns a pointer that cuts the string in two. -/
theorem CharArray.findCharsOrComment_eq (h : b.cells = pre ++ (s.map some ++ some 0 :: post))
    (hs : 0 ∉ s) (chars : CString) :
    b.findCharsOrComment pre.length chars =
        some (pre ++ (HomeControl.findCharsOrComment s chars).1.map some).length ∧
      b.cells = (pre ++ (HomeControl.findCharsOrComment s chars).1.map some) ++
        ((HomeControl.findCharsOrComment s chars).2.map some ++ some 0 :: post) := by
  constructor
  · rw [CharArray.findCharsOrComment, CharArray.findLoop_eq h hs (Block.lt_size h),
      List.length_append, List.length_map]
    rfl
  · rw [h, List.append_assoc, ← List.append_assoc (List.map some _), ← List.map_append,
      findCharsOrComment_append]

theorem CharArray.exists_strncpy0Loop {src : CharArray n} {dest : CharArray m} {k i left : Nat}
    {spre spost done rest : List (Option UInt8)}
    (hsrc : src.cells = spre ++ (s.map some ++ some 0 :: spost)) (hs : 0 ∉ s)
    (hspre : spre.length = k + i) (hdest : dest.cells = done ++ rest) (hdone : done.length = i)
    (hleft : left < rest.length) :
    ∃ dest' post', CharArray.strncpy0Loop src k left i dest = some dest' ∧
      dest'.cells = done ++ ((s.take left).map some ++ some 0 :: post') := by
  induction left generalizing i s spre done rest dest with
  | zero =>
    obtain ⟨x, rest, rfl⟩ := List.exists_cons_of_ne_nil (List.ne_nil_of_length_pos hleft)
    obtain ⟨dest', hstore, hcells⟩ := Block.exists_store hdest 0
    rw [hdone] at hstore
    exact ⟨dest', rest, hstore, hcells⟩
  | succ left ih =>
    obtain ⟨x, rest, rfl⟩ := List.exists_cons_of_ne_nil
      (List.ne_nil_of_length_pos (Nat.zero_lt_of_lt hleft))
    rw [CharArray.strncpy0Loop, ← hspre]
    cases s with
    | nil =>
      obtain ⟨dest', hstore, hcells⟩ := Block.exists_store hdest 0
      rw [hdone] at hstore
      refine ⟨dest', rest, ?_, hcells⟩
      rw [Block.load_eq hsrc, Option.bind_some, if_pos rfl, hstore]
    | cons c s =>
      obtain ⟨hc, hs⟩ := not_or.mp (mt List.mem_cons.mpr hs)
      obtain ⟨dest₁, hstore, hcells⟩ := Block.exists_store hdest c
      rw [hdone] at hstore
      have hsrc' : src.cells = (spre ++ [some c]) ++ (s.map some ++ some 0 :: spost) := by
        rw [hsrc, List.append_assoc]
        rfl
      have hdest' : dest₁.cells = (done ++ [some c]) ++ rest := by
        rw [hcells, List.append_assoc]
        rfl
      have hspre' : (spre ++ [some c]).length = k + (i + 1) := by
        rw [List.length_append, List.length_singleton, hspre, Nat.add_assoc]
      have hdone' : (done ++ [some c]).length = i + 1 := by
        rw [List.length_append, List.length_singleton, hdone]
      rw [List.length_cons] at hleft
      obtain ⟨dest', post', hloop, hend⟩ := ih hsrc' hs hspre' hdest' hdone' (by omega)
      refine ⟨dest', post', ?_, ?_⟩
      · rw [Block.load_eq hsrc, Option.bind_some, if_neg fun hzero => hc hzero.symm, hstore,
          Option.bind_some, hloop]
      · rw [hend, List.append_assoc]
        rfl

/-- The array starts with the string. -/
def CharArray.Holds (b : CharArray n) (s : CString) : Prop :=
  0 ∉ s ∧ ∃ post, b.cells = s.map some ++ some 0 :: post

/-- A copy stays inside its array, and the array holds what was copied. -/
theorem CharArray.exists_strncpy0 {src : CharArray n} {size : Nat} (dest : CharArray m)
    (h : src.cells = pre ++ (s.map some ++ some 0 :: post)) (hs : 0 ∉ s) (hpos : 0 < size)
    (hsize : size ≤ m) :
    ∃ dest', dest.strncpy0 src pre.length size = some dest' ∧
      dest'.Holds (HomeControl.strncpy0 s size) := by
  have hlength : size - 1 < dest.cells.length := by
    rw [dest.length_cells]
    omega
  have hdest : dest.cells = [] ++ dest.cells := rfl
  obtain ⟨dest', post', hloop, hcells⟩ :=
    CharArray.exists_strncpy0Loop h hs rfl hdest rfl hlength
  refine ⟨dest', hloop, fun hmem => hs ?_, post', hcells⟩
  exact List.mem_of_mem_take hmem

theorem CharArray.skipBom_eq (h : b.cells = s.map some ++ some 0 :: post) (lineno : Nat) :
    b.skipBom lineno = some (HomeControl.skipBom lineno s) := by
  rw [CharArray.skipBom, HomeControl.skipBom]
  by_cases hfirst : lineno = 1
  · rw [if_pos hfirst]
    rcases s with _ | ⟨c₀, _ | ⟨c₁, _ | ⟨c₂, rest⟩⟩⟩
    · simp [Block.load, h, byteOrderMark]
    · by_cases h₀ : c₀ = 0xEF
      · simp [Block.load, h, byteOrderMark, h₀]
      · simp [Block.load, h, byteOrderMark, h₀]
    · by_cases h₀ : c₀ = 0xEF
      · by_cases h₁ : c₁ = 0xBB
        · simp [Block.load, h, byteOrderMark, h₀, h₁]
        · simp [Block.load, h, byteOrderMark, h₀, h₁]
      · simp [Block.load, h, byteOrderMark, h₀]
    · by_cases h₀ : c₀ = 0xEF
      · by_cases h₁ : c₁ = 0xBB
        · by_cases h₂ : c₂ = 0xBF
          · simp [Block.load, h, byteOrderMark, h₀, h₁, h₂, hfirst]
          · simp [Block.load, h, byteOrderMark, h₀, h₁, h₂]
        · simp [Block.load, h, byteOrderMark, h₀, h₁]
      · simp [Block.load, h, byteOrderMark, h₀]
  · rw [if_neg hfirst, if_neg fun hboth => hfirst hboth.1]

theorem CharArray.Holds.string_eq (h : b.Holds s) : b.string 0 0 = some s := by
  obtain ⟨hs, post, hcells⟩ := h
  have hstart : b.cells = [] ++ (s.map some ++ some 0 :: post) := hcells
  exact Block.string_eq hstart hs

/-- The load of the first byte tells whether the string is empty. -/
theorem CharArray.Holds.load_zero (h : b.Holds s) :
    ∃ c, b.load 0 = some c ∧ (c ≠ 0 ↔ s ≠ []) := by
  obtain ⟨hs, post, hcells⟩ := h
  cases s with
  | nil =>
    have hstart : b.cells = [] ++ some 0 :: post := hcells
    exact ⟨0, Block.load_eq hstart, by simp⟩
  | cons c s =>
    have hstart : b.cells = [] ++ some c :: (s.map some ++ some 0 :: post) := hcells
    have hc : c ≠ 0 := fun hzero => hs (hzero ▸ List.mem_cons_self)
    exact ⟨c, Block.load_eq hstart, by simp [hc]⟩

/-- The byte at the end of a search: the one that it stopped at, or the terminator. -/
theorem CharArray.load_rest (h : b.cells = pre ++ (s.map some ++ some 0 :: post)) :
    b.load pre.length = some (s.headD 0) := by
  cases s with
  | nil => exact Block.load_eq h
  | cons c s => exact Block.load_eq h

/-- Cutting a string at its first byte. -/
theorem CharArray.exists_cut {before : CString} {c : UInt8}
    (h : b.cells = (pre ++ before.map some) ++ ((c :: s).map some ++ some 0 :: post)) :
    ∃ b', b.store (pre ++ before.map some).length 0 = some b' ∧
      b'.cells = pre ++ (before.map some ++ some 0 :: (s.map some ++ some 0 :: post)) := by
  obtain ⟨b', hstore, hcells⟩ := Block.exists_store h 0
  exact ⟨b', hstore, hcells.trans (List.append_assoc _ _ _)⟩

theorem CharArray.exists_cutComment (h : b.cells = pre ++ (s.map some ++ some 0 :: post))
    (hs : 0 ∉ s) :
    ∃ b' post', b.cutComment pre.length = some b' ∧
      b'.cells = pre ++ ((HomeControl.findCharsOrComment s []).1.map some ++ some 0 :: post') := by
  obtain ⟨hfind, hcells⟩ := CharArray.findCharsOrComment_eq h hs []
  have hjoin := findCharsOrComment_append s []
  have hload := CharArray.load_rest hcells
  simp only [CharArray.cutComment, hfind, Option.bind_eq_bind, Option.bind_some, hload]
  cases hrest : (HomeControl.findCharsOrComment s []).2 with
  | nil =>
    rw [hrest, List.append_nil] at hjoin
    rw [hjoin]
    exact ⟨b, post, rfl, h⟩
  | cons c rest =>
    rw [hrest] at hcells hjoin
    have hc : c ≠ 0 := fun hzero => hs (hjoin ▸ hzero ▸ by simp)
    obtain ⟨b', hstore, hend⟩ := CharArray.exists_cut hcells
    exact ⟨b', _, by rw [List.headD_cons, if_pos hc, hstore], hend⟩

end Specs

/-! ## A turn of the loop -/

section Turn

variable {σ : Type} {handler : IniHandler σ} {m : IniStack σ} {p : Parser σ}

/-- The arrays and the variables hold the parser's state. -/
structure IniStack.Represents (m : IniStack σ) (p : Parser σ) : Prop where
  sectionName : m.sectionName.Holds p.sectionName
  prevName : m.prevName.Holds p.prevName
  lineno : m.lineno = p.lineno
  error : m.error = p.error
  user : m.user = p.user

theorem CharArray.holds_filled {n : Nat} (hn : 0 < n) : CharArray.Holds (.filled n 0) [] := by
  obtain ⟨n, rfl⟩ := Nat.exists_eq_succ_of_ne_zero (Nat.ne_of_gt hn)
  exact ⟨List.not_mem_nil, List.replicate n (some 0), rfl⟩

theorem IniStack.represents_init (user : σ) :
    (IniStack.init user).Represents (Parser.init user) where
  sectionName := CharArray.holds_filled (by decide)
  prevName := CharArray.holds_filled (by decide)
  lineno := rfl
  error := rfl
  user := rfl

theorem IniStack.Represents.fail (h : m.Represents p) : m.fail.Represents p.fail := by
  refine { h with error := ?_ }
  show (if m.error = 0 then m.lineno else m.error) = if p.error = 0 then p.lineno else p.error
  rw [h.error, h.lineno]

/-- A call of the handler finds three strings. -/
theorem IniStack.Represents.exists_call (h : m.Represents p) {name : CString} {value : Nat}
    {v : CString} (hvalue : m.line.string 0 value = some v) :
    ∃ m', m.call handler (some name) value = some m' ∧
      m'.Represents (p.call handler name v) := by
  have hsection := h.sectionName.string_eq
  have hcall : m.call handler (some name) value =
      some (if (handler m.user p.sectionName name v).2
        then { m with user := (handler m.user p.sectionName name v).1 }
        else ({ m with user := (handler m.user p.sectionName name v).1 } : IniStack σ).fail) := by
    simp only [IniStack.call, hsection, hvalue, Option.bind_eq_bind, Option.bind_some]
    rfl
  refine ⟨_, hcall, ?_⟩
  rw [h.user]
  unfold Parser.call
  dsimp only
  cases handler p.user p.sectionName name v with
  | mk user ok =>
    have huser : IniStack.Represents { m with user := user } { p with user := user } :=
      { h with user := rfl }
    cases ok with
    | false => exact huser.fail
    | true => exact huser

/-- A line that starts with `[`. -/
theorem IniStack.Represents.exists_sectionLine (h : m.Represents p)
    {pre post : List (Option UInt8)} {rest : CString}
    (hline : m.line.cells = pre ++ ((91 :: rest).map some ++ some 0 :: post)) (hrest : 0 ∉ rest) :
    ∃ m', m.sectionLine pre.length = some m' ∧ m'.Represents
      (match readSection rest with
        | some title =>
          { p with sectionName := HomeControl.strncpy0 title MAX_SECTION, prevName := [] }
        | none => p.fail) := by
  have hnext : m.line.cells = (pre ++ [some 91]) ++ (rest.map some ++ some 0 :: post) := by
    rw [hline, List.append_assoc]
    rfl
  obtain ⟨hfind, hcells⟩ := CharArray.findCharsOrComment_eq hnext hrest (ascii "]")
  have hload := CharArray.load_rest hcells
  have hjoin := findCharsOrComment_append rest (ascii "]")
  rw [List.length_append, List.length_singleton] at hfind
  simp only [IniStack.sectionLine, hfind, Option.bind_eq_bind, Option.bind_some, hload,
    readSection]
  cases hstop : (HomeControl.findCharsOrComment rest (ascii "]")).2 with
  | nil => exact ⟨m.fail, rfl, h.fail⟩
  | cons c after =>
    rw [hstop] at hcells hjoin
    rw [List.headD_cons, List.head?_cons]
    by_cases hc : c = 93
    · rw [if_pos hc, if_pos (congrArg some hc)]
      obtain ⟨line, hstore, hcut⟩ := CharArray.exists_cut hcells
      have htitle : 0 ∉ (HomeControl.findCharsOrComment rest (ascii "]")).1 := by
        intro hmem
        exact hrest (hjoin ▸ List.mem_append_left _ hmem)
      obtain ⟨sectionName, hcopy, hsection⟩ :=
        CharArray.exists_strncpy0 m.sectionName hcut htitle (by decide) (Nat.le_refl MAX_SECTION)
      obtain ⟨x, cells, hprev⟩ := List.exists_cons_of_ne_nil
        (List.ne_nil_of_length_eq_add_one m.prevName.length_cells)
      have hprev : m.prevName.cells = [] ++ x :: cells := hprev
      obtain ⟨prevName, hclear, hempty⟩ := Block.exists_store hprev 0
      rw [List.length_append, List.length_singleton] at hcopy
      rw [List.length_nil] at hclear
      refine ⟨{ m with line := line, sectionName := sectionName, prevName := prevName }, ?_, ?_⟩
      · rw [hstore, Option.bind_some, hcopy, Option.bind_some, hclear]
        rfl
      · exact { h with
          sectionName := hsection
          prevName := ⟨List.not_mem_nil, cells, hempty⟩ }
    · rw [if_neg hc, if_neg fun h => hc (Option.some.inj h)]
      exact ⟨m.fail, rfl, h.fail⟩

theorem notMem_rstrip {s : CString} (h : 0 ∉ s) : 0 ∉ rstrip s :=
  fun hmem => h ((rdropWhile_isPrefix isspace s).subset hmem)

theorem notMem_lskip {s : CString} (h : 0 ∉ s) : 0 ∉ lskip s :=
  fun hmem => h ((List.dropWhile_suffix isspace).subset hmem)

/-- What a pair leaves in `line`: the name and the value as strings of their own, which
start at the pointers that the call gets. -/
theorem exists_pairStrings {n : Nat} {b : CharArray n} {pre post : List (Option UInt8)}
    {before value : CString} {c : UInt8}
    (h : b.cells = (pre ++ before.map some) ++ ((c :: value).map some ++ some 0 :: post))
    (hbefore : 0 ∉ before) (hvalue : 0 ∉ value) :
    ∃ b₁ b₂ b₃ b₄ : CharArray n, ∃ ptr, ∃ more : List (Option UInt8),
      b.store (pre ++ before.map some).length 0 = some b₁ ∧
      b₁.rstrip pre.length = some b₂ ∧
      b₂.cutComment ((pre ++ before.map some).length + 1) = some b₃ ∧
      b₃.lskip ((pre ++ before.map some).length + 1) = some ptr ∧
      b₃.rstrip ptr = some b₄ ∧
      b₄.cells = pre ++ ((rstrip before).map some ++ some 0 :: more) ∧
      b₄.string 0 ptr = some (rstrip (lskip (findCharsOrComment value []).1)) := by
  obtain ⟨b₁, hstore, hcut⟩ := CharArray.exists_cut h
  obtain ⟨b₂, hname, hcells₂⟩ := CharArray.exists_rstrip hcut hbefore
  -- The terminators that `rstrip` stores fill the gap between the name and the value.
  obtain ⟨gap, hgap⟩ : ∃ gap, gap = List.replicate (before.length - (rstrip before).length)
    (some (0 : UInt8)) := ⟨_, rfl⟩
  rw [← hgap] at hcells₂
  have hle : (rstrip before).length ≤ before.length :=
    (rdropWhile_isPrefix isspace before).length_le
  have hptr : (pre ++ ((rstrip before).map some ++ some 0 :: gap)).length =
      (pre ++ before.map some).length + 1 := by
    rw [List.length_append, List.length_append, List.length_append, List.length_map,
      List.length_map, List.length_cons, hgap, List.length_replicate]
    omega
  have hvalue₂ : b₂.cells = (pre ++ ((rstrip before).map some ++ some 0 :: gap)) ++
      (value.map some ++ some 0 :: post) := by
    rw [hcells₂, List.append_assoc, List.append_assoc]
    rfl
  obtain ⟨b₃, post₃, hcomment, hcells₃⟩ := CharArray.exists_cutComment hvalue₂ hvalue
  have hshort : 0 ∉ (findCharsOrComment value []).1 := by
    intro hmem
    rw [← findCharsOrComment_append value []] at hvalue
    exact hvalue (List.mem_append_left _ hmem)
  obtain ⟨hskip, hcells₃⟩ := CharArray.lskip_eq hcells₃ hshort
  rw [← List.length_map (some : UInt8 → Option UInt8), ← List.length_append] at hskip
  obtain ⟨b₄, hstrip, hcells₄⟩ := CharArray.exists_rstrip hcells₃ (notMem_lskip hshort)
  rw [hptr] at hcomment hskip
  have hstring := Block.string_eq hcells₄ (notMem_rstrip (notMem_lskip hshort))
  obtain ⟨more, hmore⟩ : ∃ more, b₄.cells =
      pre ++ ((rstrip before).map some ++ some 0 :: more) := by
    rw [hcells₄]
    simp only [List.append_assoc, List.cons_append]
    exact ⟨_, rfl⟩
  exact ⟨b₁, b₂, b₃, b₄, _, more, hstore, hname, hcomment, hskip, hstrip, hmore, hstring⟩

/-- A line that must be a pair. -/
theorem IniStack.Represents.exists_pairLine (h : m.Represents p)
    {pre post : List (Option UInt8)} {start : CString}
    (hline : m.line.cells = pre ++ (start.map some ++ some 0 :: post)) (hstart : 0 ∉ start) :
    ∃ m', m.pairLine handler pre.length = some m' ∧ m'.Represents
      (match readPair start with
        | some (name, value) =>
          { p with prevName := HomeControl.strncpy0 name MAX_NAME }.call handler name value
        | none => p.fail) := by
  obtain ⟨hfind, hcells⟩ := CharArray.findCharsOrComment_eq hline hstart (ascii "=:")
  have hload := CharArray.load_rest hcells
  have hjoin := findCharsOrComment_append start (ascii "=:")
  simp only [IniStack.pairLine, hfind, Option.bind_eq_bind, Option.bind_some, hload, readPair]
  cases hstop : HomeControl.findCharsOrComment start (ascii "=:") with
  | mk before rest =>
    rw [hstop] at hcells hjoin
    cases rest with
    | nil => exact ⟨m.fail, rfl, h.fail⟩
    | cons c value =>
      dsimp only at hcells hjoin ⊢
      rw [List.headD_cons]
      by_cases hc : c = 61 ∨ c = 58
      · rw [if_pos hc, if_pos hc]
        have hbefore : 0 ∉ before := fun hmem => hstart (hjoin ▸ List.mem_append_left _ hmem)
        have hvalue : 0 ∉ value := fun hmem =>
          hstart (hjoin ▸ List.mem_append_right _ (List.mem_cons_of_mem _ hmem))
        obtain ⟨b₁, b₂, b₃, b₄, ptr, more, hstore, hname, hcomment, hskip, hstrip, hcells₄,
          hstring⟩ := exists_pairStrings hcells hbefore hvalue
        have hkept := notMem_rstrip hbefore
        obtain ⟨prevName, hcopy, hprev⟩ :=
          CharArray.exists_strncpy0 m.prevName hcells₄ hkept (by decide) (Nat.le_refl MAX_NAME)
        have hnamed : IniStack.Represents { m with line := b₄, prevName := prevName }
            { p with prevName := HomeControl.strncpy0 (rstrip before) MAX_NAME } :=
          { h with prevName := hprev }
        obtain ⟨m', hcall, hm'⟩ := hnamed.exists_call hstring
        refine ⟨m', ?_, hm'⟩
        rw [hstore, Option.bind_some, hname, Option.bind_some, hcomment, Option.bind_some, hskip,
          Option.bind_some, hstrip, Option.bind_some, hcopy, Option.bind_some,
          Block.string_eq hcells₄ hkept]
        exact hcall
      · rw [if_neg hc, if_neg hc]
        exact ⟨m.fail, rfl, h.fail⟩

/-- A turn of the loop makes no undefined access, and it does what `Parser.readLine` does
with the string in `line`. -/
theorem IniStack.Represents.exists_turn (handler : IniHandler σ) (h : m.Represents p)
    {line : CString} (hline : m.line.Holds line) :
    ∃ m', m.turn handler = some m' ∧ m'.Represents (p.readLine handler line) := by
  obtain ⟨hnul, post, hcells⟩ := hline
  obtain ⟨bom, hbom⟩ : ∃ bom, bom = skipBom (p.lineno + 1) line := ⟨_, rfl⟩
  have hskipBom : m.line.skipBom (m.lineno + 1) = some bom := by
    rw [CharArray.skipBom_eq hcells, h.lineno, hbom]
  have hlength : ((line.take bom).map (some : UInt8 → Option UInt8)).length = bom := by
    have hsum := length_drop_skipBom (p.lineno + 1) line
    rw [← hbom] at hsum
    rw [List.length_map, List.length_take]
    omega
  have hsplit : m.line.cells = (line.take bom).map some ++
      ((line.drop bom).map some ++ some 0 :: post) := by
    rw [hcells, ← List.append_assoc, ← List.map_append, List.take_append_drop]
  have hdrop : 0 ∉ line.drop bom := fun hmem => hnul (List.mem_of_mem_drop hmem)
  obtain ⟨b, hstrip, hcells₁⟩ := CharArray.exists_rstrip hsplit hdrop
  obtain ⟨hskip, hcells₂⟩ := CharArray.lskip_eq hcells₁ (notMem_rstrip hdrop)
  have hnumbered : IniStack.Represents { m with lineno := m.lineno + 1, line := b }
      { p with lineno := p.lineno + 1 } :=
    { h with lineno := congrArg (· + 1) h.lineno }
  have hload := CharArray.load_rest hcells₂
  have hptr : ((line.take bom).map (some : UInt8 → Option UInt8) ++
      ((rstrip (line.drop bom)).takeWhile isspace).map some).length =
        bom + ((rstrip (line.drop bom)).takeWhile isspace).length := by
    rw [List.length_append, hlength, List.length_map]
  have hspaces : (rstrip (line.drop bom)).length - (lskip (rstrip (line.drop bom))).length =
      ((rstrip (line.drop bom)).takeWhile isspace).length := by
    have hjoin := congrArg List.length
      (List.takeWhile_append_dropWhile (p := isspace) (l := rstrip (line.drop bom)))
    rw [List.length_append] at hjoin
    unfold lskip
    omega
  have hstart : 0 ∉ lskip (rstrip (line.drop bom)) := notMem_lskip (notMem_rstrip hdrop)
  rw [hlength] at hstrip hskip
  rw [hptr] at hload
  simp only [IniStack.turn, hskipBom, hstrip, hskip, hload, Option.bind_eq_bind, Option.bind_some]
  unfold Parser.readLine
  dsimp only
  rw [← hbom, hspaces]
  cases hcase : lskip (rstrip (line.drop bom)) with
  | nil => exact ⟨_, if_pos (.inl rfl), hnumbered⟩
  | cons c rest =>
    rw [hcase] at hcells₂ hstart
    obtain ⟨hc, hrest⟩ := not_or.mp (mt List.mem_cons.mpr hstart)
    have hc : c ≠ 0 := fun hzero => hc hzero.symm
    dsimp only
    rw [List.headD_cons]
    by_cases hcomment : c ∈ startCommentPrefixes
    · rw [if_pos (.inr hcomment), if_pos hcomment]
      exact ⟨_, rfl, hnumbered⟩
    rw [if_neg (fun hor => hor.elim hc hcomment), if_neg hcomment]
    obtain ⟨d, hfirst, hprev⟩ := h.prevName.load_zero
    rw [hfirst, Option.bind_some, h.prevName.string_eq]
    by_cases hindent : p.prevName ≠ [] ∧
        0 < bom + ((rstrip (line.drop bom)).takeWhile isspace).length
    · rw [if_pos ⟨hprev.mpr hindent.1, hc, hindent.2⟩, if_pos hindent]
      have hvalue := Block.string_eq hcells₂ hstart
      rw [hptr] at hvalue
      exact hnumbered.exists_call hvalue
    rw [if_neg (fun hall => hindent ⟨hprev.mp hall.1, hall.2.2⟩), if_neg hindent, ← hptr]
    by_cases hbracket : c = 91
    · subst hbracket
      rw [if_pos rfl, if_pos rfl]
      exact hnumbered.exists_sectionLine hcells₂ hrest
    · rw [if_neg hbracket, if_pos hc, if_neg hbracket]
      exact hnumbered.exists_pairLine hcells₂ hstart

end Turn

end HomeControl
