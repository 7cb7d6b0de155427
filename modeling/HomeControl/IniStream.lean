import HomeControl.IniBuffer
import HomeControl.IniFile

/-!
# The readers and the loop of the parser

`ini_parse_stream` gets its lines from a reader: `fgets` for a file, and
`ini_reader_string` for a string in memory.  A reader writes into `line` and may write
nothing behind it.

* `IniReader.Reads` says which strings a reader puts into `line`, and `exists_loop` that the
  loop then makes the turns of `Parser.readLine`.
* `parseFile_refines` and `parseString_refines` are the results for both readers: the parse
  comes to an end, makes no undefined access, and does what `iniParse` does.
-/

namespace HomeControl

open Text CheckedMemory

variable {σ τ : Type}

/-- A call of `reader` with `line`, its size and the stream.  The inner `none` is `NULL`. -/
abbrev IniReader (τ : Type) :=
  CharArray INI_MAX_LINE → Nat → τ → Option (Option (CharArray INI_MAX_LINE × τ))

/-- The loop of `ini_parse_stream`, with a bound on its turns. -/
def IniStack.loop (reader : IniReader τ) (handler : IniHandler σ) :
    Nat → τ → IniStack σ → Option (IniStack σ)
  | 0, _, _ => none
  | fuel + 1, stream, p =>
    (reader p.line INI_MAX_LINE stream).bind fun read =>
      match read with
      | none => some p
      | some (line, stream) =>
        ({ p with line := line }.turn handler).bind (IniStack.loop reader handler fuel stream)

/-- `ini_parse_stream`. -/
def IniStack.parseStream (reader : IniReader τ) (fuel : Nat) (stream : τ)
    (handler : IniHandler σ) (user : σ) : Option (IniStack σ) :=
  IniStack.loop reader handler fuel stream (.init user)

/-- `fgets`, on what is left of the file: up to `num - 1` bytes and a terminator. -/
def fgets : IniReader (List UInt8) := fun line num stream =>
  if stream = [] then some none
  else
    (line.storeAll 0 ((readLine newline (num - 1) stream).1 ++ [0])).map fun line =>
      some (line, (readLine newline (num - 1) stream).2)

/-- `ini_parse_string_ctx`, with the memory that `ptr` points into. -/
structure IniParseStringCtx (n : Nat) where
  string : CharArray n
  ptr : Nat
  numLeft : Nat

/-- What the loop of `ini_reader_string` changes: `str`, `ctx_ptr`, `ctx_num_left` and
`strp`. -/
structure StringRead where
  str : CharArray INI_MAX_LINE
  ptr : Nat
  numLeft : Nat
  strp : Nat

/-- The loop of `ini_reader_string`, which goes on while `num` is more than 1; the first
number is `num - 1`. -/
def StringRead.loop {n : Nat} (string : CharArray n) : Nat → StringRead → Option StringRead
  | 0, r => some r
  | num + 1, r =>
    if r.numLeft = 0 then some r
    else do
      let c ← string.load r.ptr
      let str ← r.str.store r.strp c
      let r := { str := str, ptr := r.ptr + 1, numLeft := r.numLeft - 1, strp := r.strp + 1 }
      if c = newline then return r else StringRead.loop string num r

/-- `ini_reader_string`. -/
def iniReaderString {n : Nat} : IniReader (IniParseStringCtx n) := fun str num ctx =>
  if ctx.numLeft = 0 ∨ num < 2 then some none
  else do
    let r ← StringRead.loop ctx.string (num - 1)
      { str := str, ptr := ctx.ptr, numLeft := ctx.numLeft, strp := 0 }
    let str ← r.str.store r.strp 0
    return some (str, { ctx with ptr := r.ptr, numLeft := r.numLeft })

/-- `ini_parse_string`, for the string at the start of an array. -/
def IniStack.parseString {n : Nat} (string : CharArray n) (handler : IniHandler σ) (user : σ) :
    Option (IniStack σ) := do
  let len ← string.strlen 0 0
  IniStack.parseStream iniReaderString (len + 1) { string := string, ptr := 0, numLeft := len }
    handler user

/-! ## The loop -/

/-- The strings that a reader puts into `line`, one call after the other, whatever it finds
there. -/
inductive IniReader.Reads {τ : Type} (reader : IniReader τ) : τ → List CString → Prop
  | done {stream : τ} (h : ∀ line, reader line INI_MAX_LINE stream = some none) :
      Reads reader stream []
  | line {stream stream' : τ} {s : CString} {read : List CString}
      (h : ∀ line, ∃ line', reader line INI_MAX_LINE stream = some (some (line', stream')) ∧
        line'.Holds s)
      (hrest : Reads reader stream' read) : Reads reader stream (s :: read)

variable {reader : IniReader τ} {stream : τ} {read : List CString}

/-- The loop makes the turns of `Parser.readLine`. -/
theorem IniReader.Reads.exists_loop (h : reader.Reads stream read) (handler : IniHandler σ)
    {fuel : Nat} (hfuel : read.length < fuel) {m : IniStack σ} {p : Parser σ}
    (hm : m.Represents p) :
    ∃ m', IniStack.loop reader handler fuel stream m = some m' ∧
      m'.Represents (read.foldl (Parser.readLine handler) p) := by
  induction h generalizing fuel m p with
  | done h =>
    obtain ⟨fuel, rfl⟩ := Nat.exists_eq_succ_of_ne_zero (Nat.ne_of_gt hfuel)
    exact ⟨m, by rw [IniStack.loop, h, Option.bind_some], hm⟩
  | @line stream stream' s read h hrest ih =>
    rw [List.length_cons] at hfuel
    obtain ⟨fuel, rfl⟩ := Nat.exists_eq_succ_of_ne_zero (n := fuel) (by omega)
    obtain ⟨line, hread, hline⟩ := h m.line
    have hfilled : IniStack.Represents { m with line := line } p := { hm with }
    obtain ⟨m₁, hturn, hm₁⟩ := hfilled.exists_turn handler hline
    have hless : read.length < fuel := by omega
    obtain ⟨m', hloop, hm'⟩ := ih hless hm₁
    refine ⟨m', ?_, hm'⟩
    rw [IniStack.loop, hread, Option.bind_some]
    dsimp only
    rw [hturn, Option.bind_some, hloop]

/-- The string in an array is what stands in front of its first terminator. -/
theorem exists_toCString (bytes : List UInt8) :
    ∃ more, bytes ++ [0] = toCString bytes ++ 0 :: more := by
  induction bytes with
  | nil => exact ⟨[], rfl⟩
  | cons c bytes ih =>
    by_cases hc : c = 0
    · exact ⟨bytes ++ [0], by rw [hc]; rfl⟩
    · obtain ⟨more, hmore⟩ := ih
      refine ⟨more, ?_⟩
      rw [toCString, List.takeWhile_cons_of_pos (by simpa using hc), List.cons_append, hmore]
      rfl

/-- Whatever was read, a terminator behind it makes it a string. -/
theorem CharArray.holds_toCString {n : Nat} {b : CharArray n} {bytes : List UInt8}
    {post : List (Option UInt8)} (h : b.cells = bytes.map some ++ some 0 :: post) :
    b.Holds (toCString bytes) := by
  obtain ⟨more, hmore⟩ := exists_toCString bytes
  have hcells : b.cells = (bytes ++ [0]).map some ++ post := by
    rw [h, List.map_append, List.append_assoc]
    rfl
  refine ⟨nonNul_toCString bytes, more.map some ++ post, ?_⟩
  rw [hcells, hmore, List.map_append, List.map_cons, List.append_assoc]
  rfl

theorem CharArray.exists_storeAll {n : Nat} (b : CharArray n) {bytes : List UInt8}
    (hlen : bytes.length < n) :
    ∃ b', b.storeAll 0 (bytes ++ [0]) = some b' ∧ CharArray.Holds b' (toCString bytes) := by
  have hcells : b.cells = [] ++ (b.cells.take (bytes.length + 1) ++
      b.cells.drop (bytes.length + 1)) := by
    rw [List.nil_append, List.take_append_drop]
  have hold : (b.cells.take (bytes.length + 1)).length = (bytes ++ [0]).length := by
    rw [List.length_take, b.length_cells, List.length_append, List.length_singleton]
    omega
  obtain ⟨b', hstore, hend⟩ := Block.exists_storeAll hcells hold
  have hend : b'.cells = bytes.map some ++ some 0 :: b.cells.drop (bytes.length + 1) := by
    rw [hend, List.map_append, List.nil_append, List.append_assoc]
    rfl
  exact ⟨b', hstore, CharArray.holds_toCString hend⟩

/-- `fgets` delivers the lines of the file. -/
theorem reads_fgets (content : List UInt8) :
    IniReader.Reads fgets content (fgetsLines content) := by
  refine lines_induction newline (n := INI_MAX_LINE - 1)
    (P := fun s => IniReader.Reads fgets s (fgetsLines s)) (by decide) ?_ ?_ content
  · exact .done fun line => rfl
  · intro s hs ih
    rw [fgetsLines, lines_eq (by decide) hs, List.map_cons]
    refine .line (fun line => ?_) ih
    have hlen : (readLine newline (INI_MAX_LINE - 1) s).1.length < INI_MAX_LINE :=
      Nat.lt_of_le_of_lt (length_readLine_le _ _) (by decide)
    obtain ⟨line', hstore, hholds⟩ := CharArray.exists_storeAll line hlen
    exact ⟨line', by rw [fgets, if_neg hs, hstore]; rfl, hholds⟩

theorem length_fgetsLines_le (content : List UInt8) :
    (fgetsLines content).length ≤ content.length := by
  have hwithin : ∀ (n fuel : Nat) (s : List UInt8),
      (linesWithin newline n fuel s).length ≤ fuel := by
    intro n fuel
    induction fuel with
    | zero => exact fun s => Nat.le_refl 0
    | succ fuel ih =>
      intro s
      cases s with
      | nil => exact Nat.zero_le _
      | cons c s => exact Nat.succ_le_succ (ih _)
  rw [fgetsLines, List.length_map]
  exact hwithin _ _ _

/-- For every handler and every file, whatever its bytes, the parser in its buffers comes
to an end without an undefined access: no load or store outside of the three arrays, and no
load of a byte that was not written.  It returns what `iniParse` returns and has made the
same calls. -/
theorem parseFile_refines (handler : IniHandler σ) (user : σ) (content : List UInt8) :
    ∃ m, IniStack.parseStream fgets (content.length + 1) content handler user = some m ∧
      m.user = (iniParse handler user (some content)).1 ∧
      (m.error : Int) = (iniParse handler user (some content)).2 := by
  have hfuel : (fgetsLines content).length < content.length + 1 :=
    Nat.lt_succ_of_le (length_fgetsLines_le content)
  obtain ⟨m, hloop, hm⟩ :=
    (reads_fgets content).exists_loop handler hfuel (IniStack.represents_init user)
  exact ⟨m, hloop, hm.user, congrArg Int.ofNat hm.error⟩

/-! ## Strings in memory -/

/-- The loop copies what `fgets` would read. -/
theorem StringRead.exists_loop {n num : Nat} {string : CharArray n} {r : StringRead}
    {pre post done rest : List (Option UInt8)} {s : List UInt8}
    (hstring : string.cells = pre ++ (s.map some ++ post)) (hptr : pre.length = r.ptr)
    (hleft : s.length = r.numLeft) (hstr : r.str.cells = done ++ rest)
    (hstrp : done.length = r.strp) (hroom : num < rest.length) :
    ∃ r' x rest', StringRead.loop string num r = some r' ∧
      r'.ptr = r.ptr + (readLine newline num s).1.length ∧
      r'.numLeft = (readLine newline num s).2.length ∧
      r'.str.cells = (done ++ (readLine newline num s).1.map some) ++ x :: rest' ∧
      r'.strp = (done ++ (readLine newline num s).1.map some).length := by
  induction num generalizing r pre done rest s with
  | zero =>
    obtain ⟨x, rest', rfl⟩ := List.exists_cons_of_ne_nil (List.ne_nil_of_length_pos hroom)
    refine ⟨r, x, rest', rfl, rfl, hleft.symm, ?_, ?_⟩
    · rw [hstr, readLine, List.map_nil, List.append_nil]
    · rw [readLine, List.map_nil, List.append_nil, hstrp]
  | succ num ih =>
    obtain ⟨x, rest, rfl⟩ := List.exists_cons_of_ne_nil
      (List.ne_nil_of_length_pos (Nat.zero_lt_of_lt hroom))
    cases s with
    | nil =>
      refine ⟨r, x, rest, if_pos hleft.symm, rfl, hleft.symm, ?_, ?_⟩
      · rw [hstr, readLine, List.map_nil, List.append_nil]
      · rw [readLine, List.map_nil, List.append_nil, hstrp]
    | cons c s =>
      have hload : string.load r.ptr = some c := by
        rw [← hptr]
        exact Block.load_eq hstring
      obtain ⟨str, hstore, hcells⟩ := Block.exists_store hstr c
      rw [hstrp] at hstore
      have hnext : string.cells = (pre ++ [some c]) ++ (s.map some ++ post) := by
        rw [hstring, List.append_assoc]
        rfl
      have hcells' : str.cells = (done ++ [some c]) ++ rest := by
        rw [hcells, List.append_assoc]
        rfl
      rw [List.length_cons] at hleft hroom
      have hmore : ¬ r.numLeft = 0 := by omega
      rw [readLine, StringRead.loop, if_neg hmore]
      simp only [hload, hstore, Option.bind_eq_bind, Option.bind_some]
      by_cases hc : c = newline
      · obtain ⟨x', rest', rfl⟩ := List.exists_cons_of_ne_nil
          (List.ne_nil_of_length_pos (l := rest) (by omega))
        rw [if_pos hc, if_pos hc]
        refine ⟨_, x', rest', rfl, rfl, ?_, hcells', ?_⟩
        · show r.numLeft - 1 = s.length
          omega
        · show r.strp + 1 = (done ++ [some c]).length
          rw [List.length_append, hstrp, List.length_singleton]
      · rw [if_neg hc, if_neg hc]
        have hptr' : (pre ++ [some c]).length = r.ptr + 1 := by
          rw [List.length_append, hptr, List.length_singleton]
        have hstrp' : (done ++ [some c]).length = r.strp + 1 := by
          rw [List.length_append, hstrp, List.length_singleton]
        have hleft' : s.length = r.numLeft - 1 := by omega
        obtain ⟨r', y, rest', hloop, hptr₁, hleft₁, hcells₁, hstrp₁⟩ :=
          ih (r := ⟨str, r.ptr + 1, r.numLeft - 1, r.strp + 1⟩) hnext hptr' hleft' hcells' hstrp'
            (by omega)
        rw [List.append_assoc done [some c]] at hcells₁ hstrp₁
        refine ⟨r', y, rest', hloop, ?_, hleft₁, hcells₁, hstrp₁⟩
        show r'.ptr = r.ptr + ((readLine newline num s).1.length + 1)
        rw [hptr₁]
        show r.ptr + 1 + _ = _
        omega

/-- A call of `ini_reader_string` puts the same string into `line` as `fgets`. -/
theorem exists_iniReaderString {n : Nat} (ctx : IniParseStringCtx n)
    {pre post : List (Option UInt8)} {s : List UInt8}
    (hstring : ctx.string.cells = pre ++ (s.map some ++ post)) (hptr : pre.length = ctx.ptr)
    (hleft : s.length = ctx.numLeft) (hs : s ≠ []) (line : CharArray INI_MAX_LINE) :
    ∃ line' ctx', iniReaderString line INI_MAX_LINE ctx = some (some (line', ctx')) ∧
      line'.Holds (toCString (readLine newline (INI_MAX_LINE - 1) s).1) ∧
      ctx' = { ctx with
        ptr := ctx.ptr + (readLine newline (INI_MAX_LINE - 1) s).1.length
        numLeft := (readLine newline (INI_MAX_LINE - 1) s).2.length } := by
  have hcells : line.cells = [] ++ line.cells := rfl
  have hroom : INI_MAX_LINE - 1 < line.cells.length := by
    rw [line.length_cells]
    decide
  obtain ⟨r, x, rest, hloop, hptr', hleft', hcells', hstrp⟩ :=
    StringRead.exists_loop (r := ⟨line, ctx.ptr, ctx.numLeft, 0⟩) hstring hptr hleft hcells rfl
      hroom
  obtain ⟨line', hstore, hend⟩ := Block.exists_store hcells' 0
  rw [← hstrp] at hstore
  have hmore : ¬ (ctx.numLeft = 0 ∨ INI_MAX_LINE < 2) := by
    have hpos := List.length_pos_of_ne_nil hs
    have hmax : INI_MAX_LINE = 200 := rfl
    omega
  refine ⟨line', _, ?_, ?_, rfl⟩
  · simp only [iniReaderString, if_neg hmore, hloop, hstore, Option.bind_eq_bind,
      Option.bind_some, hptr', hleft']
    rfl
  · exact CharArray.holds_toCString hend

/-- `ini_reader_string` delivers the lines that `fgets` delivers. -/
theorem reads_iniReaderString {n : Nat} {string : CharArray n} {pre post : List (Option UInt8)}
    (s : List UInt8) (hstring : string.cells = pre ++ (s.map some ++ post)) :
    IniReader.Reads iniReaderString
      { string := string, ptr := pre.length, numLeft := s.length } (fgetsLines s) := by
  induction hlen : s.length using Nat.strongRecOn generalizing s pre with
  | ind k ih =>
    by_cases hs : s = []
    · subst hs
      exact .done fun line => if_pos (.inl hlen.symm)
    · have hjoin : (readLine newline (INI_MAX_LINE - 1) s).1 ++
          (readLine newline (INI_MAX_LINE - 1) s).2 = s := readLine_append _ s
      rw [fgetsLines, lines_eq (by decide) hs, List.map_cons]
      have hnext : string.cells = (pre ++ (readLine newline (INI_MAX_LINE - 1) s).1.map some) ++
          ((readLine newline (INI_MAX_LINE - 1) s).2.map some ++ post) := by
        rw [hstring, List.append_assoc, ← List.append_assoc (List.map some _), ← List.map_append,
          hjoin]
      have hless : (readLine newline (INI_MAX_LINE - 1) s).2.length < k := by
        rw [← hlen]
        exact length_rest_lt (by decide) hs
      have hrest := ih _ hless _ hnext rfl
      rw [List.length_append, List.length_map] at hrest
      refine .line (fun line => ?_) hrest
      obtain ⟨line', ctx', hread, hholds, rfl⟩ := exists_iniReaderString
        ⟨string, pre.length, k⟩ hstring rfl hlen hs line
      exact ⟨line', hread, hholds⟩

/-- For every handler and every string in memory, `ini_parse_string` comes to an end
without an undefined access, and it returns what `ini_parse` returns for a file with this
content and makes the same calls. -/
theorem parseString_refines {n : Nat} (handler : IniHandler σ) (user : σ) (string : CharArray n)
    (s : CString) (h : string.Holds s) :
    ∃ m, IniStack.parseString string handler user = some m ∧
      m.user = (iniParse handler user (some s)).1 ∧
      (m.error : Int) = (iniParse handler user (some s)).2 := by
  obtain ⟨hs, post, hcells⟩ := h
  have hstart : string.cells = [] ++ (s.map some ++ some 0 :: post) := hcells
  have hstrlen : string.strlen 0 0 = some s.length := Block.strlen_eq hstart hs
  have hfuel : (fgetsLines s).length < s.length + 1 := Nat.lt_succ_of_le (length_fgetsLines_le s)
  obtain ⟨m, hloop, hm⟩ := (reads_iniReaderString s hstart).exists_loop handler hfuel
    (IniStack.represents_init user)
  refine ⟨m, ?_, hm.user, congrArg Int.ofNat hm.error⟩
  simp only [IniStack.parseString, hstrlen, Option.bind_eq_bind, Option.bind_some]
  exact hloop

/-- A string in an array that is larger than it. -/
theorem parseString_refines_fan :
    ∃ string : CharArray 20, ∃ m, string.Holds (ascii "[fan]\nkey=0x43\n") ∧
      IniStack.parseString string deviceHandler [] = some m ∧
      m.user = (iniParse deviceHandler [] (some (ascii "[fan]\nkey=0x43\n"))).1 := by
  have hlength : ((ascii "[fan]\nkey=0x43\n").map some ++ some 0 ::
      List.replicate 4 none).length = 20 := by decide
  have hholds : CharArray.Holds ⟨_, hlength⟩ (ascii "[fan]\nkey=0x43\n") :=
    ⟨by decide, List.replicate 4 none, rfl⟩
  obtain ⟨m, hparse, huser, -⟩ := parseString_refines deviceHandler [] _ _ hholds
  exact ⟨_, m, hholds, hparse, huser⟩

end HomeControl
