import HomeControl.Lib.Text
import HomeControl.DevName

/-!
# The parser of the configuration file

`ini_parse_stream` reads a file line by line and calls a handler for each `name=value`
pair.  The options of `ini.h` are constants: lines have at most 199 bytes, a line that
starts with white space continues the pair above it, `;` after white space starts a
comment, and a bad line does not end the parse.

* `Parser.readLine` is one turn of the loop, and `iniParse` the parse of a file.
* `Cursor` is what the calls depend on: the section, the last name and the line number.
  `Cursor.next` and `Cursor.call` say what a line does to it and which call it makes,
  and `user_iniParse` that every handler sees these calls and no others.
* `error_iniParseStream` says what `ini_parse` returns: the number of the first bad line.
-/

namespace HomeControl

open Text

/-! ## Strings -/

def newline : UInt8 := 10

/-- The string that starts at the first of these bytes. -/
def toCString (bytes : List UInt8) : CString := bytes.takeWhile fun c => decide (c ≠ 0)

/-- `rstrip`: the string without the white space at its end. -/
def rstrip (s : CString) : CString := s.rdropWhile isspace

/-- `lskip`: the string from the first byte that is not white space. -/
def lskip (s : CString) : CString := s.dropWhile isspace

/-- `INI_START_COMMENT_PREFIXES`. -/
def startCommentPrefixes : CString := ascii ";#"

/-- `INI_INLINE_COMMENT_PREFIXES`. -/
def inlineCommentPrefixes : CString := ascii ";"

/-- The loop of `find_chars_or_comment`: what stands before the byte at which it stops,
and the string from there. -/
def findFrom (chars : CString) : Bool → CString → CString × CString
  | _, [] => ([], [])
  | wasSpace, c :: s =>
    if c ∈ chars ∨ (wasSpace ∧ c ∈ inlineCommentPrefixes) then ([], c :: s)
    else (c :: (findFrom chars (isspace c) s).1, (findFrom chars (isspace c) s).2)

/-- `find_chars_or_comment`.  Without `chars` it looks for a comment only. -/
def findCharsOrComment (s chars : CString) : CString × CString := findFrom chars false s

/-! ## `ini_parse_stream` -/

/-- `INI_MAX_LINE`. -/
def INI_MAX_LINE : Nat := 200

/-- `MAX_NAME`. -/
def MAX_NAME : Nat := 50

/-- `ini_handler`: what it makes of `user`, and whether it returns something else than 0. -/
abbrev IniHandler (σ : Type) := σ → CString → CString → CString → σ × Bool

/-- The variables of `ini_parse_stream` that outlive a turn of its loop. -/
structure Parser (σ : Type) where
  sectionName : CString
  prevName : CString
  lineno : Nat
  error : Nat
  user : σ

variable {σ : Type}

/-- `error = lineno`, when there was no error before. -/
def Parser.fail (p : Parser σ) : Parser σ :=
  { p with error := if p.error = 0 then p.lineno else p.error }

/-- `HANDLER`, with the test of what it returns. -/
def Parser.call (handler : IniHandler σ) (p : Parser σ) (name value : CString) : Parser σ :=
  let (user, ok) := handler p.user p.sectionName name value
  if ok then { p with user := user } else { p with user := user }.fail

/-- The bytes EF BB BF. -/
def byteOrderMark : CString := [0xEF, 0xBB, 0xBF]

/-- The number of bytes of a byte order mark, which only the first line can have. -/
def skipBom (lineno : Nat) (line : CString) : Nat :=
  if lineno = 1 ∧ line.take 3 = byteOrderMark then 3 else 0

/-- What stands between `[` and `]`, if there is a `]`. -/
def readSection (afterBracket : CString) : Option CString :=
  let (title, rest) := findCharsOrComment afterBracket (ascii "]")
  if rest.head? = some 93 then some title else none

/-- The name and the value of a pair, if there is a `=` or a `:`. -/
def readPair (start : CString) : Option (CString × CString) :=
  match findCharsOrComment start (ascii "=:") with
  | (_, []) => none
  | (before, c :: value) =>
    if c = 61 ∨ c = 58 then
      some (rstrip before, rstrip (lskip (findCharsOrComment value []).1))
    else none

/-- One turn of the loop of `ini_parse_stream`. -/
def Parser.readLine (handler : IniHandler σ) (p : Parser σ) (line : CString) : Parser σ :=
  let p := { p with lineno := p.lineno + 1 }
  let bom := skipBom p.lineno line
  let stripped := rstrip (line.drop bom)
  let start := lskip stripped
  match start with
  -- `strchr` finds the terminator of the prefixes too.
  | [] => p
  | c :: rest =>
    if c ∈ startCommentPrefixes then p
    -- `start > line`: a byte order mark or white space was skipped.
    else if p.prevName ≠ [] ∧ 0 < bom + (stripped.length - start.length) then
      p.call handler p.prevName start
    else if c = 91 then
      match readSection rest with
      | some title => { p with sectionName := strncpy0 title MAX_SECTION, prevName := [] }
      | none => p.fail
    else
      match readPair start with
      | some (name, value) =>
        { p with prevName := strncpy0 name MAX_NAME }.call handler name value
      | none => p.fail

/-- What the reads of `fgets` leave in `line`. -/
def fgetsLines (content : List UInt8) : List CString :=
  (lines newline (INI_MAX_LINE - 1) content).map toCString

/-- The state in front of the loop. -/
def Parser.init (user : σ) : Parser σ := ⟨[], [], 0, 0, user⟩

/-- `ini_parse_stream`, on the strings that `reader` delivers. -/
def iniParseStream (handler : IniHandler σ) (user : σ) (read : List CString) : Parser σ :=
  read.foldl (Parser.readLine handler) (Parser.init user)

/-- `ini_parse_file`. -/
def iniParseFile (handler : IniHandler σ) (user : σ) (content : List UInt8) : Parser σ :=
  iniParseStream handler user (fgetsLines content)

/-- `ini_parse`.  The file is `none` when `fopen` fails. -/
def iniParse (handler : IniHandler σ) (user : σ) (file : Option (List UInt8)) : σ × Int :=
  match file with
  | none => (user, -1)
  | some content =>
    ((iniParseFile handler user content).user, (iniParseFile handler user content).error)

/-! ## What a line says -/

/-- A line, as the parser takes it. -/
inductive Line where
  /-- There is nothing on it but a comment. -/
  | ignored
  | malformed
  | header (title : CString)
  | continuation (value : CString)
  | pair (name value : CString)

/-- The arguments of one call of the handler, without `user`. -/
structure Call where
  sectionName : CString
  name : CString
  value : CString
  deriving DecidableEq

/-- What the calls of a parse depend on. -/
structure Cursor where
  sectionName : CString
  prevName : CString
  lineno : Nat

def Parser.cursor (p : Parser σ) : Cursor := ⟨p.sectionName, p.prevName, p.lineno⟩

/-- The cursor in front of the first line. -/
def Cursor.init : Cursor := ⟨[], [], 0⟩

/-- What a line says, when it stands behind the line `lineno`. -/
def Line.read (prevName : CString) (lineno : Nat) (line : CString) : Line :=
  let bom := skipBom (lineno + 1) line
  let stripped := rstrip (line.drop bom)
  match lskip stripped with
  | [] => .ignored
  | b :: rest =>
    if b ∈ startCommentPrefixes then .ignored
    else if prevName ≠ [] ∧ 0 < bom + (stripped.length - (b :: rest).length) then
      .continuation (b :: rest)
    else if b = 91 then (readSection rest).elim .malformed .header
    else (readPair (b :: rest)).elim .malformed fun pair => .pair pair.1 pair.2

/-- What the next line says. -/
def Cursor.lineOf (c : Cursor) (line : CString) : Line := Line.read c.prevName c.lineno line

/-- The cursor behind a line. -/
def Cursor.next (c : Cursor) : Line → Cursor
  | .header title => ⟨strncpy0 title MAX_SECTION, [], c.lineno + 1⟩
  | .pair name _ => ⟨c.sectionName, strncpy0 name MAX_NAME, c.lineno + 1⟩
  | _ => ⟨c.sectionName, c.prevName, c.lineno + 1⟩

@[simp] theorem Cursor.lineno_next (c : Cursor) (l : Line) :
    (c.next l).lineno = c.lineno + 1 := by
  cases l <;> rfl

/-- The call that a line makes. -/
def Cursor.call (c : Cursor) : Line → Option Call
  | .continuation value => some ⟨c.sectionName, c.prevName, value⟩
  | .pair name value => some ⟨c.sectionName, name, value⟩
  | _ => none

/-- What a handler does with a call. -/
def Call.run (handler : IniHandler σ) (user : σ) (e : Call) : σ × Bool :=
  handler user e.sectionName e.name e.value

/-- The line is an error: it is malformed, or the handler fails. -/
def Parser.Rejects (handler : IniHandler σ) (p : Parser σ) (l : Line) : Prop :=
  l = .malformed ∨ ∃ e, p.cursor.call l = some e ∧ (e.run handler p.user).2 = false

/-- One turn of the loop, for a line that is already taken apart. -/
def Parser.accept (handler : IniHandler σ) (p : Parser σ) (l : Line) : Parser σ :=
  let p := { p with lineno := p.lineno + 1 }
  match l with
  | .ignored => p
  | .malformed => p.fail
  | .header title => { p with sectionName := strncpy0 title MAX_SECTION, prevName := [] }
  | .continuation value => p.call handler p.prevName value
  | .pair name value => { p with prevName := strncpy0 name MAX_NAME }.call handler name value

theorem Parser.readLine_eq (handler : IniHandler σ) (p : Parser σ) (line : CString) :
    p.readLine handler line = p.accept handler (p.cursor.lineOf line) := by
  show _ = p.accept handler (Line.read p.prevName p.lineno line)
  unfold Parser.readLine Line.read
  dsimp only
  cases lskip (rstrip (line.drop (skipBom (p.lineno + 1) line))) with
  | nil => rfl
  | cons b rest =>
    dsimp only
    by_cases hcomment : b ∈ startCommentPrefixes
    · rw [if_pos hcomment, if_pos hcomment]
      rfl
    rw [if_neg hcomment, if_neg hcomment]
    by_cases hindent : p.prevName ≠ [] ∧ 0 < skipBom (p.lineno + 1) line +
        ((rstrip (line.drop (skipBom (p.lineno + 1) line))).length - (b :: rest).length)
    · rw [if_pos hindent, if_pos hindent]
      rfl
    rw [if_neg hindent, if_neg hindent]
    by_cases hbracket : b = 91
    · rw [if_pos hbracket, if_pos hbracket]
      cases readSection rest <;> rfl
    · rw [if_neg hbracket, if_neg hbracket]
      cases readPair (b :: rest) <;> rfl

/-- A call leaves the cursor, and an error is the first one. -/
theorem Parser.call_spec (handler : IniHandler σ) (p : Parser σ) (name value : CString) :
    (p.call handler name value).cursor = p.cursor ∧
      (p.call handler name value).user =
        (Call.run handler p.user ⟨p.sectionName, name, value⟩).1 ∧
      ((Call.run handler p.user ⟨p.sectionName, name, value⟩).2 = true →
        (p.call handler name value).error = p.error) ∧
      ((Call.run handler p.user ⟨p.sectionName, name, value⟩).2 = false →
        (p.call handler name value).error = if p.error = 0 then p.lineno else p.error) := by
  unfold Parser.call Call.run
  dsimp only
  cases handler p.user p.sectionName name value with
  | mk user ok =>
    cases ok with
    | false => exact ⟨rfl, rfl, fun h => absurd h Bool.false_ne_true, fun _ => rfl⟩
    | true => exact ⟨rfl, rfl, fun _ => rfl, fun h => absurd h.symm Bool.false_ne_true⟩

section Accept

variable (handler : IniHandler σ) (p : Parser σ) (l : Line)

theorem Parser.cursor_accept : (p.accept handler l).cursor = p.cursor.next l := by
  cases l with
  | ignored => rfl
  | malformed => rfl
  | header title => rfl
  | continuation value => exact (Parser.call_spec handler _ _ _).1
  | pair name value => exact (Parser.call_spec handler _ _ _).1

theorem Parser.user_accept : (p.accept handler l).user =
    (p.cursor.call l).toList.foldl (fun user e => (e.run handler user).1) p.user := by
  cases l with
  | ignored => rfl
  | malformed => rfl
  | header title => rfl
  | continuation value => exact (Parser.call_spec handler _ _ _).2.1
  | pair name value => exact (Parser.call_spec handler _ _ _).2.1

variable {handler p l}

theorem Parser.error_accept_of_rejects (h : p.Rejects handler l) :
    (p.accept handler l).error = if p.error = 0 then p.lineno + 1 else p.error := by
  rcases h with rfl | ⟨e, he, hfail⟩
  · rfl
  · cases l with
    | ignored => cases he
    | malformed => cases he
    | header title => cases he
    | continuation value =>
      cases he
      exact (Parser.call_spec handler _ _ _).2.2.2 hfail
    | pair name value =>
      cases he
      exact (Parser.call_spec handler _ _ _).2.2.2 hfail

theorem Parser.error_accept_of_not_rejects (h : ¬ p.Rejects handler l) :
    (p.accept handler l).error = p.error := by
  have hcall : ∀ e, p.cursor.call l = some e → (e.run handler p.user).2 = true :=
    fun e he => eq_true_of_ne_false fun hfail => h (.inr ⟨e, he, hfail⟩)
  cases l with
  | ignored => rfl
  | malformed => exact absurd (.inl rfl) h
  | header title => rfl
  | continuation value => exact (Parser.call_spec handler _ _ _).2.2.1 (hcall _ rfl)
  | pair name value => exact (Parser.call_spec handler _ _ _).2.2.1 (hcall _ rfl)

end Accept

/-! ## The calls of a file -/

/-- The calls of the lines that are left. -/
def Cursor.calls (c : Cursor) : List CString → List Call
  | [] => []
  | line :: read => (c.call (c.lineOf line)).toList ++ (c.next (c.lineOf line)).calls read

/-- The cursor behind some lines. -/
def Cursor.after (c : Cursor) (read : List CString) : Cursor :=
  read.foldl (fun c line => c.next (c.lineOf line)) c

/-- The calls that the parse of a file makes. -/
def iniCalls (content : List UInt8) : List Call := Cursor.init.calls (fgetsLines content)

section Calls

variable (handler : IniHandler σ) (c : Cursor)

theorem Cursor.lineno_after (read : List CString) :
    (c.after read).lineno = c.lineno + read.length := by
  induction read generalizing c with
  | nil => rfl
  | cons line read ih =>
    rw [Cursor.after, List.foldl_cons, ← Cursor.after, ih, Cursor.lineno_next, List.length_cons]
    omega

@[simp] theorem Cursor.calls_nil : c.calls [] = [] := rfl

theorem Cursor.calls_append (read more : List CString) :
    c.calls (read ++ more) = c.calls read ++ (c.after read).calls more := by
  induction read generalizing c with
  | nil => rfl
  | cons line read ih =>
    rw [List.cons_append, Cursor.calls, Cursor.calls, ih, List.append_assoc]
    rfl

theorem Parser.cursor_foldl_readLine (p : Parser σ) (read : List CString) :
    (read.foldl (Parser.readLine handler) p).cursor = p.cursor.after read := by
  induction read generalizing p with
  | nil => rfl
  | cons line read ih =>
    rw [List.foldl_cons, ih, Parser.readLine_eq, Parser.cursor_accept]
    rfl

/-- The handler sees the calls of the lines, in their order, and nothing else. -/
theorem Parser.user_foldl_readLine (p : Parser σ) (read : List CString) :
    (read.foldl (Parser.readLine handler) p).user =
      (p.cursor.calls read).foldl (fun user e => (e.run handler user).1) p.user := by
  induction read generalizing p with
  | nil => rfl
  | cons line read ih =>
    rw [List.foldl_cons, ih, Parser.readLine_eq, Parser.cursor_accept, Parser.user_accept,
      Cursor.calls, List.foldl_append]

/-- What a parse makes of `user`, whether or not the handler fails on the way. -/
theorem user_iniParse (user : σ) (content : List UInt8) :
    (iniParse handler user (some content)).1 =
      (iniCalls content).foldl (fun user e => (e.run handler user).1) user :=
  Parser.user_foldl_readLine handler (Parser.init user) (fgetsLines content)

end Calls

/-! ## The result of a parse -/

/-- Line `k` of the file is an error, counted from 0. -/
def BadLine (handler : IniHandler σ) (user : σ) (read : List CString) (k : Nat) : Prop :=
  ∃ line, read[k]? = some line ∧
    (iniParseStream handler user (read.take k)).Rejects handler
      ((iniParseStream handler user (read.take k)).cursor.lineOf line)

/-- The value to return: 0, or the number of the first bad line, counted from 1. -/
def FirstBad (bad : Nat → Prop) (n : Nat) : Prop :=
  (n = 0 ∧ ∀ k, ¬ bad k) ∨ ∃ k, n = k + 1 ∧ bad k ∧ ∀ j, j < k → ¬ bad j

section Result

variable {handler : IniHandler σ} {user : σ} {read : List CString} {line : CString}

theorem iniParseStream_concat : iniParseStream handler user (read ++ [line]) =
    (iniParseStream handler user read).accept handler
      ((iniParseStream handler user read).cursor.lineOf line) := by
  rw [iniParseStream, List.foldl_append, List.foldl_cons, List.foldl_nil, Parser.readLine_eq]
  rfl

/-- `lineno` counts the lines. -/
theorem lineno_iniParseStream (handler : IniHandler σ) (user : σ) (read : List CString) :
    (iniParseStream handler user read).lineno = read.length := by
  have hcursor := congrArg Cursor.lineno
    (Parser.cursor_foldl_readLine handler (Parser.init user) read)
  have hinit : (Parser.init user).cursor.lineno = 0 := rfl
  rw [Cursor.lineno_after, hinit, Nat.zero_add] at hcursor
  exact hcursor

theorem badLine_concat_of_lt {k : Nat} (hk : k < read.length) :
    BadLine handler user (read ++ [line]) k ↔ BadLine handler user read k := by
  unfold BadLine
  rw [List.getElem?_append_left hk, List.take_append_of_le_length (Nat.le_of_lt hk)]

theorem badLine_concat_length : BadLine handler user (read ++ [line]) read.length ↔
    (iniParseStream handler user read).Rejects handler
      ((iniParseStream handler user read).cursor.lineOf line) := by
  unfold BadLine
  rw [List.getElem?_concat_length, List.take_left]
  constructor
  · rintro ⟨_, h, hreject⟩
    cases h
    exact hreject
  · exact fun h => ⟨line, rfl, h⟩

theorem lt_length_of_badLine {k : Nat} (h : BadLine handler user read k) : k < read.length := by
  obtain ⟨line, hline, -⟩ := h
  exact (List.getElem?_eq_some_iff.mp hline).1

/-- `error` is the number of the first bad line, or 0. -/
theorem error_iniParseStream (handler : IniHandler σ) (user : σ) (read : List CString) :
    FirstBad (BadLine handler user read) (iniParseStream handler user read).error := by
  induction read using List.reverseRecOn with
  | nil => exact .inl ⟨rfl, fun k hk => Nat.not_lt_zero k (lt_length_of_badLine hk)⟩
  | append_singleton read line ih =>
    have hlineno := lineno_iniParseStream handler user read
    rw [iniParseStream_concat]
    generalize hp : iniParseStream handler user read = p at *
    by_cases hreject : p.Rejects handler (p.cursor.lineOf line)
    · rw [Parser.error_accept_of_rejects hreject]
      have hbad : BadLine handler user (read ++ [line]) read.length :=
        badLine_concat_length.mpr (hp ▸ hreject)
      rcases ih with ⟨hzero, hnone⟩ | ⟨k, hk, hbadk, hfirst⟩
      · rw [if_pos hzero, hlineno]
        exact .inr ⟨read.length, rfl, hbad, fun j hj h =>
          hnone j ((badLine_concat_of_lt hj).mp h)⟩
      · have hlt := lt_length_of_badLine hbadk
        rw [if_neg (by omega)]
        exact .inr ⟨k, hk, (badLine_concat_of_lt hlt).mpr hbadk, fun j hj h =>
          hfirst j hj ((badLine_concat_of_lt (Nat.lt_trans hj hlt)).mp h)⟩
    · rw [Parser.error_accept_of_not_rejects hreject]
      rcases ih with ⟨hzero, hnone⟩ | ⟨k, hk, hbadk, hfirst⟩
      · refine .inl ⟨hzero, fun k hk => ?_⟩
        have hlt := lt_length_of_badLine hk
        rw [List.length_append, List.length_singleton] at hlt
        by_cases hlast : k = read.length
        · subst hlast
          exact hreject (hp ▸ badLine_concat_length.mp hk)
        · exact hnone k ((badLine_concat_of_lt (by omega)).mp hk)
      · have hlt := lt_length_of_badLine hbadk
        exact .inr ⟨k, hk, (badLine_concat_of_lt hlt).mpr hbadk, fun j hj h =>
          hfirst j hj ((badLine_concat_of_lt (Nat.lt_trans hj hlt)).mp h)⟩

/-- For every handler and every file: `ini_parse` returns the number of the first bad line,
and yet makes the calls of all lines. -/
theorem iniParse_reports (handler : IniHandler σ) (user : σ) (content : List UInt8) :
    ∃ n : Nat, (iniParse handler user (some content)).2 = n ∧
      FirstBad (BadLine handler user (fgetsLines content)) n ∧
      (iniParse handler user (some content)).1 =
        (iniCalls content).foldl (fun user e => (e.run handler user).1) user :=
  ⟨_, rfl, error_iniParseStream handler user (fgetsLines content),
    user_iniParse handler user content⟩

end Result

end HomeControl
