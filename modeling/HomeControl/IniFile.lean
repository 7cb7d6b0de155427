import HomeControl.IniGrammar

/-!
# The configuration file as a whole

`receive_init` parses `peripheral.ini` with `handler`.  The results here are about the
bytes of the file.

* `loadFile` is the list of records that the parse leaves.
* `copiesFit_iff` says for which files every copy of a section stays in `dev_name`.
* `iniCalls_append` and `loadFile_append` say that a file can be put together from parts.
* `iniCalls_noise` says which lines mean nothing, wherever they stand, and
  `iniCalls_long` that the parser ends a line after 199 bytes.
-/

namespace HomeControl

open Text Bytes

/-! ## `receive_init` -/

theorem nonNul_toCString (s : List UInt8) : 0 ∉ toCString s := by
  intro hnul
  have hne := List.mem_takeWhile_imp hnul
  simp at hne

theorem toCString_append {s : List UInt8} (hs : 0 ∉ s) (t : List UInt8) :
    toCString (s ++ t) = s ++ toCString t := by
  refine List.takeWhile_append_of_pos fun c hc => decide_eq_true ?_
  rintro rfl
  exact hs hc

theorem toCString_eq {s : List UInt8} (hs : 0 ∉ s) : toCString s = s := by
  have happend := toCString_append hs []
  have hnil : toCString [] = [] := rfl
  rwa [hnil, List.append_nil] at happend

/-- The strings that a call passes to `handler`. -/
def Call.toEntry (e : Call) : Entry where
  title := toCString e.sectionName
  name := e.name
  value := e.value
  nonNul := nonNul_toCString e.sectionName

/-- `handler`, which always returns 1. -/
def deviceHandler : IniHandler (List Record) := fun pdevhead sectionName name value =>
  (Record.handler pdevhead (Call.toEntry ⟨sectionName, name, value⟩), true)

/-- The first half of `receive_init`: the device list, or `none` when there is no file. -/
def receiveInit (file : Option (List UInt8)) : Option (List Record) :=
  let (pdevhead, result) := iniParse deviceHandler [] file
  if result < 0 then none else some pdevhead

/-- The entries of a file. -/
def iniEntries (content : List UInt8) : List Entry := (iniCalls content).map Call.toEntry

/-- The device list of a file. -/
def loadFile (content : List UInt8) : List Record :=
  (iniEntries content).foldl Record.handler []

theorem iniParse_deviceHandler (content : List UInt8) :
    (iniParse deviceHandler [] (some content)).1 = loadFile content := by
  rw [user_iniParse, loadFile, iniEntries, List.foldl_map]
  rfl

/-- A file that is there is loaded, whatever the errors in it. -/
theorem receiveInit_some (content : List UInt8) :
    receiveInit (some content) = some (loadFile content) := by
  have hresult : ¬ (iniParse deviceHandler [] (some content)).2 < 0 :=
    Int.not_lt.mpr (Int.natCast_nonneg _)
  rw [receiveInit, ← iniParse_deviceHandler]
  exact if_neg hresult

/-- `ini/peripheral.ini`. -/
def peripheralIni : List UInt8 :=
  ("[lrled]#名称客厅灯\nkey=0x41\ngpio_pin=5\ngpio_mode=OUTPUT\ngpio_status=HIGH\n" ++
    "check_face_status=0\nvoice_set_status=0\n\n" ++
    "[roomled]#名称房间灯\nkey=0x42\ngpio_pin=6\ngpio_mode=OUTPUT\ngpio_status=HIGH\n" ++
    "check_face_status=0\nvoice_set_status=0\n\n" ++
    "[fan]#名称风扇\nkey=0x43\ngpio_pin=7\ngpio_mode=OUTPUT\ngpio_status=HIGH\n" ++
    "check_face_status=0\nvoice_set_status=0\n\n" ++
    "[lock]#名称门锁控制\nkey=0x44\ngpio_pin=8\ngpio_mode=OUTPUT\ngpio_status=HIGH\n" ++
    "check_face_status=1\nvoice_set_status=1\n\n" ++
    "[beep]#名称蜂鸣器\nkey=0x45\ngpio_pin=10\ngpio_mode=OUTPUT\ngpio_status=HIGH\n" ++
    "check_face_status=0\nvoice_set_status=1\n").toUTF8.data.toList

example : (receiveInit (some peripheralIni)).map (List.map Record.toGdevice) = some peripheral := by
  decide +kernel

/-- The entries have the sections of the calls. -/
theorem sectionName_toEntry {content : List UInt8} {e : Call} (he : e ∈ iniCalls content) :
    e.toEntry.sectionName = e.sectionName := by
  obtain ⟨hlength, ⟨hnul, -⟩, -⟩ :=
    (Cursor.wellFormed_init.calls (fun _ hline => readLine_of_mem_fgetsLines hline) he).sectionName
  show (toCString e.sectionName).take 49 = e.sectionName
  rw [toCString_eq hnul]
  exact List.take_of_length_le hlength

/-- The grammar decides which files are parsed without an error, and to what. -/
theorem reading_iff_iniParse (content : List UInt8) (calls : List Call) :
    Reading Cursor.init (fgetsLines content) calls ↔
      (iniParse deviceHandler [] (some content)).2 = 0 ∧ iniCalls content = calls := by
  have hstarted : Cursor.init.Started := fun _ => rfl
  rw [reading_iff hstarted]
  refine and_congr_left fun _ => ?_
  have herror := @Parser.error_eq_zero_iff _ deviceHandler (fun _ _ _ _ => rfl)
    (Parser.init []) (fgetsLines content)
  have hresult : (iniParse deviceHandler [] (some content)).2 =
      (iniParseFile deviceHandler [] content).error := rfl
  rw [hresult, Int.natCast_eq_zero]
  exact (herror.trans (and_iff_right rfl)).symm

/-! ## The copies of the sections -/

/-- Every copy of a section that the load of the file makes stays in `dev_name`. -/
def CopiesFit (content : List UInt8) : Prop :=
  ∀ es e rest, iniEntries content = es ++ e :: rest →
    Creates (es.foldl Record.handler []) e → ∀ i ∈ strcpyWrites e.sectionName, i < devNameSize

theorem shortNames_foldl {es : List Entry} (hes : ∀ e ∈ es, e.sectionName.length ≤ 35) :
    ShortNames (es.foldl Record.handler []) := by
  induction es using List.reverseRecOn with
  | nil => exact fun r hr => by cases hr
  | append_singleton es e ih =>
    rw [List.foldl_append]
    exact (Record.handler_refines (ih fun e' he' => hes e' (List.mem_append_left _ he'))
      (hes e (List.mem_append_right _ (List.mem_singleton_self e)))).1

/-- A copy can go wrong exactly when a section with an entry has more than 35 bytes: the
first such entry finds another name at the head of the list. -/
theorem copiesFit_iff (content : List UInt8) :
    CopiesFit content ↔ ∀ e ∈ iniCalls content, e.sectionName.length ≤ 35 := by
  have hentries : (∀ e ∈ iniEntries content, e.sectionName.length ≤ 35) ↔
      ∀ e ∈ iniCalls content, e.sectionName.length ≤ 35 := by
    rw [iniEntries]
    constructor
    · intro h e he
      rw [← sectionName_toEntry he]
      exact h _ (List.mem_map_of_mem he)
    · intro h entry hentry
      obtain ⟨e, he, rfl⟩ := List.mem_map.mp hentry
      rw [sectionName_toEntry he]
      exact h e he
  rw [← hentries]
  constructor
  · intro hfit
    by_contra hlong
    obtain ⟨e₀, he₀, hlen₀⟩ : ∃ e ∈ iniEntries content, ¬ e.sectionName.length ≤ 35 := by
      simpa using hlong
    obtain ⟨e, hfind⟩ := Option.isSome_iff_exists.mp
      (List.find?_isSome (p := fun e : Entry => decide (35 < e.sectionName.length)).mpr
        ⟨e₀, he₀, by simpa using hlen₀⟩)
    obtain ⟨hlen, es, rest, hsplit, hbefore⟩ := List.find?_eq_some_iff_append.mp hfind
    have hlen : 35 < e.sectionName.length := of_decide_eq_true hlen
    have hshort := shortNames_foldl fun e' he' => by
      have hnot := hbefore e' he'
      simpa using hnot
    have hcreates : Creates (es.foldl Record.handler []) e := by
      intro d hd heq
      obtain ⟨s, hs⟩ := hshort d (List.mem_of_mem_head? hd)
      have hfits := hs.fits
      rw [heq, hs.devName_eq] at hlen
      rw [devNameSize] at hfits
      omega
    have hlast := hfit es e rest hsplit hcreates e.sectionName.length (by
      rw [strcpyWrites, List.mem_range]
      omega)
    rw [devNameSize] at hlast
    omega
  · intro hshort es e rest hsplit _ i hi
    have hlen := hshort e (by rw [hsplit]; simp)
    rw [strcpyWrites, List.mem_range] at hi
    rw [devNameSize]
    omega

/-! ## Parts of a file -/

/-- Two cursors that take every line for the same. -/
structure Cursor.Alike (c c' : Cursor) : Prop where
  sectionName : c.sectionName = c'.sectionName
  prevName : c.prevName = c'.prevName
  first : c.lineno = 0 ↔ c'.lineno = 0

section Parts

variable {c c' : Cursor} {a b l : List UInt8}

theorem Cursor.Alike.lineOf (h : c.Alike c') (line : CString) : c.lineOf line = c'.lineOf line := by
  have hbom : skipBom (c.lineno + 1) line = skipBom (c'.lineno + 1) line := by
    have hfirst : c.lineno + 1 = 1 ↔ c'.lineno + 1 = 1 := by
      have hzero := h.first
      omega
    simp only [skipBom, hfirst]
  rw [Cursor.lineOf, Cursor.lineOf, Line.read, Line.read, hbom, h.prevName]

theorem Cursor.Alike.next (h : c.Alike c') (l : Line) : (c.next l).Alike (c'.next l) := by
  have hfirst : (c.next l).lineno = 0 ↔ (c'.next l).lineno = 0 := by
    rw [Cursor.lineno_next, Cursor.lineno_next]
    omega
  cases l with
  | ignored => exact ⟨h.sectionName, h.prevName, hfirst⟩
  | malformed => exact ⟨h.sectionName, h.prevName, hfirst⟩
  | header title => exact ⟨rfl, rfl, hfirst⟩
  | continuation value => exact ⟨h.sectionName, h.prevName, hfirst⟩
  | pair name value => exact ⟨h.sectionName, rfl, hfirst⟩

theorem Cursor.Alike.call (h : c.Alike c') (l : Line) : c.call l = c'.call l := by
  cases l with
  | ignored => rfl
  | malformed => rfl
  | header title => rfl
  | continuation value =>
    rw [Cursor.call, Cursor.call, h.sectionName, h.prevName]
  | pair name value => rw [Cursor.call, Cursor.call, h.sectionName]

/-- Such cursors make the same calls. -/
theorem Cursor.Alike.calls (h : c.Alike c') (read : List CString) :
    c.calls read = c'.calls read := by
  induction read generalizing c c' with
  | nil => rfl
  | cons line read ih =>
    rw [Cursor.calls, Cursor.calls, h.lineOf, h.call, ih (h.next _)]

theorem fgetsLines_append (ha : Closed newline a) (b : List UInt8) :
    fgetsLines (a ++ b) = fgetsLines a ++ fgetsLines b := by
  rw [fgetsLines, lines_append (by decide) ha, List.map_append]
  rfl

/-- A line that fits into the buffer is read with its end. -/
theorem fgetsLines_newline (hl : newline ∉ l) (hlen : l.length ≤ 198) (b : List UInt8) :
    fgetsLines (l ++ newline :: b) = toCString (l ++ [newline]) :: fgetsLines b := by
  rw [fgetsLines, lines_line hl (by rw [INI_MAX_LINE]; omega), List.map_cons]
  rfl

/-- A terminator in the line hides what follows it, the end of the line too. -/
theorem toCString_newline (l : List UInt8) :
    toCString (l ++ [newline]) = toCString l ∨
      toCString (l ++ [newline]) = toCString l ++ [newline] := by
  by_cases hnul : 0 ∈ l
  · left
    obtain ⟨s, t, rfl⟩ := List.append_of_mem hnul
    simp [toCString, List.takeWhile_append]
  · right
    rw [toCString_append hnul, toCString_eq hnul]
    rfl

theorem fgetsLines_line (hl : OneLine l) (hlen : l.length ≤ 198) (b : List UInt8) :
    fgetsLines (l ++ newline :: b) = (l ++ [newline]) :: fgetsLines b := by
  rw [fgetsLines_newline hl.2 hlen, toCString_append hl.1]
  rfl

/-- The file starts with a section in brackets. -/
def StartsWithSection (b : List UInt8) : Prop :=
  ∃ title rest, b = 91 :: (title ++ 93 :: rest) ∧ OneLine title ∧ Plain (ascii "]") title ∧
    title.length ≤ 197

/-- Such a file starts a section, whatever the parser has read before. -/
theorem lineOf_of_startsWithSection (hb : StartsWithSection b) :
    ∃ title line read, fgetsLines b = line :: read ∧
      ∀ c : Cursor, c.Started → c.lineOf line = .header title := by
  obtain ⟨title, rest, rfl, hone, hplain, hlen⟩ := hb
  have hnl : newline ∉ 91 :: (title ++ [93]) := by
    simp only [List.mem_cons, List.mem_append, List.not_mem_nil, or_false, not_or]
    exact ⟨by decide, hone.2, by decide⟩
  have hnul : 0 ∉ 91 :: (title ++ [93]) := by
    simp only [List.mem_cons, List.mem_append, List.not_mem_nil, or_false, not_or]
    exact ⟨by decide, hone.1, by decide⟩
  have hsplit : 91 :: (title ++ 93 :: rest) = 91 :: (title ++ [93]) ++ rest := by simp
  have hread : ∃ line read, fgetsLines (91 :: (title ++ 93 :: rest)) =
      (91 :: (title ++ [93]) ++ line) :: read := by
    rw [hsplit, fgetsLines, lines_eq (by decide) (by simp),
      readLine_append_of_notMem hnl (by simp [INI_MAX_LINE]; omega), List.map_cons,
      toCString_append hnul]
    exact ⟨_, _, rfl⟩
  obtain ⟨line, read, hread⟩ := hread
  refine ⟨title, _, read, hread, fun c hc => ?_⟩
  have hbom : c.unmarked (91 :: (title ++ [93]) ++ line) = 91 :: (title ++ 93 :: line) := by
    have hzero : skipBom (c.lineno + 1) (91 :: (title ++ [93]) ++ line) = 0 := by
      refine if_neg fun h => ?_
      have hhead := congrArg List.head? h.2
      exact absurd hhead (by simp [byteOrderMark])
    rw [Cursor.unmarked, hzero, List.drop_zero]
    simp
  rw [Cursor.lineOf_eq_iff hc (by intro h; cases h), hbom]
  have hheader : Spells (c.prevName ≠ []) ([] ++ 91 :: (title ++ 93 :: line)) (.header title) :=
    .header (fun d hd => absurd hd List.not_mem_nil) (fun _ => rfl) hplain
  exact hheader

theorem Cursor.started_after (hc : c.Started) (read : List CString) : (c.after read).Started := by
  induction read generalizing c with
  | nil => exact hc
  | cons line read ih => exact ih (c.started_next _)

/-- The calls of a file are those of its parts, when the second part starts with a
section. -/
theorem iniCalls_append (ha : Closed newline a) (hb : StartsWithSection b) :
    iniCalls (a ++ b) = iniCalls a ++ iniCalls b := by
  obtain ⟨title, line, read, hread, hheader⟩ := lineOf_of_startsWithSection hb
  have hinit : Cursor.init.Started := fun _ => rfl
  rw [iniCalls, fgetsLines_append ha, Cursor.calls_append, iniCalls, iniCalls, hread,
    Cursor.calls, Cursor.calls, hheader _ hinit,
    hheader _ (Cursor.started_after hinit (fgetsLines a))]
  refine congrArg (_ ++ ·) (congrArg (_ ++ ·) (Cursor.Alike.calls ?_ read))
  refine ⟨rfl, rfl, ?_⟩
  rw [Cursor.lineno_next, Cursor.lineno_next]
  omega

/-- The records behind the head of the list do not matter. -/
theorem Record.handler_append {recent : List Record} (hrecent : recent ≠ []) (old : List Record)
    (e : Entry) : Record.handler (recent ++ old) e = Record.handler recent e ++ old := by
  obtain ⟨d, rest, rfl⟩ := List.exists_cons_of_ne_nil hrecent
  rw [List.cons_append, Record.handler, Record.handler]
  split
  · rfl
  · rfl

theorem Record.handler_ne_nil (pdevhead : List Record) (e : Entry) :
    Record.handler pdevhead e ≠ [] := by
  cases pdevhead with
  | nil => exact List.cons_ne_nil _ _
  | cons d rest =>
    rw [Record.handler]
    split
    · exact List.cons_ne_nil _ _
    · exact List.cons_ne_nil _ _

theorem Record.foldl_handler_append {recent : List Record} (hrecent : recent ≠ [])
    (old : List Record) (es : List Entry) :
    es.foldl Record.handler (recent ++ old) = es.foldl Record.handler recent ++ old := by
  induction es generalizing recent with
  | nil => rfl
  | cons e es ih =>
    rw [List.foldl_cons, List.foldl_cons, Record.handler_append hrecent,
      ih (Record.handler_ne_nil recent e)]

/-- Entries that start with a new section build their records in front of the list. -/
theorem Record.foldl_handler_creates {es : List Entry} {ds : List Record}
    (hnew : ∀ e, es.head? = some e → Creates ds e) :
    es.foldl Record.handler ds = es.foldl Record.handler [] ++ ds := by
  cases es with
  | nil => rfl
  | cons e es =>
    have hfirst : Record.handler ds e = Record.handler [] e ++ ds :=
      Record.handler_of_creates (hnew e rfl)
    rw [List.foldl_cons, List.foldl_cons, hfirst,
      Record.foldl_handler_append (Record.handler_ne_nil [] e)]

theorem iniEntries_append (ha : Closed newline a) (hb : StartsWithSection b) :
    iniEntries (a ++ b) = iniEntries a ++ iniEntries b := by
  rw [iniEntries, iniCalls_append ha hb, List.map_append]
  rfl

/-- A section that is added at the end of the file adds its devices in front of the
list, and leaves the others as they are. -/
theorem loadFile_append (ha : Closed newline a) (hb : StartsWithSection b)
    (hnew : ∀ e, (iniEntries b).head? = some e → Creates (loadFile a) e) :
    loadFile (a ++ b) = loadFile b ++ loadFile a := by
  rw [loadFile, iniEntries_append ha hb, List.foldl_append]
  exact Record.foldl_handler_creates hnew

/-- A file with one section, and another that is added to it. -/
theorem loadFile_append_fan :
    loadFile (ascii "[lock]\nkey=0x44\n" ++ ascii "[fan]\nkey=0x43\n") =
      loadFile (ascii "[fan]\nkey=0x43\n") ++ loadFile (ascii "[lock]\nkey=0x44\n") := by
  have hstarts : StartsWithSection (ascii "[fan]\nkey=0x43\n") :=
    ⟨ascii "fan", ascii "\nkey=0x43\n", by decide, by decide +kernel, by decide +kernel, by decide⟩
  have hfirst : (iniEntries (ascii "[fan]\nkey=0x43\n")).head?.map Entry.sectionName =
      some (ascii "fan") := by decide +kernel
  have hhead : (loadFile (ascii "[lock]\nkey=0x44\n")).head?.map Record.devName =
      some (ascii "lock") := by decide +kernel
  refine loadFile_append (fun c hc => ?_) hstarts fun e he d hd hsame => ?_
  · have hlast : (ascii "[lock]\nkey=0x44\n").getLast? = some newline := by decide
    exact Option.some.inj (hc.symm.trans hlast)
  · rw [he] at hfirst
    rw [hd] at hhead
    have heq := (Option.some.inj hfirst).symm.trans (hsame.trans (Option.some.inj hhead))
    exact absurd heq (by decide)

/-! ## Lines without a meaning -/

/-- A line that no call comes of: white space, a comment, or a line at the left margin that
is written neither as a section nor as a pair. -/
inductive Noise : CString → Prop where
  | blank {l : CString} (hl : Blank l) : Noise l
  | comment {pre text : CString} {mark : UInt8} (hpre : Blank pre)
      (hmark : mark ∈ startCommentPrefixes) : Noise (pre ++ mark :: text)
  | junk {c : UInt8} {rest : CString} (hmargin : isspace c = false)
      (hheader : ∀ title, ¬ Spells False (c :: rest) (.header title))
      (hpair : ∀ name value, ¬ Spells False (c :: rest) (.pair name value)) : Noise (c :: rest)

/-- Behind the first line, the parser takes such a line for nothing or for an error. -/
theorem Noise.lineOf (h : Noise l) (hc : c.lineno ≠ 0) :
    c.lineOf l = .ignored ∨ c.lineOf l = .malformed := by
  have hstarted : c.Started := fun hzero => absurd hzero hc
  have hbom := Cursor.unmarked_eq hc l
  have hspells : ∀ k, k ≠ .malformed → c.lineOf l = k → Spells (c.prevName ≠ []) l k := by
    intro k hgood hline
    rw [← hbom]
    exact (Cursor.lineOf_eq_iff hstarted hgood).mp hline
  cases h with
  | blank hl =>
    left
    rw [Cursor.lineOf_eq_iff hstarted (by intro h; cases h), hbom]
    exact .blank hl
  | comment hpre hmark =>
    left
    rw [Cursor.lineOf_eq_iff hstarted (by intro h; cases h), hbom]
    exact .comment hpre hmark
  | @junk d rest hmargin hheader hpair =>
    cases hline : c.lineOf (d :: rest) with
    | ignored => exact .inl rfl
    | malformed => exact .inr rfl
    | header title =>
      have hwritten := hspells _ (fun h => by cases h) hline
      exact absurd (hwritten.mono False.elim fun v h => by cases h) (hheader title)
    | pair name value =>
      have hwritten := hspells _ (fun h => by cases h) hline
      exact absurd (hwritten.mono False.elim fun v h => by cases h) (hpair name value)
    | continuation value =>
      -- A continuation is indented.
      obtain ⟨pre, post, hpre, hindent, hsplit⟩ : ∃ pre post, Blank pre ∧ pre ≠ [] ∧
          d :: rest = pre ++ value ++ post := by
        generalize ht : d :: rest = t at hspells hline
        cases hspells _ (fun h => by cases h) hline with
        | @continuation pre _ post _ hpre hindent _ _ _ _ => exact ⟨pre, post, hpre, hindent, rfl⟩
      obtain ⟨e, pre, rfl⟩ := List.exists_cons_of_ne_nil hindent
      rw [List.cons_append, List.cons_append] at hsplit
      obtain ⟨rfl, -⟩ := List.cons.inj hsplit
      rw [hpre d List.mem_cons_self] at hmargin
      cases hmargin

/-- The end of the line is white space. -/
theorem Cursor.lineOf_newline (hc : c.lineno ≠ 0) (line : CString) :
    c.lineOf (line ++ [newline]) = c.lineOf line := by
  have hbom : ∀ s, skipBom (c.lineno + 1) s = 0 := fun s => if_neg fun h => by omega
  have hstrip : rstrip (line ++ [newline]) = rstrip line :=
    List.rdropWhile_concat_pos _ _ _ (by decide)
  unfold Cursor.lineOf Line.read
  simp only [hbom, List.drop_zero, hstrip]

/-- A line of noise leaves the cursor, but for the line number. -/
theorem Noise.calls (h : Noise (toCString l)) (hc : c.lineno ≠ 0) (read : List CString) :
    c.calls (toCString (l ++ [newline]) :: read) = c.calls read := by
  have halike : (c.next .ignored).Alike c := ⟨rfl, rfl, by rw [Cursor.lineno_next]; omega⟩
  have hend : c.lineOf (toCString (l ++ [newline])) = c.lineOf (toCString l) := by
    rcases toCString_newline l with heq | heq
    · rw [heq]
    · rw [heq, Cursor.lineOf_newline hc]
  rw [Cursor.calls, hend]
  rcases h.lineOf hc with hline | hline
  · rw [hline]
    exact halike.calls read
  · rw [hline]
    exact halike.calls read

/-- A line of noise can be taken out of the file.  The first line stays: behind it there
may be what looks like a byte order mark. -/
theorem iniCalls_noise (ha : Closed newline a) (hne : a ≠ []) (hl : newline ∉ l)
    (hlen : l.length ≤ 198) (hnoise : Noise (toCString l)) (b : List UInt8) :
    iniCalls (a ++ (l ++ newline :: b)) = iniCalls (a ++ b) := by
  have hlineno : (Cursor.init.after (fgetsLines a)).lineno ≠ 0 := by
    rw [Cursor.lineno_after, fgetsLines, List.length_map, lines_eq (by decide) hne,
      List.length_cons]
    omega
  rw [iniCalls, fgetsLines_append ha, fgetsLines_newline hl hlen, Cursor.calls_append,
    hnoise.calls hlineno, ← Cursor.calls_append, ← fgetsLines_append ha]
  rfl

/-- A line that is longer than the buffer ends after 199 bytes: the rest of it is read as
a line of its own. -/
theorem iniCalls_long (ha : Closed newline a) (hl : newline ∉ l) (hlen : l.length = 199)
    (b : List UInt8) : iniCalls (a ++ (l ++ b)) = iniCalls (a ++ (l ++ newline :: b)) := by
  have hlines : ∀ s, fgetsLines (l ++ s) = toCString l :: fgetsLines s := by
    intro s
    have hread : readLine newline (INI_MAX_LINE - 1) (l ++ s) = (l, s) := by
      have hlong := readLine_long hl s
      rwa [hlen] at hlong
    have hne : l ++ s ≠ [] := by
      rintro h
      rw [(List.append_eq_nil_iff.mp h).1] at hlen
      cases hlen
    rw [fgetsLines, lines_eq (by decide) hne, hread]
    rfl
  have hblank : fgetsLines (newline :: b) = toCString ([] ++ [newline]) :: fgetsLines b :=
    fgetsLines_newline (l := []) List.not_mem_nil (Nat.zero_le _) b
  have hnoise : Noise (toCString []) := .blank fun c hc => by cases hc
  rw [iniCalls, iniCalls, fgetsLines_append ha, fgetsLines_append ha, Cursor.calls_append,
    Cursor.calls_append, hlines, hlines, hblank, Cursor.calls, Cursor.calls, hnoise.calls]
  rw [Cursor.lineno_next]
  exact Nat.succ_ne_zero _

end Parts

/-- A line between two entries in which only a comment has a `=`, and an unfinished section
with a terminator in it. -/
theorem iniCalls_noise_junk :
    iniCalls (ascii "[fan]\nkey=0x43\n" ++ (ascii "pin ;a=1" ++ newline :: ascii "gpio_pin=7\n")) =
        iniCalls (ascii "[fan]\nkey=0x43\n" ++ ascii "gpio_pin=7\n") ∧
      iniCalls (ascii "[fan]\nkey=0x43\n" ++
          (ascii "[lock" ++ 0 :: ascii "]=1" ++ newline :: ascii "gpio_pin=7\n")) =
        iniCalls (ascii "[fan]\nkey=0x43\n" ++ ascii "gpio_pin=7\n") := by
  have hclosed : Closed newline (ascii "[fan]\nkey=0x43\n") := by
    intro c hc
    have hlast : (ascii "[fan]\nkey=0x43\n").getLast? = some newline := by decide
    exact Option.some.inj (hc.symm.trans hlast)
  -- The parser finds an error in either line, so it is written as neither.
  have hnot : ∀ {t : CString} {l : Line}, Cursor.lineOf ⟨[], [], 1⟩ t = .malformed →
      (∀ value, l ≠ .continuation value) → l ≠ .malformed → ¬ Spells False t l := by
    intro t l hbad hl hgood hspells
    have hread := (Cursor.lineOf_eq_iff (c := ⟨[], [], 1⟩) (fun _ => rfl) hgood).mpr
      (by rw [Cursor.unmarked_eq (by decide)]; exact hspells.mono (fun h => absurd rfl h) hl)
    exact hgood (hread.symm.trans hbad)
  constructor
  · have hbad : Cursor.lineOf ⟨[], [], 1⟩ (ascii "pin ;a=1") = .malformed := by rfl
    refine iniCalls_noise hclosed (by decide) (by decide) (by decide) ?_ _
    exact .junk (by decide)
      (fun _ => hnot hbad (fun _ h => by cases h) (fun h => by cases h))
      (fun _ _ => hnot hbad (fun _ h => by cases h) (fun h => by cases h))
  · have hbad : Cursor.lineOf ⟨[], [], 1⟩ (ascii "[lock") = .malformed := by rfl
    refine iniCalls_noise hclosed (by decide) (by decide) (by decide) ?_ _
    exact .junk (by decide)
      (fun _ => hnot hbad (fun _ h => by cases h) (fun h => by cases h))
      (fun _ _ => hnot hbad (fun _ h => by cases h) (fun h => by cases h))

/-- A value that does not end in time. -/
theorem iniCalls_long_value :
    iniCalls (ascii "[fan]\n" ++ (ascii "key=" ++ List.replicate 195 48 ++ ascii "43\n")) =
      iniCalls (ascii "[fan]\n" ++
        (ascii "key=" ++ List.replicate 195 48 ++ newline :: ascii "43\n")) := by
  refine iniCalls_long (fun c hc => ?_) (by decide +kernel) (by decide +kernel) _
  have hlast : (ascii "[fan]\n").getLast? = some newline := by decide
  exact Option.some.inj (hc.symm.trans hlast)

end HomeControl
