import Mathlib.Data.List.TakeDrop
import HomeControl.Ini

/-!
# What a handler can rely on

The configuration file can hold any bytes.  The parser stands between it and `handler`.

* `Plain` says that a search goes through a string without a stop, and
  `plain_findCharsOrComment` that this holds of what a search leaves behind.
* `Line.wellFormed_read` is what one line can say, and `Cursor.WellFormed` what holds of
  the section and the name that the parser keeps.
* `Call.WellFormed` follows for every call of every file: lengths, no terminator and no
  end of a line inside, nothing in a name that ends one, and a value without white space
  at its ends.
-/

namespace HomeControl

open Text

/-! ## Searches -/

/-- There is none of `chars` in the string, and no comment. -/
structure Plain (chars s : CString) : Prop where
  notMem : ∀ c ∈ s, c ∉ chars
  noComment : s.IsChain fun a b => ¬ (isspace a = true ∧ b ∈ inlineCommentPrefixes)

instance (chars s : CString) : Decidable (Plain chars s) :=
  have : Decidable (∀ c ∈ s, c ∉ chars) := List.decidableBAll (fun c => c ∉ chars) s
  decidable_of_iff
    ((∀ c ∈ s, c ∉ chars) ∧
      s.IsChain fun a b => ¬ (isspace a = true ∧ b ∈ inlineCommentPrefixes))
    ⟨fun h => ⟨h.1, h.2⟩, fun h => ⟨h.1, h.2⟩⟩

theorem plain_nil (chars : CString) : Plain chars [] where
  notMem c hc := by cases hc
  noComment := List.isChain_nil

section Find

variable {chars s r : CString} {b : Bool} {c : UInt8}

theorem findFrom_append (chars : CString) (b : Bool) (s : CString) :
    (findFrom chars b s).1 ++ (findFrom chars b s).2 = s := by
  induction s generalizing b with
  | nil => rfl
  | cons c s ih =>
    rw [findFrom]
    split
    · rfl
    · exact congrArg (c :: ·) (ih (isspace c))

theorem findFrom_isPrefix (chars : CString) (b : Bool) (s : CString) :
    (findFrom chars b s).1 <+: s := ⟨_, findFrom_append chars b s⟩

/-- What is found is no part of a comment, even when white space stands in front. -/
theorem plain_findFrom (chars : CString) (b : Bool) (s : CString) :
    Plain chars (findFrom chars b s).1 ∧
      (b = true → ∀ c, (findFrom chars b s).1.head? = some c → c ∉ inlineCommentPrefixes) := by
  induction s generalizing b with
  | nil => exact ⟨plain_nil chars, fun _ c hc => by cases hc⟩
  | cons c s ih =>
    rw [findFrom]
    split
    · exact ⟨plain_nil chars, fun _ c hc => by cases hc⟩
    · rename_i hgo
      obtain ⟨hchars, hcomment⟩ := not_or.mp hgo
      obtain ⟨hplain, hhead⟩ := ih (isspace c)
      refine ⟨⟨fun d hd => ?_, ?_⟩, fun hb d hd => ?_⟩
      · rcases List.mem_cons.mp hd with rfl | hd
        · exact hchars
        · exact hplain.notMem d hd
      · refine List.isChain_cons.mpr ⟨fun d hd => ?_, hplain.noComment⟩
        rintro ⟨hspace, hmem⟩
        exact hhead hspace d hd hmem
      · cases hd
        exact fun hmem => hcomment ⟨hb, hmem⟩

theorem findCharsOrComment_append (s chars : CString) :
    (findCharsOrComment s chars).1 ++ (findCharsOrComment s chars).2 = s :=
  findFrom_append chars false s

theorem plain_findCharsOrComment (s chars : CString) :
    Plain chars (findCharsOrComment s chars).1 := (plain_findFrom chars false s).1

theorem Plain.mono (h : Plain chars s) (hr : r <:+: s) : Plain chars r where
  notMem c hc := h.notMem c (hr.subset hc)
  noComment := List.IsChain.infix h.noComment hr

/-- The search goes through a plain string. -/
theorem findFrom_of_plain (h : Plain chars s)
    (hb : b = true → ∀ d, s.head? = some d → d ∉ inlineCommentPrefixes) :
    findFrom chars b s = (s, []) := by
  induction s generalizing b with
  | nil => rfl
  | cons d s ih =>
    obtain ⟨hhead, htail⟩ := List.isChain_cons.mp h.noComment
    have hgo : ¬ (d ∈ chars ∨ (b = true ∧ d ∈ inlineCommentPrefixes)) := by
      rintro (hd | ⟨hb', hd⟩)
      · exact h.notMem d List.mem_cons_self hd
      · exact hb hb' d rfl hd
    rw [findFrom, if_neg hgo, ih ⟨fun c hc => h.notMem c (List.mem_cons_of_mem _ hc), htail⟩
      fun hspace e he hmem => hhead e he ⟨hspace, hmem⟩]

/-- The search stops here: at one of `chars`, or at a comment behind white space. -/
def Stops (chars : CString) (b : Bool) (s : CString) (c : UInt8) : Prop :=
  c ∈ chars ∨ (c ∈ inlineCommentPrefixes ∧ (s.getLast?.map isspace).getD b = true)

theorem getD_getLast?_cons (b : Bool) (d : UInt8) (s : CString) :
    ((d :: s).getLast?.map isspace).getD b = (s.getLast?.map isspace).getD (isspace d) := by
  rw [List.getLast?_cons]
  cases s.getLast? <;> rfl

/-- The search stops behind a plain string. -/
theorem findFrom_of_stops (h : Plain chars s)
    (hb : b = true → ∀ d, s.head? = some d → d ∉ inlineCommentPrefixes)
    (hc : Stops chars b s c) : findFrom chars b (s ++ c :: r) = (s, c :: r) := by
  induction s generalizing b with
  | nil => exact if_pos (hc.imp_right fun h => ⟨h.2, h.1⟩)
  | cons d s ih =>
    obtain ⟨hhead, htail⟩ := List.isChain_cons.mp h.noComment
    have hgo : ¬ (d ∈ chars ∨ (b = true ∧ d ∈ inlineCommentPrefixes)) := by
      rintro (hd | ⟨hb', hd⟩)
      · exact h.notMem d List.mem_cons_self hd
      · exact hb hb' d rfl hd
    have hstops : Stops chars (isspace d) s c := by
      unfold Stops at hc ⊢
      rwa [getD_getLast?_cons] at hc
    rw [List.cons_append, findFrom, if_neg hgo,
      ih ⟨fun c hc => h.notMem c (List.mem_cons_of_mem _ hc), htail⟩
        (fun hspace e he hmem => hhead e he ⟨hspace, hmem⟩) hstops]

/-- What the search stops at. -/
theorem stops_findFrom (h : (findFrom chars b s).2 = c :: r) :
    Stops chars b (findFrom chars b s).1 c := by
  induction s generalizing b with
  | nil => cases h
  | cons d s ih =>
    rw [findFrom] at h ⊢
    split
    · rename_i hstop
      rw [if_pos hstop] at h
      cases h
      exact hstop.imp_right fun h => ⟨h.2, h.1⟩
    · rename_i hgo
      rw [if_neg hgo] at h
      have hstops := ih h
      unfold Stops at hstops ⊢
      rwa [getD_getLast?_cons]

theorem stops_findCharsOrComment (h : (findCharsOrComment s chars).2 = c :: r) :
    Stops chars false (findCharsOrComment s chars).1 c := stops_findFrom h

end Find

/-! ## What a handler can rely on -/

/-- There is neither a terminator nor the end of a line in the string. -/
def OneLine (s : CString) : Prop := 0 ∉ s ∧ newline ∉ s

instance (s : CString) : Decidable (OneLine s) :=
  inferInstanceAs (Decidable (0 ∉ s ∧ newline ∉ s))

theorem OneLine.mono {s r : CString} (h : OneLine s) (hr : r <:+: s) : OneLine r :=
  ⟨fun hmem => h.1 (hr.subset hmem), fun hmem => h.2 (hr.subset hmem)⟩

/-- A name does not start like a line that is no pair. -/
def StartsName (s : CString) : Prop :=
  ∀ c, s.head? = some c → isspace c = false ∧ c ∉ startCommentPrefixes ∧ c ≠ 91

theorem StartsName.mono {s r : CString} (h : StartsName s) (hr : r <+: s) : StartsName r :=
  fun c hc => h c (head_of_isPrefix hr c hc)

/-- A section that the parser has read. -/
structure IsSection (s : CString) : Prop where
  length : s.length ≤ 49
  oneLine : OneLine s
  plain : Plain (ascii "]") s

/-- A name that the parser has read. -/
structure IsName (s : CString) : Prop where
  length : s.length ≤ 198
  oneLine : OneLine s
  plain : Plain (ascii "=:") s
  start : StartsName s

/-- A value that the parser has read. -/
structure IsValue (s : CString) : Prop where
  length : s.length ≤ 198
  oneLine : OneLine s
  trimmed : Trimmed isspace s

/-- The arguments of a call, whatever the file holds. -/
structure Call.WellFormed (e : Call) : Prop where
  sectionName : IsSection e.sectionName
  name : IsName e.name
  value : IsValue e.value

/-- The parts of a line. -/
def Line.WellFormed : Line → Prop
  | .ignored => True
  | .malformed => True
  | .header title => OneLine title ∧ Plain (ascii "]") title
  | .continuation value => IsValue value
  | .pair name value => IsName name ∧ IsValue value ∧ Plain [] value

/-- What `fgets` reads. -/
structure ReadLine (line : CString) : Prop where
  length : line.length ≤ 199
  nonNul : 0 ∉ line
  newline : newline ∉ line.dropLast

theorem readLine_of_mem_fgetsLines {content : List UInt8} {line : CString}
    (h : line ∈ fgetsLines content) : ReadLine line := by
  obtain ⟨l, hl, rfl⟩ := List.mem_map.mp h
  obtain ⟨-, hlength, hnewline⟩ := of_mem_lines (by decide) hl
  have hprefix : toCString l <+: l := List.takeWhile_prefix _
  refine ⟨Nat.le_trans hprefix.length_le hlength, fun hnul => ?_, fun hmem => ?_⟩
  · have hne := List.mem_takeWhile_imp hnul
    simp at hne
  · obtain ⟨r, hr⟩ := hprefix
    refine hnewline ?_
    rw [← hr]
    cases r with
    | nil =>
      rw [List.append_nil]
      exact hmem
    | cons c r =>
      rw [List.dropLast_append_of_ne_nil (List.cons_ne_nil c r)]
      exact List.mem_append_left _ (List.dropLast_subset _ hmem)

/-- `rstrip` takes the end of the line away. -/
theorem newline_notMem_rstrip {s : CString} (h : newline ∉ s.dropLast) : newline ∉ rstrip s := by
  have hprefix : rstrip s <+: s := rdropWhile_isPrefix _ s
  obtain ⟨r, hr⟩ := hprefix
  cases r with
  | nil =>
    rw [List.append_nil] at hr
    intro hmem
    have hne : s ≠ [] := by
      rintro rfl
      cases hmem
    rw [hr, ← List.dropLast_append_getLast hne] at hmem
    rcases List.mem_append.mp hmem with hmem | hmem
    · exact h hmem
    · have hlast := last_rdropWhile isspace s (s.getLast hne) (by
        rw [← rstrip.eq_def, hr, List.getLast?_eq_some_getLast hne])
      rw [← List.mem_singleton.mp hmem] at hlast
      exact absurd hlast (by decide)
  | cons c r =>
    intro hmem
    refine h ?_
    rw [← hr, List.dropLast_append_of_ne_nil (List.cons_ne_nil c r)]
    exact List.mem_append_left _ hmem

/-- The part of a line that the branches look at. -/
theorem lskip_rstrip_isInfix (s : CString) : lskip (rstrip s) <:+: s :=
  (List.dropWhile_suffix _).isInfix.trans (rdropWhile_isPrefix _ s).isInfix

theorem readSection_wellFormed {s title : CString} (hs : OneLine s)
    (h : readSection s = some title) : OneLine title ∧ Plain (ascii "]") title := by
  unfold readSection at h
  dsimp only at h
  split at h
  · cases h
    exact ⟨hs.mono (findFrom_isPrefix _ _ s).isInfix, plain_findCharsOrComment s _⟩
  · cases h

theorem readPair_wellFormed {s name value : CString} (hs : OneLine s) (hlength : s.length ≤ 199)
    (hstart : StartsName s) (h : readPair s = some (name, value)) :
    IsName name ∧ IsValue value ∧ Plain [] value := by
  unfold readPair at h
  have happend := findCharsOrComment_append s (ascii "=:")
  have hplain := plain_findCharsOrComment s (ascii "=:")
  generalize findCharsOrComment s (ascii "=:") = found at h happend hplain
  obtain ⟨before, rest⟩ := found
  cases rest with
  | nil => cases h
  | cons c rest =>
    dsimp only at h happend hplain
    split at h
    · cases h
      have hcut := plain_findCharsOrComment rest []
      have hprefix : (findCharsOrComment rest []).1 <+: rest := findFrom_isPrefix _ _ rest
      have hvalue : rstrip (lskip (findCharsOrComment rest []).1) <:+:
          (findCharsOrComment rest []).1 :=
        (rdropWhile_isPrefix _ _).isInfix.trans (List.dropWhile_suffix _).isInfix
      have hname : rstrip before <+: before := rdropWhile_isPrefix _ before
      have hbefore : before <+: s := ⟨c :: rest, happend⟩
      have hrest : rest <:+ s := ⟨before ++ [c], by rw [← happend]; simp⟩
      have hlen : before.length + (rest.length + 1) = s.length := by
        rw [← happend, List.length_append, List.length_cons]
      have hnameLen := hname.length_le
      have hvalueLen := (hvalue.trans hprefix.isInfix).length_le
      refine ⟨⟨by omega, ?_, ?_, ?_⟩, ⟨by omega, ?_, ?_⟩, hcut.mono hvalue⟩
      · exact hs.mono (hname.trans hbefore).isInfix
      · exact hplain.mono hname.isInfix
      · exact hstart.mono (hname.trans hbefore)
      · exact hs.mono ((hvalue.trans hprefix.isInfix).trans hrest.isInfix)
      · exact trimmed_rdropWhile_dropWhile isspace _
    · cases h

theorem length_drop_skipBom (lineno : Nat) (line : CString) :
    skipBom lineno line + (line.drop (skipBom lineno line)).length = line.length := by
  unfold skipBom
  split
  · rename_i h
    have hlength := congrArg List.length h.2
    rw [List.length_take] at hlength
    have hbom : byteOrderMark.length = 3 := rfl
    rw [List.length_drop]
    omega
  · rw [List.drop_zero]
    omega

/-- What is left of a line when the white space at its ends is gone. -/
structure Start (line : CString) (bom : Nat) (start : CString) : Prop where
  length : start.length ≤ line.length - bom
  shorter : 0 < bom + ((rstrip (line.drop bom)).length - start.length) →
    start.length < line.length
  oneLine : OneLine start
  trimmed : Trimmed isspace start

theorem start_of_readLine {line : CString} (hline : ReadLine line) (lineno : Nat) :
    Start line (skipBom lineno line)
      (lskip (rstrip (line.drop (skipBom lineno line)))) := by
  have hsum := length_drop_skipBom lineno line
  generalize skipBom lineno line = bom at *
  have hnewline : newline ∉ (line.drop bom).dropLast := by
    rw [List.dropLast_drop_eq_drop_dropLast]
    exact fun hmem => hline.newline (List.mem_of_mem_drop hmem)
  have hpart := lskip_rstrip_isInfix (line.drop bom)
  have hskip : lskip (rstrip (line.drop bom)) <:+ rstrip (line.drop bom) := List.dropWhile_suffix _
  have hstrip : rstrip (line.drop bom) <+: line.drop bom := rdropWhile_isPrefix _ _
  have hle := hpart.length_le
  have hskiple := hskip.length_le
  have hstriple := hstrip.length_le
  refine ⟨by omega, fun hpos => by omega, ⟨fun hmem => ?_, fun hmem => ?_⟩,
    trimmed_dropWhile_rdropWhile isspace _⟩
  · exact hline.nonNul (List.mem_of_mem_drop (hpart.subset hmem))
  · exact newline_notMem_rstrip hnewline (hskip.subset hmem)

/-- Whatever the name above it, a line has parts that are well formed. -/
theorem Line.wellFormed_read (prevName : CString) (lineno : Nat) {line : CString}
    (hline : ReadLine line) : (Line.read prevName lineno line).WellFormed := by
  have hstart := start_of_readLine hline (lineno + 1)
  have hlength := hline.length
  unfold Line.read
  dsimp only
  generalize lskip (rstrip (line.drop (skipBom (lineno + 1) line))) = start at *
  cases start with
  | nil => trivial
  | cons b rest =>
    have hle := hstart.length
    dsimp only
    by_cases hcomment : b ∈ startCommentPrefixes
    · rw [if_pos hcomment]
      trivial
    rw [if_neg hcomment]
    split
    · rename_i hindent
      have hlt := hstart.shorter hindent.2
      exact ⟨by omega, hstart.oneLine, hstart.trimmed⟩
    by_cases hbracket : b = 91
    · rw [if_pos hbracket]
      cases htitle : readSection rest with
      | none => trivial
      | some title =>
        exact readSection_wellFormed (hstart.oneLine.mono (List.suffix_cons b rest).isInfix) htitle
    · rw [if_neg hbracket]
      cases hpair : readPair (b :: rest) with
      | none => trivial
      | some pair =>
        refine readPair_wellFormed hstart.oneLine (by omega) (fun c hc => ?_) hpair
        cases hc
        exact ⟨hstart.trimmed.head b rfl, hcomment, hbracket⟩

/-- The section and the name that the parser keeps. -/
structure Cursor.WellFormed (c : Cursor) : Prop where
  sectionName : IsSection c.sectionName
  prevName : IsName c.prevName

theorem strncpy0_isPrefix (src : CString) (size : Nat) : strncpy0 src size <+: src :=
  List.take_prefix (size - 1) src

theorem isSection_strncpy0 {title : CString} (hone : OneLine title)
    (hplain : Plain (ascii "]") title) : IsSection (strncpy0 title MAX_SECTION) where
  length := List.length_take_le _ _
  oneLine := hone.mono (strncpy0_isPrefix _ _).isInfix
  plain := hplain.mono (strncpy0_isPrefix _ _).isInfix

theorem isName_strncpy0 {name : CString} (h : IsName name) (size : Nat) :
    IsName (strncpy0 name size) where
  length := Nat.le_trans (strncpy0_isPrefix _ _).length_le h.length
  oneLine := h.oneLine.mono (strncpy0_isPrefix _ _).isInfix
  plain := h.plain.mono (strncpy0_isPrefix _ _).isInfix
  start := h.start.mono (strncpy0_isPrefix _ _)

theorem isName_nil : IsName [] where
  length := Nat.zero_le _
  oneLine := ⟨List.not_mem_nil, List.not_mem_nil⟩
  plain := plain_nil _
  start c hc := by cases hc

theorem Cursor.wellFormed_init : Cursor.init.WellFormed where
  sectionName := ⟨Nat.zero_le _, ⟨List.not_mem_nil, List.not_mem_nil⟩, plain_nil _⟩
  prevName := isName_nil

theorem Cursor.WellFormed.next {c : Cursor} (hc : c.WellFormed) {l : Line}
    (hl : l.WellFormed) : (c.next l).WellFormed := by
  cases l with
  | ignored => exact ⟨hc.sectionName, hc.prevName⟩
  | malformed => exact ⟨hc.sectionName, hc.prevName⟩
  | header title => exact ⟨isSection_strncpy0 hl.1 hl.2, isName_nil⟩
  | continuation value => exact ⟨hc.sectionName, hc.prevName⟩
  | pair name value => exact ⟨hc.sectionName, isName_strncpy0 hl.1 _⟩

theorem Cursor.WellFormed.call {c : Cursor} (hc : c.WellFormed) {l : Line}
    (hl : l.WellFormed) {e : Call} (he : c.call l = some e) : e.WellFormed := by
  cases l with
  | ignored => cases he
  | malformed => cases he
  | header title => cases he
  | continuation value =>
    cases he
    exact ⟨hc.sectionName, hc.prevName, hl⟩
  | pair name value =>
    cases he
    exact ⟨hc.sectionName, hl.1, hl.2.1⟩

theorem Cursor.WellFormed.calls {c : Cursor} (hc : c.WellFormed) {read : List CString}
    (hread : ∀ line ∈ read, ReadLine line) {e : Call} (he : e ∈ c.calls read) :
    e.WellFormed := by
  induction read generalizing c with
  | nil => cases he
  | cons line read ih =>
    have hline : (c.lineOf line).WellFormed :=
      Line.wellFormed_read _ _ (hread line List.mem_cons_self)
    rw [Cursor.calls] at he
    rcases List.mem_append.mp he with he | he
    · exact hc.call hline (Option.mem_toList.mp he)
    · exact ih (hc.next hline) (fun l hl => hread l (List.mem_cons_of_mem _ hl)) he

/-- Every call for every file is well formed. -/
theorem wellFormed_of_mem_iniCalls {content : List UInt8} {e : Call}
    (he : e ∈ iniCalls content) : e.WellFormed :=
  Cursor.wellFormed_init.calls (fun _ hline => readLine_of_mem_fgetsLines hline) he

/-- The second line of a value: an indented section is no section. -/
theorem wellFormed_continued :
    Call.WellFormed ⟨ascii "fan", ascii "key", ascii "[lock]"⟩ :=
  @wellFormed_of_mem_iniCalls (ascii "[fan]\nkey = 0x43 ;fan\n [lock]\n") _ (by decide +kernel)

end HomeControl
