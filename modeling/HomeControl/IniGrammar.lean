import HomeControl.IniCall

/-!
# The grammar of the configuration file

What the parser takes for a line is said by its loops.  `Spells` says it from the other
side, as a grammar: white space, a comment, a section in brackets, a pair with white space
and a comment around its parts, or the continuation of the pair above.

* `Line.ofStart` is the choice of the branch, once the white space at the two ends is
  known (`Line.read_of_pad`).
* `spells_of_ofStart` and `ofStart_of_spells` are the two directions, and
  `Line.read_eq_iff` puts them together.
* `Reading` is the grammar of a whole file with the calls it stands for, and
  `reading_iff` says that the parser returns 0 exactly for these files, with these calls.
-/

namespace HomeControl

open Text

/-- There is only white space. -/
def Blank (s : CString) : Prop := ∀ c ∈ s, isspace c = true

/-- How a line is written.  A line that `continues` the pair above it is one with white
space in front, so there a section or a pair has to stand at the left margin. -/
inductive Spells (continues : Prop) : CString → Line → Prop where
  | blank {s : CString} (hs : Blank s) : Spells continues s .ignored
  | comment {pre text : CString} {mark : UInt8} (hpre : Blank pre)
      (hmark : mark ∈ startCommentPrefixes) : Spells continues (pre ++ mark :: text) .ignored
  | continuation {pre value post : CString} (hcontinues : continues) (hpre : Blank pre)
      (hindent : pre ≠ []) (hvalue : Trimmed isspace value) (hne : value ≠ [])
      (hmark : ∀ c, value.head? = some c → c ∉ startCommentPrefixes) (hpost : Blank post) :
      Spells continues (pre ++ value ++ post) (.continuation value)
  | header {pre title rest : CString} (hpre : Blank pre) (hmargin : continues → pre = [])
      (htitle : Plain (ascii "]") title) :
      Spells continues (pre ++ 91 :: (title ++ 93 :: rest)) (.header title)
  | pair {pre name pad₁ pad₂ value pad₃ comment : CString} {sep : UInt8} (hpre : Blank pre)
      (hmargin : continues → pre = []) (hname : Trimmed isspace name) (hstart : StartsName name)
      (hplain : Plain (ascii "=:") (name ++ pad₁)) (hpad₁ : Blank pad₁)
      (hempty : name = [] → pad₁ = []) (hsep : sep ∈ ascii "=:") (hpad₂ : Blank pad₂)
      (hvalue : Trimmed isspace value) (hpad₃ : Blank pad₃)
      (hcut : Plain [] (pad₂ ++ value ++ pad₃))
      (hcomment : comment = [] ∨ ∃ text c, comment = 59 :: text ∧
        (pad₂ ++ value ++ pad₃).getLast? = some c ∧ isspace c = true) :
      Spells continues (pre ++ (name ++ pad₁ ++ sep :: (pad₂ ++ value ++ pad₃ ++ comment)))
        (.pair name value)

/-! ## The choice of the branch -/

/-- The branches of the loop, for the line without the white space at its ends. -/
def Line.ofStart (continued : Prop) [Decidable continued] : CString → Line
  | [] => .ignored
  | b :: rest =>
    if b ∈ startCommentPrefixes then .ignored
    else if continued then .continuation (b :: rest)
    else if b = 91 then (readSection rest).elim .malformed .header
    else (readPair (b :: rest)).elim .malformed fun pair => .pair pair.1 pair.2

/-- A byte order mark stands on the first line, where no name can be continued. -/
def Cursor.Started (c : Cursor) : Prop := c.lineno = 0 → c.prevName = []

/-- The line without a byte order mark. -/
def Cursor.unmarked (c : Cursor) (line : CString) : CString :=
  line.drop (skipBom (c.lineno + 1) line)

/-- Behind the first line there is none. -/
theorem Cursor.unmarked_eq {c : Cursor} (hc : c.lineno ≠ 0) (line : CString) :
    c.unmarked line = line := by
  have hzero : skipBom (c.lineno + 1) line = 0 := by
    refine if_neg fun h => hc ?_
    omega
  rw [Cursor.unmarked, hzero, List.drop_zero]

section Branch

variable {continues : Prop} {c : Cursor} {line pre start post t : CString} {l : Line}

theorem lskip_rstrip_of_pad (hpre : Blank pre) (hpost : Blank post)
    (hstart : Trimmed isspace start) :
    lskip (rstrip (pre ++ start ++ post)) = start ∧
      (start ≠ [] → (rstrip (pre ++ start ++ post)).length - start.length = pre.length) := by
  by_cases hne : start = []
  · subst hne
    have hnil : rstrip (pre ++ [] ++ post) = [] := by
      refine List.rdropWhile_eq_nil_iff.mpr fun c hc => ?_
      rw [List.append_nil] at hc
      exact (List.mem_append.mp hc).elim (hpre c) (hpost c)
    rw [hnil]
    exact ⟨rfl, fun h => absurd rfl h⟩
  · obtain ⟨hstrip, hskip⟩ := dropWhile_rdropWhile_pad hpre hpost hstart hne
    rw [rstrip, hstrip]
    refine ⟨hskip, fun _ => ?_⟩
    rw [List.length_append]
    omega

/-- The line with the white space at its ends decides the branch. -/
theorem Cursor.lineOf_of_pad (hc : c.Started) (hpre : Blank pre) (hpost : Blank post)
    (hstart : Trimmed isspace start) (hline : c.unmarked line = pre ++ start ++ post) :
    c.lineOf line = Line.ofStart (c.prevName ≠ [] ∧ pre ≠ []) start := by
  obtain ⟨hskip, hlength⟩ := lskip_rstrip_of_pad hpre hpost hstart
  rw [← hline] at hskip hlength
  unfold Cursor.unmarked at hskip hlength
  unfold Cursor.lineOf Line.read
  dsimp only
  rw [hskip]
  cases start with
  | nil => rfl
  | cons b rest =>
    have hzero : c.prevName ≠ [] → skipBom (c.lineno + 1) line = 0 := by
      intro hprev
      refine if_neg fun h => hprev (hc ?_)
      omega
    have hcontinued : (c.prevName ≠ [] ∧ 0 < skipBom (c.lineno + 1) line +
        ((rstrip (line.drop (skipBom (c.lineno + 1) line))).length - (b :: rest).length)) ↔
        (c.prevName ≠ [] ∧ pre ≠ []) := by
      rw [hlength (List.cons_ne_nil b rest)]
      refine and_congr_right fun hprev => ?_
      rw [hzero hprev, Nat.zero_add, List.length_pos_iff]
    dsimp only [Line.ofStart]
    by_cases hbranch : c.prevName ≠ [] ∧ pre ≠ []
    · rw [if_pos (hcontinued.mpr hbranch), if_pos hbranch]
    · rw [if_neg (mt hcontinued.mp hbranch), if_neg hbranch]

end Branch

/-! ## Sections and pairs -/

section Parts

variable {s title rest name pad₁ pad₂ value pad₃ comment : CString} {sep : UInt8}

theorem readSection_eq (htitle : Plain (ascii "]") title) :
    readSection (title ++ 93 :: rest) = some title := by
  have hfind : findCharsOrComment (title ++ 93 :: rest) (ascii "]") = (title, 93 :: rest) :=
    findFrom_of_stops htitle (fun h => absurd h Bool.false_ne_true) (.inl (by decide))
  rw [readSection, hfind]
  rfl

theorem readSection_eq_some (h : readSection s = some title) :
    ∃ rest, s = title ++ 93 :: rest ∧ Plain (ascii "]") title := by
  unfold readSection at h
  have happend := findCharsOrComment_append s (ascii "]")
  have hplain := plain_findCharsOrComment s (ascii "]")
  generalize findCharsOrComment s (ascii "]") = found at h happend hplain
  obtain ⟨before, after⟩ := found
  dsimp only at h happend hplain
  split at h
  · rename_i hbracket
    cases h
    cases after with
    | nil => cases hbracket
    | cons c after =>
      cases hbracket
      exact ⟨after, happend.symm, hplain⟩
  · cases h

/-- What stands behind a comment is no part of the value. -/
theorem findCharsOrComment_value (hpad₂ : Blank pad₂) (hpad₃ : Blank pad₃)
    (hvalue : Trimmed isspace value) (hcut : Plain [] (pad₂ ++ value ++ pad₃))
    (hcomment : comment = [] ∨ ∃ text c, comment = 59 :: text ∧
      (pad₂ ++ value ++ pad₃).getLast? = some c ∧ isspace c = true) :
    rstrip (lskip (findCharsOrComment (rstrip (pad₂ ++ value ++ pad₃ ++ comment)) []).1) =
      value := by
  rcases hcomment with rfl | ⟨text, c, rfl, hlast, hspace⟩
  · have hprefix : rstrip (pad₂ ++ value ++ pad₃) <+: pad₂ ++ value ++ pad₃ :=
      rdropWhile_isPrefix _ _
    have hfind : findCharsOrComment (rstrip (pad₂ ++ value ++ pad₃)) [] =
        (rstrip (pad₂ ++ value ++ pad₃), []) :=
      findFrom_of_plain (hcut.mono hprefix.isInfix) fun h => absurd h Bool.false_ne_true
    rw [List.append_nil, hfind, (lskip_rstrip_of_pad hpad₂ hpad₃ hvalue).1]
    exact List.rdropWhile_eq_self_iff.mpr fun hne => by
      rw [hvalue.last _ (List.getLast?_eq_some_getLast hne)]
      exact Bool.false_ne_true
  · have hmark : isspace 59 = false := by decide
    have hstops : Stops [] false (pad₂ ++ value ++ pad₃) 59 :=
      .inr ⟨by decide, by rw [hlast]; exact hspace⟩
    have hfind : findCharsOrComment (pad₂ ++ value ++ pad₃ ++ 59 :: rstrip text) [] =
        (pad₂ ++ value ++ pad₃, 59 :: rstrip text) :=
      findFrom_of_stops hcut (fun h => absurd h Bool.false_ne_true) hstops
    have hstrip : rstrip (pad₂ ++ value ++ pad₃ ++ 59 :: text) =
        pad₂ ++ value ++ pad₃ ++ 59 :: rstrip text := rdropWhile_append_cons hmark _ _
    rw [hstrip, hfind]
    exact rdropWhile_dropWhile_pad hpad₂ hpad₃ hvalue

theorem readPair_eq (hname : Trimmed isspace name) (hpad₁ : Blank pad₁)
    (hplain : Plain (ascii "=:") (name ++ pad₁)) (hsep : sep ∈ ascii "=:") (rest : CString) :
    readPair (name ++ pad₁ ++ sep :: rest) =
      some (name, rstrip (lskip (findCharsOrComment rest []).1)) := by
  have hfind : findCharsOrComment (name ++ pad₁ ++ sep :: rest) (ascii "=:") =
      (name ++ pad₁, sep :: rest) :=
    findFrom_of_stops hplain (fun h => absurd h Bool.false_ne_true) (.inl hsep)
  have hchoice : sep = 61 ∨ sep = 58 := by
    have hmem : sep ∈ [(61 : UInt8), 58] := hsep
    simpa using hmem
  have hstrip : rstrip (name ++ pad₁) = name := rdropWhile_pad hpad₁ hname.last
  rw [readPair, hfind]
  dsimp only
  rw [if_pos hchoice, hstrip]

/-- How a pair is written. -/
theorem readPair_eq_some (h : readPair s = some (name, value)) :
    ∃ pad₁ sep pad₂ pad₃ comment,
      s = name ++ pad₁ ++ sep :: (pad₂ ++ value ++ pad₃ ++ comment) ∧
      Plain (ascii "=:") (name ++ pad₁) ∧ Blank pad₁ ∧ sep ∈ ascii "=:" ∧ Blank pad₂ ∧
      Trimmed isspace value ∧ Blank pad₃ ∧ Plain [] (pad₂ ++ value ++ pad₃) ∧
      (∀ c, name.getLast? = some c → isspace c = false) ∧
      (comment = [] ∨ ∃ text c, comment = 59 :: text ∧
        (pad₂ ++ value ++ pad₃).getLast? = some c ∧ isspace c = true) := by
  unfold readPair at h
  have happend := findCharsOrComment_append s (ascii "=:")
  have hplain := plain_findCharsOrComment s (ascii "=:")
  generalize findCharsOrComment s (ascii "=:") = found at h happend hplain
  obtain ⟨before, after⟩ := found
  cases after with
  | nil => cases h
  | cons sep rest =>
    dsimp only at h happend hplain
    split at h
    · rename_i hsep
      cases h
      have hcut := findCharsOrComment_append rest []
      have hcutPlain := plain_findCharsOrComment rest []
      have hstops : ∀ c r, (findCharsOrComment rest []).2 = c :: r →
          Stops [] false (findCharsOrComment rest []).1 c := fun c r => stops_findCharsOrComment
      generalize findCharsOrComment rest [] = found at *
      obtain ⟨cut, comment⟩ := found
      dsimp only at hcut hcutPlain hstops ⊢
      have hvalue : cut = cut.takeWhile isspace ++ rstrip (lskip cut) ++
          (lskip cut).rtakeWhile isspace := by
        rw [List.append_assoc, rstrip, List.rdropWhile_append_rtakeWhile]
        exact List.takeWhile_append_dropWhile.symm
      have hname : before = rstrip before ++ before.rtakeWhile isspace :=
        List.rdropWhile_append_rtakeWhile.symm
      refine ⟨before.rtakeWhile isspace, sep, cut.takeWhile isspace,
        (lskip cut).rtakeWhile isspace, comment, ?_, ?_, fun c hc => List.mem_rtakeWhile_imp hc,
        ?_, fun c hc => List.mem_takeWhile_imp hc, trimmed_rdropWhile_dropWhile isspace cut,
        fun c hc => List.mem_rtakeWhile_imp hc, ?_, last_rdropWhile isspace before, ?_⟩
      · rw [← hname, ← hvalue, hcut, happend]
      · rw [← hname]
        exact hplain
      · rcases hsep with rfl | rfl <;> decide
      · rw [← hvalue]
        exact hcutPlain
      · rw [← hvalue]
        cases comment with
        | nil => exact .inl rfl
        | cons c text =>
          refine .inr ?_
          obtain ⟨hmark, hspace⟩ := (hstops c text rfl).resolve_left List.not_mem_nil
          have hc : c = 59 := by
            have hmem : c ∈ [(59 : UInt8)] := hmark
            exact List.mem_singleton.mp hmem
          cases hlast : cut.getLast? with
          | none =>
            rw [hlast] at hspace
            exact absurd hspace Bool.false_ne_true
          | some d =>
            rw [hlast] at hspace
            exact ⟨text, d, by rw [hc], rfl, hspace⟩
    · cases h

end Parts

/-! ## The grammar of a line -/

section Grammar

variable {continues : Prop} {pre start post t : CString} {l : Line}

theorem Plain.append_blank {chars s : CString} (h : Plain chars s) (hpost : Blank post)
    (hchars : ∀ c ∈ chars, isspace c = false) : Plain chars (s ++ post) where
  notMem c hc hmem := by
    rcases List.mem_append.mp hc with hc | hc
    · exact h.notMem c hc hmem
    · exact absurd (hpost c hc) (by rw [hchars c hmem]; exact Bool.false_ne_true)
  noComment := by
    have hnot : ∀ c, isspace c = true → c ∉ inlineCommentPrefixes := by
      intro c hspace hmem
      have hc : c ∈ [(59 : UInt8)] := hmem
      rw [List.mem_singleton.mp hc] at hspace
      exact absurd hspace (by decide)
    have hblank : post.IsChain fun a b => ¬ (isspace a = true ∧ b ∈ inlineCommentPrefixes) := by
      refine List.Pairwise.isChain (List.pairwise_of_forall_mem_list fun a _ b hb => ?_)
      exact fun hab => hnot b (hpost b hb) hab.2
    refine List.isChain_append.mpr ⟨h.noComment, hblank, fun a _ b hb hab => ?_⟩
    exact hnot b (hpost b (List.mem_of_mem_head? hb)) hab.2

/-- A pair that is found is written as one. -/
theorem spells_of_readPair {b : UInt8} {rest name value : CString} (hpre : Blank pre)
    (hmargin : continues → pre = []) (hpost : Blank post) (hspace : isspace b = false)
    (hcomment : b ∉ startCommentPrefixes) (hbracket : b ≠ 91)
    (hpair : readPair (b :: rest) = some (name, value)) :
    Spells continues (pre ++ b :: rest ++ post) (.pair name value) := by
  obtain ⟨pad₁, sep, pad₂, pad₃, comment, hsplit, hplain, hpad₁, hsep, hpad₂, hvalue, hpad₃,
    hcut, hlast, hend⟩ := readPair_eq_some hpair
  have hhead : ∀ c, (name ++ pad₁).head? = some c → c = b := by
    intro c hc
    have hfirst := head_of_isPrefix (t := b :: rest) ⟨_, hsplit.symm⟩ c hc
    exact (Option.some.inj hfirst).symm
  have hname : ∀ c, name.head? = some c → c = b := fun c hc =>
    hhead c (head_of_isPrefix (List.prefix_append _ _) c hc)
  have hempty : name = [] → pad₁ = [] := by
    rintro rfl
    cases pad₁ with
    | nil => rfl
    | cons d pad₁ =>
      have hd := hpad₁ d List.mem_cons_self
      rw [hhead d rfl, hspace] at hd
      exact absurd hd Bool.false_ne_true
  have htrimmed : Trimmed isspace name := ⟨fun c hc => by rw [hname c hc]; exact hspace, hlast⟩
  have hstarts : StartsName name := fun c hc => by
    rw [hname c hc]
    exact ⟨hspace, hcomment, hbracket⟩
  rw [hsplit]
  rcases hend with rfl | ⟨text, d, rfl, hd⟩
  · -- White space at the end of the line stands behind the value.
    have hline : pre ++ (name ++ pad₁ ++ sep :: (pad₂ ++ value ++ pad₃ ++ [])) ++ post =
        pre ++ (name ++ pad₁ ++ sep :: (pad₂ ++ value ++ (pad₃ ++ post) ++ [])) := by
      simp
    rw [hline]
    refine .pair hpre hmargin htrimmed hstarts hplain hpad₁ hempty hsep hpad₂ hvalue
      (fun c hc => (List.mem_append.mp hc).elim (hpad₃ c) (hpost c)) ?_ (.inl rfl)
    rw [← List.append_assoc]
    exact hcut.append_blank hpost fun c hc => absurd hc List.not_mem_nil
  · -- Behind a comment it is a part of the comment.
    have hline : pre ++ (name ++ pad₁ ++ sep :: (pad₂ ++ value ++ pad₃ ++ 59 :: text)) ++ post =
        pre ++ (name ++ pad₁ ++ sep :: (pad₂ ++ value ++ pad₃ ++ 59 :: (text ++ post))) := by
      simp
    rw [hline]
    exact .pair hpre hmargin htrimmed hstarts hplain hpad₁ hempty hsep hpad₂ hvalue hpad₃ hcut
      (.inr ⟨_, d, rfl, hd⟩)

/-- A line that is taken for something is written that way. -/
theorem spells_of_ofStart [Decidable continues] (hpre : Blank pre) (hpost : Blank post)
    (hstart : Trimmed isspace start)
    (hl : Line.ofStart (continues ∧ pre ≠ []) start = l) (hgood : l ≠ .malformed) :
    Spells continues (pre ++ start ++ post) l := by
  cases start with
  | nil =>
    cases hl
    refine .blank fun c hc => ?_
    rw [List.append_nil] at hc
    exact (List.mem_append.mp hc).elim (hpre c) (hpost c)
  | cons b rest =>
    rw [Line.ofStart] at hl
    by_cases hcomment : b ∈ startCommentPrefixes
    · rw [if_pos hcomment] at hl
      cases hl
      rw [List.append_assoc, List.cons_append]
      exact .comment hpre hcomment
    rw [if_neg hcomment] at hl
    by_cases hcontinued : continues ∧ pre ≠ []
    · rw [if_pos hcontinued] at hl
      cases hl
      refine .continuation hcontinued.1 hpre hcontinued.2 hstart (List.cons_ne_nil b rest) ?_ hpost
      intro c hc
      cases hc
      exact hcomment
    rw [if_neg hcontinued] at hl
    have hmargin : continues → pre = [] := fun h => by_contra fun hne => hcontinued ⟨h, hne⟩
    by_cases hbracket : b = 91
    · rw [if_pos hbracket] at hl
      cases htitle : readSection rest with
      | none =>
        rw [htitle] at hl
        exact absurd hl.symm hgood
      | some title =>
        rw [htitle] at hl
        cases hl
        obtain ⟨after, rfl, hplain⟩ := readSection_eq_some htitle
        rw [hbracket, List.append_assoc, List.cons_append, List.append_assoc, List.cons_append]
        exact .header hpre hmargin hplain
    · rw [if_neg hbracket] at hl
      cases hpair : readPair (b :: rest) with
      | none =>
        rw [hpair] at hl
        exact absurd hl.symm hgood
      | some pair =>
        rw [hpair] at hl
        cases hl
        exact spells_of_readPair hpre hmargin hpost (hstart.head b rfl) hcomment hbracket hpair

theorem trimmed_append_rstrip (s : CString) {c : UInt8}
    (hs : ∀ d, s.head? = some d → isspace d = false) (hc : isspace c = false)
    (rest : CString) : Trimmed isspace (s ++ c :: rstrip rest) where
  head d hd := by
    cases s with
    | nil =>
      cases hd
      exact hc
    | cons e s => exact hs d hd
  last d hd := last_rdropWhile isspace (s ++ c :: rest) d (by
    rw [rdropWhile_append_cons hc]
    exact hd)

/-- A line that is written as something is taken for it. -/
theorem ofStart_of_spells [Decidable continues] (h : Spells continues t l) :
    ∃ pre start post, t = pre ++ start ++ post ∧ Blank pre ∧ Blank post ∧
      Trimmed isspace start ∧ Line.ofStart (continues ∧ pre ≠ []) start = l := by
  have hblank : ∀ rest : CString, Blank (rest.rtakeWhile isspace) := fun rest c hc =>
    List.mem_rtakeWhile_imp hc
  have hsplit : ∀ rest : CString, rstrip rest ++ rest.rtakeWhile isspace = rest := fun rest =>
    List.rdropWhile_append_rtakeWhile
  cases h with
  | blank hs =>
    exact ⟨t, [], [], by simp, hs, fun c hc => absurd hc List.not_mem_nil, trimmed_nil _, rfl⟩
  | @comment pre text mark hpre hmark =>
    have hspace : isspace mark = false := by
      have hmem : mark ∈ [(59 : UInt8), 35] := hmark
      rcases List.mem_pair.mp hmem with rfl | rfl <;> decide
    refine ⟨pre, mark :: rstrip text, text.rtakeWhile isspace, ?_, hpre, hblank text,
      trimmed_append_rstrip [] (fun d hd => by cases hd) hspace text, if_pos hmark⟩
    rw [List.append_assoc, List.cons_append, hsplit]
  | @continuation pre value post hcontinues hpre hindent hvalue hne hmark hpost =>
    refine ⟨pre, value, post, rfl, hpre, hpost, hvalue, ?_⟩
    cases value with
    | nil => exact absurd rfl hne
    | cons b rest => rw [Line.ofStart, if_neg (hmark b rfl), if_pos ⟨hcontinues, hindent⟩]
  | @header pre title rest hpre hmargin htitle =>
    have hspace : isspace 93 = false := by decide
    refine ⟨pre, 91 :: (title ++ 93 :: rstrip rest), rest.rtakeWhile isspace, ?_, hpre,
      hblank rest, trimmed_append_rstrip (91 :: title) (fun d hd => by cases hd; decide)
        hspace rest, ?_⟩
    · simp only [List.append_assoc, List.cons_append, hsplit]
    · rw [Line.ofStart, if_neg (by decide), if_neg fun h => h.2 (hmargin h.1), if_pos rfl,
        readSection_eq htitle]
      rfl
  | @pair pre name pad₁ pad₂ value pad₃ comment sep hpre hmargin hname hstart hplain hpad₁
      hempty hsep hpad₂ hvalue hpad₃ hcut hcomment =>
    have hspace : isspace sep = false := by
      have hmem : sep ∈ [(61 : UInt8), 58] := hsep
      rcases List.mem_pair.mp hmem with rfl | rfl <;> decide
    have hvalue := findCharsOrComment_value hpad₂ hpad₃ hvalue hcut hcomment
    generalize pad₂ ++ value ++ pad₃ ++ comment = rest at *
    have hfirst : ∃ b r, name ++ pad₁ ++ sep :: rstrip rest = b :: r ∧ isspace b = false ∧
        b ∉ startCommentPrefixes ∧ b ≠ 91 := by
      cases name with
      | nil =>
        rw [hempty rfl]
        refine ⟨sep, _, rfl, hspace, ?_⟩
        have hmem : sep ∈ [(61 : UInt8), 58] := hsep
        rcases List.mem_pair.mp hmem with rfl | rfl <;> decide
      | cons b name => exact ⟨b, _, rfl, hstart b rfl⟩
    have hhead : ∀ d, (name ++ pad₁).head? = some d → isspace d = false := by
      obtain ⟨b, r, hb, hnot, -⟩ := hfirst
      intro d hd
      have hd' := head_of_isPrefix ⟨_, hb⟩ d hd
      cases hd'
      exact hnot
    refine ⟨pre, name ++ pad₁ ++ sep :: rstrip rest, rest.rtakeWhile isspace, ?_, hpre,
      hblank rest, trimmed_append_rstrip (name ++ pad₁) hhead hspace rest, ?_⟩
    · simp only [List.append_assoc, List.cons_append, hsplit]
    · have hpair := readPair_eq hname hpad₁ hplain hsep (rstrip rest)
      obtain ⟨b, r, hb, -, hmark, hbracket⟩ := hfirst
      rw [hb] at hpair ⊢
      rw [Line.ofStart, if_neg hmark, if_neg fun h => h.2 (hmargin h.1), if_neg hbracket, hpair,
        hvalue]
      rfl

/-- For every line: the parser takes it for something other than an error exactly when it
is written as that. -/
theorem Cursor.lineOf_eq_iff {c : Cursor} (hc : c.Started) {line : CString}
    (hgood : l ≠ .malformed) :
    c.lineOf line = l ↔ Spells (c.prevName ≠ []) (c.unmarked line) l := by
  constructor
  · intro h
    obtain ⟨pre, post, hpre, hpost, hsplit, -⟩ := exists_pad isspace (c.unmarked line)
    have htrimmed := trimmed_dropWhile_rdropWhile isspace (c.unmarked line)
    have hstart := Cursor.lineOf_of_pad hc hpre hpost htrimmed hsplit
    rw [hsplit]
    exact spells_of_ofStart hpre hpost htrimmed (hstart.symm.trans h) hgood
  · intro h
    obtain ⟨pre, start, post, hsplit, hpre, hpost, hstart, hl⟩ := ofStart_of_spells h
    rw [Cursor.lineOf_of_pad hc hpre hpost hstart hsplit, hl]

end Grammar

/-! ## The grammar of a file -/

/-- A file that is written by the grammar, with the calls that it stands for. -/
inductive Reading : Cursor → List CString → List Call → Prop where
  | done (c : Cursor) : Reading c [] []
  | line {c : Cursor} {line : CString} {l : Line} {read : List CString} {calls : List Call}
      (hl : Spells (c.prevName ≠ []) (c.unmarked line) l) (hread : Reading (c.next l) read calls) :
      Reading c (line :: read) ((c.call l).toList ++ calls)

/-- No line is malformed. -/
def Cursor.Accepts (c : Cursor) : List CString → Prop
  | [] => True
  | line :: read => c.lineOf line ≠ .malformed ∧ (c.next (c.lineOf line)).Accepts read

theorem Cursor.started_next (c : Cursor) (l : Line) : (c.next l).Started := by
  intro h
  rw [Cursor.lineno_next] at h
  exact absurd h (Nat.succ_ne_zero _)

theorem Spells.ne_malformed {continues : Prop} {t : CString} {l : Line}
    (h : Spells continues t l) : l ≠ .malformed := by
  cases h with
  | blank => exact fun h => by cases h
  | comment => exact fun h => by cases h
  | continuation => exact fun h => by cases h
  | header => exact fun h => by cases h
  | pair => exact fun h => by cases h

/-- A section or a pair that may be indented may also stand at the margin: only for a
continuation does it matter whether there is a pair to continue. -/
theorem Spells.mono {p q : Prop} {t : CString} {l : Line} (h : Spells p t l) (hqp : q → p)
    (hl : ∀ value, l ≠ .continuation value) : Spells q t l := by
  cases h with
  | blank hs => exact .blank hs
  | comment hpre hmark => exact .comment hpre hmark
  | continuation => exact absurd rfl (hl _)
  | header hpre hmargin htitle => exact .header hpre (fun hq => hmargin (hqp hq)) htitle
  | pair hpre hmargin hname hstart hplain hpad₁ hempty hsep hpad₂ hvalue hpad₃ hcut hcomment =>
    exact .pair hpre (fun hq => hmargin (hqp hq)) hname hstart hplain hpad₁ hempty hsep hpad₂
      hvalue hpad₃ hcut hcomment

theorem reading_iff {c : Cursor} (hc : c.Started) {read : List CString} {calls : List Call} :
    Reading c read calls ↔ c.Accepts read ∧ c.calls read = calls := by
  induction read generalizing c calls with
  | nil =>
    constructor
    · rintro ⟨⟩
      exact ⟨trivial, rfl⟩
    · rintro ⟨-, rfl⟩
      exact .done c
  | cons line read ih =>
    constructor
    · rintro (_ | ⟨hl, hread⟩)
      have hline := (Cursor.lineOf_eq_iff hc hl.ne_malformed).mpr hl
      obtain ⟨haccepts, hcalls⟩ := (ih (c.started_next _)).mp hread
      refine ⟨⟨by rw [hline]; exact hl.ne_malformed, by rw [hline]; exact haccepts⟩, ?_⟩
      rw [Cursor.calls, hline, hcalls]
    · rintro ⟨⟨hgood, haccepts⟩, rfl⟩
      exact .line ((Cursor.lineOf_eq_iff hc hgood).mp rfl)
        ((ih (c.started_next _)).mpr ⟨haccepts, rfl⟩)

/-- With a handler that never fails, the parser returns 0 when no line is malformed. -/
theorem Parser.error_eq_zero_iff {σ : Type} {handler : IniHandler σ}
    (hok : ∀ user s name value, (handler user s name value).2 = true) (p : Parser σ)
    (read : List CString) :
    (read.foldl (Parser.readLine handler) p).error = 0 ↔
      p.error = 0 ∧ p.cursor.Accepts read := by
  induction read generalizing p with
  | nil => exact (and_iff_left trivial).symm
  | cons line read ih =>
    have hrejects : p.Rejects handler (p.cursor.lineOf line) ↔
        p.cursor.lineOf line = .malformed := by
      refine ⟨fun h => h.resolve_right ?_, .inl⟩
      rintro ⟨e, -, hfail⟩
      rw [Call.run, hok] at hfail
      exact absurd hfail.symm Bool.false_ne_true
    rw [List.foldl_cons, ih, Parser.readLine_eq, Parser.cursor_accept, Cursor.Accepts]
    by_cases hbad : p.cursor.lineOf line = .malformed
    · have hreject := hrejects.mpr hbad
      rw [Parser.error_accept_of_rejects hreject]
      constructor
      · rintro ⟨herror, -⟩
        split at herror
        · exact absurd herror (Nat.succ_ne_zero _)
        · contradiction
      · rintro ⟨-, hgood, -⟩
        exact absurd hbad hgood
    · rw [Parser.error_accept_of_not_rejects (mt hrejects.mp hbad)]
      exact and_congr_right fun _ => (and_iff_right hbad).symm

end HomeControl
