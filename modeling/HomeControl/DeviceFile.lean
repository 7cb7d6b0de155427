import HomeControl.Lib.Numeral
import HomeControl.IniFile

/-!
# Writing the device list down

`peripheral.ini` is the only place where the devices are written down.  Here a device list
is turned into such a file, and the loader gets the list back.

* `decimal` and `hexadecimal` are the numbers as `atoi` and `sscanf` read them.
* `Gdevice.text` is the section of a device.  `iniCalls_text` are the calls it stands for.
* `loadFile_text` is the round trip: the last device of the file is the first of the list.
-/

namespace HomeControl

open Text Numeral

/-! ## Numbers -/

/-- A digit. -/
def digitChar (d : Nat) : UInt8 := UInt8.ofNat (if d < 10 then 48 + d else 87 + d)

theorem digitValue_digitChar {d : Nat} (hd : d < 36) : digitValue (digitChar d) = some d := by
  have hall : ∀ d < 36, digitValue (digitChar d) = some d := by decide
  exact hall d hd

/-- A number in a base of at most 36. -/
def numeral (base n : Nat) : CString := (bigEndian base n).map digitChar

/-- An `int`, as `%d` prints it. -/
def decimal (v : Int) : CString :=
  if v < 0 then 45 :: numeral 10 v.natAbs else numeral 10 v.natAbs

/-- An `int`, as `0x%x` prints it. -/
def hexadecimal (v : Int) : CString := ascii "0x" ++ numeral 16 (v % 0x100000000).toNat

section Numbers

variable (base : Nat)

theorem digits_numeral (hlo : 1 < base) (hhi : base ≤ 36) (n : Nat) :
    digits base (numeral base n) = bigEndian base n := by
  have hvalue : ∀ d ∈ bigEndian base n, digitValue (digitChar d) = some d := fun d hd =>
    digitValue_digitChar (by have hlt := lt_of_mem_bigEndian hlo hd; omega)
  have hall : ∀ c ∈ numeral base n, (digitValue c).any (· < base) = true := by
    intro c hc
    obtain ⟨d, hd, rfl⟩ := List.mem_map.mp hc
    rw [hvalue d hd]
    exact decide_eq_true (lt_of_mem_bigEndian hlo hd)
  rw [digits, List.takeWhile_eq_self_iff.mpr hall, numeral, List.filterMap_map]
  refine (List.filterMap_congr fun d hd => hvalue d hd).trans ?_
  exact List.filterMap_some

theorem number_numeral (hlo : 1 < base) (hhi : base ≤ 36) (n : Nat) :
    number base (numeral base n) = n := by
  rw [number, digits_numeral base hlo hhi]
  exact ofBigEndian_bigEndian base n

/-- A byte that can stand in a word: no white space and no terminator. -/
def Word (s : CString) : Prop := ∀ c ∈ s, isspace c = false ∧ c ≠ 0

instance (s : CString) : Decidable (Word s) :=
  List.decidableBAll (fun c => isspace c = false ∧ c ≠ 0) s

theorem word_numeral (hlo : 1 < base) (hhi : base ≤ 36) (n : Nat) : Word (numeral base n) := by
  have hall : ∀ d < 36, isspace (digitChar d) = false ∧ digitChar d ≠ 0 := by decide
  intro c hc
  obtain ⟨d, hd, rfl⟩ := List.mem_map.mp hc
  exact hall d (by have hlt := lt_of_mem_bigEndian hlo hd; omega)

theorem Word.append {s t : CString} (hs : Word s) (ht : Word t) : Word (s ++ t) :=
  fun c hc => (List.mem_append.mp hc).elim (hs c) (ht c)

theorem word_decimal (v : Int) : Word (decimal v) := by
  have hnumeral := word_numeral 10 (by decide) (by decide) v.natAbs
  rw [decimal]
  split
  · exact Word.append (s := [45]) (by decide +kernel) hnumeral
  · exact hnumeral

theorem word_hexadecimal (v : Int) : Word (hexadecimal v) :=
  Word.append (by decide +kernel) (word_numeral 16 (by decide) (by decide) _)

theorem isInt_bounds {v : Int} (hv : IsInt v) : -0x80000000 ≤ v ∧ v < 0x80000000 := by
  unfold IsInt at hv
  have hlo := Int.le_bmod (x := v) (m := 0x100000000) (by decide)
  have hhi := Int.bmod_lt (x := v) (m := 0x100000000) (by decide)
  omega

/-- A string without a sign in front. -/
theorem splitSign_of_head {s : CString}
    (hs : ∀ c, s.head? = some c → isspace c = false ∧ c ≠ 45 ∧ c ≠ 43) :
    splitSign s = (false, s) := by
  cases s with
  | nil => rfl
  | cons c s =>
    obtain ⟨hspace, hminus, hplus⟩ := hs c rfl
    rw [splitSign, List.dropWhile_cons_of_neg (by rw [hspace]; exact Bool.false_ne_true)]
    split
    · rename_i heq
      cases heq
      exact absurd rfl hminus
    · rename_i heq
      cases heq
      exact absurd rfl hplus
    · rfl

theorem splitSign_numeral (n : Nat) : splitSign (numeral 10 n) = (false, numeral 10 n) := by
  refine splitSign_of_head fun c hc => ?_
  have hall : ∀ d < 10, isspace (digitChar d) = false ∧ digitChar d ≠ 45 ∧ digitChar d ≠ 43 := by
    decide
  obtain ⟨d, hd, rfl⟩ := List.mem_map.mp (List.mem_of_mem_head? hc)
  exact hall d (lt_of_mem_bigEndian (by decide) hd)

theorem splitSign_minus (s : CString) : splitSign (45 :: s) = (true, s) := rfl

/-- `atoi` reads back every `int`. -/
theorem atoi_decimal {v : Int} (hv : IsInt v) : atoi (decimal v) = v := by
  obtain ⟨hlo, hhi⟩ := isInt_bounds hv
  have hnumber := number_numeral 10 (by decide) (by decide) v.natAbs
  by_cases hneg : v < 0
  · have habs : -(v.natAbs : Int) = v := by omega
    rw [decimal, if_pos hneg, atoi, splitSign_minus]
    dsimp only
    rw [hnumber, if_pos rfl, habs, max_eq_right (by omega)]
    exact hv
  · have habs : (v.natAbs : Int) = v := by omega
    rw [decimal, if_neg hneg, atoi, splitSign_numeral]
    dsimp only
    rw [hnumber, if_neg Bool.false_ne_true, habs, min_eq_right (by omega)]
    exact hv

/-- `sscanf` reads back every `int`. -/
theorem sscanfX_hexadecimal {v : Int} (hv : IsInt v) : sscanfX (hexadecimal v) = some v := by
  have hsign : splitSign (hexadecimal v) = (false, hexadecimal v) :=
    splitSign_of_head fun c hc => by
      cases hc
      decide
  have hskip : skip0x (hexadecimal v) = numeral 16 (v % 0x100000000).toNat := rfl
  have hdigits := digits_numeral 16 (by decide) (by decide) (v % 0x100000000).toNat
  have hnumber := number_numeral 16 (by decide) (by decide) (v % 0x100000000).toNat
  rw [sscanfX, hsign]
  dsimp only
  rw [hskip, hdigits, hnumber, if_neg (bigEndian_ne_nil _ _), if_pos (by omega),
    if_neg Bool.false_ne_true]
  have hcast : ((v % 0x100000000).toNat : Int) = v % 0x100000000 := by omega
  rw [hcast, toInt]
  exact congrArg some ((Int.emod_bmod v 0x100000000).trans hv)

end Numbers

/-! ## Sections of a file -/

/-- A name and a value that can be written next to each other in a line. -/
structure Writable (pair : CString × CString) : Prop where
  name : Word pair.1
  start : StartsName pair.1
  plain : Plain (ascii "=:") pair.1
  value : Word pair.2
  length : pair.1.length + pair.2.length ≤ 197

/-- The line of a pair. -/
def pairLine (pair : CString × CString) : List UInt8 := pair.1 ++ 61 :: pair.2

/-- The text of a section: its name, and a line for each pair. -/
def sectionText (title : CString) (pairs : List (CString × CString)) : List UInt8 :=
  91 :: (title ++ [93]) ++ newline :: pairs.flatMap fun pair => pairLine pair ++ [newline]

section Section

variable {c : Cursor} {pair : CString × CString} {pairs : List (CString × CString)}

theorem Word.trimmed {s : CString} (h : Word s) : Trimmed isspace s where
  head c hc := (h c (List.mem_of_mem_head? hc)).1
  last c hc := (h c (List.mem_of_getLast? hc)).1

theorem Word.oneLine {s : CString} (h : Word s) : OneLine s := by
  refine ⟨fun hmem => (h 0 hmem).2 rfl, fun hmem => ?_⟩
  exact absurd (h newline hmem).1 (by decide)

theorem Word.plain {s : CString} (h : Word s) : Plain [] s where
  notMem _ _ := List.not_mem_nil
  noComment := by
    refine List.Pairwise.isChain (List.pairwise_of_forall_mem_list fun a ha b _ hab => ?_)
    exact absurd hab.1 (by rw [(h a ha).1]; exact Bool.false_ne_true)

theorem Word.cons {b : UInt8} {s : CString} (hb : isspace b = false ∧ b ≠ 0) (hs : Word s) :
    Word (b :: s) := by
  intro c hc
  rcases List.mem_cons.mp hc with rfl | hc
  · exact hb
  · exact hs c hc

theorem Writable.word_pairLine (h : Writable pair) : Word (pairLine pair) :=
  h.name.append (Word.cons (by decide) h.value)

/-- The parser reads the pair that was written. -/
theorem Writable.lineOf (h : Writable pair) (hc : c.lineno ≠ 0) :
    c.lineOf (pairLine pair ++ [newline]) = .pair pair.1 pair.2 := by
  have hblank : Blank [newline] := by
    intro d hd
    rw [List.mem_singleton.mp hd]
    decide
  have hnil : Blank [] := fun d hd => absurd hd List.not_mem_nil
  have hcut : Plain [] ([] ++ pair.2 ++ [newline]) :=
    h.value.plain.append_blank hblank fun d hd => absurd hd List.not_mem_nil
  have hspells : Spells (c.prevName ≠ [])
      ([] ++ (pair.1 ++ [] ++ 61 :: ([] ++ pair.2 ++ [newline] ++ []))) (.pair pair.1 pair.2) := by
    refine .pair hnil (fun _ => rfl) h.name.trimmed h.start ?_ hnil (fun _ => rfl) (by decide) hnil
      h.value.trimmed hblank hcut (.inl rfl)
    rw [List.append_nil]
    exact h.plain
  rw [Cursor.lineOf_eq_iff (fun hzero => absurd hzero hc) (by intro h; cases h),
    Cursor.unmarked_eq hc]
  have hline : pairLine pair ++ [newline] =
      [] ++ (pair.1 ++ [] ++ 61 :: ([] ++ pair.2 ++ [newline] ++ [])) := by
    simp [pairLine]
  rw [hline]
  exact hspells

/-- The calls of some pairs. -/
theorem calls_pairs (hpairs : ∀ pair ∈ pairs, Writable pair) (hc : c.lineno ≠ 0) :
    c.calls (fgetsLines (pairs.flatMap fun pair => pairLine pair ++ [newline])) =
      pairs.map fun pair => ⟨c.sectionName, pair.1, pair.2⟩ := by
  induction pairs generalizing c with
  | nil => rfl
  | cons pair pairs ih =>
    have hpair := hpairs pair List.mem_cons_self
    have hlength : (pairLine pair).length ≤ 198 := by
      have hlen := hpair.length
      rw [pairLine, List.length_append, List.length_cons]
      omega
    rw [List.flatMap_cons, List.append_assoc, List.singleton_append,
      fgetsLines_line hpair.word_pairLine.oneLine hlength, Cursor.calls, hpair.lineOf hc,
      ih (fun pair h => hpairs pair (List.mem_cons_of_mem _ h))
        (by rw [Cursor.lineno_next]; exact Nat.succ_ne_zero _)]
    rfl

/-- The calls of a section that is written down. -/
theorem iniCalls_sectionText {title : CString} (htitle : OneLine title)
    (hplain : Plain (ascii "]") title) (hlength : title.length ≤ 49)
    (hpairs : ∀ pair ∈ pairs, Writable pair) :
    iniCalls (sectionText title pairs) = pairs.map fun pair => ⟨title, pair.1, pair.2⟩ := by
  have hone : OneLine (91 :: (title ++ [93])) := by
    constructor
    · simp only [List.mem_cons, List.mem_append, List.not_mem_nil, or_false, not_or]
      exact ⟨by decide, htitle.1, by decide⟩
    · simp only [List.mem_cons, List.mem_append, List.not_mem_nil, or_false, not_or]
      exact ⟨by decide, htitle.2, by decide⟩
  have hlen : (91 :: (title ++ [93])).length ≤ 198 := by
    simp only [List.length_cons, List.length_append, List.length_nil]
    omega
  have hheader : Cursor.init.lineOf (91 :: (title ++ [93]) ++ [newline]) = .header title := by
    have hspells : Spells (Cursor.init.prevName ≠ [])
        ([] ++ 91 :: (title ++ 93 :: [newline])) (.header title) :=
      .header (fun d hd => absurd hd List.not_mem_nil) (fun _ => rfl) hplain
    have hline : 91 :: (title ++ [93]) ++ [newline] = 91 :: (title ++ 93 :: [newline]) := by simp
    have hbom : Cursor.init.unmarked (91 :: (title ++ 93 :: [newline])) =
        91 :: (title ++ 93 :: [newline]) := by
      have hzero : skipBom 1 (91 :: (title ++ 93 :: [newline])) = 0 := by
        refine if_neg fun h => ?_
        exact absurd (congrArg List.head? h.2) (by simp [byteOrderMark])
      show List.drop (skipBom 1 _) _ = _
      rw [hzero, List.drop_zero]
    rw [hline, Cursor.lineOf_eq_iff (fun _ => rfl) (by intro h; cases h), hbom]
    exact hspells
  have hsection : strncpy0 title MAX_SECTION = title := List.take_of_length_le hlength
  rw [iniCalls, sectionText, fgetsLines_line hone hlen, Cursor.calls, hheader,
    calls_pairs hpairs (Nat.succ_ne_zero _)]
  show [] ++ pairs.map (fun pair => (⟨strncpy0 title MAX_SECTION, pair.1, pair.2⟩ : Call)) = _
  rw [hsection, List.nil_append]

end Section

/-! ## Devices -/

/-- `gpio_mode` as it is written. -/
def modeWord (gpioMode : Int) : CString :=
  if gpioMode = OUTPUT then ascii "OUTPUT" else ascii "INPUT"

/-- `gpio_status` as it is written. -/
def statusWord (gpioStatus : Int) : CString :=
  if gpioStatus = HIGH then ascii "HIGH" else ascii "LOW"

/-- The pairs of a device. -/
def Gdevice.pairs (d : Gdevice) : List (CString × CString) :=
  [(ascii "key", hexadecimal d.key), (ascii "gpio_pin", decimal d.gpioPin),
    (ascii "gpio_mode", modeWord d.gpioMode), (ascii "gpio_status", statusWord d.gpioStatus),
    (ascii "check_face_status", decimal d.checkFaceStatus),
    (ascii "voice_set_status", decimal d.voiceSetStatus)]

/-- The section of a device in the file. -/
def Gdevice.text (d : Gdevice) : List UInt8 := sectionText d.devName d.pairs

/-- A device that can be written down: its name fits in a line and in `dev_name`, and its
members hold what the loader can store. -/
structure Gdevice.WellFormed (d : Gdevice) : Prop where
  oneLine : OneLine d.devName
  plain : Plain (ascii "]") d.devName
  length : d.devName.length ≤ 35
  key : IsInt d.key
  gpioPin : IsInt d.gpioPin
  gpioMode : d.gpioMode = INPUT ∨ d.gpioMode = OUTPUT
  gpioStatus : d.gpioStatus = LOW ∨ d.gpioStatus = HIGH
  checkFaceStatus : IsInt d.checkFaceStatus
  voiceSetStatus : IsInt d.voiceSetStatus

section Device

variable {d : Gdevice}

theorem length_decimal_le {v : Int} (hv : IsInt v) : (decimal v).length ≤ 11 := by
  obtain ⟨hlo, hhi⟩ := isInt_bounds hv
  have hlength : (bigEndian 10 v.natAbs).length ≤ 10 :=
    length_bigEndian_le (by decide) (by decide) (by omega)
  rw [decimal]
  split
  · rw [List.length_cons, numeral, List.length_map]
    omega
  · rw [numeral, List.length_map]
    omega

theorem length_hexadecimal_le (v : Int) : (hexadecimal v).length ≤ 10 := by
  have hlength : (bigEndian 16 (v % 0x100000000).toNat).length ≤ 8 :=
    length_bigEndian_le (by decide) (by decide) (by omega)
  have hprefix : (ascii "0x").length = 2 := rfl
  rw [hexadecimal, List.length_append, numeral, List.length_map, hprefix]
  omega

/-- The six names of `handler`. -/
def fieldNames : List CString :=
  [ascii "key", ascii "gpio_pin", ascii "gpio_mode", ascii "gpio_status",
    ascii "check_face_status", ascii "voice_set_status"]

instance (s : CString) : Decidable (StartsName s) :=
  match s with
  | [] => isTrue fun c hc => by cases hc
  | b :: _ =>
    decidable_of_iff (isspace b = false ∧ b ∉ startCommentPrefixes ∧ b ≠ 91)
      ⟨fun h c hc => by cases hc; exact h, fun h => h b rfl⟩

theorem writable_of_fieldName {name value : CString} (hname : name ∈ fieldNames)
    (hvalue : Word value) (hlength : value.length ≤ 100) : Writable (name, value) := by
  have hall : ∀ name ∈ fieldNames, Word name ∧ StartsName name ∧ Plain (ascii "=:") name ∧
      name.length ≤ 17 := by decide +kernel
  obtain ⟨hword, hstart, hplain, hlen⟩ := hall name hname
  exact ⟨hword, hstart, hplain, hvalue, by dsimp only; omega⟩

theorem Gdevice.WellFormed.writable (h : d.WellFormed) : ∀ pair ∈ d.pairs, Writable pair := by
  have hmode : Word (modeWord d.gpioMode) ∧ (modeWord d.gpioMode).length ≤ 100 := by
    rw [modeWord]
    split <;> decide +kernel
  have hstatus : Word (statusWord d.gpioStatus) ∧ (statusWord d.gpioStatus).length ≤ 100 := by
    rw [statusWord]
    split <;> decide +kernel
  have hdecimal : ∀ v, IsInt v → (decimal v).length ≤ 100 := fun v hv =>
    Nat.le_trans (length_decimal_le hv) (by decide)
  have hkey := length_hexadecimal_le d.key
  intro pair hpair
  simp only [Gdevice.pairs, List.mem_cons, List.not_mem_nil, or_false] at hpair
  rcases hpair with rfl | rfl | rfl | rfl | rfl | rfl
  · exact writable_of_fieldName (by decide) (word_hexadecimal _) (by omega)
  · exact writable_of_fieldName (by decide) (word_decimal _) (hdecimal _ h.gpioPin)
  · exact writable_of_fieldName (by decide) hmode.1 hmode.2
  · exact writable_of_fieldName (by decide) hstatus.1 hstatus.2
  · exact writable_of_fieldName (by decide) (word_decimal _) (hdecimal _ h.checkFaceStatus)
  · exact writable_of_fieldName (by decide) (word_decimal _) (hdecimal _ h.voiceSetStatus)

theorem Gdevice.WellFormed.iniCalls_text (h : d.WellFormed) :
    iniCalls d.text = d.pairs.map fun pair => ⟨d.devName, pair.1, pair.2⟩ :=
  iniCalls_sectionText h.oneLine h.plain (Nat.le_trans h.length (by decide)) h.writable

/-- The entry of a pair, with a section that fits. -/
def Gdevice.WellFormed.event (h : d.WellFormed) (pair : CString × CString) : Event :=
  ⟨d.devName, pair.1, pair.2, h.length⟩

/-- Entries of one section make one record. -/
theorem load_of_sectionName {es : List Event} {name : CString} (hne : es ≠ [])
    (hes : ∀ e ∈ es, e.sectionName = name) : load es = [Gdevice.ofSection es] := by
  induction es using List.reverseRecOn with
  | nil => exact absurd rfl hne
  | append_singleton es e ih =>
    rw [load, List.foldl_append]
    show handler (load es) e = _
    by_cases hnil : es = []
    · rw [hnil]
      exact congrArg (fun d => [d]) (Gdevice.store_zeroed e)
    · have hbefore : ∀ e' ∈ es, e'.sectionName = name := fun e' he' =>
        hes e' (List.mem_append_left _ he')
      have hsection : e.sectionName = (Gdevice.ofSection es).devName := by
        rw [hes e (List.mem_append_right _ (List.mem_singleton_self e)), Gdevice.ofSection,
          List.getLast?_eq_some_getLast hnil]
        exact (hbefore _ (List.getLast_mem hnil)).symm
      have hstep : handler [Gdevice.ofSection es] e = [(Gdevice.ofSection es).store e] :=
        if_neg (not_not.mpr hsection)
      rw [ih hnil hbefore, hstep, Gdevice.store_ofSection hsection]

theorem readWord_modeWord (h : d.gpioMode = INPUT ∨ d.gpioMode = OUTPUT) :
    readWord (ascii "INPUT") (ascii "OUTPUT") (modeWord d.gpioMode) = some d.gpioMode := by
  rcases h with h | h
  · rw [h]
    decide
  · rw [h]
    decide

theorem readWord_statusWord (h : d.gpioStatus = LOW ∨ d.gpioStatus = HIGH) :
    readWord (ascii "LOW") (ascii "HIGH") (statusWord d.gpioStatus) = some d.gpioStatus := by
  rcases h with h | h
  · rw [h]
    decide
  · rw [h]
    decide

/-- The record of a section that is written down is the device. -/
theorem Gdevice.WellFormed.ofSection_pairs (h : d.WellFormed) :
    Gdevice.ofSection (d.pairs.map h.event) = d := by
  have hkey := sscanfX_hexadecimal h.key
  have hpin := atoi_decimal h.gpioPin
  have hmode := readWord_modeWord h.gpioMode
  have hstatus := readWord_statusWord h.gpioStatus
  have hface := atoi_decimal h.checkFaceStatus
  have hvoice := atoi_decimal h.voiceSetStatus
  simp +decide only [Gdevice.ofSection, Gdevice.pairs, List.map_cons, List.map_nil,
    LastWrite.lastWrite_cons, LastWrite.lastWrite_nil, setsKey, setsPin, setsMode, setsStatus,
    setsCheckFace, setsVoiceSet, Event.sets, Gdevice.WellFormed.event, if_true, if_false,
    Function.comp_apply, hkey, hpin, hmode, hstatus, hface, hvoice, Option.getD_some,
    Option.getD_none]
  rfl

theorem Gdevice.WellFormed.iniEntries_text (h : d.WellFormed) :
    iniEntries d.text = d.pairs.map fun pair => ⟨d.devName, pair.1, pair.2, h.oneLine.1⟩ := by
  rw [iniEntries, h.iniCalls_text, List.map_map]
  refine List.map_congr_left fun pair _ => ?_
  have htitle : toCString d.devName = d.devName := toCString_eq h.oneLine.1
  simp only [Function.comp_apply, Call.toEntry, htitle]

/-- The file with one device. -/
theorem Gdevice.WellFormed.loadFile_text (h : d.WellFormed) :
    (loadFile d.text).map Record.toGdevice = [d] := by
  have hsection : ∀ pair : CString × CString,
      (⟨d.devName, pair.1, pair.2, h.oneLine.1⟩ : Entry).sectionName = d.devName := fun _ =>
    List.take_of_length_le (Nat.le_trans h.length (by decide))
  have hfits : ∀ pair : CString × CString,
      (⟨d.devName, pair.1, pair.2, h.oneLine.1⟩ : Entry).sectionName.length ≤ 35 := fun pair => by
    rw [hsection pair]
    exact h.length
  have hrefines := Record.load_refines (d.pairs.map fun pair => ⟨_, hfits pair⟩)
  rw [List.map_map, List.map_map] at hrefines
  have hevents : d.pairs.map ((fun e : {e : Entry // e.sectionName.length ≤ 35} =>
      e.1.toEvent e.2) ∘ fun pair => ⟨_, hfits pair⟩) = d.pairs.map h.event := by
    refine List.map_congr_left fun pair _ => ?_
    simp only [Function.comp_apply, Entry.toEvent, hsection, Gdevice.WellFormed.event]
  have hname : ∀ e ∈ d.pairs.map h.event, e.sectionName = d.devName := by
    intro e he
    obtain ⟨pair, -, rfl⟩ := List.mem_map.mp he
    rfl
  rw [hevents, load_of_sectionName (by simp [Gdevice.pairs]) hname, h.ofSection_pairs] at hrefines
  rw [loadFile, h.iniEntries_text]
  exact hrefines

theorem closed_flatMap_pairs (pairs : List (CString × CString)) :
    Closed newline (pairs.flatMap fun pair => pairLine pair ++ [newline]) := by
  induction pairs with
  | nil => exact closed_nil newline
  | cons pair pairs ih => exact (closed_concat newline _).append ih

theorem closed_sectionText (title : CString) (pairs : List (CString × CString)) :
    Closed newline (sectionText title pairs) := by
  have hclosed :=
    (closed_concat newline (91 :: (title ++ [93]))).append (closed_flatMap_pairs pairs)
  rw [List.append_assoc, List.singleton_append] at hclosed
  exact hclosed

theorem startsWithSection_sectionText {title : CString} (htitle : OneLine title)
    (hplain : Plain (ascii "]") title) (hlength : title.length ≤ 197)
    (pairs : List (CString × CString)) : StartsWithSection (sectionText title pairs) := by
  refine ⟨title, newline :: pairs.flatMap fun pair => pairLine pair ++ [newline], ?_, htitle,
    hplain, hlength⟩
  rw [sectionText, List.cons_append, List.append_assoc, List.singleton_append]

end Device

/-- The file of a device list. -/
def devicesText (ds : List Gdevice) : List UInt8 := ds.flatMap Gdevice.text

theorem closed_devicesText (ds : List Gdevice) : Closed newline (devicesText ds) := by
  induction ds with
  | nil => exact closed_nil newline
  | cons d ds ih => exact (closed_sectionText d.devName d.pairs).append ih

/-- The loader reads back every list that is written down, when no two neighbours have the
same name.  It links the last device first. -/
theorem loadFile_devicesText (ds : List Gdevice) (hds : ∀ d ∈ ds, d.WellFormed)
    (hnames : ds.IsChain fun d d' => d.devName ≠ d'.devName) :
    (loadFile (devicesText ds)).map Record.toGdevice = ds.reverse := by
  induction ds using List.reverseRecOn with
  | nil => rfl
  | append_singleton ds d ih =>
    obtain ⟨hchain, -, hlast⟩ := List.isChain_append.mp hnames
    have hd : d.WellFormed := hds d (List.mem_append_right _ (List.mem_singleton_self d))
    have hold := ih (fun d' hd' => hds d' (List.mem_append_left _ hd')) hchain
    have htext : devicesText (ds ++ [d]) = devicesText ds ++ d.text := by
      rw [devicesText, List.flatMap_append, List.flatMap_singleton]
      rfl
    have hstarts : StartsWithSection d.text :=
      startsWithSection_sectionText hd.oneLine hd.plain (Nat.le_trans hd.length (by decide)) d.pairs
    have hnew : ∀ e, (iniEntries d.text).head? = some e →
        Creates (loadFile (devicesText ds)) e := by
      intro e he r hr hsame
      rw [hd.iniEntries_text, Gdevice.pairs, List.map_cons, List.head?_cons] at he
      cases he
      have hsection : strncpy0 d.devName MAX_SECTION = d.devName :=
        List.take_of_length_le (Nat.le_trans hd.length (by decide))
      have hhead : ds.getLast? = some r.toGdevice := by
        rw [← List.head?_reverse, ← hold, List.head?_map, hr, Option.map_some]
      refine hlast r.toGdevice hhead d rfl ?_
      exact hsame.symm.trans hsection
    have hload : loadFile (devicesText ds ++ d.text) =
        loadFile d.text ++ loadFile (devicesText ds) := by
      rw [loadFile, iniEntries_append (closed_devicesText ds) hstarts, List.foldl_append]
      exact Record.foldl_handler_creates hnew
    rw [htext, hload, List.map_append, hd.loadFile_text, hold, List.reverse_concat]
    rfl

/-- The devices of `ini/peripheral.ini`, written down and loaded again. -/
theorem loadFile_devicesText_peripheral :
    (loadFile (devicesText peripheral.reverse)).map Record.toGdevice =
      peripheral.reverse.reverse := by
  refine loadFile_devicesText peripheral.reverse (fun d hd => ?_) (by decide)
  have hall : ∀ d ∈ peripheral.reverse, (OneLine d.devName ∧ Plain (ascii "]") d.devName ∧
      d.devName.length ≤ 35) ∧ (IsInt d.key ∧ IsInt d.gpioPin) ∧
      (d.gpioMode = INPUT ∨ d.gpioMode = OUTPUT) ∧ (d.gpioStatus = LOW ∨ d.gpioStatus = HIGH) ∧
      IsInt d.checkFaceStatus ∧ IsInt d.voiceSetStatus := by
    unfold IsInt OneLine
    decide +kernel
  obtain ⟨⟨hone, hplain, hlength⟩, ⟨hkey, hpin⟩, hmode, hstatus, hface, hvoice⟩ := hall d hd
  exact ⟨hone, hplain, hlength, hkey, hpin, hmode, hstatus, hface, hvoice⟩

end HomeControl
