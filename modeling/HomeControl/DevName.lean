import HomeControl.Lib.Bytes
import HomeControl.Loader

/-!
# Device records in memory

`handler` copies the name of a section into `dev_name` with `strcpy`, which does not
look at the 36 bytes that the array has.  `ini_parse_stream` delivers names of up to 49
bytes.

* `Record` is the memory of a `struct gdevice`, and `Record.handler` is `handler` on
  such records.
* `Record.load_refines` connects it to `load`: for names of at most 35 bytes the two
  build the same list.
* `NameFits` says that the copy of a name stays in `dev_name` and what follows from it,
  and `nameFits_iff` that this holds exactly for the names of at most 35 bytes.
-/

namespace HomeControl

open SharedMemory Bytes

/-! ## What the parser delivers -/

/-- `MAX_SECTION`. -/
def MAX_SECTION : Nat := 50

/-- `strncpy0`: as much of the string as fits in `size` bytes with its terminator. -/
def strncpy0 (src : CString) (size : Nat) : CString := src.take (size - 1)

/-- An entry of the file.  `title` is what stands between the brackets of the section
line above it. -/
structure Entry where
  title : CString
  name : CString
  value : CString
  nonNul : 0 ∉ title

/-- The section that `ini_parse_stream` passes to `handler`. -/
def Entry.sectionName (e : Entry) : CString := strncpy0 e.title MAX_SECTION

theorem Entry.length_sectionName (e : Entry) : e.sectionName.length ≤ 49 :=
  List.length_take_le _ _

theorem Entry.nonNul_sectionName (e : Entry) : 0 ∉ e.sectionName :=
  fun h => e.nonNul (List.mem_of_mem_take h)

/-! ## A record in memory -/

/-- The `int` members of `struct gdevice`. -/
inductive Field where
  | key
  | gpioPin
  | gpioMode
  | gpioStatus
  | checkFaceStatus
  | voiceSetStatus
  deriving DecidableEq

/-- `sizeof(dev_name)`. -/
def devNameSize : Nat := 36

/-- The offset of a member.  The name comes first. -/
def Field.offset : Field → Nat
  | .key => 36
  | .gpioPin => 40
  | .gpioMode => 44
  | .gpioStatus => 48
  | .checkFaceStatus => 52
  | .voiceSetStatus => 56

/-- A `struct gdevice` without its `next` pointer: 60 bytes of members, and padding up
to byte 64, to which nothing but the `memset` writes. -/
structure Record where
  bytes : Cells UInt8
  padding : ∀ i, 60 ≤ i → bytes i = 0

theorem Field.offset_bounds (f : Field) : devNameSize ≤ f.offset ∧ f.offset + 4 ≤ 60 := by
  cases f <;> decide

/-- Two members do not overlap. -/
theorem Field.offset_ne {f g : Field} (h : f ≠ g) :
    g.offset + 4 ≤ f.offset ∨ f.offset + 4 ≤ g.offset := by
  cases f <;> cases g <;> first | exact absurd rfl h | decide

def Record.get (r : Record) (f : Field) : Int := loadInt r.bytes f.offset

def Record.set (r : Record) (f : Field) (v : Int) : Record where
  bytes := storeInt r.bytes f.offset v
  padding i hi := by
    have hbounds := f.offset_bounds
    rw [storeInt_of_outside r.bytes v (by omega), r.padding i hi]

/-- The name that `strcmp` sees.  It ends in the padding at the latest. -/
def Record.devName (r : Record) : CString := cstring r.bytes 64

/-- The copy of a name ends before the padding. -/
theorem Entry.padding_strcpy (e : Entry) (i : Nat) (hi : 60 ≤ i) :
    strcpy (memset 0) e.sectionName i = 0 := by
  have hlen := e.length_sectionName
  refine strcpy_of_notMem _ ?_
  rw [strcpyWrites, List.mem_range]
  omega

/-- `malloc`, `memset`, and the copy of the name. -/
def Record.create (e : Entry) : Record where
  bytes := strcpy (memset 0) e.sectionName
  padding := e.padding_strcpy

/-! ## `handler` on records -/

/-- `MATCH`. -/
def Entry.isMatch (e : Entry) (s n : CString) : Prop := e.sectionName = s ∧ e.name = n

instance (e : Entry) (s n : CString) : Decidable (e.isMatch s n) :=
  inferInstanceAs (Decidable (_ ∧ _))

/-- The second half of `handler`: the assignment to the record at the head. -/
def Record.store (pdevhead : Record) (e : Entry) : Record :=
  if e.isMatch pdevhead.devName (ascii "key") then
    match sscanfX e.value with
    | some key => pdevhead.set .key key
    | none => pdevhead
  else if e.isMatch pdevhead.devName (ascii "gpio_pin") then
    pdevhead.set .gpioPin (atoi e.value)
  else if e.isMatch pdevhead.devName (ascii "gpio_mode") then
    if e.value = ascii "OUTPUT" then pdevhead.set .gpioMode OUTPUT
    else if e.value = ascii "INPUT" then pdevhead.set .gpioMode INPUT
    else pdevhead
  else if e.isMatch pdevhead.devName (ascii "gpio_status") then
    if e.value = ascii "LOW" then pdevhead.set .gpioStatus LOW
    else if e.value = ascii "HIGH" then pdevhead.set .gpioStatus HIGH
    else pdevhead
  else if e.isMatch pdevhead.devName (ascii "check_face_status") then
    pdevhead.set .checkFaceStatus (atoi e.value)
  else if e.isMatch pdevhead.devName (ascii "voice_set_status") then
    pdevhead.set .voiceSetStatus (atoi e.value)
  else pdevhead

/-- `handler`: the list of records after one entry. -/
def Record.handler (pdevhead : List Record) (e : Entry) : List Record :=
  match pdevhead with
  | [] => [(Record.create e).store e]
  | d :: rest =>
    if e.sectionName ≠ d.devName then (Record.create e).store e :: d :: rest
    else d.store e :: rest

/-! ## Names that end inside `dev_name` -/

/-- The record starts with the string, and its terminator lies in `dev_name`. -/
structure Record.Named (r : Record) (s : CString) : Prop where
  holds : Holds r.bytes s
  nonNul : 0 ∉ s
  fits : s.length < devNameSize

theorem Record.Named.devName_eq {r : Record} {s : CString} (h : r.Named s) : r.devName = s := by
  have hfits := h.fits
  exact cstring_eq_of_holds h.holds h.nonNul (by rw [devNameSize] at hfits; omega)

theorem Record.named_create {e : Entry} (h : e.sectionName.length ≤ 35) :
    (Record.create e).Named e.sectionName where
  holds := holds_strcpy _ _
  nonNul := e.nonNul_sectionName
  fits := by rw [devNameSize]; omega

/-- An assignment to a member leaves such a name. -/
theorem Record.Named.set {r : Record} {s : CString} (h : r.Named s) (f : Field) (v : Int) :
    (r.set f v).Named s := by
  refine { h with holds := h.holds.of_eq fun i hi => ?_ }
  have hfits := h.fits
  have hbounds := f.offset_bounds
  exact storeInt_of_outside r.bytes v (by omega)

/-- The assignment of `handler` is to one member, or there is none. -/
theorem Record.store_cases (r : Record) (e : Entry) :
    r.store e = r ∨ ∃ f v, r.store e = r.set f v := by
  unfold Record.store
  split
  · cases sscanfX e.value with
    | none => exact .inl rfl
    | some key => exact .inr ⟨_, _, rfl⟩
  · split_ifs
    all_goals first
      | exact .inl rfl
      | exact .inr ⟨_, _, rfl⟩

theorem Record.Named.store {r : Record} {s : CString} (h : r.Named s) (e : Entry) :
    (r.store e).Named s := by
  rcases r.store_cases e with heq | ⟨f, v, heq⟩
  · rw [heq]
    exact h
  · rw [heq]
    exact h.set f v

/-! ## The loader refines the records -/

/-- An `int`. -/
def IsInt (v : Int) : Prop := v.bmod 0x100000000 = v

theorem isInt_toInt (n : Int) : IsInt (toInt n) := Int.bmod_bmod

theorem isInt_atoi (s : CString) : IsInt (atoi s) := isInt_toInt _

theorem isInt_of_sscanfX {s : CString} {v : Int} (h : sscanfX s = some v) : IsInt v := by
  unfold sscanfX at h
  split at h
  split at h
  · cases h
  · cases h
    exact isInt_toInt _

/-- The record as the list of devices has it. -/
def Record.toGdevice (r : Record) : Gdevice where
  devName := r.devName
  key := r.get .key
  gpioPin := r.get .gpioPin
  gpioMode := r.get .gpioMode
  gpioStatus := r.get .gpioStatus
  checkFaceStatus := r.get .checkFaceStatus
  voiceSetStatus := r.get .voiceSetStatus

/-- The assignment to a member of a device. -/
def Gdevice.assign (d : Gdevice) (f : Field) (v : Int) : Gdevice :=
  match f with
  | .key => { d with key := v }
  | .gpioPin => { d with gpioPin := v }
  | .gpioMode => { d with gpioMode := v }
  | .gpioStatus => { d with gpioStatus := v }
  | .checkFaceStatus => { d with checkFaceStatus := v }
  | .voiceSetStatus => { d with voiceSetStatus := v }

theorem Record.get_set_self (r : Record) (f : Field) {v : Int} (hv : IsInt v) :
    (r.set f v).get f = v :=
  (loadInt_storeInt_self r.bytes f.offset v).trans hv

theorem Record.get_set_ne (r : Record) {f g : Field} (h : f ≠ g) (v : Int) :
    (r.set f v).get g = r.get g :=
  loadInt_storeInt_ne r.bytes v (Field.offset_ne h)

theorem Record.Named.toGdevice_set {r : Record} {s : CString} (h : r.Named s) (f : Field)
    {v : Int} (hv : IsInt v) : (r.set f v).toGdevice = r.toGdevice.assign f v := by
  have hname : (r.set f v).devName = r.devName := (h.set f v).devName_eq.trans h.devName_eq.symm
  cases f <;>
    simp [Record.toGdevice, Gdevice.assign, hname, r.get_set_self _ hv, r.get_set_ne]

theorem Record.toGdevice_create {e : Entry} (h : e.sectionName.length ≤ 35) :
    (Record.create e).toGdevice = Gdevice.zeroed e.sectionName := by
  have hzero : ∀ f, (Record.create e).get f = 0 := by
    intro f
    have hbounds := f.offset_bounds
    have hload : (Record.create e).get f = loadInt (memset 0) f.offset := by
      refine loadInt_of_eq fun i hlo _ => strcpy_of_notMem _ ?_
      rw [strcpyWrites, List.mem_range]
      rw [devNameSize] at hbounds
      omega
    rw [hload, loadInt_memset_zero]
  simp only [Record.toGdevice, Gdevice.zeroed, hzero, (Record.named_create h).devName_eq]

/-- The entry as `load` has it, when its section fits. -/
def Entry.toEvent (e : Entry) (h : e.sectionName.length ≤ 35) : Event :=
  ⟨e.sectionName, e.name, e.value, h⟩

theorem Record.Named.toGdevice_store {r : Record} {s : CString} (hr : r.Named s) {e : Entry}
    (h : e.sectionName.length ≤ 35) :
    (r.store e).toGdevice = r.toGdevice.store (e.toEvent h) := by
  have hmatch : ∀ n, isMatch (e.toEvent h) r.toGdevice.devName n ↔ e.isMatch r.devName n :=
    fun n => Iff.rfl
  have hvalue : (e.toEvent h).value = e.value := rfl
  have hzero : IsInt 0 := by
    unfold IsInt
    decide
  have hone : IsInt 1 := by
    unfold IsInt
    decide
  simp only [Record.store, Gdevice.store, hmatch, hvalue]
  split
  · show _ = match sscanfX e.value with | some key => _ | none => _
    cases hkey : sscanfX e.value with
    | none => rfl
    | some key => exact hr.toGdevice_set .key (isInt_of_sscanfX hkey)
  · split_ifs
    · exact hr.toGdevice_set .gpioPin (isInt_atoi e.value)
    · exact hr.toGdevice_set .gpioMode hone
    · exact hr.toGdevice_set .gpioMode hzero
    · rfl
    · exact hr.toGdevice_set .gpioStatus hzero
    · exact hr.toGdevice_set .gpioStatus hone
    · rfl
    · exact hr.toGdevice_set .checkFaceStatus (isInt_atoi e.value)
    · exact hr.toGdevice_set .voiceSetStatus (isInt_atoi e.value)
    · rfl

/-- Every name in the list ends inside `dev_name`. -/
def ShortNames (pdevhead : List Record) : Prop := ∀ r ∈ pdevhead, ∃ s, r.Named s

/-- One entry with a short section does the same to the records and to the devices. -/
theorem Record.handler_refines {pdevhead : List Record} (hshort : ShortNames pdevhead)
    {e : Entry} (h : e.sectionName.length ≤ 35) :
    ShortNames (Record.handler pdevhead e) ∧
      (Record.handler pdevhead e).map Record.toGdevice =
        HomeControl.handler (pdevhead.map Record.toGdevice) (e.toEvent h) := by
  have hnew : ((Record.create e).store e).toGdevice =
      (Gdevice.zeroed e.sectionName).store (e.toEvent h) := by
    rw [(Record.named_create h).toGdevice_store h, Record.toGdevice_create h]
  have hnamed : ((Record.create e).store e).Named e.sectionName := (Record.named_create h).store e
  cases pdevhead with
  | nil =>
    refine ⟨fun r hr => ?_, ?_⟩
    · rw [List.mem_singleton.mp hr]
      exact ⟨_, hnamed⟩
    · rw [Record.handler, List.map_singleton, hnew]
      rfl
  | cons d rest =>
    obtain ⟨s, hd⟩ := hshort d List.mem_cons_self
    have hrest : ShortNames rest := fun r hr => hshort r (List.mem_cons_of_mem _ hr)
    rw [List.map_cons, Record.handler, HomeControl.handler]
    by_cases hsection : e.sectionName ≠ d.devName
    · have hevent : (e.toEvent h).sectionName ≠ d.toGdevice.devName := hsection
      rw [if_pos hsection, if_pos hevent]
      refine ⟨fun r hr => ?_, ?_⟩
      · rcases List.mem_cons.mp hr with rfl | hr
        · exact ⟨_, hnamed⟩
        · exact hshort r hr
      · rw [List.map_cons, List.map_cons, hnew]
        rfl
    · have hevent : ¬ (e.toEvent h).sectionName ≠ d.toGdevice.devName := hsection
      rw [if_neg hsection, if_neg hevent]
      refine ⟨fun r hr => ?_, ?_⟩
      · rcases List.mem_cons.mp hr with rfl | hr
        · exact ⟨_, hd.store e⟩
        · exact hrest r hr
      · rw [List.map_cons, hd.toGdevice_store h]

/-- For sections of at most 35 bytes, the records that `handler` builds are the devices
of `load`. -/
theorem Record.load_refines (es : List {e : Entry // e.sectionName.length ≤ 35}) :
    ((es.map (·.1)).foldl Record.handler []).map Record.toGdevice =
      load (es.map fun e => e.1.toEvent e.2) := by
  have hboth : ShortNames ((es.map (·.1)).foldl Record.handler []) ∧
      ((es.map (·.1)).foldl Record.handler []).map Record.toGdevice =
        load (es.map fun e => e.1.toEvent e.2) := by
    induction es using List.reverseRecOn with
    | nil =>
      refine ⟨fun r hr => ?_, rfl⟩
      cases hr
    | append_singleton es e ih =>
      obtain ⟨hshort, hmap⟩ := ih
      rw [List.map_append, List.map_append, load, List.foldl_append, List.foldl_append]
      have hstep := Record.handler_refines hshort e.2
      rw [hmap] at hstep
      exact hstep
  exact hboth.2

/-! ## The copy of a name -/

/-- `handler` creates a record for the entry. -/
def Creates (pdevhead : List Record) (e : Entry) : Prop :=
  ∀ d, pdevhead.head? = some d → e.sectionName ≠ d.devName

/-- The copy of the section stays in `dev_name`: every byte that `strcpy` writes lies
there, the record has the name, the members behind it are as `memset` left them, and
all further entries of the section go to this record. -/
structure NameFits (pdevhead : List Record) (e : Entry) : Prop where
  inside : ∀ i ∈ strcpyWrites e.sectionName, i < devNameSize
  devName : (Record.create e).devName = e.sectionName
  others : ∀ i, devNameSize ≤ i → (Record.create e).bytes i = 0
  sameRecord : ∀ es : List Entry, (∀ e' ∈ es, e'.sectionName = e.sectionName) →
    ∃ d, es.foldl Record.handler (Record.handler pdevhead e) = d :: pdevhead

theorem Record.handler_of_creates {pdevhead : List Record} {e : Entry}
    (h : Creates pdevhead e) :
    Record.handler pdevhead e = (Record.create e).store e :: pdevhead := by
  cases pdevhead with
  | nil => rfl
  | cons d rest => exact if_pos (h d rfl)

/-- Entries of the section at the head go to the record there. -/
theorem Record.foldl_handler_of_named {s : CString} {es : List Entry}
    (hes : ∀ e ∈ es, e.sectionName = s) (rest : List Record) {d : Record} (hd : d.Named s) :
    ∃ d', es.foldl Record.handler (d :: rest) = d' :: rest := by
  induction es generalizing d with
  | nil => exact ⟨d, rfl⟩
  | cons e es ih =>
    have hsame : ¬ e.sectionName ≠ d.devName := by
      rw [hes e List.mem_cons_self, hd.devName_eq]
      exact fun h => h rfl
    have hstep : Record.handler (d :: rest) e = d.store e :: rest := if_neg hsame
    rw [List.foldl_cons, hstep]
    exact ih (fun e' he' => hes e' (List.mem_cons_of_mem _ he')) (hd.store e)

/-- For every list of records and every entry that creates one: the name fits exactly
when it has at most 35 bytes. -/
theorem nameFits_iff (pdevhead : List Record) (e : Entry) (hcreates : Creates pdevhead e) :
    NameFits pdevhead e ↔ e.sectionName.length ≤ 35 := by
  constructor
  · intro h
    have hlast := h.inside e.sectionName.length (by
      rw [strcpyWrites, List.mem_range]
      omega)
    rw [devNameSize] at hlast
    omega
  · intro h
    have hnamed := Record.named_create h
    have hwrites : ∀ i ∈ strcpyWrites e.sectionName, i < devNameSize := by
      intro i hi
      rw [strcpyWrites, List.mem_range] at hi
      rw [devNameSize]
      omega
    refine ⟨hwrites, hnamed.devName_eq, fun i hi => ?_, fun es hes => ?_⟩
    · have hout : i ∉ strcpyWrites e.sectionName := fun hmem => by
        have hlt := hwrites i hmem
        omega
      exact strcpy_of_notMem _ hout
    · rw [Record.handler_of_creates hcreates]
      exact Record.foldl_handler_of_named hes pdevhead (hnamed.store e)

/-- An entry of `ini/peripheral.ini`. -/
theorem nameFits_lock : NameFits [] ⟨ascii "lock", ascii "key", ascii "0x44", by decide⟩ :=
  (nameFits_iff [] _ (fun d hd => by cases hd)).mpr (by decide)

/-- Two entries of a section with a name of 36 bytes. -/
def longSection (name value : CString) : Entry := ⟨List.replicate 36 97, name, value, by decide⟩

/-- The terminator of such a name falls on the key, and the key overwrites it: the
second entry of the section makes a second record. -/
theorem not_nameFits_long :
    ¬ (∀ pdevhead e, Creates pdevhead e → NameFits pdevhead e) ∧
      ([longSection (ascii "key") (ascii "0x44"),
        longSection (ascii "gpio_pin") (ascii "8")].foldl Record.handler []).length = 2 := by
  refine ⟨fun hall => ?_, by decide +kernel⟩
  have hfits := hall [] (longSection (ascii "key") (ascii "0x44")) (fun d hd => by cases hd)
  have hlast := hfits.inside 36 (by decide)
  rw [devNameSize] at hlast
  omega

end HomeControl
