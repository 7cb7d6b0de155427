import HomeControl.Lib.Runs
import HomeControl.Lib.LastWrite
import HomeControl.Gdevice

/-!
# The loader of the device list

`ini_parse` reads `peripheral.ini` and calls `handler` for each entry.  `handler` puts
a new, cleared record at the head of the list whenever the section differs from the
name of the record there, and stores the value in the field that the entry names.

* `atoi` and `sscanfX` are the conversions of the C library.
* `handler` is the callback and `load` the list after a stream of entries.
* `load_eq` says what the list is: one record for each section, where a section is a
  maximal run of entries under one name, and in each field what the last entry that
  sets it stored, or 0.
-/

namespace HomeControl

open LastWrite

/-! ## Numbers in the configuration file -/

/-- `isspace` in the C locale. -/
def isspace (c : UInt8) : Bool := c == 32 || (9 ≤ c && c ≤ 13)

/-- The value of a digit, or a letter as a digit above 9. -/
def digitValue (c : UInt8) : Option Nat :=
  if 48 ≤ c ∧ c ≤ 57 then some (c.toNat - 48)
  else if 97 ≤ c ∧ c ≤ 122 then some (c.toNat - 87)
  else if 65 ≤ c ∧ c ≤ 90 then some (c.toNat - 55)
  else none

/-- The digits at the front of a string. -/
def digits (base : Nat) (s : CString) : List Nat :=
  (s.takeWhile fun c => (digitValue c).any (· < base)).filterMap digitValue

def number (base : Nat) (s : CString) : Nat :=
  (digits base s).foldl (fun n d => base * n + d) 0

/-- White space and an optional sign: whether the sign is `-`, and the rest. -/
def splitSign (s : CString) : Bool × CString :=
  match s.dropWhile isspace with
  | 45 :: rest => (true, rest)
  | 43 :: rest => (false, rest)
  | rest => (false, rest)

/-- The low 32 bits, as an `int`. -/
def toInt (n : Int) : Int := n.bmod 0x100000000

/-- `atoi`, which is `(int)strtol(s, NULL, 10)`.  `strtol` stops at the ends of `long`,
which has 64 bits on the target. -/
def atoi (s : CString) : Int :=
  let (negative, rest) := splitSign s
  let n : Int := number 10 rest
  toInt (if negative then max (-0x8000000000000000) (-n) else min 0x7FFFFFFFFFFFFFFF n)

/-- The string without the `0x` that `%x` permits. -/
def skip0x : CString → CString
  | 48 :: 120 :: rest => rest
  | 48 :: 88 :: rest => rest
  | rest => rest

/-- `sscanf(s, "%x", ..)`: the value that is stored, or `none` when the input does not
match and nothing is.  The conversion is that of `strtoul`, which gives `ULONG_MAX` for
a number that does not fit. -/
def sscanfX (s : CString) : Option Int :=
  let (negative, rest) := splitSign s
  if digits 16 (skip0x rest) = [] then none
  else
    let n := number 16 (skip0x rest)
    some (toInt (if n ≤ 0xFFFFFFFFFFFFFFFF then (if negative then -n else n)
      else 0xFFFFFFFFFFFFFFFF))

example : sscanfX (ascii "0x45") = some 0x45 := by decide +kernel

/-! ## `handler` -/

/-- What `ini_parse` passes to `handler`.  The name of a section has to fit in
`dev_name`. -/
structure Event where
  sectionName : CString
  name : CString
  value : CString
  fits : sectionName.length ≤ 35

/-- A record after `memset` and the copy of its name. -/
def Gdevice.zeroed (devName : CString) : Gdevice := ⟨devName, 0, 0, 0, 0, 0, 0⟩

/-- `MATCH`. -/
def isMatch (e : Event) (s n : CString) : Prop := e.sectionName = s ∧ e.name = n

instance (e : Event) (s n : CString) : Decidable (isMatch e s n) :=
  inferInstanceAs (Decidable (_ ∧ _))

/-- The second half of `handler`: the assignment to the record at the head. -/
def Gdevice.store (pdevhead : Gdevice) (e : Event) : Gdevice :=
  if isMatch e pdevhead.devName (ascii "key") then
    match sscanfX e.value with
    | some key => { pdevhead with key := key }
    | none => pdevhead
  else if isMatch e pdevhead.devName (ascii "gpio_pin") then
    { pdevhead with gpioPin := atoi e.value }
  else if isMatch e pdevhead.devName (ascii "gpio_mode") then
    if e.value = ascii "OUTPUT" then { pdevhead with gpioMode := OUTPUT }
    else if e.value = ascii "INPUT" then { pdevhead with gpioMode := INPUT }
    else pdevhead
  else if isMatch e pdevhead.devName (ascii "gpio_status") then
    if e.value = ascii "LOW" then { pdevhead with gpioStatus := LOW }
    else if e.value = ascii "HIGH" then { pdevhead with gpioStatus := HIGH }
    else pdevhead
  else if isMatch e pdevhead.devName (ascii "check_face_status") then
    { pdevhead with checkFaceStatus := atoi e.value }
  else if isMatch e pdevhead.devName (ascii "voice_set_status") then
    { pdevhead with voiceSetStatus := atoi e.value }
  else pdevhead

/-- `handler`: the device list after one entry. -/
def handler (pdevhead : List Gdevice) (e : Event) : List Gdevice :=
  match pdevhead with
  | [] => [(Gdevice.zeroed e.sectionName).store e]
  | d :: rest =>
    if e.sectionName ≠ d.devName then (Gdevice.zeroed e.sectionName).store e :: d :: rest
    else d.store e :: rest

/-- The device list after `ini_parse`. -/
def load (events : List Event) : List Gdevice := events.foldl handler []

/-! ## The values of a section -/

/-- The sections of the file, in the order in which `handler` links their records: the
last one first. -/
def sections (events : List Event) : List (List Event) := Runs.runs Event.sectionName events

/-- What an entry stores in the field `name`. -/
def Event.sets (name : CString) (read : CString → Option Int) (e : Event) : Option Int :=
  if e.name = name then read e.value else none

/-- One of two words. -/
def readWord (zero one : CString) (s : CString) : Option Int :=
  if s = one then some 1 else if s = zero then some 0 else none

def setsKey : Event → Option Int := Event.sets (ascii "key") sscanfX
def setsPin : Event → Option Int := Event.sets (ascii "gpio_pin") (some ∘ atoi)
def setsMode : Event → Option Int :=
  Event.sets (ascii "gpio_mode") (readWord (ascii "INPUT") (ascii "OUTPUT"))
def setsStatus : Event → Option Int :=
  Event.sets (ascii "gpio_status") (readWord (ascii "LOW") (ascii "HIGH"))
def setsCheckFace : Event → Option Int :=
  Event.sets (ascii "check_face_status") (some ∘ atoi)
def setsVoiceSet : Event → Option Int :=
  Event.sets (ascii "voice_set_status") (some ∘ atoi)

/-- The record of a section: each field as the last entry that sets it, and 0 when none
does. -/
def Gdevice.ofSection (es : List Event) : Gdevice where
  devName := (es.getLast?.map Event.sectionName).getD []
  key := lastWrite setsKey 0 es
  gpioPin := lastWrite setsPin 0 es
  gpioMode := lastWrite setsMode 0 es
  gpioStatus := lastWrite setsStatus 0 es
  checkFaceStatus := lastWrite setsCheckFace 0 es
  voiceSetStatus := lastWrite setsVoiceSet 0 es

/-- An entry of the section at the head sets the field that it names. -/
theorem Gdevice.store_eq {d : Gdevice} {e : Event} (hsection : e.sectionName = d.devName) :
    d.store e =
      ⟨d.devName, (setsKey e).getD d.key, (setsPin e).getD d.gpioPin,
        (setsMode e).getD d.gpioMode, (setsStatus e).getD d.gpioStatus,
        (setsCheckFace e).getD d.checkFaceStatus,
        (setsVoiceSet e).getD d.voiceSetStatus⟩ := by
  simp only [Gdevice.store, isMatch, hsection, true_and, setsKey, setsPin, setsMode,
    setsStatus, setsCheckFace, setsVoiceSet, Event.sets]
  by_cases hkey : e.name = ascii "key"
  · simp +decide only [hkey, if_true, if_false]
    cases sscanfX e.value <;> rfl
  by_cases hpin : e.name = ascii "gpio_pin"
  · simp +decide only [hpin, if_true, if_false]
    rfl
  by_cases hmode : e.name = ascii "gpio_mode"
  · simp +decide only [hmode, if_true, if_false, readWord]
    split_ifs <;> rfl
  by_cases hstatus : e.name = ascii "gpio_status"
  · simp +decide only [hstatus, if_true, if_false, readWord]
    -- `LOW` and `HIGH` are tested in the other order.
    by_cases hlow : e.value = ascii "LOW"
    · simp +decide only [hlow, if_true, if_false]
      rfl
    · simp only [hlow, if_false]
      split_ifs <;> rfl
  by_cases hface : e.name = ascii "check_face_status"
  · simp +decide only [hface, if_true, if_false]
    rfl
  by_cases hvoice : e.name = ascii "voice_set_status"
  · simp +decide only [hvoice, if_true, if_false]
    rfl
  · simp only [hkey, hpin, hmode, hstatus, hface, hvoice, if_false]
    rfl

/-- The first entry of a section fills a cleared record. -/
theorem Gdevice.store_zeroed (e : Event) :
    (Gdevice.zeroed e.sectionName).store e = Gdevice.ofSection [e] := by
  rw [Gdevice.store_eq rfl]
  simp only [Gdevice.ofSection, Gdevice.zeroed, lastWrite_cons, lastWrite_nil]
  rfl

/-- A later entry of a section changes the record that is there. -/
theorem Gdevice.store_ofSection {es : List Event} {e : Event}
    (hsection : e.sectionName = (Gdevice.ofSection es).devName) :
    (Gdevice.ofSection es).store e = Gdevice.ofSection (es ++ [e]) := by
  rw [Gdevice.store_eq hsection]
  have hname : (Gdevice.ofSection (es ++ [e])).devName = e.sectionName := by
    simp only [Gdevice.ofSection, List.getLast?_concat, Option.map_some, Option.getD_some]
  simp only [Gdevice.ofSection, lastWrite_concat] at hsection hname ⊢
  rw [hname, hsection]

/-- The list that the loader builds: a record for each section. -/
theorem load_eq (events : List Event) :
    load events = (sections events).map Gdevice.ofSection := by
  refine Runs.foldl_eq_map_runs (fun rs e hnil => ?_) events
  cases rs with
  | nil => rw [List.map_nil, handler, Gdevice.store_zeroed, Runs.addTo, List.map_singleton]
  | cons r rest =>
    have hr : r ≠ [] := fun h => hnil (by rw [h]; exact List.mem_cons_self)
    have hname : (Gdevice.ofSection r).devName = (r.getLast hr).sectionName := by
      simp only [Gdevice.ofSection, List.getLast?_eq_some_getLast hr, Option.map_some,
        Option.getD_some]
    rw [List.map_cons, handler, Runs.addTo, List.getLast?_eq_some_getLast hr, Option.map_some]
    by_cases hsection : e.sectionName = (Gdevice.ofSection r).devName
    · rw [if_neg (not_not.mpr hsection), if_pos (by rw [hsection, hname]),
        Gdevice.store_ofSection hsection, List.map_cons]
    · rw [if_pos hsection, if_neg fun h => hsection (hname ▸ (Option.some.inj h).symm),
        Gdevice.store_zeroed, List.map_cons, List.map_cons]

/-- One section of `ini/peripheral.ini`. -/
def peripheralSection (devName key gpioPin checkFaceStatus voiceSetStatus : String)
    (hfits : (ascii devName).length ≤ 35) : List Event :=
  [("key", key), ("gpio_pin", gpioPin), ("gpio_mode", "OUTPUT"), ("gpio_status", "HIGH"),
    ("check_face_status", checkFaceStatus), ("voice_set_status", voiceSetStatus)].map
    fun entry => ⟨ascii devName, ascii entry.1, ascii entry.2, hfits⟩

example :
    load (peripheralSection "lrled" "0x41" "5" "0" "0" (by decide) ++
      peripheralSection "roomled" "0x42" "6" "0" "0" (by decide) ++
      peripheralSection "fan" "0x43" "7" "0" "0" (by decide) ++
      peripheralSection "lock" "0x44" "8" "1" "1" (by decide) ++
      peripheralSection "beep" "0x45" "10" "0" "1" (by decide)) = peripheral := by
  decide +kernel

/-- The record at an index is that of the section at this index. -/
theorem getElem?_load {events : List Event} {i : Nat} {es : List Event}
    (h : (sections events)[i]? = some es) :
    (load events)[i]? = some (Gdevice.ofSection es) := by
  rw [load_eq, List.getElem?_map, h, Option.map_some]

/-- The sections are cut from the stream of entries, and nothing is lost. -/
theorem flatten_sections (events : List Event) :
    (sections events).reverse.flatten = events :=
  Runs.flatten_runs _ events

/-- The entries of a section name it as the device does. -/
theorem sectionName_of_mem {events es : List Event} (hes : es ∈ sections events) {e : Event}
    (he : e ∈ es) : e.sectionName = (Gdevice.ofSection es).devName := by
  have hne : es ≠ [] := List.ne_nil_of_mem he
  have hkey := Runs.key_eq_of_mem_runs hes he (List.getLast_mem hne)
  simp only [Gdevice.ofSection, List.getLast?_eq_some_getLast hne, Option.map_some,
    Option.getD_some]
  exact hkey

end HomeControl
