import Mathlib.Logic.Function.Basic

/-!
# Devices and their pins

`gdevice.c` keeps the devices in a linked list.  The model is a `List Gdevice`
in the order of the `next` pointers, and a pointer into it is an index.

* `findDeviceByKey` is the lookup, and `setGpioGdeviceStatus` is the list of
  calls it makes to the GPIO library together with the value it returns.
* `level` is the level of a pin after a log of such calls: `digitalWrite`
  drives the pin, and nothing else does.
* `assignStatus` is the assignment `cur_dev->gpio_status = v`.  It is the only
  write to a device record once the list is built.  `SameConfig` says that two
  lists differ in the `gpio_status` fields at most, and the lemmas below it
  carry the lookup and the other fields across such a change.
-/

namespace HomeControl

/-- A C string: the bytes before the terminator. -/
abbrev CString := List UInt8

/-- The bytes of a string literal of the source. -/
def ascii (s : String) : CString := s.toList.map fun c => c.toNat.toUInt8

/-! ## The constants of the GPIO library -/

def INPUT : Int := 0
def OUTPUT : Int := 1
def LOW : Int := 0
def HIGH : Int := 1

theorem LOW_ne_HIGH : LOW ≠ HIGH := by decide

theorem HIGH_ne_neg_one : HIGH ≠ -1 := by decide

/-! ## The device list -/

/-- `struct gdevice`.  The `next` pointer is the order of the list. -/
structure Gdevice where
  devName : CString
  key : Int
  gpioPin : Int
  gpioMode : Int
  gpioStatus : Int
  checkFaceStatus : Int
  voiceSetStatus : Int
  deriving DecidableEq, Repr

/-- The devices of `ini/peripheral.ini`, in the order in which the loader links
them. -/
def peripheral : List Gdevice :=
  [⟨ascii "beep", 0x45, 10, OUTPUT, HIGH, 0, 1⟩,
   ⟨ascii "lock", 0x44, 8, OUTPUT, HIGH, 1, 1⟩,
   ⟨ascii "fan", 0x43, 7, OUTPUT, HIGH, 0, 0⟩,
   ⟨ascii "roomled", 0x42, 6, OUTPUT, HIGH, 0, 0⟩,
   ⟨ascii "lrled", 0x41, 5, OUTPUT, HIGH, 0, 0⟩]

/-- `find_device_by_key`: the first device of the list with this key. -/
def findDeviceByKey (pdevhead : List Gdevice) (key : Int) : Option Nat :=
  pdevhead.findIdx? fun p => p.key == key

theorem findDeviceByKey_eq_some_iff {devs : List Gdevice} {key : Int} {i : Nat} :
    findDeviceByKey devs key = some i ↔
      ∃ d, devs[i]? = some d ∧ d.key = key ∧
        ∀ j e, j < i → devs[j]? = some e → e.key ≠ key := by
  rw [findDeviceByKey, List.findIdx?_eq_some_iff_getElem]
  constructor
  · rintro ⟨hi, hkey, hbefore⟩
    refine ⟨devs[i], List.getElem?_eq_getElem hi, by simpa using hkey, ?_⟩
    intro j e hj he
    obtain ⟨hjl, rfl⟩ := List.getElem?_eq_some_iff.mp he
    simpa using hbefore j hj
  · rintro ⟨d, hd, hkey, hbefore⟩
    obtain ⟨hi, rfl⟩ := List.getElem?_eq_some_iff.mp hd
    refine ⟨hi, by simpa using hkey, ?_⟩
    intro j hj
    simpa using hbefore j _ hj (List.getElem?_eq_getElem (by omega))

/-- The device itself. -/
theorem find?_key (devs : List Gdevice) (key : Int) :
    (devs.find? fun d => d.key == key) = (findDeviceByKey devs key).bind (devs[·]?) :=
  List.find?_eq_bind_findIdx?_getElem?

/-! ## Driving a pin -/

/-- The calls into the GPIO library. -/
inductive GpioCall where
  | pinMode (pin mode : Int)
  | digitalWrite (pin value : Int)
  deriving DecidableEq, Repr

/-- `set_gpio_gdevice_status`: the calls it makes, in order, and the value it
returns. -/
def setGpioGdeviceStatus (pdev : Option Gdevice) : List GpioCall × Int :=
  match pdev with
  | none => ([], -1)
  | some pdev =>
    if pdev.gpioPin ≠ -1 then
      ((if pdev.gpioMode ≠ -1 then [.pinMode pdev.gpioPin pdev.gpioMode] else []) ++
        (if pdev.gpioStatus ≠ -1 then
          [.digitalWrite pdev.gpioPin pdev.gpioStatus] else []), 0)
    else ([], 0)

/-- The level of pin `p` after a log of calls, the newest first.  `init` is the
level before the first of them. -/
def level (init : Int → Int) : List GpioCall → Int → Int
  | [], p => init p
  | .pinMode _ _ :: log, p => level init log p
  | .digitalWrite q v :: log, p => if q = p then v else level init log p

theorem setGpioGdeviceStatus_ret (d : Gdevice) :
    (setGpioGdeviceStatus (some d)).2 = 0 := by
  simp only [setGpioGdeviceStatus]
  split <;> rfl

/-- The writes that `set_gpio_gdevice_status` makes: one, of the recorded status
to the recorded pin, unless one of the two is the `-1` that stands for "not
set". -/
theorem digitalWrite_mem_setGpio {d : Gdevice} {p v : Int} :
    .digitalWrite p v ∈ (setGpioGdeviceStatus (some d)).1 ↔
      p = d.gpioPin ∧ v = d.gpioStatus ∧ d.gpioPin ≠ -1 ∧ d.gpioStatus ≠ -1 := by
  simp only [setGpioGdeviceStatus]
  by_cases hp : d.gpioPin = -1
  · simp [hp]
  · by_cases hm : d.gpioMode = -1 <;> by_cases hs : d.gpioStatus = -1 <;>
      simp [hp, hm, hs]

/-- The level of a pin after `set_gpio_gdevice_status`. -/
theorem level_setGpio (init : Int → Int) (log : List GpioCall) (d : Gdevice)
    (p : Int) :
    level init ((setGpioGdeviceStatus (some d)).1.reverse ++ log) p =
      if d.gpioPin = p ∧ p ≠ -1 ∧ d.gpioStatus ≠ -1 then d.gpioStatus
      else level init log p := by
  simp only [setGpioGdeviceStatus]
  by_cases hp : d.gpioPin = -1
  · have hno : ¬ (d.gpioPin = p ∧ p ≠ -1 ∧ d.gpioStatus ≠ -1) := by
      rintro ⟨rfl, hne, -⟩
      exact hne hp
    rw [if_neg hno, if_neg (by simpa using hp)]
    rfl
  · by_cases hm : d.gpioMode = -1 <;> by_cases hs : d.gpioStatus = -1 <;>
      by_cases hq : d.gpioPin = p <;>
      simp_all [level]

/-! ## The one field that changes -/

/-- `cur_dev->gpio_status = v`, with `cur_dev` the device at index `i`. -/
def assignStatus (devs : List Gdevice) (i : Nat) (v : Int) : List Gdevice :=
  devs.modify i fun d => { d with gpioStatus := v }

theorem getElem?_assignStatus_self {devs : List Gdevice} {i : Nat} {d : Gdevice}
    (h : devs[i]? = some d) (v : Int) :
    (assignStatus devs i v)[i]? = some { d with gpioStatus := v } := by
  rw [assignStatus, List.getElem?_modify_eq, h]
  rfl

theorem getElem?_assignStatus_ne (devs : List Gdevice) {i j : Nat} (h : i ≠ j)
    (v : Int) : (assignStatus devs i v)[j]? = devs[j]? := by
  rw [assignStatus, List.getElem?_modify_ne _ _ h]

/-- What the configuration file says about a device: everything but
`gpio_status`, which the handlers overwrite. -/
def Gdevice.config (d : Gdevice) : Gdevice := { d with gpioStatus := 0 }

/-- The two lists differ in the `gpio_status` fields at most. -/
def SameConfig (devs devs' : List Gdevice) : Prop :=
  devs.map Gdevice.config = devs'.map Gdevice.config

theorem SameConfig.refl (devs : List Gdevice) : SameConfig devs devs := rfl

theorem SameConfig.symm {devs devs' : List Gdevice} (h : SameConfig devs devs') :
    SameConfig devs' devs := Eq.symm h

theorem SameConfig.trans {devs devs' devs'' : List Gdevice}
    (h : SameConfig devs devs') (h' : SameConfig devs' devs'') :
    SameConfig devs devs'' := Eq.trans h h'

theorem sameConfig_assignStatus (devs : List Gdevice) (i : Nat) (v : Int) :
    SameConfig devs (assignStatus devs i v) := by
  refine List.ext_getElem? fun j => ?_
  rw [List.getElem?_map, List.getElem?_map]
  by_cases hij : i = j
  · subst hij
    rw [assignStatus, List.getElem?_modify_eq]
    cases devs[i]? <;> rfl
  · rw [getElem?_assignStatus_ne devs hij]

/-- The device at an index keeps every field but `gpio_status`. -/
theorem SameConfig.getElem? {devs devs' : List Gdevice} (h : SameConfig devs devs')
    {i : Nat} {d : Gdevice} (hd : devs[i]? = some d) :
    ∃ v, devs'[i]? = some { d with gpioStatus := v } := by
  have hi : (devs[i]?).map Gdevice.config = (devs'[i]?).map Gdevice.config := by
    rw [← List.getElem?_map, ← List.getElem?_map, h]
  rw [hd, Option.map_some] at hi
  obtain ⟨d', hd', hc⟩ := Option.map_eq_some_iff.mp hi.symm
  refine ⟨d'.gpioStatus, hd'.trans (congrArg some ?_)⟩
  rcases d with ⟨⟩
  rcases d' with ⟨⟩
  simp only [Gdevice.config, Gdevice.mk.injEq] at hc
  simp only [Gdevice.mk.injEq]
  simp [hc]

theorem SameConfig.findDeviceByKey {devs devs' : List Gdevice}
    (h : SameConfig devs devs') (key : Int) :
    findDeviceByKey devs' key = findDeviceByKey devs key := by
  have hmap : ∀ l : List Gdevice, HomeControl.findDeviceByKey l key =
      (l.map Gdevice.config).findIdx? fun p => p.key == key := by
    intro l
    rw [HomeControl.findDeviceByKey, List.findIdx?_map]
    rfl
  rw [hmap, hmap, h]

/-! ## Pins that belong to one device -/

/-- No two devices have the same pin.  The `-1` of an unset pin can repeat. -/
def NoSharedPins (devs : List Gdevice) : Prop :=
  ∀ (i j : Nat) (d e : Gdevice), devs[i]? = some d → devs[j]? = some e →
    d.gpioPin = e.gpioPin → d.gpioPin ≠ -1 → i = j

theorem noSharedPins_of_nodup {devs : List Gdevice}
    (h : (devs.map (·.gpioPin)).Nodup) : NoSharedPins devs := by
  intro i j d e hd he hpin _
  have hi : i < (devs.map (·.gpioPin)).length := by
    rw [List.length_map]
    exact (List.getElem?_eq_some_iff.mp hd).1
  refine (List.getElem?_inj hi h).mp ?_
  rw [List.getElem?_map, List.getElem?_map, hd, he]
  exact congrArg some hpin

theorem noSharedPins_peripheral : NoSharedPins peripheral :=
  noSharedPins_of_nodup (by decide)

theorem SameConfig.noSharedPins {devs devs' : List Gdevice}
    (h : SameConfig devs devs') (hpins : NoSharedPins devs) :
    NoSharedPins devs' := by
  intro i j d e hd he hpin hne
  obtain ⟨v, hv⟩ := h.symm.getElem? hd
  obtain ⟨u, hu⟩ := h.symm.getElem? he
  exact hpins i j _ _ hv hu hpin hne

end HomeControl
