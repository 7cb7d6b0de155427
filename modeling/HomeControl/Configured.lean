import HomeControl.DoorLock
import HomeControl.Loader

/-!
# Which outputs are driven

`set_gpio_gdevice_status` tests the pin, the mode and the status of a device against
-1, the value of a field that is not set.  The loader clears its records with 0, and 0
is a pin, a mode (`INPUT`) and a key.

`DrivesConfigured` says that a handler drives a pin only when entries of the device's
own section have set the pin, the key and the mode `OUTPUT`.
`drivesConfigured_iff_complete` shows that this holds in every run exactly when the
configuration is `Complete`: every section that some key selects, and whose pin is not
-1, has these entries.
-/

namespace HomeControl

open LastWrite SharedMemory StepSystem

variable {ctrlPhead : List Control} {events : List Event}

/-- Whichever handler is next to drive a pin, an entry of its device's section assigns
this pin, another assigns the key, and the mode is `OUTPUT`. -/
def DrivesConfigured (ctrlPhead : List Control) (events : List Event) (w : World) : Prop :=
  ∀ h ∈ w.handlers, h.pc ≠ .done → ∀ p v,
    .digitalWrite p v ∈ (h.next ctrlPhead w.house).2.calls w.house →
    ∃ es d, (sections events)[h.curDev]? = some es ∧ w.house.devs[h.curDev]? = some d ∧
      (∃ e ∈ es, setsPin e = some p) ∧ (∃ e ∈ es, setsKey e = some d.key) ∧
      lastWrite setsMode INPUT es = OUTPUT

/-- The section at index `i` is the first whose key is `k`.  A section without an entry
for the key has key 0. -/
def Selects (events : List Event) (k : UInt8) (i : Nat) : Prop :=
  (∃ es, (sections events)[i]? = some es ∧ lastWrite setsKey 0 es = k.toNat) ∧
    ∀ j es, j < i → (sections events)[j]? = some es → lastWrite setsKey 0 es ≠ k.toNat

/-- Every section that some key selects sets its key, its pin and the mode `OUTPUT`,
unless its pin is -1. -/
def Complete (events : List Event) : Prop :=
  ∀ k i es, Selects events k i → (sections events)[i]? = some es →
    lastWrite setsPin 0 es ≠ -1 →
    (∃ e ∈ es, (setsPin e).isSome) ∧ (∃ e ∈ es, (setsKey e).isSome) ∧
      lastWrite setsMode INPUT es = OUTPUT

/-- The lookup in the list that was loaded. -/
theorem findDeviceByKey_load {k : UInt8} {i : Nat} :
    findDeviceByKey (load events) k.toNat = some i ↔ Selects events k i := by
  rw [findDeviceByKey_eq_some_iff, load_eq]
  constructor
  · rintro ⟨d, hd, hkey, hbefore⟩
    rw [List.getElem?_map] at hd
    obtain ⟨es, hes, rfl⟩ := Option.map_eq_some_iff.mp hd
    refine ⟨⟨es, hes, hkey⟩, fun j es' hj hes' => ?_⟩
    have hj' : ((sections events).map Gdevice.ofSection)[j]? = some (.ofSection es') := by
      rw [List.getElem?_map, hes', Option.map_some]
    exact hbefore j _ hj hj'
  · rintro ⟨⟨es, hes, hkey⟩, hbefore⟩
    refine ⟨.ofSection es, by rw [List.getElem?_map, hes, Option.map_some], hkey, ?_⟩
    intro j e hj he
    rw [List.getElem?_map] at he
    obtain ⟨es', hes', rfl⟩ := Option.map_eq_some_iff.mp he
    exact hbefore j es' hj hes'

/-- A handler that drives a pin was sent there by a key that selects its section. -/
theorem selects_of_digitalWrite {queue : List Command} {w : World}
    (hw : (world ctrlPhead (load events) queue).Reachable w) {h : Handler}
    (hmem : h ∈ w.handlers) {p v : Int}
    (hwrite : .digitalWrite p v ∈ (h.next ctrlPhead w.house).2.calls w.house) :
    ∃ k es d, Selects events k h.curDev ∧ (sections events)[h.curDev]? = some es ∧
      w.house.devs[h.curDev]? = some d ∧ d.key = lastWrite setsKey 0 es ∧
      p = lastWrite setsPin 0 es ∧ p ≠ -1 := by
  obtain ⟨hpc, -, d, hd, hpin, hne⟩ := digitalWrite_cases hwrite
  obtain ⟨i, hi⟩ := List.mem_iff_getElem?.mp hmem
  have hsound := sound_of_reachable hw hi
  obtain ⟨k, -, hfind⟩ : h.Resolved (load events) := by
    rcases hpc with hpc | hpc
    · simp only [Handler.Sound, hpc] at hsound
      exact hsound.1.1
    · simp only [Handler.Sound, hpc] at hsound
      exact hsound.1.1
  have hselects := findDeviceByKey_load.mp hfind
  obtain ⟨es, hes, -⟩ := hselects.1
  -- The status is all that a handler has changed since the loading.
  obtain ⟨u, hu⟩ := (sameConfig_of_reachable hw).getElem? (getElem?_load hes)
  obtain rfl := Option.some.inj (hd.symm.trans hu)
  exact ⟨k, es, _, hselects, hes, hd, rfl, hpin.symm, hne⟩

/-! ## The run that drives a selected device -/

/-- The only handler takes its next step. -/
theorem reachable_advance {devs : List Gdevice} {queue : List Command} {w : World}
    (hw : (world ctrlPhead devs queue).Reachable w) {h : Handler} (hh : w.handlers = [h])
    (hpc : h.pc ≠ .done) :
    ∃ w', (world ctrlPhead devs queue).Reachable w' ∧
      w'.handlers = [(h.next ctrlPhead w.house).1] ∧
      w'.house = w.house.apply (h.next ctrlPhead w.house).2 := by
  have hzero : w.handlers[0]? = some h := by rw [hh, List.getElem?_cons_zero]
  have hstep : (world ctrlPhead devs queue).step w (.handler 0) =
      some (w.advance ctrlPhead 0 h) := World.step_handler hzero hpc
  refine ⟨w.advance ctrlPhead 0 h, .step hw trivial hstep, ?_, rfl⟩
  rw [World.advance, hh, List.set_cons_zero]

/-- A command whose key selects a device, and whose face score suffices, comes to the
place where the pin is driven. -/
theorem exists_setGpio (ctrlPhead : List Control) {devs : List Gdevice} {k : UInt8} {i : Nat}
    (hfind : findDeviceByKey devs k.toNat = some i) :
    ∃ w h, (world ctrlPhead devs [⟨⟨k, 0⟩, 1⟩]).Reachable w ∧ w.handlers = [h] ∧
      h.pc = .setGpio ∧ h.curDev = i ∧ w.house.devs = assignStatus devs i LOW := by
  let c : Command := ⟨⟨k, 0⟩, 1⟩
  let w₁ : World := (world ctrlPhead devs [c]).start.dispatch c []
  have hstep : (world ctrlPhead devs [c]).step (world ctrlPhead devs [c]).start .receive =
      some w₁ := rfl
  have hw₁ : (world ctrlPhead devs [c]).Reachable w₁ := .step .start trivial hstep
  have hh₁ : w₁.handlers = [.spawn c] := rfl
  have hkey : findDeviceByKey w₁.house.devs (w₁.house.buffer 2).toNat = some i := hfind
  obtain ⟨w₂, hw₂, hh₂, hs₂⟩ := reachable_advance hw₁ hh₁ (by simp [Handler.spawn])
  rw [next_find rfl hkey] at hh₂ hs₂
  rw [House.apply_skip] at hs₂
  obtain ⟨w₃, hw₃, hh₃, hs₃⟩ := reachable_advance hw₂ hh₂ (by simp)
  have hdevs₃ : w₃.house.devs = assignStatus devs i LOW := by
    rw [hs₃, hs₂]
    rfl
  by_cases hface : checksFace w₂.house.devs i = true
  · simp only [Handler.next, if_pos hface] at hh₃
    obtain ⟨w₄, hw₄, hh₄, hs₄⟩ := reachable_advance hw₃ hh₃ (by simp)
    simp only [Handler.next] at hh₄ hs₄
    obtain ⟨w₅, hw₅, hh₅, hs₅⟩ := reachable_advance hw₄ hh₄ (by simp)
    have hone : (1 : ℚ) > 1 / 2 := by decide +kernel
    have hscore : (Handler.spawn c).cmd.score > 1 / 2 := hone
    simp only [Handler.next, if_pos hscore] at hh₅ hs₅
    refine ⟨w₅, _, hw₅, hh₅, rfl, rfl, ?_⟩
    rw [hs₅, House.apply_devs _ (by simp), hs₄, House.apply_skip]
    exact hdevs₃
  · simp only [Handler.next, if_neg hface] at hh₃
    exact ⟨w₃, _, hw₃, hh₃, rfl, rfl, hdevs₃⟩

/-- A section that a key selects, and whose pin is not -1, is driven in some run. -/
theorem drives_of_selects (ctrlPhead : List Control) {k : UInt8} {i : Nat} {es : List Event}
    (hselects : Selects events k i) (hes : (sections events)[i]? = some es)
    (hpin : lastWrite setsPin 0 es ≠ -1) :
    ∃ w h, (world ctrlPhead (load events) [⟨⟨k, 0⟩, 1⟩]).Reachable w ∧ h ∈ w.handlers ∧
      h.pc ≠ .done ∧ h.curDev = i ∧
      w.house.devs[i]? = some { Gdevice.ofSection es with gpioStatus := LOW } ∧
      .digitalWrite (lastWrite setsPin 0 es) LOW ∈
        (h.next ctrlPhead w.house).2.calls w.house := by
  obtain ⟨w, h, hw, hh, hpc, hdev, hdevs⟩ :=
    exists_setGpio ctrlPhead (findDeviceByKey_load.mpr hselects)
  have hat : w.house.devs[i]? = some { Gdevice.ofSection es with gpioStatus := LOW } := by
    rw [hdevs]
    exact getElem?_assignStatus_self (getElem?_load hes) LOW
  refine ⟨w, h, hw, by rw [hh]; exact List.mem_singleton_self h, by simp [hpc], hdev, hat, ?_⟩
  have hcalls : (h.next ctrlPhead w.house).2.calls w.house =
      (setGpioGdeviceStatus (some { Gdevice.ofSection es with gpioStatus := LOW })).1 := by
    simp only [Handler.next, hpc, Action.calls, hdev, hat]
  rw [hcalls]
  have hlow : LOW ≠ -1 := by decide
  exact digitalWrite_mem_setGpio.mpr ⟨rfl, rfl, hpin, hlow⟩

/-- For every stream of entries: in every run, over any commands and in any order of
the threads, only configured outputs are driven, exactly when every section that a key
selects is complete or has pin -1. -/
theorem drivesConfigured_iff_complete (ctrlPhead : List Control) (events : List Event) :
    (∀ queue w, (world ctrlPhead (load events) queue).Reachable w →
      DrivesConfigured ctrlPhead events w) ↔ Complete events := by
  constructor
  · intro hall k i es hselects hes hpin
    obtain ⟨w, h, hw, hmem, hpc, hdev, hat, hwrite⟩ :=
      drives_of_selects ctrlPhead hselects hes hpin
    obtain ⟨es', d, hes', -, hsetsPin, hsetsKey, hmode⟩ := hall _ w hw h hmem hpc _ _ hwrite
    rw [hdev] at hes'
    obtain rfl : es = es' := Option.some.inj (hes.symm.trans hes')
    obtain ⟨e, he, hp⟩ := hsetsPin
    obtain ⟨e', he', hk⟩ := hsetsKey
    exact ⟨⟨e, he, by rw [hp]; rfl⟩, ⟨e', he', by rw [hk]; rfl⟩, hmode⟩
  · intro hcomplete queue w hw h hmem _ p v hwrite
    obtain ⟨k, es, d, hselects, hes, hd, hkey, rfl, hne⟩ :=
      selects_of_digitalWrite hw hmem hwrite
    obtain ⟨hsetsPin, hsetsKey, hmode⟩ := hcomplete k h.curDev es hselects hes hne
    refine ⟨es, d, hes, hd, exists_effect_eq_lastWrite 0 hsetsPin, ?_, hmode⟩
    rw [hkey]
    exact exists_effect_eq_lastWrite 0 hsetsKey

/-- A section that sets nothing but its key drives pin 0. -/
theorem not_drivesConfigured_key_only :
    ¬ ∀ events queue w, (world [] (load events) queue).Reachable w →
      DrivesConfigured [] events w := by
  intro hall
  let key : Event := ⟨ascii "fan", ascii "key", ascii "0x43", by decide⟩
  have hsections : sections [key] = [[key]] := rfl
  have hkey : lastWrite setsKey 0 [key] = 0x43 := by decide +kernel
  have hpin : lastWrite setsPin 0 [key] ≠ -1 := by decide +kernel
  have hselects : Selects [key] 0x43 0 :=
    ⟨⟨[key], rfl, hkey⟩, fun j es hj => absurd hj (Nat.not_lt_zero j)⟩
  obtain ⟨w, h, hw, hmem, hpc, hdev, -, hwrite⟩ := drives_of_selects [] hselects rfl hpin
  obtain ⟨es, d, hes, -, ⟨e, he, hsets⟩, -⟩ := hall [key] _ w hw h hmem hpc _ _ hwrite
  rw [hdev, hsections] at hes
  obtain rfl := Option.some.inj hes
  obtain rfl := List.mem_singleton.mp he
  have hnone : setsPin key = none := by decide +kernel
  rw [hnone] at hsets
  cases hsets

end HomeControl
