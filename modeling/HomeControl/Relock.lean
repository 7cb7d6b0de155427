import HomeControl.DoorLock

/-!
# The door is locked when nothing is in progress

After a granted run the handler assigns `HIGH` to `gpio_status` and calls
`set_gpio_gdevice_status`, which reads the field again.  `Locked` says that the
pin of a device with `check_face_status` 1, once it has been driven, is `HIGH`
whenever no handler is active.

It fails when a handler that is going to be denied assigns `LOW` between the two
halves of a relock: the relock then writes `LOW`, and the denied handler writes
nothing.  `locked_of_relocking` proves the property for the runs without such a
step, for devices that share no pins.  The invariant is that a driven pin which is
not `HIGH` has a granted handler on its device that has still to relock it.
-/

namespace HomeControl

open StepSystem

variable {ctrlPhead : List Control} {devs : List Gdevice} {queue : List Command}
  {ok : World → Label → Prop}

/-- The pin has been driven. -/
def Driven (log : List GpioCall) (p : Int) : Prop := ∃ v, .digitalWrite p v ∈ log

/-- When no handler is active, a gated pin that has been driven is `HIGH`.  `init`
is the level of the pins before the first write. -/
def Locked (init : Int → Int) (w : World) : Prop :=
  (∀ h ∈ w.handlers, h.pc = .done) → ∀ d ∈ w.house.devs, d.checkFaceStatus = 1 →
    Driven w.house.gpio d.gpioPin → level init w.house.gpio d.gpioPin = HIGH

/-- The places from the lookup to the first half of the relock. -/
def Pc.beforeRelock : Pc → Bool
  | .find | .relockSet | .done => false
  | _ => true

/-- The handler is granted, and it has still to assign `HIGH` to this device. -/
def Handler.WillRelock (dev : Nat) (h : Handler) : Prop :=
  h.curDev = dev ∧ h.cmd.score > 1 / 2 ∧ h.pc.beforeRelock = true

/-- The step does not let a handler without a grant assign `LOW` to a gated device
between the two halves of a relock, unless another granted handler has still to
relock that device. -/
def Relocking (devs : List Gdevice) (w : World) (ℓ : Label) : Prop :=
  ∀ i g, ℓ = .handler i → w.handlers[i]? = some g → g.pc = .assign →
    w.house.buffer 3 = 0 → Gated devs g.curDev → ¬ g.cmd.score > 1 / 2 →
    (∃ b ∈ w.handlers, b.WillRelock g.curDev) ∨
      ∀ h ∈ w.handlers, h.curDev = g.curDev → h.pc ≠ .relockSet

/-! ## Granted handlers relock -/

/-- A granted handler keeps the relock ahead of it until it makes the first half. -/
theorem Handler.willRelock_next {s : House} (hcfg : SameConfig devs s.devs)
    {h : Handler} (hsound : h.Sound devs) {dev : Nat} (hgated : Gated devs dev)
    (hwill : h.WillRelock dev) (hpc : h.pc ≠ .relockAssign) :
    (h.next ctrlPhead s).1.WillRelock dev := by
  obtain ⟨rfl, hscore, hbefore⟩ := hwill
  have hface : checksFace s.devs h.curDev = true := (hcfg.gated hgated).checksFace
  cases hplace : h.pc with
  | find => simp [hplace, Pc.beforeRelock] at hbefore
  | relockSet => simp [hplace, Pc.beforeRelock] at hbefore
  | done => simp [hplace, Pc.beforeRelock] at hbefore
  | relockAssign => exact absurd hplace hpc
  | assign =>
    simp only [Handler.next, hplace, if_pos hface]
    exact ⟨rfl, hscore, rfl⟩
  | parRetfunc =>
    simp only [Handler.next, hplace]
    exact ⟨rfl, hscore, rfl⟩
  | mark =>
    simp only [Handler.Sound, hplace] at hsound
    have hgranted : h.faceRet > 1 / 2 := hsound.2.2 ▸ hscore
    simp only [Handler.next, hplace, if_pos hgranted]
    exact ⟨rfl, hscore, rfl⟩
  | setGpio =>
    simp only [Handler.next, hplace]
    refine ⟨rfl, hscore, ?_⟩
    rcases afterRet_cases ctrlPhead s.devs h.curDev with hafter | hafter
    · simp [hafter, Pc.beforeRelock]
    · simp [hafter, Pc.beforeRelock]
  | announce a =>
    simp only [Handler.next, hplace]
    refine ⟨rfl, hscore, ?_⟩
    rcases a.next_cases ((voiceControl ctrlPhead).map (·.set)) s.buffer with
      hnext | ⟨a', hnext⟩
    · simp [hnext, Pc.beforeRelock]
    · simp [hnext, Pc.beforeRelock]
  | oled =>
    simp only [Handler.Sound, hplace] at hsound
    obtain ⟨hscored, hret⟩ := hsound.2 hgated.checksFace
    have hrelock : checksFace s.devs h.curDev = true ∧ h.ret = 0 ∧ h.faceRet > 1 / 2 :=
      ⟨hface, hret hscore, hscored ▸ hscore⟩
    simp only [Handler.next, hplace, if_pos hrelock]
    exact ⟨rfl, hscore, rfl⟩

/-- Only the first half of the relock leads to the second. -/
theorem Handler.of_next_relockSet {s : House} {h : Handler}
    (hnext : (h.next ctrlPhead s).1.pc = .relockSet) : h.pc = .relockAssign := by
  have hflow := h.next_leadsTo ctrlPhead s
  rw [hnext] at hflow
  cases hpc : h.pc <;> simp [hpc, Pc.leadsTo] at hflow
  rfl

/-- The device has a granted handler that has still to relock it. -/
def Awaited (w : World) (dev : Nat) : Prop := ∃ b ∈ w.handlers, b.WillRelock dev

/-- The device has a handler between the two halves of a relock. -/
def HalfRelocked (w : World) (dev : Nat) : Prop :=
  ∃ b ∈ w.handlers, b.curDev = dev ∧ b.pc = .relockSet

/-- A relock that a device waits for is still to come after a step, or the step is
its first half. -/
theorem awaited_step {w w' : World} {ℓ : Label}
    (hw : (world ctrlPhead devs queue).ReachableWhere ok w)
    (hstep : w.step ctrlPhead ℓ = some w') {dev : Nat} (hgated : Gated devs dev)
    (hwait : Awaited w dev) :
    Awaited w' dev ∨ (statusAt w'.house dev = some HIGH ∧ HalfRelocked w' dev) := by
  obtain ⟨b, hmem, hwill⟩ := hwait
  have hcfg := sameConfig_of_reachable hw
  obtain ⟨k, hk⟩ := List.mem_iff_getElem?.mp hmem
  by_cases hown : ℓ = .handler k
  · have hne : b.pc ≠ .done := by
      intro h
      have hbefore := hwill.2.2
      rw [h] at hbefore
      cases hbefore
    have hw' : w' = w.advance ctrlPhead k b := by
      rw [hown, World.step_handler hk hne] at hstep
      exact (Option.some.inj hstep).symm
    have hin := List.mem_of_getElem? (World.getElem?_advance ctrlPhead hk)
    rw [hw']
    by_cases hrelock : b.pc = .relockAssign
    · refine .inr ⟨?_, _, hin, ?_, ?_⟩
      · show statusAt (w.house.apply _) dev = _
        simp only [Handler.next, hrelock, hwill.1]
        exact statusAt_assignStatus (hcfg.gated hgated) HIGH
      · simp only [Handler.next, hrelock]
        exact hwill.1
      · simp only [Handler.next, hrelock]
    · exact .inl ⟨_, hin, Handler.willRelock_next hcfg (sound_of_reachable hw hk) hgated
        hwill hrelock⟩
  · exact .inl ⟨b, List.mem_of_getElem? (World.handler_stays hstep hk hown), hwill⟩

/-! ## The invariant -/

/-- Between the two halves of a relock the status is `HIGH`, unless another relock
is to come. -/
def Restored (dev : Nat) (w : World) : Prop :=
  HalfRelocked w dev → statusAt w.house dev = some HIGH ∨ Awaited w dev

theorem restored_step {w w' : World} {ℓ : Label}
    (hw : (world ctrlPhead devs queue).ReachableWhere ok w)
    (hstep : w.step ctrlPhead ℓ = some w') {dev : Nat} (hgated : Gated devs dev)
    (hok : Relocking devs w ℓ) (hinv : Restored dev w) : Restored dev w' := by
  rintro ⟨h', hmem, hdev, hpc⟩
  have hcfg := sameConfig_of_reachable hw
  -- A relock that is still to come settles the case.
  have hawaited : Awaited w dev →
      statusAt w'.house dev = some HIGH ∨ Awaited w' dev := by
    intro hwait
    rcases awaited_step hw hstep hgated hwait with h | ⟨h, -⟩
    · exact .inr h
    · exact .inl h
  obtain ⟨k, hk⟩ := List.mem_iff_getElem?.mp hmem
  rcases World.handler_cases hstep hk with
    ⟨hold, -⟩ | ⟨c, rest, -, -, -, -, rfl⟩ | ⟨h, rfl, hh, hne, rfl, rfl⟩
  · have hin := List.mem_of_getElem? hold
    rcases hinv ⟨h', hin, hdev, hpc⟩ with hhigh | hwait
    · rcases statusAt_step hstep (hcfg.gated hgated) with
        hsame | ⟨i, g, rfl, hg, hgdev, hassign, hstatus⟩ | ⟨i, g, -, -, -, -, hstatus⟩
      · exact .inl (hsame.trans hhigh)
      · by_cases hscore : g.cmd.score > 1 / 2
        · refine hawaited ⟨g, List.mem_of_getElem? hg, hgdev, hscore, ?_⟩
          rw [hassign]
          rfl
        · by_cases hzero : w.house.buffer 3 = 0
          · rcases hok i g rfl hg hassign hzero (hgdev ▸ hgated) hscore with hwait | hno
            · exact hawaited (hgdev ▸ hwait)
            · exact absurd hpc (hno h' hin (hdev.trans hgdev.symm))
          · exact .inl (hstatus.trans (congrArg some (statusOf_ne_zero hzero)))
      · exact .inl hstatus
    · exact hawaited hwait
  · cases hpc
  · -- The handler itself has just assigned `HIGH`.
    have hrelock := Handler.of_next_relockSet hpc
    have hsame : (h.next ctrlPhead w.house).1.curDev = h.curDev := by
      simp only [Handler.next, hrelock]
    refine .inl ?_
    show statusAt (w.house.apply _) dev = _
    simp only [Handler.next, hrelock, hsame.symm.trans hdev]
    exact statusAt_assignStatus (hcfg.gated hgated) HIGH

/-- A driven pin that is not `HIGH` has a handler on its device that has still to
write it. -/
def LockedOrBusy (init : Int → Int) (dev : Nat) (p : Int) (w : World) : Prop :=
  Driven w.house.gpio p →
    level init w.house.gpio p = HIGH ∨ Awaited w dev ∨ HalfRelocked w dev

/-- A step leaves the pins alone, or it is a handler's call of
`set_gpio_gdevice_status`. -/
theorem gpio_step {w w' : World} {ℓ : Label} (hstep : w.step ctrlPhead ℓ = some w') :
    (w'.house.gpio = w.house.gpio ∧
      ∀ i g, ℓ = .handler i → w.handlers[i]? = some g → g.pc ≠ .relockSet) ∨
    (∃ i g, ℓ = .handler i ∧ w.handlers[i]? = some g ∧
      (g.pc = .setGpio ∨ g.pc = .relockSet) ∧
      w'.house.gpio =
        (setGpioGdeviceStatus w.house.devs[g.curDev]?).1.reverse ++ w.house.gpio) := by
  rcases World.step_cases hstep with
    ⟨c, rest, rfl, hq, rfl⟩ | ⟨i, g, rfl, hg, hpc, rfl⟩ | ⟨j, v, serial, rfl, hv, hpc, rfl⟩
  · refine .inl ⟨rfl, fun i g hi => ?_⟩
    cases hi
  · by_cases hplace : g.pc = .setGpio ∨ g.pc = .relockSet
    · refine .inr ⟨i, g, rfl, hg, hplace, ?_⟩
      have hact : (g.next ctrlPhead w.house).2 = .setGpio g.curDev := by
        rcases hplace with hplace | hplace <;> simp only [Handler.next, hplace]
      show (w.house.apply (g.next ctrlPhead w.house).2).gpio = _
      rw [hact]
      rfl
    · refine .inl ⟨House.apply_gpio _ fun dev hact => ?_, fun k h hk hh hset => ?_⟩
      · exact hplace (Handler.next_setGpio hact).2
      · cases hk
        obtain rfl : g = h := Option.some.inj (hg.symm.trans hh)
        exact hplace (.inr hset)
  · refine .inl ⟨rfl, fun i g hi => ?_⟩
    cases hi

theorem driven_append {calls log : List GpioCall} {p : Int} :
    Driven (calls.reverse ++ log) p ↔ Driven calls p ∨ Driven log p := by
  simp [Driven, exists_or]

/-- A call of `set_gpio_gdevice_status` for a device with another pin. -/
theorem setGpio_other {l : List Gdevice} {dev : Nat} {p : Int}
    (hother : ∀ e, l[dev]? = some e → e.gpioPin ≠ p) (init : Int → Int)
    (log : List GpioCall) :
    level init ((setGpioGdeviceStatus l[dev]?).1.reverse ++ log) p = level init log p ∧
      (Driven ((setGpioGdeviceStatus l[dev]?).1.reverse ++ log) p → Driven log p) := by
  cases he : l[dev]? with
  | none => exact ⟨rfl, id⟩
  | some e =>
    have hne := hother e he
    refine ⟨by rw [level_setGpio, if_neg fun h => hne h.1], fun hdriven => ?_⟩
    rcases driven_append.mp hdriven with ⟨v, hv⟩ | hlog
    · exact absurd (digitalWrite_mem_setGpio.mp hv).1.symm hne
    · exact hlog

/-- A handler between the two halves of a relock is still there after a step, unless
it has made the second. -/
theorem halfRelocked_step {w w' : World} {ℓ : Label}
    (hstep : w.step ctrlPhead ℓ = some w') {dev : Nat} (hhalf : HalfRelocked w dev) :
    HalfRelocked w' dev ∨ ∃ i g, ℓ = .handler i ∧ w.handlers[i]? = some g ∧
      g.curDev = dev ∧ g.pc = .relockSet := by
  obtain ⟨b, hmem, hdev, hpc⟩ := hhalf
  obtain ⟨k, hk⟩ := List.mem_iff_getElem?.mp hmem
  by_cases hown : ℓ = .handler k
  · exact .inr ⟨k, b, hown, hk, hdev, hpc⟩
  · exact .inl ⟨b, List.mem_of_getElem? (World.handler_stays hstep hk hown), hdev, hpc⟩

theorem lockedOrBusy_step {init : Int → Int} {w w' : World} {ℓ : Label}
    (hw : (world ctrlPhead devs queue).ReachableWhere ok w)
    (hstep : w.step ctrlPhead ℓ = some w') (hpins : NoSharedPins devs) {dev : Nat}
    {d : Gdevice} (hd : devs[dev]? = some d) (hface : d.checkFaceStatus = 1)
    (hpin : d.gpioPin ≠ -1) (hrestored : Restored dev w)
    (hinv : LockedOrBusy init dev d.gpioPin w) : LockedOrBusy init dev d.gpioPin w' := by
  intro hdriven
  have hcfg := sameConfig_of_reachable hw
  have hgated : Gated devs dev := ⟨d, hd, hface, hpin⟩
  have hawaited : Awaited w dev →
      level init w'.house.gpio d.gpioPin = HIGH ∨ Awaited w' dev ∨ HalfRelocked w' dev := by
    intro hwait
    rcases awaited_step hw hstep hgated hwait with h | ⟨-, h⟩
    · exact .inr (.inl h)
    · exact .inr (.inr h)
  -- The relocks that were half done, when this step is not the second half.
  have hkept : (∀ i g, ℓ = .handler i → w.handlers[i]? = some g →
      ¬ (g.curDev = dev ∧ g.pc = .relockSet)) → Driven w.house.gpio d.gpioPin →
      level init w'.house.gpio d.gpioPin = level init w.house.gpio d.gpioPin →
      level init w'.house.gpio d.gpioPin = HIGH ∨ Awaited w' dev ∨ HalfRelocked w' dev := by
    intro hother hbefore hlevel
    rcases hinv hbefore with hhigh | hwait | hhalf
    · exact .inl (hlevel.trans hhigh)
    · exact hawaited hwait
    · rcases halfRelocked_step hstep hhalf with h | ⟨i, g, hi, hg, hdev, hset⟩
      · exact .inr (.inr h)
      · exact absurd ⟨hdev, hset⟩ (hother i g hi hg)
  rcases gpio_step hstep with ⟨hsame, hnot⟩ | ⟨i, g, hi, hg, hplace, hgpio⟩
  · rw [hsame] at hdriven
    refine hkept (fun i g hi hg h => hnot i g hi hg h.2) hdriven ?_
    rw [hsame]
  · have hin := List.mem_of_getElem? hg
    have hsound := sound_of_reachable hw hg
    by_cases hdev : g.curDev = dev
    · rcases hplace with hset | hrelock
      · -- A granted handler has just driven the pin, and relocks it later.
        simp only [Handler.Sound, hset] at hsound
        have hscore := (hsound.2 (hdev ▸ hgated.checksFace)).2
        refine hawaited ⟨g, hin, hdev, hscore, ?_⟩
        rw [hset]
        rfl
      · rcases hrestored ⟨g, hin, hdev, hrelock⟩ with hhigh | hwait
        · obtain ⟨v, hv⟩ := hcfg.getElem? hd
          have hstatus : v = HIGH := by
            rw [statusAt, hv, Option.map_some] at hhigh
            exact Option.some.inj hhigh
          refine .inl ?_
          have hset : v ≠ -1 := by
            rw [hstatus]
            decide
          rw [hgpio, hdev, hv, level_setGpio, if_pos ⟨rfl, hpin, hset⟩]
          exact hstatus
        · exact hawaited hwait
    · -- A call for another device does not touch this pin.
      have hother : ∀ e, w.house.devs[g.curDev]? = some e → e.gpioPin ≠ d.gpioPin := by
        intro e he heq
        obtain ⟨v, hv⟩ := hcfg.getElem? hd
        exact hdev (hcfg.noSharedPins hpins _ _ _ _ he hv heq (heq ▸ hpin))
      have hcall := setGpio_other hother init w.house.gpio
      rw [← hgpio] at hcall
      refine hkept (fun k h hk hh hboth => ?_) (hcall.2 hdriven) hcall.1
      cases hi.symm.trans hk
      obtain rfl : g = h := Option.some.inj (hg.symm.trans hh)
      exact hdev hboth.1

/-- No write goes to the pin number that stands for an unset pin. -/
theorem not_driven_neg_one {w : World}
    (hw : (world ctrlPhead devs queue).ReachableWhere ok w) :
    ¬ Driven w.house.gpio (-1) := by
  refine hw.invariant (fun w => ¬ Driven w.house.gpio (-1)) ?_ ?_
  · rintro ⟨v, hv⟩
    cases hv
  · intro s ℓ s' hinv _ hstep hdriven
    rcases gpio_step hstep with ⟨hsame, -⟩ | ⟨i, g, -, -, -, hgpio⟩
    · exact hinv (hsame ▸ hdriven)
    · rw [hgpio, driven_append] at hdriven
      rcases hdriven with ⟨v, hv⟩ | hdriven
      · rcases he : s.house.devs[g.curDev]? with _ | e
        · rw [he] at hv
          cases hv
        · rw [he] at hv
          obtain ⟨hpin, -, hne, -⟩ := digitalWrite_mem_setGpio.mp hv
          exact hne hpin.symm
      · exact hinv hdriven

theorem lockedOrBusy_of_relocking {init : Int → Int} {w : World}
    (hw : (world ctrlPhead devs queue).ReachableWhere (Relocking devs) w)
    (hpins : NoSharedPins devs) {dev : Nat} {d : Gdevice} (hd : devs[dev]? = some d)
    (hface : d.checkFaceStatus = 1) (hpin : d.gpioPin ≠ -1) :
    Restored dev w ∧ LockedOrBusy init dev d.gpioPin w := by
  refine hw.invariant' (fun w => Restored dev w ∧ LockedOrBusy init dev d.gpioPin w) ?_ ?_
  · refine ⟨fun ⟨b, hb, _⟩ => ?_, fun ⟨v, hv⟩ => ?_⟩
    · cases hb
    · cases hv
  · intro s ℓ s' hs hinv hok hstep
    exact ⟨restored_step hs hstep ⟨d, hd, hface, hpin⟩ hok hinv.1,
      lockedOrBusy_step hs hstep hpins hd hface hpin hinv.1 hinv.2⟩

/-- When the door is locked with nothing in progress, for devices that share no pins:
in every run in which no handler without a grant assigns `LOW` between the two
halves of a relock. -/
theorem locked_of_relocking (ctrlPhead : List Control) (devs : List Gdevice)
    (queue : List Command) (hpins : NoSharedPins devs) (init : Int → Int) (w : World)
    (hw : (world ctrlPhead devs queue).ReachableWhere (Relocking devs) w) :
    Locked init w := by
  intro hdone d hmem hface hdriven
  have hcfg := sameConfig_of_reachable hw
  obtain ⟨dev, hdev⟩ := List.mem_iff_getElem?.mp hmem
  obtain ⟨v, hd⟩ := hcfg.symm.getElem? hdev
  have hpin : d.gpioPin ≠ -1 := by
    intro h
    rw [h] at hdriven
    exact not_driven_neg_one hw hdriven
  rcases (lockedOrBusy_of_relocking hw hpins hd hface hpin).2 hdriven with
    hhigh | ⟨b, hb, -, -, hbefore⟩ | ⟨b, hb, -, hset⟩
  · exact hhigh
  · rw [hdone b hb] at hbefore
    cases hbefore
  · exact absurd ((hdone b hb).symm.trans hset) (by simp)

/-- A queue of granted commands only: no run of it is excluded. -/
theorem relocking_of_granted {w : World} (hw : (world ctrlPhead devs queue).Reachable w)
    (hgranted : ∀ c ∈ queue, c.score > 1 / 2) :
    (world ctrlPhead devs queue).ReachableWhere (Relocking devs) w := by
  refine hw.permitted ?_
  intro s ℓ s' hs _ _ _ i g _ hg _ _ _ hscore
  have hmem : g.cmd ∈ s.handlers.map (·.cmd) ++ s.queue :=
    List.mem_append_left _ (List.mem_map.mpr ⟨g, List.mem_of_getElem? hg, rfl⟩)
  rw [cmds_of_reachable hs] at hmem
  exact absurd (hgranted _ hmem) hscore

/-- One granted command for the lock of the shipped configuration, from an unlocked
door to the end of its handler. -/
theorem locked_peripheral :
    ∃ w, (world [] peripheral [⟨⟨0x44, 0x00⟩, 9 / 10⟩]).Reachable w ∧
      (∀ h ∈ w.handlers, h.pc = .done) ∧ Driven w.house.gpio 8 ∧
      Locked (fun _ => LOW) w := by
  obtain ⟨w, hw, hend⟩ := exists_reachable
    (world [] peripheral [⟨⟨0x44, 0x00⟩, 9 / 10⟩])
    (.receive :: List.replicate 8 (.handler 0))
    (fun w => (w.handlers.all fun h => h.pc == .done) &&
      decide (.digitalWrite 8 LOW ∈ w.house.gpio)) (by decide +kernel)
  simp only [Bool.and_eq_true, List.all_eq_true, beq_iff_eq, decide_eq_true_eq] at hend
  have hgranted : ∀ c ∈ [Command.mk ⟨0x44, 0x00⟩ (9 / 10)], c.score > 1 / 2 := by
    decide +kernel
  exact ⟨w, hw, hend.1, ⟨LOW, hend.2⟩, locked_of_relocking [] peripheral _
    noSharedPins_peripheral (fun _ => LOW) w (relocking_of_granted hw hgranted)⟩

/-- The lock of the shipped configuration: a denied command assigns `LOW` between the
two halves of the relock of a granted one, and the door stays open. -/
theorem not_locked_peripheral :
    ¬ ∀ w, (world [] peripheral
        [⟨⟨0x44, 0x00⟩, 9 / 10⟩, ⟨⟨0x44, 0x00⟩, 0⟩]).Reachable w →
      Locked (fun _ => HIGH) w := by
  intro hall
  obtain ⟨w, hw, hopen⟩ := exists_reachable
    (world [] peripheral [⟨⟨0x44, 0x00⟩, 9 / 10⟩, ⟨⟨0x44, 0x00⟩, 0⟩])
    (.receive :: List.replicate 7 (.handler 0) ++
      [.receive, .handler 1, .handler 1, .handler 0] ++ List.replicate 3 (.handler 1))
    (fun w => (w.handlers.all fun h => h.pc == .done) &&
      (w.house.devs.any fun d => d.checkFaceStatus == 1 && d.gpioPin == 8) &&
      decide (.digitalWrite 8 LOW ∈ w.house.gpio) &&
      level (fun _ => HIGH) w.house.gpio 8 == LOW) (by decide +kernel)
  simp only [Bool.and_eq_true, List.all_eq_true, List.any_eq_true, beq_iff_eq,
    decide_eq_true_eq] at hopen
  obtain ⟨⟨⟨hdone, d, hd, hface, hpin⟩, hdriven⟩, hlow⟩ := hopen
  have hhigh := hall w hw hdone d hd hface (hpin ▸ ⟨LOW, hdriven⟩)
  rw [hpin, hlow] at hhigh
  exact LOW_ne_HIGH hhigh

end HomeControl
