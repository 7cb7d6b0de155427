import HomeControl.World

/-!
# Who unlocks the door

A device with `check_face_status` 1 is driven only by handlers whose face score
exceeds 0.5.  The level that such a handler writes is not its own: it is the
shared `gpio_status` field, which every handler for the device assigns before its
face check.  `Authorised` says that a handler which drives such a pin to `LOW` has
itself read payload 0 and has itself been granted.

The second half holds always.  The first fails when another handler assigns `LOW`
between the assignment of the granted one and its write, or between the two
halves of its relock.  `authorised_iff_unborrowed` shows that this is the only
way, for devices that share no pins.
-/

namespace HomeControl

open StepSystem

variable {ctrlPhead : List Control} {devs : List Gdevice} {queue : List Command}
  {ok : World → Label → Prop}

/-! ## The shared status field -/

/-- The device at this index asks for a face check and has a pin. -/
def Gated (devs : List Gdevice) (dev : Nat) : Prop :=
  ∃ d, devs[dev]? = some d ∧ d.checkFaceStatus = 1 ∧ d.gpioPin ≠ -1

theorem Gated.checksFace {dev : Nat} (h : Gated devs dev) :
    checksFace devs dev = true := by
  obtain ⟨d, hd, hface, -⟩ := h
  simp [HomeControl.checksFace, hd, hface]

theorem SameConfig.gated {devs' : List Gdevice} (h : SameConfig devs devs') {dev : Nat}
    (hgated : Gated devs dev) : Gated devs' dev := by
  obtain ⟨d, hd, hface, hpin⟩ := hgated
  obtain ⟨v, hv⟩ := h.getElem? hd
  exact ⟨_, hv, hface, hpin⟩

/-- `gpio_status` of the device at this index. -/
def statusAt (s : House) (dev : Nat) : Option Int := s.devs[dev]?.map (·.gpioStatus)

theorem statusAt_assignStatus {s : House} {dev : Nat} (h : Gated s.devs dev) (v : Int) :
    statusAt (s.apply (.assignStatus dev v)) dev = some v := by
  obtain ⟨d, hd, -⟩ := h
  show ((assignStatus s.devs dev v)[dev]?).map (·.gpioStatus) = some v
  rw [getElem?_assignStatus_self hd]
  rfl

/-- A step leaves the status of a device alone, or it is the assignment of a handler
for it, or the assignment of its relock. -/
theorem statusAt_step {w w' : World} {ℓ : Label} (hstep : w.step ctrlPhead ℓ = some w')
    {dev : Nat} (hgated : Gated w.house.devs dev) :
    statusAt w'.house dev = statusAt w.house dev ∨
    (∃ i g, ℓ = .handler i ∧ w.handlers[i]? = some g ∧ g.curDev = dev ∧
      g.pc = .assign ∧ statusAt w'.house dev = some (statusOf (w.house.buffer 3))) ∨
    (∃ i g, ℓ = .handler i ∧ w.handlers[i]? = some g ∧ g.curDev = dev ∧
      g.pc = .relockAssign ∧ statusAt w'.house dev = some HIGH) := by
  rcases World.step_cases hstep with
    ⟨c, rest, rfl, hq, rfl⟩ | ⟨i, g, rfl, hg, hpc, rfl⟩ | ⟨j, v, serial, rfl, hv, hpc, rfl⟩
  · exact .inl rfl
  · by_cases hact : ∃ v, (g.next ctrlPhead w.house).2 = .assignStatus dev v
    · obtain ⟨v, hact⟩ := hact
      have hstatus : statusAt (w.advance ctrlPhead i g).house dev = some v := by
        show statusAt (w.house.apply _) dev = some v
        rw [hact]
        exact statusAt_assignStatus hgated v
      obtain ⟨hdev, ⟨hassign, hv⟩ | ⟨hrelock, hv⟩⟩ := Handler.next_assignStatus hact
      · exact .inr (.inl ⟨i, g, rfl, hg, hdev.symm, hassign, hv ▸ hstatus⟩)
      · exact .inr (.inr ⟨i, g, rfl, hg, hdev.symm, hrelock, hv ▸ hstatus⟩)
    · refine .inl ?_
      show ((w.house.apply (g.next ctrlPhead w.house).2).devs[dev]?).map _ = _
      by_cases hother : ∃ k v, (g.next ctrlPhead w.house).2 = .assignStatus k v
      · obtain ⟨k, v, hk⟩ := hother
        have hne : k ≠ dev := fun h => hact ⟨v, h ▸ hk⟩
        rw [hk]
        show ((assignStatus w.house.devs k v)[dev]?).map _ = _
        rw [getElem?_assignStatus_ne _ hne]
        rfl
      · rw [House.apply_devs _ fun k v hk => hother ⟨k, v, hk⟩]
        rfl
  · exact .inl rfl

/-! ## The property -/

/-- The calls to the GPIO library that an access makes. -/
def Action.calls (s : House) : Action → List GpioCall
  | .setGpio dev => (setGpioGdeviceStatus s.devs[dev]?).1
  | _ => []

/-- Whichever handler is next to drive the pin of a device with a face check to
`LOW`, it has itself read payload 0 and has itself got a score above 0.5. -/
def Authorised (ctrlPhead : List Control) (w : World) : Prop :=
  ∀ h ∈ w.handlers, h.pc ≠ .done → ∀ p,
    .digitalWrite p LOW ∈ (h.next ctrlPhead w.house).2.calls w.house →
    ∀ d ∈ w.house.devs, d.checkFaceStatus = 1 → d.gpioPin = p →
      h.payload = some 0 ∧ h.faceRet > 1 / 2

/-- The handler is granted and is going to write the pin, or to finish its relock,
and the payload that it assigned was not 0. -/
def Handler.WillClose (h : Handler) : Prop :=
  h.payload ≠ some 0 ∧ h.cmd.score > 1 / 2 ∧
    (h.pc = .parRetfunc ∨ h.pc = .mark ∨ h.pc = .setGpio ∨ h.pc = .relockSet)

/-- The step does not assign `LOW` to a gated device that a granted handler, which
did not read payload 0, is about to drive. -/
def Unborrowed (devs : List Gdevice) (w : World) (ℓ : Label) : Prop :=
  ∀ i g, ℓ = .handler i → w.handlers[i]? = some g → g.pc = .assign →
    w.house.buffer 3 = 0 → Gated devs g.curDev →
    ∀ h ∈ w.handlers, h.curDev = g.curDev → ¬ h.WillClose

instance (devs : List Gdevice) (dev : Nat) : Decidable (Gated devs dev) :=
  decidable_of_iff (devs[dev]?.any fun d => d.checkFaceStatus == 1 && d.gpioPin != -1) <| by
    rw [Option.any_eq_true]
    simp only [Bool.and_eq_true, beq_iff_eq, bne_iff_ne]
    rfl

instance (h : Handler) : Decidable h.WillClose :=
  inferInstanceAs (Decidable (h.payload ≠ some 0 ∧ h.cmd.score > 1 / 2 ∧
    (h.pc = .parRetfunc ∨ h.pc = .mark ∨ h.pc = .setGpio ∨ h.pc = .relockSet)))

instance (devs : List Gdevice) (w : World) (ℓ : Label) : Decidable (Unborrowed devs w ℓ) :=
  match ℓ with
  | .handler i =>
    decidable_of_iff (∀ g ∈ w.handlers[i]?, g.pc = .assign → w.house.buffer 3 = 0 →
        Gated devs g.curDev → ∀ h ∈ w.handlers, h.curDev = g.curDev → ¬ h.WillClose)
      ⟨fun hok j g hj hg => hok g (by cases hj; exact hg), fun hok g hg => hok i g rfl hg⟩
  | .receive => .isTrue fun i g hi => by cases hi
  | .voice j serial => .isTrue fun i g hi => by cases hi

/-- What drives a pin. -/
theorem digitalWrite_cases {s : House} {h : Handler} {p v : Int}
    (hwrite : .digitalWrite p v ∈ (h.next ctrlPhead s).2.calls s) :
    (h.pc = .setGpio ∨ h.pc = .relockSet) ∧ statusAt s h.curDev = some v ∧
      ∃ d, s.devs[h.curDev]? = some d ∧ d.gpioPin = p ∧ p ≠ -1 := by
  unfold Action.calls at hwrite
  split at hwrite
  · rename_i dev hact
    obtain ⟨rfl, hpc⟩ := Handler.next_setGpio hact
    rcases hd : s.devs[h.curDev]? with _ | d
    · rw [hd] at hwrite
      cases hwrite
    · rw [hd] at hwrite
      obtain ⟨hpin, hstatus, hne, -⟩ := digitalWrite_mem_setGpio.mp hwrite
      refine ⟨hpc, ?_, d, rfl, hpin.symm, hpin ▸ hne⟩
      rw [statusAt, hd, Option.map_some, hstatus]
  · cases hwrite

/-! ## The invariant -/

/-- How a handler gets to be about to write the pin with a payload that is not 0. -/
theorem Handler.of_willClose_next {s : House} {h : Handler}
    (hclose : (h.next ctrlPhead s).1.WillClose) :
    (h.next ctrlPhead s).1.curDev = h.curDev ∧
      ((h.pc = .assign ∧ s.buffer 3 ≠ 0) ∨ h.pc = .relockAssign ∨
        ((h.pc = .parRetfunc ∨ h.pc = .mark) ∧ h.WillClose)) := by
  obtain ⟨hpay, hscore, hplace⟩ := hclose
  rw [Handler.next_cmd] at hscore
  have hfrom : h.pc = .assign ∨ h.pc = .parRetfunc ∨ h.pc = .mark ∨ h.pc = .relockAssign := by
    have hflow := h.next_leadsTo ctrlPhead s
    rcases hplace with hnext | hnext | hnext | hnext <;> rw [hnext] at hflow <;>
      cases hpc : h.pc <;> simp [hpc, Pc.leadsTo] at hflow ⊢
  rcases hfrom with hpc | hpc | hpc | hpc
  · simp only [Handler.next, hpc] at hpay ⊢
    exact ⟨trivial, .inl ⟨trivial, fun h0 => hpay (by rw [h0])⟩⟩
  · simp only [Handler.next, hpc] at hpay ⊢
    exact ⟨trivial, .inr (.inr ⟨.inl trivial, hpay, hscore, .inl hpc⟩)⟩
  · have hrecords := Handler.next_records ctrlPhead s (h := h) (by simp [hpc])
      (by simp [hpc])
    rw [hrecords.2.1] at hpay
    exact ⟨hrecords.2.2, .inr (.inr ⟨.inr hpc, hpay, hscore, .inr (.inl hpc)⟩)⟩
  · simp only [Handler.next, hpc]
    exact ⟨trivial, .inr (.inl trivial)⟩

/-- In a run that lends no `LOW`, a handler that is about to write without having
read payload 0 does not find `LOW`. -/
theorem statusAt_ne_LOW {w : World}
    (hw : (world ctrlPhead devs queue).ReachableWhere (Unborrowed devs) w) :
    ∀ h ∈ w.handlers, Gated devs h.curDev → h.WillClose →
      statusAt w.house h.curDev ≠ some LOW := by
  refine hw.invariant' (fun w => ∀ h ∈ w.handlers, Gated devs h.curDev → h.WillClose →
    statusAt w.house h.curDev ≠ some LOW) ?_ ?_
  · intro h hh
    cases hh
  · intro s ℓ s' hs hinv hok hstep h' hmem hgated hclose hlow
    have hcfg := sameConfig_of_reachable hs
    have hmove : s.step ctrlPhead ℓ = some s' := hstep
    obtain ⟨k, hk⟩ := List.mem_iff_getElem?.mp hmem
    rcases World.handler_cases hstep hk with
      ⟨hold, -⟩ | ⟨c, rest, -, -, -, -, rfl⟩ | ⟨h, rfl, hh, -, rfl, rfl⟩
    · -- Another thread's step: the only one that assigns `LOW` is excluded.
      have hin := List.mem_of_getElem? hold
      rcases statusAt_step hmove (hcfg.gated hgated) with
        hsame | ⟨i, g, rfl, hg, hdev, hassign, hstatus⟩ | ⟨i, g, -, -, -, -, hstatus⟩
      · exact hinv h' hin hgated hclose (hsame.symm.trans hlow)
      · have hzero : s.house.buffer 3 = 0 :=
          statusOf_eq_LOW.mp (Option.some.inj (hstatus.symm.trans hlow))
        exact hok i g rfl hg hassign hzero (hdev ▸ hgated) h' hin hdev.symm hclose
      · exact LOW_ne_HIGH (Option.some.inj (hlow.symm.trans hstatus))
    · obtain ⟨-, -, h | h | h | h⟩ := hclose <;> cases h
    · obtain ⟨hdev, ⟨hassign, hne⟩ | hrelock | ⟨hplace, hwas⟩⟩ :=
        Handler.of_willClose_next hclose
      · rw [hdev] at hgated hlow
        have hstatus : statusAt (s.advance ctrlPhead k h).house h.curDev =
            some (statusOf (s.house.buffer 3)) := by
          show statusAt (s.house.apply _) h.curDev = _
          simp only [Handler.next, hassign]
          exact statusAt_assignStatus (hcfg.gated hgated) _
        exact hne (statusOf_eq_LOW.mp (Option.some.inj (hstatus.symm.trans hlow)))
      · rw [hdev] at hgated hlow
        have hstatus : statusAt (s.advance ctrlPhead k h).house h.curDev = some HIGH := by
          show statusAt (s.house.apply _) h.curDev = _
          simp only [Handler.next, hrelock]
          exact statusAt_assignStatus (hcfg.gated hgated) _
        exact LOW_ne_HIGH (Option.some.inj (hlow.symm.trans hstatus))
      · rw [hdev] at hgated hlow
        have hstays : ∀ i g, (Label.handler k) = .handler i → s.handlers[i]? = some g →
            g.pc ≠ .assign ∧ g.pc ≠ .relockAssign := by
          intro i g hi hg
          cases hi
          obtain rfl : h = g := Option.some.inj (hh.symm.trans hg)
          rcases hplace with hpc | hpc <;> simp [hpc]
        rcases statusAt_step hmove (hcfg.gated hgated) with
          hsame | ⟨i, g, hi, hg, -, hpc, -⟩ | ⟨i, g, hi, hg, -, hpc, -⟩
        · exact hinv h (List.mem_of_getElem? hh) hgated hwas (hsame.symm.trans hlow)
        · exact (hstays i g hi hg).1 hpc
        · exact (hstays i g hi hg).2 hpc

/-- The handler that drives a gated pin was granted. -/
theorem Handler.granted_of_write {h : Handler} (hsound : h.Sound devs)
    (hface : checksFace devs h.curDev = true)
    (hpc : h.pc = .setGpio ∨ h.pc = .relockSet) :
    h.faceRet > 1 / 2 ∧ h.cmd.score > 1 / 2 ∧ ∃ p, h.payload = some p := by
  rcases hpc with hpc | hpc
  · simp only [Handler.Sound, hpc] at hsound
    obtain ⟨hassigned, hgranted⟩ := hsound
    obtain ⟨hscored, hscore⟩ := hgranted hface
    exact ⟨hscored ▸ hscore, hscore, hassigned.2⟩
  · simp only [Handler.Sound, hpc] at hsound
    obtain ⟨hassigned, -, hscored, hscore⟩ := hsound
    exact ⟨hscored ▸ hscore, hscore, hassigned.2⟩

/-- Every run: the handler that drives the pin of a gated device to `LOW` is that
device's, and it was granted. -/
theorem granted_of_digitalWrite_LOW {w : World}
    (hw : (world ctrlPhead devs queue).ReachableWhere ok w) (hpins : NoSharedPins devs)
    {h : Handler} (hmem : h ∈ w.handlers) {p : Int}
    (hwrite : .digitalWrite p LOW ∈ (h.next ctrlPhead w.house).2.calls w.house)
    {d : Gdevice} (hd : d ∈ w.house.devs) (hface : d.checkFaceStatus = 1)
    (hpin : d.gpioPin = p) :
    Gated devs h.curDev ∧ h.faceRet > 1 / 2 ∧ h.cmd.score > 1 / 2 ∧
      ∃ p, h.payload = some p := by
  have hcfg := sameConfig_of_reachable hw
  obtain ⟨k, hk⟩ := List.mem_iff_getElem?.mp hmem
  obtain ⟨hpc, -, e, he, hepin, hne⟩ := digitalWrite_cases hwrite
  obtain ⟨j, hj⟩ := List.mem_iff_getElem?.mp hd
  obtain rfl : j = h.curDev :=
    hcfg.noSharedPins hpins j h.curDev d e hj he (hpin.trans hepin.symm) (hpin ▸ hne)
  have hgated : Gated devs h.curDev := hcfg.symm.gated ⟨d, hj, hface, hpin ▸ hne⟩
  exact ⟨hgated, Handler.granted_of_write (sound_of_reachable hw hk) hgated.checksFace hpc⟩

/-! ## A lent `LOW` is written -/

/-- A handler that is to drive its gated pin now, and finds `LOW` without having
read payload 0. -/
theorem not_authorised_of_place {w : World} {h : Handler} (hmem : h ∈ w.handlers)
    (hgated : Gated w.house.devs h.curDev)
    (hlow : statusAt w.house h.curDev = some LOW) (hpay : h.payload ≠ some 0)
    (hpc : h.pc = .setGpio ∨ h.pc = .relockSet) : ¬ Authorised ctrlPhead w := by
  intro hauth
  obtain ⟨d, hd, hface, hpin⟩ := hgated
  have hstatus : d.gpioStatus = LOW := by
    rw [statusAt, hd, Option.map_some] at hlow
    exact Option.some.inj hlow
  have hact : (h.next ctrlPhead w.house).2 = .setGpio h.curDev := by
    rcases hpc with hpc | hpc <;> simp only [Handler.next, hpc]
  have hwrite : .digitalWrite d.gpioPin LOW ∈
      (h.next ctrlPhead w.house).2.calls w.house := by
    rw [hact]
    show _ ∈ (setGpioGdeviceStatus w.house.devs[h.curDev]?).1
    rw [hd]
    refine digitalWrite_mem_setGpio.mpr ⟨rfl, hstatus.symm, hpin, ?_⟩
    rw [hstatus]
    decide
  have hne : h.pc ≠ .done := by
    rcases hpc with hpc | hpc <;> simp [hpc]
  exact hpay (hauth h hmem hne d.gpioPin hwrite d (List.mem_of_getElem? hd) hface rfl).1

/-- A handler that is about to write keeps what it needs for it. -/
theorem not_authorised_of_willClose {w : World} (hcfg : SameConfig devs w.house.devs)
    {k : Nat} {h : Handler} (hk : w.handlers[k]? = some h) (hsound : h.Sound devs)
    (hgated : Gated devs h.curDev) (hlow : statusAt w.house h.curDev = some LOW)
    (hclose : h.WillClose) :
    ∃ ls w', (world ctrlPhead devs queue).run w ls = some w' ∧
      ¬ Authorised ctrlPhead w' := by
  -- From the place before the write, one step.
  have hmark : ∀ (u : World) (x : Handler), SameConfig devs u.house.devs →
      u.handlers[k]? = some x → x.pc = .mark → x.faceRet > 1 / 2 →
      x.payload ≠ some 0 → Gated devs x.curDev → statusAt u.house x.curDev = some LOW →
      ∃ ls w', (world ctrlPhead devs queue).run u ls = some w' ∧
        ¬ Authorised ctrlPhead w' := by
    intro u x hu hx hpc hface hpay hxgated hxlow
    have hnext : x.next ctrlPhead u.house = ({ x with pc := .setGpio }, .writeByte 3 0x2E) := by
      simp only [Handler.next, hpc, if_pos hface]
    have hstep : u.step ctrlPhead (.handler k) = some (u.advance ctrlPhead k x) :=
      World.step_handler hx (by simp [hpc])
    have hhouse := World.house_advance hnext k
    have hx' := World.getElem?_advance ctrlPhead hx
    rw [hnext] at hx'
    refine ⟨[.handler k], u.advance ctrlPhead k x, run_cons hstep (run_nil _), ?_⟩
    refine not_authorised_of_place (List.mem_of_getElem? hx') ?_ ?_ hpay (.inl rfl)
    · rw [hhouse]
      exact hu.gated hxgated
    · rw [hhouse]
      exact hxlow
  obtain ⟨hpay, hscore, hpc | hpc | hpc | hpc⟩ := hclose
  · have hnext : h.next ctrlPhead w.house =
        ({ h with pc := .mark, faceRet := h.cmd.score }, .skip) := by
      simp only [Handler.next, hpc]
    have hstep : w.step ctrlPhead (.handler k) = some (w.advance ctrlPhead k h) :=
      World.step_handler hk (by simp [hpc])
    have hhouse : (w.advance ctrlPhead k h).house = w.house := World.house_advance hnext k
    have hk' := World.getElem?_advance ctrlPhead hk
    rw [hnext] at hk'
    obtain ⟨ls, w', hrun, hbad⟩ := hmark (w.advance ctrlPhead k h) _ (hhouse ▸ hcfg) hk'
      rfl hscore hpay hgated (hhouse ▸ hlow)
    exact ⟨.handler k :: ls, w', run_cons hstep hrun, hbad⟩
  · simp only [Handler.Sound, hpc] at hsound
    exact hmark w h hcfg hk hpc (hsound.2.2 ▸ hscore) hpay hgated hlow
  · exact ⟨[], w, run_nil _, not_authorised_of_place (List.mem_of_getElem? hk)
      (hcfg.gated hgated) hlow hpay (.inl hpc)⟩
  · exact ⟨[], w, run_nil _, not_authorised_of_place (List.mem_of_getElem? hk)
      (hcfg.gated hgated) hlow hpay (.inr hpc)⟩

/-- A step that lends `LOW` to a granted handler which did not read payload 0 can be
continued to the write. -/
theorem not_authorised_of_borrowed {w w' : World} {ℓ : Label}
    (hw : (world ctrlPhead devs queue).ReachableWhere ok w)
    (hstep : w.step ctrlPhead ℓ = some w') (hbad : ¬ Unborrowed devs w ℓ) :
    ∃ ls w'', (world ctrlPhead devs queue).run w' ls = some w'' ∧
      ¬ Authorised ctrlPhead w'' := by
  obtain ⟨i, g, rfl, hg, hassign, hzero, hgated, h, hmem, hdev, hclose⟩ :
      ∃ i g, ℓ = .handler i ∧ w.handlers[i]? = some g ∧ g.pc = .assign ∧
        w.house.buffer 3 = 0 ∧ Gated devs g.curDev ∧
        ∃ h ∈ w.handlers, h.curDev = g.curDev ∧ h.WillClose := by
    by_contra hall
    refine hbad fun i g hi hg hassign hzero hgated h hmem hdev hclose => ?_
    exact hall ⟨i, g, hi, hg, hassign, hzero, hgated, h, hmem, hdev, hclose⟩
  have hcfg := sameConfig_of_reachable hw
  obtain ⟨k, hk⟩ := List.mem_iff_getElem?.mp hmem
  have hother : Label.handler i ≠ .handler k := by
    intro heq
    cases heq
    obtain rfl : g = h := Option.some.inj (hg.symm.trans hk)
    obtain ⟨-, -, h | h | h | h⟩ := hclose <;> exact absurd (hassign.symm.trans h) (by simp)
  have hw' : w' = w.advance ctrlPhead i g :=
    Option.some.inj (hstep.symm.trans (World.step_handler hg (by simp [hassign])))
  have hlow : statusAt w'.house g.curDev = some LOW := by
    rw [hw']
    show statusAt (w.house.apply _) g.curDev = _
    simp only [Handler.next, hassign, hzero]
    exact statusAt_assignStatus (hcfg.gated hgated) LOW
  exact not_authorised_of_willClose (hcfg.trans (World.sameConfig_step hstep))
    (World.handler_stays hstep hk hother) (sound_of_reachable hw hk) (hdev ▸ hgated)
    (hdev ▸ hlow) hclose

/-- When no handler unlocks on another's payload, for devices that share no pins: in
every run in which no handler assigns `LOW` to a gated device while a granted one
that did not read payload 0 is about to drive it, and only there. -/
theorem authorised_iff_unborrowed (ctrlPhead : List Control) (devs : List Gdevice)
    (queue : List Command) (hpins : NoSharedPins devs) :
    (∀ w, (world ctrlPhead devs queue).ReachableWhere (Unborrowed devs) w →
      Authorised ctrlPhead w) ∧
    (∀ w ℓ w',
      (world ctrlPhead devs queue).ReachableWhere (Unborrowed devs) w →
      (world ctrlPhead devs queue).step w ℓ = some w' →
      ¬ Unborrowed devs w ℓ →
      ∃ ls w'', (world ctrlPhead devs queue).run w' ls = some w'' ∧
        ¬ Authorised ctrlPhead w'') := by
  constructor
  · intro w hw h hmem _ p hwrite d hd hface hpin
    obtain ⟨hgated, hgranted, hscore, q, hq⟩ :=
      granted_of_digitalWrite_LOW hw hpins hmem hwrite hd hface hpin
    refine ⟨?_, hgranted⟩
    by_contra hpay
    obtain ⟨hpc, hlow, -⟩ := digitalWrite_cases hwrite
    refine statusAt_ne_LOW hw h hmem hgated ⟨hpay, hscore, ?_⟩ hlow
    exact .inr (.inr hpc)
  · intro w ℓ w' hw hstep hbad
    exact not_authorised_of_borrowed hw hstep hbad

/-- The lock of the shipped configuration, in a run that lends no `LOW`: while a command for
a lamp is handled, the handler of a granted request drives the lock to `LOW`, and it has
itself read payload 0. -/
theorem authorised_peripheral :
    ∃ w, (world [] peripheral
        [⟨⟨0x44, 0x00⟩, 9 / 10⟩, ⟨⟨0x41, 0x00⟩, 0⟩]).ReachableWhere (Unborrowed peripheral) w ∧
      ∃ h ∈ w.handlers, .digitalWrite 8 LOW ∈ (h.next [] w.house).2.calls w.house ∧
        h.payload = some 0 ∧ h.faceRet > 1 / 2 := by
  obtain ⟨w, hw, hwrite⟩ := exists_reachableWhere
    (world [] peripheral [⟨⟨0x44, 0x00⟩, 9 / 10⟩, ⟨⟨0x41, 0x00⟩, 0⟩]) (Unborrowed peripheral)
    [.receive, .handler 0, .handler 0, .receive, .handler 1, .handler 1, .handler 0,
      .handler 0]
    (fun w => (w.handlers.any fun h => h.pc != .done &&
        decide (.digitalWrite 8 LOW ∈ (h.next [] w.house).2.calls w.house)) &&
      w.house.devs.any fun d => d.checkFaceStatus == 1 && d.gpioPin == 8)
    (by decide +kernel)
  simp only [Bool.and_eq_true, List.any_eq_true, bne_iff_ne, beq_iff_eq,
    decide_eq_true_eq] at hwrite
  obtain ⟨⟨h, hmem, hpc, hlow⟩, d, hd, hface, hpin⟩ := hwrite
  have hauth := (authorised_iff_unborrowed [] peripheral _ noSharedPins_peripheral).1 w hw
  exact ⟨w, hw, h, hmem, hlow, hauth h hmem hpc 8 hlow d hd hface hpin⟩

/-- Two commands for the lock of the shipped configuration.  The first asks to close
it and is granted, the second asks to open it and has no face: the handler of the
first drives the pin `LOW` with the payload of the second. -/
theorem not_authorised_peripheral :
    ¬ ∀ w, (world [] peripheral
        [⟨⟨0x44, 0x01⟩, 9 / 10⟩, ⟨⟨0x44, 0x00⟩, 0⟩]).Reachable w →
      Authorised [] w := by
  intro hall
  obtain ⟨w, hw, hwrite⟩ := exists_reachable
    (world [] peripheral [⟨⟨0x44, 0x01⟩, 9 / 10⟩, ⟨⟨0x44, 0x00⟩, 0⟩])
    [.receive, .handler 0, .handler 0, .receive, .handler 1, .handler 1, .handler 0,
      .handler 0]
    (fun w => w.handlers.any fun h => h.pc != .done && h.payload == some 1 &&
      decide (.digitalWrite 8 LOW ∈ (h.next [] w.house).2.calls w.house) &&
      w.house.devs.any fun d => d.checkFaceStatus == 1 && d.gpioPin == 8)
    (by decide +kernel)
  obtain ⟨h, hmem, hrest⟩ := List.any_eq_true.mp hwrite
  simp only [Bool.and_eq_true, List.any_eq_true, bne_iff_ne, beq_iff_eq,
    decide_eq_true_eq] at hrest
  obtain ⟨⟨⟨hpc, hpay⟩, hlow⟩, d, hd, hface, hpin⟩ := hrest
  have hzero := (hall w hw h hmem hpc 8 hlow d hd hface hpin).1
  rw [hpay] at hzero
  exact absurd hzero (by decide)

end HomeControl
