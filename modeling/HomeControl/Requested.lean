import HomeControl.DoorLock
import HomeControl.Embedding

/-!
# Which devices are operated

A handler reads the key of its device in the buffer that all handlers share, so that it can
read the key of another command, or a byte that another handler has stored there.

* `Handler.next_writeByte` lists these bytes, and `traced_of_reachable` says that the key byte
  of the buffer is always one of them, or the key of a command that was received.
* `gpio_requested` carries it from the lookup to the pins: no pin is touched but that of a
  device which some command has asked for, or whose key is a byte that handlers store.
-/

namespace HomeControl

open SharedMemory StepSystem

variable {ctrlPhead : List Control} {devs : List Gdevice} {queue : List Command}

/-! ## The bytes in the buffer -/

/-- The bytes that handlers store in the buffer. -/
def storedBytes : List UInt8 := [0x2D, 0x2E, 0x2F, 0x00]

/-- What a handler stores in the buffer, and where. -/
theorem Handler.next_writeByte {s : House} {h : Handler} {j : Nat} {v : UInt8}
    (hact : (h.next ctrlPhead s).2 = .writeByte j v) : (j = 2 ∨ j = 3) ∧ v ∈ storedBytes := by
  cases hpc : h.pc with
  | find =>
    cases hfind : findDeviceByKey s.devs (s.buffer 2).toNat <;>
      simp [Handler.next, hpc, hfind] at hact
  | mark =>
    simp only [Handler.next, hpc] at hact
    split at hact <;> cases hact <;> exact ⟨.inr rfl, by decide⟩
  | announce a =>
    cases a <;> simp only [Handler.next, hpc, AnnouncePc.next, reduceCtorEq] at hact
    all_goals
      cases hact
      exact ⟨by decide, by decide⟩
  | _ => simp [Handler.next, hpc] at hact

/-- A step of a handler leaves a byte of the buffer alone, or it stores one of these, in one
of the two bytes between the marks. -/
theorem Handler.buffer_next (ctrlPhead : List Control) (s : House) (h : Handler) (i : Nat) :
    (s.apply (h.next ctrlPhead s).2).buffer i = s.buffer i ∨
      ((i = 2 ∨ i = 3) ∧ (s.apply (h.next ctrlPhead s).2).buffer i ∈ storedBytes) := by
  by_cases hwrite : ∃ j v, (h.next ctrlPhead s).2 = .writeByte j v
  · obtain ⟨j, v, ha⟩ := hwrite
    rw [House.buffer_apply_writeByte _ ha]
    by_cases hij : i = j
    · subst hij
      rw [Function.update_self]
      exact .inr (Handler.next_writeByte ha)
    · rw [Function.update_of_ne hij]
      exact .inl rfl
  · rw [House.apply_buffer _ fun j v ha => hwrite ⟨j, v, ha⟩]
    exact .inl rfl

/-- The byte is the key of a command that was received, or one that handlers store. -/
def World.Traced (w : World) (b : UInt8) : Prop :=
  (∃ c ∈ w.handlers.map (·.cmd), c.frame.key = b) ∨ b ∈ storedBytes

theorem World.Traced.dispatch {w : World} {b : UInt8} (h : w.Traced b) (c : Command)
    (rest : List Command) : (w.dispatch c rest).Traced b := by
  rcases h with ⟨d, hd, hkey⟩ | hstored
  · refine .inl ⟨d, ?_, hkey⟩
    rw [World.dispatch, List.map_append]
    exact List.mem_append_left _ hd
  · exact .inr hstored

theorem World.Traced.advance {w : World} {b : UInt8} (h : w.Traced b) {k : Nat} {g : Handler}
    (hg : w.handlers[k]? = some g) : (w.advance ctrlPhead k g).Traced b := by
  rw [World.Traced, World.cmds_advance ctrlPhead hg]
  exact h

theorem World.Traced.step {w w' : World} {b : UInt8} (h : w.Traced b) {ℓ : Label}
    (hstep : w.step ctrlPhead ℓ = some w') : w'.Traced b := by
  rcases World.step_cases hstep with
    ⟨c, rest, rfl, -, rfl⟩ | ⟨i, g, rfl, hg, -, rfl⟩ | ⟨j, v, serial, rfl, -, -, rfl⟩
  · exact h.dispatch c rest
  · exact h.advance hg
  · exact h

/-- The key byte of the buffer. -/
theorem traced_of_reachable {w : World} (hw : (world ctrlPhead devs queue).Reachable w) :
    w.Traced (w.house.buffer 2) := by
  have hcleared : (0 : UInt8) ∈ storedBytes := by decide
  refine hw.invariant (fun w => w.Traced (w.house.buffer 2)) (.inr hcleared) ?_
  intro w ℓ w' hinv _ hstep
  rcases World.step_cases hstep with
    ⟨c, rest, rfl, -, rfl⟩ | ⟨i, h, rfl, hh, -, rfl⟩ | ⟨j, v, serial, rfl, -, -, rfl⟩
  · refine .inl ⟨c, ?_, rfl⟩
    rw [World.dispatch, List.map_append]
    exact List.mem_append_right _ (List.mem_singleton_self _)
  · rcases h.buffer_next ctrlPhead w.house 2 with hsame | ⟨-, hstored⟩
    · have hbuffer : (w.advance ctrlPhead i h).house.buffer 2 = w.house.buffer 2 := hsame
      rw [hbuffer]
      exact hinv.advance hh
    · exact .inr hstored
  · exact hinv

/-! ## The lookup and the assignment -/

/-- The lookup records the key byte of the buffer, and the other steps keep the record. -/
theorem Handler.lookedUp_next {s : House} {h : Handler} {b : UInt8}
    (hb : (h.next ctrlPhead s).1.lookedUp = some b) : h.lookedUp = some b ∨ b = s.buffer 2 := by
  by_cases hfind : h.pc = .find
  · cases hkey : findDeviceByKey s.devs (s.buffer 2).toNat with
    | none =>
      rw [next_find_none hfind hkey] at hb
      exact .inr (Option.some.inj hb).symm
    | some curDev =>
      rw [next_find hfind hkey] at hb
      exact .inr (Option.some.inj hb).symm
  · by_cases hassign : h.pc = .assign
    · simp only [Handler.next, hassign] at hb
      exact .inl hb
    · rw [(h.next_records ctrlPhead s hfind hassign).1] at hb
      exact .inl hb

/-- A handler has looked up a key that is traced. -/
theorem traced_lookedUp {w : World} (hw : (world ctrlPhead devs queue).Reachable w) {k : Nat}
    {h : Handler} (hk : w.handlers[k]? = some h) {b : UInt8} (hb : h.lookedUp = some b) :
    w.Traced b := by
  refine hw.invariant' (fun w => ∀ (k : Nat) (h : Handler), w.handlers[k]? = some h →
    ∀ b, h.lookedUp = some b → w.Traced b) ?_ ?_ k h hk b hb
  · intro k h hk
    cases hk
  · intro w ℓ w' hw hinv _ hstep k h' hk' b hb
    rcases World.handler_cases hstep hk' with
      ⟨hold, -⟩ | ⟨c, rest, -, -, -, -, rfl⟩ | ⟨h, -, hh, -, -, rfl⟩
    · exact (hinv k h' hold b hb).step hstep
    · cases hb
    · rcases Handler.lookedUp_next hb with hbefore | rfl
      · exact (hinv k h hh b hbefore).step hstep
      · exact (traced_of_reachable hw).step hstep

theorem statusOf_level (payload : UInt8) : statusOf payload = LOW ∨ statusOf payload = HIGH := by
  unfold statusOf
  split
  · exact .inl rfl
  · exact .inr rfl

/-- The status after an assignment to it. -/
theorem eq_of_assignStatus {s : House} {i : Nat} {u v : Int}
    (hv : statusAt (s.apply (.assignStatus i u)) i = some v) : v = u := by
  obtain ⟨d, hd, rfl⟩ := Option.map_eq_some_iff.mp hv
  have hdevs : (assignStatus s.devs i u)[i]? = some d := hd
  rcases hold : s.devs[i]? with _ | e
  · rw [assignStatus, List.getElem?_modify_eq, hold] at hdevs
    cases hdevs
  · rw [getElem?_assignStatus_self hold] at hdevs
    obtain rfl := Option.some.inj hdevs
    rfl

/-- A step of a handler leaves a status alone, or it makes a level of it. -/
theorem Handler.statusAt_next {s : House} {h : Handler} {dev : Nat} {v : Int}
    (hv : statusAt (s.apply (h.next ctrlPhead s).2) dev = some v) :
    statusAt s dev = some v ∨ v = LOW ∨ v = HIGH := by
  by_cases hact : ∃ i u, (h.next ctrlPhead s).2 = .assignStatus i u
  · obtain ⟨i, u, hact⟩ := hact
    rw [hact] at hv
    by_cases hi : i = dev
    · subst hi
      obtain rfl := eq_of_assignStatus hv
      obtain ⟨-, ⟨-, rfl⟩ | ⟨-, rfl⟩⟩ := Handler.next_assignStatus hact
      · exact .inr (statusOf_level _)
      · exact .inr (.inr rfl)
    · left
      rw [← hv]
      show (s.devs[dev]?).map _ = ((assignStatus s.devs i u)[dev]?).map _
      rw [getElem?_assignStatus_ne _ hi]
  · left
    rw [← hv, statusAt, statusAt, House.apply_devs _ fun i u hi => hact ⟨i, u, hi⟩]

/-- When a handler has assigned the status of its device, that status is a level, and stays
one, whoever assigns it next. -/
theorem level_of_assigned {w : World} (hw : (world ctrlPhead devs queue).Reachable w) {k : Nat}
    {h : Handler} (hk : w.handlers[k]? = some h) (hassigned : h.payload ≠ none) {v : Int}
    (hv : statusAt w.house h.curDev = some v) : v = LOW ∨ v = HIGH := by
  refine hw.invariant' (fun w => ∀ (k : Nat) (h : Handler), w.handlers[k]? = some h →
    h.payload ≠ none → ∀ v, statusAt w.house h.curDev = some v → v = LOW ∨ v = HIGH)
    ?_ ?_ k h hk hassigned v hv
  · intro k h hk
    cases hk
  · intro w ℓ w' hw hinv _ hstep k h' hk' hassigned v hv
    have hstays : ∀ h : Handler, w.handlers[k]? = some h → h.payload ≠ none →
        statusAt w'.house h.curDev = some v → v = LOW ∨ v = HIGH := by
      intro h hh hpayload hv
      rcases World.step_cases hstep with
        ⟨c, rest, rfl, -, rfl⟩ | ⟨i, g, rfl, hg, -, rfl⟩ | ⟨j, u, serial, rfl, -, -, rfl⟩
      · exact hinv k h hh hpayload v hv
      · rcases Handler.statusAt_next hv with hsame | hlevel
        · exact hinv k h hh hpayload v hsame
        · exact hlevel
      · exact hinv k h hh hpayload v hv
    rcases World.handler_cases hstep hk' with
      ⟨hold, -⟩ | ⟨c, rest, -, -, -, -, rfl⟩ | ⟨h, -, hh, -, rfl, rfl⟩
    · exact hstays h' hold hassigned hv
    · exact absurd rfl hassigned
    · by_cases hplace : h.pc = .assign
      · -- The step that assigns the status itself.
        have hown : statusAt (w.house.apply (.assignStatus h.curDev
            (statusOf (w.house.buffer 3)))) h.curDev = some v := by
          have hthere : statusAt (w.house.apply (h.next ctrlPhead w.house).2)
            (h.next ctrlPhead w.house).1.curDev = some v := hv
          simpa only [Handler.next, hplace] using hthere
        rw [eq_of_assignStatus hown]
        exact statusOf_level _
      · by_cases hfind : h.pc = .find
        · have hsound := sound_of_reachable hw hh
          simp only [Handler.Sound, hfind] at hsound
          cases hkey : findDeviceByKey w.house.devs (w.house.buffer 2).toNat with
          | none =>
            rw [next_find_none hfind hkey] at hassigned
            exact absurd hsound.2.1 hassigned
          | some curDev =>
            rw [next_find hfind hkey] at hassigned
            exact absurd hsound.2.1 hassigned
        · obtain ⟨-, hpayload, hdev⟩ := h.next_records ctrlPhead w.house hfind hplace
          rw [hpayload] at hassigned
          rw [hdev] at hv
          exact hstays h hh hassigned hv

/-! ## The pins -/

/-- The call is for the pin of the device: to set the mode that the device has, or to drive
the pin to a level. -/
def GpioCall.Operates (d : Gdevice) (c : GpioCall) : Prop :=
  d.gpioPin ≠ -1 ∧ (c = .pinMode d.gpioPin d.gpioMode ∨ c = .digitalWrite d.gpioPin LOW ∨
    c = .digitalWrite d.gpioPin HIGH)

theorem operates_of_setGpio {d : Gdevice} {c : GpioCall} (hlevel : d.gpioStatus = LOW ∨
    d.gpioStatus = HIGH) (hc : c ∈ (setGpioGdeviceStatus (some d)).1) : c.Operates d := by
  simp only [setGpioGdeviceStatus] at hc
  split at hc
  · rename_i hpin
    refine ⟨hpin, ?_⟩
    rcases List.mem_append.mp hc with hc | hc
    · split at hc
      · exact .inl (List.mem_singleton.mp hc)
      · cases hc
    · split at hc
      · obtain rfl := List.mem_singleton.mp hc
        rcases hlevel with hlevel | hlevel
        · exact .inr (.inl (by rw [hlevel]))
        · exact .inr (.inr (by rw [hlevel]))
      · cases hc
  · cases hc

/-- Every call in the log is for a device whose key is traced. -/
theorem log_of_gpio {w : World} (hw : (world ctrlPhead devs queue).Reachable w) :
    ∀ c ∈ w.house.gpio, ∃ d ∈ devs, c.Operates d ∧ ∃ b : UInt8, d.key = b.toNat ∧ w.Traced b := by
  refine hw.invariant' (fun w => ∀ c ∈ w.house.gpio,
    ∃ d ∈ devs, c.Operates d ∧ ∃ b : UInt8, d.key = b.toNat ∧ w.Traced b)
    (fun c hc => by cases hc) ?_
  intro w ℓ w' hw hinv _ hstep c hc
  have hstep : w.step ctrlPhead ℓ = some w' := hstep
  have hold : c ∈ w.house.gpio →
      ∃ d ∈ devs, c.Operates d ∧ ∃ b : UInt8, d.key = b.toNat ∧ w'.Traced b := by
    intro hc
    obtain ⟨d, hd, hoperates, b, hkey, htraced⟩ := hinv c hc
    exact ⟨d, hd, hoperates, b, hkey, htraced.step hstep⟩
  rcases World.step_cases hstep with
    ⟨m, rest, rfl, -, rfl⟩ | ⟨i, h, rfl, hh, -, rfl⟩ | ⟨j, v, serial, rfl, -, -, rfl⟩
  · exact hold hc
  · by_cases hact : ∃ dev, (h.next ctrlPhead w.house).2 = .setGpio dev
    · obtain ⟨dev, hact⟩ := hact
      obtain ⟨rfl, hpc⟩ := Handler.next_setGpio hact
      have hc : c ∈ (w.house.apply (h.next ctrlPhead w.house).2).gpio := hc
      rw [hact] at hc
      rcases List.mem_append.mp hc with hnew | hc
      · have hassigned : h.Assigned devs := by
          have hsound := sound_of_reachable hw hh
          rcases hpc with hpc | hpc
          · simp only [Handler.Sound, hpc] at hsound
            exact hsound.1
          · simp only [Handler.Sound, hpc] at hsound
            exact hsound.1
        obtain ⟨⟨b, hlooked, hfind⟩, p, hp⟩ := hassigned
        obtain ⟨d, hd, hkey, -⟩ := findDeviceByKey_eq_some_iff.mp hfind
        obtain ⟨v, hv⟩ := (sameConfig_of_reachable hw).getElem? hd
        have hlevel : v = LOW ∨ v = HIGH :=
          level_of_assigned hw hh (by rw [hp]; exact Option.some_ne_none p)
            (by rw [statusAt, hv, Option.map_some])
        rw [List.mem_reverse, hv] at hnew
        have hoperates : c.Operates { d with gpioStatus := v } := operates_of_setGpio hlevel hnew
        exact ⟨d, List.mem_of_getElem? hd, hoperates, b, hkey,
          (traced_lookedUp hw hh hlooked).step hstep⟩
      · exact hold hc
    · have hc : c ∈ (w.house.apply (h.next ctrlPhead w.house).2).gpio := hc
      rw [House.apply_gpio _ fun dev hdev => hact ⟨dev, hdev⟩] at hc
      exact hold hc
  · exact hold hc

/-! ## In the whole program -/

/-- The frames of the handlers were sent. -/
theorem mem_sent {s : Home} (hs : (home ctrlPhead devs).Reachable s) {c : Command}
    (hc : c ∈ s.world.handlers.map (·.cmd)) : c.frame.bytes ∈ s.pipe.sent := by
  have horder := (faithful_of_reachable (pipeline_of_home hs)).order
  rw [← horder, ← frames_of_home hs]
  exact List.mem_append_left _ (List.mem_append_left _ (List.mem_map_of_mem hc))

/-- For every configuration and in every run of the whole program, whatever the order of its
threads: each call to the GPIO library is for the pin of a device, with the mode of this
device or with a level, and some command that was sent has the key of this device, unless the
key is one of the four bytes that handlers store in the buffer. -/
theorem gpio_requested (ctrlPhead : List Control) (devs : List Gdevice) (s : Home)
    (hs : (home ctrlPhead devs).Reachable s) :
    ∀ c ∈ s.world.house.gpio, ∃ d ∈ devs, c.Operates d ∧
      ((∃ f : Frame, d.key = f.key.toNat ∧ f.bytes ∈ s.pipe.sent) ∨
        ∃ b ∈ storedBytes, d.key = b.toNat) := by
  intro c hc
  obtain ⟨d, hd, hoperates, b, hkey, htraced⟩ := log_of_gpio (world_of_home hs) c hc
  refine ⟨d, hd, hoperates, ?_⟩
  rcases htraced with ⟨cmd, hcmd, rfl⟩ | hstored
  · exact .inl ⟨cmd.frame, hkey, mem_sent hs hcmd⟩
  · exact .inr ⟨b, hstored, hkey⟩

/-- The calls for one alarm. -/
theorem gpio_requested_alarm :
    ∃ s, (home [] peripheral).Reachable s ∧
      s.world.house.gpio = [.digitalWrite 10 LOW, .pinMode 10 OUTPUT] ∧
      ∀ c ∈ s.world.house.gpio, ∃ d ∈ peripheral, c.Operates d ∧
        ((∃ f : Frame, d.key = f.key.toNat ∧ f.bytes ∈ s.pipe.sent) ∨
          ∃ b ∈ storedBytes, d.key = b.toNat) := by
  obtain ⟨s, hs, hgpio⟩ := exists_reachable (home [] peripheral)
    [.thread (.smokeRead LOW), .thread (.smokeSend true), .thread .mqReceive, .dispatch 0,
      .handler 0, .handler 0, .handler 0]
    (fun s => s.world.house.gpio == [.digitalWrite 10 LOW, .pinMode 10 OUTPUT])
    (by decide +kernel)
  exact ⟨s, hs, beq_iff_eq.mp hgpio, gpio_requested [] peripheral s hs⟩

end HomeControl
