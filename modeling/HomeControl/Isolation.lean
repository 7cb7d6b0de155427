import HomeControl.World

/-!
# Whose command a handler executes

A handler is started for one message, but it reads the key and the payload from
the shared buffer when it gets to them.  `Isolated` says that each handler
executes the command that it was started for: it looks up the key of its message, and the
assignment that it makes is of the status of its message to the device of that key.

It fails: `receive_get` can copy the next message before the handler of the last
one has read its own, and a handler that announces overwrites bytes 2 and 3 for
the voice module.  What a handler has still to read is its expectation of the
buffer, so the exact condition is that every byte that is stored meets the
expectations of the handlers that wait (`Undisturbed`).  `isolated_iff_undisturbed`
proves both directions: the runs that keep to the condition are isolated, and a
step that breaks it can be continued to a handler that executes another command.
-/

namespace HomeControl

open SharedMemory StepSystem

variable {ctrlPhead : List Control} {devs : List Gdevice} {queue : List Command}

/-- The handler looks up the device of its own command and gives it the status of
its own command. -/
structure Handler.OwnCommand (devs : List Gdevice) (h : Handler) : Prop where
  lookup : ∀ k, h.lookedUp = some k → k = h.cmd.frame.key
  status : ∀ p, h.payload = some p →
    h.cmd.device devs = some h.curDev ∧ statusOf p = statusOf h.cmd.frame.status

/-- The handler has executed its command: it has made its lookup, and its
assignment if there is such a device. -/
def Handler.Executed (devs : List Gdevice) (h : Handler) : Prop :=
  h.lookedUp = some h.cmd.frame.key ∧
    (h.cmd.device devs ≠ none → ∃ p, h.payload = some p)

/-- What the next step of the handler does to the device list.  The step that reads the
payload gives the first device with the key of the handler's own command `LOW` when byte 3 of
that command is 0, and `HIGH` otherwise; any other step leaves the list alone, or locks that
same device again. -/
structure Handler.SetsOwnStatus (ctrlPhead : List Control) (devs : List Gdevice) (s : House)
    (h : Handler) : Prop where
  sets : h.payload = none → (h.next ctrlPhead s).1.payload ≠ none →
    ∃ i, h.cmd.device devs = some i ∧
      (s.apply (h.next ctrlPhead s).2).devs = s.devs.modify i fun d =>
        { d with gpioStatus := if h.cmd.frame.status = 0 then LOW else HIGH }
  keeps : h.payload ≠ none ∨ (h.next ctrlPhead s).1.payload = none →
    (s.apply (h.next ctrlPhead s).2).devs = s.devs ∨
      ∃ i, h.cmd.device devs = some i ∧
        (s.apply (h.next ctrlPhead s).2).devs =
          s.devs.modify i fun d => { d with gpioStatus := HIGH }

/-- The commands that were started and that wait are those of the queue.  Every handler
executes its own command, the ones that have ended have done so, and the next step of each
handler sets no status but that of its own command. -/
def Isolated (ctrlPhead : List Control) (devs : List Gdevice) (queue : List Command)
    (w : World) : Prop :=
  w.handlers.map (·.cmd) ++ w.queue = queue ∧
    ∀ h ∈ w.handlers, h.OwnCommand devs ∧ (h.pc = .done → h.Executed devs) ∧
      h.SetsOwnStatus ctrlPhead devs w.house

/-! ## What a handler has still to read -/

/-- The handler has yet to read the payload for a device that exists. -/
def Handler.AwaitsStatus (devs : List Gdevice) (h : Handler) : Prop :=
  h.pc = .assign ∨
    (h.pc = .find ∧ findDeviceByKey devs h.cmd.frame.key.toNat ≠ none)

/-- The bytes that the handler may find: its own key at offset 2 until its lookup,
and at offset 3 until its assignment a payload that means the same status. -/
def Handler.expects (devs : List Gdevice) (h : Handler) : Expectation UInt8 :=
  fun i v =>
    (h.pc = .find → i = 2 → v = h.cmd.frame.key) ∧
      (h.AwaitsStatus devs → i = 3 → statusOf v = statusOf h.cmd.frame.status)

/-- The step stores no byte that disturbs a handler which has yet to read. -/
def Undisturbed (ctrlPhead : List Control) (devs : List Gdevice) (w : World)
    (ℓ : Label) : Prop :=
  ∀ h ∈ w.handlers, w.StoresOnly ctrlPhead (h.expects devs) ℓ

/-- A handler that has made both reads expects nothing. -/
theorem Handler.expects_of_read {h : Handler} (hfind : h.pc ≠ .find)
    (hassign : h.pc ≠ .assign) (i : Nat) (v : UInt8) : h.expects devs i v := by
  refine ⟨fun h => absurd h hfind, fun hawaits => ?_⟩
  rcases hawaits with h | ⟨h, -⟩
  · exact absurd h hassign
  · exact absurd h hfind

/-- A new handler finds what was copied for it. -/
theorem meets_spawn (buffer : Buffer) (c : Command) :
    Meets (memcpy buffer c.frame.bytes) ((Handler.spawn c).expects devs) := by
  intro i
  refine ⟨fun _ hi => ?_, fun _ hi => ?_⟩
  · rw [hi]
    rfl
  · rw [hi]
    rfl

/-- The two reads do not write to the buffer. -/
theorem Handler.next_reads {s : House} {h : Handler}
    (hpc : h.pc = .find ∨ h.pc = .assign) (j : Nat) (v : UInt8) :
    (h.next ctrlPhead s).2 ≠ .writeByte j v := by
  rcases hpc with hpc | hpc
  · cases hfind : findDeviceByKey s.devs (s.buffer 2).toNat with
    | none =>
      rw [next_find_none hpc hfind]
      simp
    | some i =>
      rw [next_find hpc hfind]
      simp
  · simp [Handler.next, hpc]

/-! ## The invariant -/

/-- A handler that finds what it expects reads its own command. -/
theorem Handler.ownCommand_next {s : House} {h : Handler} (hsound : h.Sound devs)
    (hown : h.OwnCommand devs) (hmeets : Meets s.buffer (h.expects devs)) :
    (h.next ctrlPhead s).1.OwnCommand devs := by
  by_cases hfind : h.pc = .find
  · have hkey : s.buffer 2 = h.cmd.frame.key := (hmeets 2).1 hfind rfl
    simp only [Handler.Sound, hfind] at hsound
    have hnopay : ∀ p, h.payload ≠ some p := by simp [hsound.2.1]
    cases hdev : findDeviceByKey s.devs (s.buffer 2).toNat with
    | none =>
      rw [next_find_none hfind hdev]
      refine ⟨fun k hk => ?_, fun p hp => absurd hp (hnopay p)⟩
      exact (Option.some.inj hk).symm.trans hkey
    | some i =>
      rw [next_find hfind hdev]
      refine ⟨fun k hk => ?_, fun p hp => absurd hp (hnopay p)⟩
      exact (Option.some.inj hk).symm.trans hkey
  · by_cases hassign : h.pc = .assign
    · have hstatus : statusOf (s.buffer 3) = statusOf h.cmd.frame.status :=
        (hmeets 3).2 (.inl hassign) rfl
      simp only [Handler.Sound, hassign] at hsound
      obtain ⟨⟨k, hk, hdev⟩, -⟩ := hsound
      obtain rfl : k = h.cmd.frame.key := hown.lookup k hk
      simp only [Handler.next, hassign]
      refine ⟨fun k' hk' => hown.lookup k' hk', fun p hp => ⟨hdev, ?_⟩⟩
      rw [← Option.some.inj hp]
      exact hstatus
    · obtain ⟨hlook, hpay, hdev⟩ := Handler.next_records ctrlPhead s hfind hassign
      refine ⟨fun k hk => ?_, fun p hp => ?_⟩
      · rw [Handler.next_cmd]
        exact hown.lookup k (hlook ▸ hk)
      · rw [Handler.next_cmd, hdev]
        exact hown.status p (hpay ▸ hp)

/-- The lookup of a handler that has yet to assign, or to relock, found its own device. -/
theorem Handler.OwnCommand.device {h : Handler} (hown : h.OwnCommand devs)
    (hres : h.Resolved devs) :
    h.cmd.device devs = some h.curDev := by
  obtain ⟨k, hk, hdev⟩ := hres
  rw [hown.lookup k hk] at hdev
  exact hdev

/-- A handler that finds what it expects sets its own status. -/
theorem Handler.setsOwnStatus {s : House} {h : Handler} (hsound : h.Sound devs)
    (hown : h.OwnCommand devs) (hmeets : Meets s.buffer (h.expects devs)) :
    h.SetsOwnStatus ctrlPhead devs s := by
  by_cases hassign : h.pc = .assign
  · have hstatus : statusOf (s.buffer 3) = statusOf h.cmd.frame.status :=
      (hmeets 3).2 (.inl hassign) rfl
    simp only [Handler.Sound, hassign] at hsound
    obtain ⟨hres, hnopay, -⟩ := hsound
    constructor
    · intro _ _
      refine ⟨h.curDev, hown.device hres, ?_⟩
      simp only [Handler.next, hassign, hstatus]
      rfl
    · rintro (hread | hnone)
      · exact absurd hnopay hread
      · simp only [Handler.next, hassign] at hnone
        cases hnone
  · have hpay : (h.next ctrlPhead s).1.payload = h.payload := by
      by_cases hfind : h.pc = .find
      · cases hdev : findDeviceByKey s.devs (s.buffer 2).toNat with
        | none => rw [next_find_none hfind hdev]
        | some i => rw [next_find hfind hdev]
      · exact (Handler.next_records ctrlPhead s hfind hassign).2.1
    constructor
    · intro hnone hsome
      exact absurd (hpay.trans hnone) hsome
    · intro _
      by_cases hact : ∃ i v, (h.next ctrlPhead s).2 = .assignStatus i v
      · -- The only other assignment is that of the relock.
        obtain ⟨i, v, hact⟩ := hact
        obtain ⟨rfl, ⟨hpc, -⟩ | ⟨hrelock, rfl⟩⟩ := Handler.next_assignStatus hact
        · exact absurd hpc hassign
        · simp only [Handler.Sound, hrelock] at hsound
          refine .inr ⟨h.curDev, hown.device hsound.1.1, ?_⟩
          rw [hact]
          rfl
      · exact .inl (House.apply_devs s fun i v h => hact ⟨i, v, h⟩)

/-- A handler that ends has executed its command. -/
theorem Handler.executed_of_done {h : Handler} (hsound : h.Sound devs)
    (hown : h.OwnCommand devs) (hpc : h.pc = .done) : h.Executed devs := by
  simp only [Handler.Sound, hpc] at hsound
  rcases hsound with ⟨⟨k, hk, hfind⟩, hpay⟩ | ⟨hpay, k, hk, hfind⟩
  · obtain rfl : k = h.cmd.frame.key := hown.lookup k hk
    exact ⟨hk, fun _ => hpay⟩
  · obtain rfl : k = h.cmd.frame.key := hown.lookup k hk
    exact ⟨hk, fun hne => absurd hfind hne⟩

/-- After its lookup, a handler that found its own device still waits for the
payload that it waited for before. -/
theorem Handler.meets_next {s : House} (hcfg : SameConfig devs s.devs) {h : Handler}
    (hmeets : Meets s.buffer (h.expects devs)) :
    Meets (s.apply (h.next ctrlPhead s).2).buffer
      ((h.next ctrlPhead s).1.expects devs) := by
  by_cases hfind : h.pc = .find
  · have hkey : s.buffer 2 = h.cmd.frame.key := (hmeets 2).1 hfind rfl
    cases hdev : findDeviceByKey s.devs (s.buffer 2).toNat with
    | none =>
      rw [next_find_none hfind hdev]
      exact fun i => Handler.expects_of_read (by simp) (by simp) i _
    | some i =>
      rw [next_find hfind hdev]
      have hawaits : h.AwaitsStatus devs := by
        refine .inr ⟨hfind, ?_⟩
        rw [← hkey, ← hcfg.findDeviceByKey, hdev]
        simp
      intro j
      refine ⟨fun h => absurd h (by simp), fun _ hj => ?_⟩
      exact (hmeets j).2 hawaits hj
  · have hread : ∀ i v, (h.next ctrlPhead s).1.expects devs i v := by
      obtain ⟨hnotFind, hnotAssign⟩ := Handler.next_pc_of_read ctrlPhead s hfind
      exact Handler.expects_of_read hnotFind hnotAssign
    exact fun i => hread i _

/-- In a run that disturbs no waiting handler, each handler has its own command
and finds what it expects. -/
theorem ownCommand_of_undisturbed {w : World}
    (hw : (world ctrlPhead devs queue).ReachableWhere (Undisturbed ctrlPhead devs) w) :
    ∀ h ∈ w.handlers, h.OwnCommand devs ∧ Meets w.house.buffer (h.expects devs) := by
  refine hw.invariant' (fun w => ∀ h ∈ w.handlers,
    h.OwnCommand devs ∧ Meets w.house.buffer (h.expects devs)) ?_ ?_
  · intro h hh
    cases hh
  · intro s ℓ s' hs hinv hok hstep h' hmem
    obtain ⟨k, hk⟩ := List.mem_iff_getElem?.mp hmem
    rcases World.handler_cases hstep hk with
      ⟨hold, -⟩ | ⟨c, rest, -, -, rfl, -, rfl⟩ | ⟨h, -, hh, -, rfl, rfl⟩
    · have hin : h' ∈ s.handlers := List.mem_of_getElem? hold
      obtain ⟨hown, hmeets⟩ := hinv h' hin
      exact ⟨hown, World.StoresOnly.meets hstep (hok h' hin) hmeets⟩
    · refine ⟨⟨fun k hk => ?_, fun p hp => ?_⟩, meets_spawn _ c⟩
      · cases hk
      · cases hp
    · obtain ⟨hown, hmeets⟩ := hinv h (List.mem_of_getElem? hh)
      have hsound := sound_of_reachable hs hh
      exact ⟨Handler.ownCommand_next hsound hown hmeets,
        Handler.meets_next (sameConfig_of_reachable hs) hmeets⟩

/-! ## A disturbed handler executes another command -/

/-- A lookup of another key. -/
theorem not_isolated_of_lookup {w : World} {k : Nat} {h : Handler}
    (hk : w.handlers[k]? = some h) (hpc : h.pc = .find)
    (hne : w.house.buffer 2 ≠ h.cmd.frame.key) :
    ¬ Isolated ctrlPhead devs queue (w.advance ctrlPhead k h) := by
  intro hiso
  have hmem := List.mem_of_getElem? (World.getElem?_advance ctrlPhead hk)
  have hown := (hiso.2 _ hmem).1
  have hlook : (h.next ctrlPhead w.house).1.lookedUp = some (w.house.buffer 2) := by
    cases hdev : findDeviceByKey w.house.devs (w.house.buffer 2).toNat with
    | none => rw [next_find_none hpc hdev]
    | some i => rw [next_find hpc hdev]
  have hkey := hown.lookup _ hlook
  rw [Handler.next_cmd] at hkey
  exact hne hkey

/-- An assignment of another status. -/
theorem not_isolated_of_assign {w : World} {k : Nat} {h : Handler}
    (hk : w.handlers[k]? = some h) (hpc : h.pc = .assign)
    (hne : statusOf (w.house.buffer 3) ≠ statusOf h.cmd.frame.status) :
    ¬ Isolated ctrlPhead devs queue (w.advance ctrlPhead k h) := by
  intro hiso
  have hmem := List.mem_of_getElem? (World.getElem?_advance ctrlPhead hk)
  have hown := (hiso.2 _ hmem).1
  have hpay : (h.next ctrlPhead w.house).1.payload = some (w.house.buffer 3) := by
    simp only [Handler.next, hpc]
  have hstatus := (hown.status _ hpay).2
  rw [Handler.next_cmd] at hstatus
  exact hne hstatus

/-- A handler whose buffer is not what it expects reads another command in its
next two steps. -/
theorem not_isolated_of_not_meets {w : World} (hcfg : SameConfig devs w.house.devs)
    {k : Nat} {h : Handler} (hk : w.handlers[k]? = some h)
    (hnot : ¬ Meets w.house.buffer (h.expects devs)) :
    ∃ ls w', (world ctrlPhead devs queue).run w ls = some w' ∧
      ¬ Isolated ctrlPhead devs queue w' := by
  obtain ⟨i, hi⟩ := not_forall.mp hnot
  by_cases hassign : h.pc = .assign
  · have hne : statusOf (w.house.buffer 3) ≠ statusOf h.cmd.frame.status := by
      intro heq
      refine hi ⟨fun hf => absurd (hassign.symm.trans hf) (by simp), fun _ hi3 => ?_⟩
      rw [hi3]
      exact heq
    refine ⟨[.handler k], w.advance ctrlPhead k h, ?_,
      not_isolated_of_assign hk hassign hne⟩
    exact run_cons (World.step_handler hk (by simp [hassign])) (run_nil _)
  · have hfind : h.pc = .find := by
      by_contra hfind
      exact hi (Handler.expects_of_read hfind hassign i _)
    have hstep : w.step ctrlPhead (.handler k) = some (w.advance ctrlPhead k h) :=
      World.step_handler hk (by simp [hfind])
    by_cases hkey : w.house.buffer 2 = h.cmd.frame.key
    · -- The lookup is right, so the assignment after it is not.
      have hne : h.AwaitsStatus devs ∧
          statusOf (w.house.buffer 3) ≠ statusOf h.cmd.frame.status := by
        by_contra hboth
        refine hi ⟨fun _ hi2 => by rw [hi2]; exact hkey, fun hawaits hi3 => ?_⟩
        rw [hi3]
        by_contra hstatus
        exact hboth ⟨hawaits, hstatus⟩
      obtain ⟨hawaits, hstatus⟩ := hne
      obtain ⟨dev, hdev⟩ : ∃ dev,
          findDeviceByKey w.house.devs (w.house.buffer 2).toNat = some dev := by
        rcases hawaits with h | ⟨-, hdev⟩
        · exact absurd h hassign
        · rw [hkey, hcfg.findDeviceByKey]
          exact Option.ne_none_iff_exists'.mp hdev
      have hnext : h.next ctrlPhead w.house = _ := next_find hfind hdev
      have hk' := World.getElem?_advance ctrlPhead hk
      have hhouse : (w.advance ctrlPhead k h).house = w.house := World.house_advance hnext k
      refine ⟨[.handler k, .handler k],
        (w.advance ctrlPhead k h).advance ctrlPhead k (h.next ctrlPhead w.house).1, ?_,
        not_isolated_of_assign hk' ?_ ?_⟩
      · refine run_cons hstep (run_cons (World.step_handler hk' ?_) (run_nil _))
        rw [hnext]
        simp
      · rw [hnext]
      · rw [hhouse, Handler.next_cmd]
        exact hstatus
    · exact ⟨[.handler k], w.advance ctrlPhead k h, run_cons hstep (run_nil _),
        not_isolated_of_lookup hk hfind hkey⟩

/-- A step that disturbs a waiting handler can be continued to one that executes
another command. -/
theorem not_isolated_of_disturbed {w w' : World} {ℓ : Label}
    (hcfg : SameConfig devs w.house.devs) (hstep : w.step ctrlPhead ℓ = some w')
    (hbad : ¬ Undisturbed ctrlPhead devs w ℓ) :
    ∃ ls w'', (world ctrlPhead devs queue).run w' ls = some w'' ∧
      ¬ Isolated ctrlPhead devs queue w'' := by
  obtain ⟨h, hmem, hnot⟩ : ∃ h ∈ w.handlers,
      ¬ w.StoresOnly ctrlPhead (h.expects devs) ℓ := by
    by_contra hall
    refine hbad fun h hh => ?_
    by_contra hne
    exact hall ⟨h, hh, hne⟩
  obtain ⟨k, hk⟩ := List.mem_iff_getElem?.mp hmem
  -- The step is not the waiting handler's own: its reads store nothing.
  have hother : ℓ ≠ .handler k := by
    intro heq
    refine hnot ?_
    rw [heq]
    intro g hg j v hwrite
    obtain rfl : h = g := Option.some.inj (hk.symm.trans hg)
    by_cases hread : h.pc = .find ∨ h.pc = .assign
    · exact absurd hwrite (Handler.next_reads hread j v)
    · exact Handler.expects_of_read (fun hf => hread (.inl hf))
        (fun ha => hread (.inr ha)) j v
  have hk' := World.handler_stays hstep hk hother
  exact not_isolated_of_not_meets (hcfg.trans (World.sameConfig_step hstep)) hk'
    (World.not_meets_of_not_storesOnly hstep hnot)

/-- When each handler executes its own command: in every run whose steps disturb no
waiting handler, and only there, since a step that disturbs one can be continued to
a handler that executes another command. -/
theorem isolated_iff_undisturbed (ctrlPhead : List Control) (devs : List Gdevice)
    (queue : List Command) :
    (∀ w, (world ctrlPhead devs queue).ReachableWhere (Undisturbed ctrlPhead devs) w →
      Isolated ctrlPhead devs queue w) ∧
    (∀ w ℓ w',
      (world ctrlPhead devs queue).ReachableWhere (Undisturbed ctrlPhead devs) w →
      (world ctrlPhead devs queue).step w ℓ = some w' →
      ¬ Undisturbed ctrlPhead devs w ℓ →
      ∃ ls w'', (world ctrlPhead devs queue).run w' ls = some w'' ∧
        ¬ Isolated ctrlPhead devs queue w'') := by
  constructor
  · intro w hw
    refine ⟨cmds_of_reachable hw, fun h hmem => ?_⟩
    obtain ⟨k, hk⟩ := List.mem_iff_getElem?.mp hmem
    have hsound := sound_of_reachable hw hk
    obtain ⟨hown, hmeets⟩ := ownCommand_of_undisturbed hw h hmem
    exact ⟨hown, Handler.executed_of_done hsound hown,
      Handler.setsOwnStatus hsound hown hmeets⟩
  · intro w ℓ w' hw hstep hbad
    exact not_isolated_of_disturbed (sameConfig_of_reachable hw) hstep hbad

/-- Two commands in the queue of the shipped configuration: the second is copied
before the handler of the first has read its key.  The first handler looks up the device
of the second, and is about to give it the status of the second. -/
theorem not_isolated_peripheral :
    ¬ ∀ w, (world [] peripheral
        [⟨⟨0x41, 0x00⟩, 0⟩, ⟨⟨0x42, 0x01⟩, 0⟩]).Reachable w →
      Isolated [] peripheral [⟨⟨0x41, 0x00⟩, 0⟩, ⟨⟨0x42, 0x01⟩, 0⟩] w := by
  intro hall
  obtain ⟨w, hw, hread⟩ := exists_reachable
    (world [] peripheral [⟨⟨0x41, 0x00⟩, 0⟩, ⟨⟨0x42, 0x01⟩, 0⟩])
    [.receive, .receive, .handler 0]
    (fun w => w.handlers.any fun h =>
      h.cmd == ⟨⟨0x41, 0x00⟩, 0⟩ && h.payload == none &&
        (h.next [] w.house).1.payload != none &&
        (w.house.apply (h.next [] w.house).2).devs !=
          w.house.devs.modify 4 fun d => { d with gpioStatus := LOW }) (by decide +kernel)
  obtain ⟨h, hmem, hboth⟩ := List.any_eq_true.mp hread
  simp only [Bool.and_eq_true, beq_iff_eq, bne_iff_ne] at hboth
  obtain ⟨⟨⟨hcmd, hnone⟩, hreads⟩, hother⟩ := hboth
  obtain ⟨i, hi, hdevs⟩ := ((hall w hw).2 h hmem).2.2.sets hnone hreads
  rw [hcmd] at hi hdevs
  obtain rfl : 4 = i := Option.some.inj hi
  exact hother hdevs

end HomeControl
