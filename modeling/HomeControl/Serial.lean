import HomeControl.Effect
import HomeControl.Isolation

/-!
# Commands executed one at a time

`Serial` permits `receive_get` to copy a message only when every handler and every
`voice_set` thread has ended.  The runs of the whole program that keep to it
compute `runCommands` (`inOrder_of_serial`), so the levels of the pins after such
a run are those of the last commands with an effect on them.
-/

namespace HomeControl

open SharedMemory StepSystem LastWrite

variable {ctrlPhead : List Control} {devs : List Gdevice} {queue : List Command}

/-- No handler and no voice thread is running. -/
def World.Quiet (w : World) : Prop :=
  (∀ h ∈ w.handlers, h.pc = .done) ∧ ∀ v ∈ w.voices, v.pc = .exited

/-- A message is copied only when no handler and no voice thread is running. -/
def Serial (w : World) : Label → Prop
  | .receive => w.Quiet
  | _ => True

/-- The house after the commands of all the handlers. -/
def World.outcome (ctrlPhead : List Control) (devs : List Gdevice) (w : World) : House :=
  runCommands ctrlPhead (.initial devs) (w.handlers.map (·.cmd))

/-- Either every handler has ended, in the state that the commands compute, or the
last one alone is running and will end in it. -/
def InOrder (ctrlPhead : List Control) (devs : List Gdevice) (w : World) : Prop :=
  ((∀ h ∈ w.handlers, h.pc = .done) ∧ w.house = w.outcome ctrlPhead devs) ∨
    ∃ pre h, w.handlers = pre ++ [h] ∧ (∀ g ∈ pre, g.pc = .done) ∧ h.pc ≠ .done ∧
      Completes ctrlPhead w.house h (w.outcome ctrlPhead devs)

/-- The only handler that runs is the last. -/
theorem index_of_running {pre : List Handler} {h g : Handler} {i : Nat}
    (hpre : ∀ g ∈ pre, g.pc = .done) (hi : (pre ++ [h])[i]? = some g)
    (hpc : g.pc ≠ .done) : i = pre.length ∧ g = h := by
  rcases getElem?_concat_cases hi with hold | hlast
  · exact absurd (hpre g (List.mem_of_getElem? hold)) hpc
  · exact hlast

theorem inOrder_dispatch {w : World} {c : Command} {rest : List Command}
    (hdone : ∀ h ∈ w.handlers, h.pc = .done) (hhouse : w.house = w.outcome ctrlPhead devs) :
    InOrder ctrlPhead devs (w.dispatch c rest) := by
  refine .inr ⟨w.handlers, .spawn c, rfl, hdone, by simp [Handler.spawn], ?_⟩
  have hout : (w.dispatch c rest).outcome ctrlPhead devs =
      runCommand ctrlPhead (w.outcome ctrlPhead devs) c := by
    unfold World.outcome
    rw [← runCommands_concat]
    simp [World.dispatch, Handler.spawn]
  rw [hout, ← hhouse]
  exact completes_spawn (w.house.receive c.frame.bytes) c

theorem inOrder_advance {w : World} {pre : List Handler} {h : Handler}
    (hsplit : w.handlers = pre ++ [h]) (hpre : ∀ g ∈ pre, g.pc = .done)
    (hpc : h.pc ≠ .done)
    (hcomp : Completes ctrlPhead w.house h (w.outcome ctrlPhead devs)) :
    InOrder ctrlPhead devs (w.advance ctrlPhead pre.length h) := by
  have hlast : w.handlers[pre.length]? = some h := by
    rw [hsplit, List.getElem?_concat_length]
  have hout : (w.advance ctrlPhead pre.length h).outcome ctrlPhead devs =
      w.outcome ctrlPhead devs := by
    unfold World.outcome
    rw [World.cmds_advance ctrlPhead hlast]
  have hhandlers : (w.advance ctrlPhead pre.length h).handlers =
      pre ++ [(h.next ctrlPhead w.house).1] := by
    show w.handlers.set pre.length _ = _
    rw [hsplit, set_concat_length]
  have hnext := hcomp.of_not_done hpc
  by_cases hend : (h.next ctrlPhead w.house).1.pc = .done
  · refine .inl ⟨fun g hg => ?_, ?_⟩
    · rw [hhandlers] at hg
      rcases List.mem_append.mp hg with hg | hg
      · exact hpre g hg
      · rw [List.mem_singleton.mp hg]
        exact hend
    · rw [hout]
      exact hnext.of_done hend
  · refine .inr ⟨pre, _, hhandlers, hpre, hend, ?_⟩
    rw [hout]
    exact hnext

/-- One step, when a message is copied only with no handler running. -/
theorem InOrder.step {w w' : World} {ℓ : Label} (h : InOrder ctrlPhead devs w)
    (hok : ℓ = .receive → ∀ h ∈ w.handlers, h.pc = .done)
    (hstep : w.step ctrlPhead ℓ = some w') : InOrder ctrlPhead devs w' := by
  rcases World.step_cases hstep with
    ⟨c, rest, rfl, hq, rfl⟩ | ⟨i, g, rfl, hg, hpc, rfl⟩ | ⟨j, v, serial, rfl, hv, hpc, rfl⟩
  · rcases h with ⟨hdone, hhouse⟩ | ⟨pre, h, hsplit, -, hpc, -⟩
    · exact inOrder_dispatch hdone hhouse
    · refine absurd (hok rfl h ?_) hpc
      rw [hsplit]
      exact List.mem_append_right _ (List.mem_singleton_self h)
  · rcases h with ⟨hdone, -⟩ | ⟨pre, h, hsplit, hpre, hrun, hcomp⟩
    · exact absurd (hdone g (List.mem_of_getElem? hg)) hpc
    · rw [hsplit] at hg
      obtain ⟨rfl, rfl⟩ := index_of_running hpre hg hpc
      exact inOrder_advance hsplit hpre hpc hcomp
  · exact h

/-- Nothing has been started. -/
theorem inOrder_start (queue : List Command) :
    InOrder ctrlPhead devs (world ctrlPhead devs queue).start := by
  refine .inl ⟨fun h hh => ?_, rfl⟩
  cases hh

/-- A serial run computes `runCommands`. -/
theorem inOrder_of_serial {w : World}
    (hw : (world ctrlPhead devs queue).ReachableWhere Serial w) :
    InOrder ctrlPhead devs w := by
  refine hw.invariant (InOrder ctrlPhead devs) (inOrder_start queue) ?_
  intro s ℓ s' hinv hok hstep
  refine hinv.step ?_ hstep
  rintro rfl
  exact hok.1

/-- With no handler running, the house is what the commands compute. -/
theorem InOrder.house_eq {w : World} (h : InOrder ctrlPhead devs w)
    (hdone : ∀ h ∈ w.handlers, h.pc = .done) : w.house = w.outcome ctrlPhead devs := by
  rcases h with ⟨-, hhouse⟩ | ⟨pre, h, hsplit, -, hpc, -⟩
  · exact hhouse
  · refine absurd (hdone h ?_) hpc
    rw [hsplit]
    exact List.mem_append_right _ (List.mem_singleton_self h)

/-- A serial run disturbs no handler. -/
theorem undisturbed_of_serial {w : World}
    (hw : (world ctrlPhead devs queue).ReachableWhere Serial w) :
    (world ctrlPhead devs queue).ReachableWhere (Undisturbed ctrlPhead devs) w := by
  refine hw.permitted ?_
  intro s ℓ s' hs _ hok hstep h hmem
  by_cases hread : h.pc = .find ∨ h.pc = .assign
  · have hpc : h.pc ≠ .done := by
      rcases hread with hpc | hpc <;> simp [hpc]
    cases ℓ with
    | receive => exact absurd (hok.1 h hmem) hpc
    | handler i =>
      intro g hg j v hwrite
      -- The handler that steps is the one that has yet to read.
      rcases inOrder_of_serial hs with ⟨hdone, -⟩ | ⟨pre, last, hsplit, hpre, -, -⟩
      · exact absurd (hdone h hmem) hpc
      · obtain ⟨k, hk⟩ := List.mem_iff_getElem?.mp hmem
        rw [hsplit] at hk hg
        obtain ⟨-, rfl⟩ := index_of_running hpre hk hpc
        by_cases hgpc : g.pc = .done
        · simp [Handler.next, hgpc] at hwrite
        · obtain ⟨-, rfl⟩ := index_of_running hpre hg hgpc
          exact absurd hwrite (Handler.next_reads hread j v)
    | voice j serial => exact trivial
  · have hexpects : ∀ i v, h.expects devs i v := fun i v =>
      Handler.expects_of_read (fun hf => hread (.inl hf)) (fun ha => hread (.inr ha)) i v
    cases ℓ with
    | receive => exact fun c rest _ i v _ => hexpects i v
    | handler i => exact fun g _ j v _ => hexpects j v
    | voice j serial => exact trivial

/-- In a serial run, a step changes at most the `gpio_status` of the device that the
handler's own command resolves to. -/
theorem devs_of_serial_step {w w' : World} {ℓ : Label}
    (hw : (world ctrlPhead devs queue).ReachableWhere Serial w)
    (hstep : w.step ctrlPhead ℓ = some w') {dev : Nat}
    (hne : w'.house.devs[dev]? ≠ w.house.devs[dev]?) :
    ∃ h ∈ w.handlers, h.pc ≠ .done ∧ h.cmd.device devs = some dev ∧
      ∃ v, w'.house.devs[dev]? =
        (w.house.devs[dev]?).map fun d => { d with gpioStatus := v } := by
  rcases World.step_cases hstep with
    ⟨c, rest, rfl, hq, rfl⟩ | ⟨i, h, rfl, hh, hpc, rfl⟩ | ⟨j, v, serial, rfl, hv, hpc, rfl⟩
  · exact absurd rfl hne
  · have hmem := List.mem_of_getElem? hh
    by_cases hact : ∃ k v, (h.next ctrlPhead w.house).2 = .assignStatus k v
    · obtain ⟨k, v, hact⟩ := hact
      have hdevs : (w.advance ctrlPhead i h).house.devs = assignStatus w.house.devs k v := by
        show (w.house.apply (h.next ctrlPhead w.house).2).devs = _
        rw [hact]
        rfl
      rw [hdevs] at hne ⊢
      have hk : k = dev := by
        by_contra hkne
        exact hne (getElem?_assignStatus_ne _ hkne v)
      subst hk
      obtain ⟨rfl, hplace⟩ := Handler.next_assignStatus hact
      have hsound := sound_of_reachable hw hh
      have hres : h.Resolved devs := by
        rcases hplace with ⟨hassign, -⟩ | ⟨hrelock, -⟩
        · simp only [Handler.Sound, hassign] at hsound
          exact hsound.1
        · simp only [Handler.Sound, hrelock] at hsound
          exact hsound.1.1
      have hown := (ownCommand_of_undisturbed (undisturbed_of_serial hw) h hmem).1
      refine ⟨h, hmem, hpc, hown.device hres, v, ?_⟩
      rw [assignStatus, List.getElem?_modify_eq]
      rfl
    · refine absurd ?_ hne
      show (w.house.apply (h.next ctrlPhead w.house).2).devs[dev]? = _
      rw [House.apply_devs _ fun k v hk => hact ⟨k, v, hk⟩]
  · exact absurd rfl hne

/-! ## Serial runs come to an end -/

/-- The handler at index `k` runs to its end, when it can end. -/
theorem handler_ends {s t : House} {h : Handler} (hcomp : Completes ctrlPhead s h t)
    {w : World} (hw : (world ctrlPhead devs queue).ReachableWhere Serial w)
    (hhouse : w.house = s) {k : Nat} (hk : w.handlers[k]? = some h) :
    ∃ w' h', (world ctrlPhead devs queue).ReachableWhere Serial w' ∧
      w'.queue = w.queue ∧ w'.handlers = w.handlers.set k h' ∧ h'.pc = .done := by
  induction hcomp generalizing w with
  | @done s h hpc =>
    refine ⟨w, h, hw, rfl, ?_, hpc⟩
    obtain ⟨hlt, rfl⟩ := List.getElem?_eq_some_iff.mp hk
    exact (List.set_getElem_self hlt).symm
  | @step s t h hpc _ ih =>
    have hstep : w.step ctrlPhead (.handler k) = some (w.advance ctrlPhead k h) :=
      World.step_handler hk hpc
    have hok : Serial w (.handler k) := trivial
    have hnext := World.getElem?_advance ctrlPhead hk
    rw [← hhouse] at ih
    obtain ⟨w', h', hw', hqueue, hhandlers, hend⟩ :=
      ih (.step hw hok hstep) rfl hnext
    exact ⟨w', h', hw', hqueue, hhandlers.trans (List.set_set _), hend⟩

/-- The voice threads before index `j` end, one step each when the serial line does
not open. -/
theorem voices_end {w : World} (hw : (world ctrlPhead devs queue).ReachableWhere Serial w)
    (j : Nat) :
    ∃ w', (world ctrlPhead devs queue).ReachableWhere Serial w' ∧ w'.queue = w.queue ∧
      w'.handlers = w.handlers ∧ w'.voices.length = w.voices.length ∧
      ∀ i v, i < j → w'.voices[i]? = some v → v.pc = .exited := by
  induction j with
  | zero => exact ⟨w, hw, rfl, rfl, rfl, fun i v hi => absurd hi (Nat.not_lt_zero i)⟩
  | succ j ih =>
    obtain ⟨u, hu, hqueue, hhandlers, hlen, hbefore⟩ := ih
    by_cases hrun : ∃ v, u.voices[j]? = some v ∧ v.pc ≠ .exited
    · obtain ⟨v, hv, hpc⟩ := hrun
      have hstep : u.step ctrlPhead (.voice j false) = some (u.announce j v false) :=
        World.step_voice hv hpc false
      have hok : Serial u (.voice j false) := trivial
      refine ⟨u.announce j v false, .step hu hok hstep, hqueue, hhandlers, ?_, ?_⟩
      · show (u.voices.set j _).length = _
        rw [List.length_set, hlen]
      intro i x hi hx
      rcases getElem?_set_cases hv hx with ⟨-, rfl⟩ | ⟨hne, hold⟩
      · cases hplace : v.pc with
        | start => simp [VoiceSet.next, hplace]
        | puts => simp [VoiceSet.next, hplace]
        | exited => exact absurd hplace hpc
      · exact hbefore i x (by omega) hold
    · refine ⟨u, hu, hqueue, hhandlers, hlen, fun i v hi hv => ?_⟩
      by_cases hij : i = j
      · subst hij
        by_contra hpc
        exact hrun ⟨v, hv, hpc⟩
      · exact hbefore i v (by omega) hv

/-- From a quiet state, the commands that wait can be executed one at a time to the
last. -/
theorem serial_ends {w : World} (hw : (world ctrlPhead devs queue).ReachableWhere Serial w)
    (hquiet : w.Quiet) :
    ∃ w', (world ctrlPhead devs queue).ReachableWhere Serial w' ∧ w'.queue = [] ∧
      w'.Quiet := by
  induction hq : w.queue generalizing w with
  | nil => exact ⟨w, hw, hq, hquiet⟩
  | cons c rest ih =>
    have hstep : w.step ctrlPhead .receive = some (w.dispatch c rest) :=
      World.step_receive hq
    have hok : Serial w .receive := hquiet
    have hlast : (w.dispatch c rest).handlers[w.handlers.length]? = some (.spawn c) :=
      List.getElem?_concat_length
    obtain ⟨u, h, hu, hqueue, hhandlers, hend⟩ :=
      handler_ends (completes_spawn (w.house.receive c.frame.bytes) c)
        (.step hw hok hstep) rfl hlast
    have hset : u.handlers = w.handlers ++ [h] := by
      rw [hhandlers]
      exact set_concat_length w.handlers _ h
    obtain ⟨x, hx, hxqueue, hxhandlers, hlen, hvoices⟩ := voices_end hu u.voices.length
    refine ih hx ⟨?_, ?_⟩ (hxqueue.trans hqueue)
    · rw [hxhandlers, hset]
      intro g hg
      rcases List.mem_append.mp hg with hg | hg
      · exact hquiet.1 g hg
      · rw [List.mem_singleton.mp hg]
        exact hend
    · intro v hv
      obtain ⟨i, hi⟩ := List.mem_iff_getElem?.mp hv
      have hlt : i < x.voices.length := (List.getElem?_eq_some_iff.mp hi).1
      exact hvoices i v (by omega) hi

/-- The meaning of commands executed one at a time, for any device list and any
initial levels.  The commands can be executed so to the last; the level of each pin
is then that of the last command with an effect on it; and no step changes anything
of a device but the `gpio_status` of the one that its command resolves to. -/
theorem serial_meaning (ctrlPhead : List Control) (devs : List Gdevice)
    (queue : List Command) :
    (∃ w, (world ctrlPhead devs queue).ReachableWhere Serial w ∧ w.queue = [] ∧
      w.Quiet) ∧
    (∀ w, (world ctrlPhead devs queue).ReachableWhere Serial w → w.queue = [] →
      (∀ h ∈ w.handlers, h.pc = .done) → ∀ (init : Int → Int) (p : Int), p ≠ -1 →
        level init w.house.gpio p = lastWrite (effect devs p) (init p) queue) ∧
    (∀ w ℓ w', (world ctrlPhead devs queue).ReachableWhere Serial w →
      (world ctrlPhead devs queue).step w ℓ = some w' →
      ∀ dev, w'.house.devs[dev]? ≠ w.house.devs[dev]? →
        ∃ h ∈ w.handlers, h.pc ≠ .done ∧ h.cmd.device devs = some dev ∧
          ∃ v, w'.house.devs[dev]? =
            (w.house.devs[dev]?).map fun d => { d with gpioStatus := v }) := by
  refine ⟨?_, ?_, ?_⟩
  · refine serial_ends .start ⟨fun h hh => ?_, fun v hv => ?_⟩
    · cases hh
    · cases hv
  · intro w hw hempty hdone init p hp
    have hcmds : w.handlers.map (·.cmd) = queue := by
      have h := cmds_of_reachable hw
      rw [hempty, List.append_nil] at h
      exact h
    rw [(inOrder_of_serial hw).house_eq hdone, World.outcome, hcmds]
    exact level_runCommands init (.initial devs) queue hp
  · intro w ℓ w' hw hstep dev hne
    exact devs_of_serial_step hw hstep hne

/-- Two commands for the shipped configuration, one after the other: the first turns a lamp
on, and the second opens the door and locks it again. -/
theorem serial_meaning_peripheral :
    ∃ w, (world [] peripheral [⟨⟨0x41, 0x00⟩, 0⟩, ⟨⟨0x44, 0x00⟩, 9 / 10⟩]).ReachableWhere
        Serial w ∧ w.queue = [] ∧ w.Quiet ∧
      level (fun _ => HIGH) w.house.gpio 5 = LOW ∧
      level (fun _ => LOW) w.house.gpio 8 = HIGH := by
  obtain ⟨hends, hlevel, -⟩ :=
    serial_meaning [] peripheral [⟨⟨0x41, 0x00⟩, 0⟩, ⟨⟨0x44, 0x00⟩, 9 / 10⟩]
  obtain ⟨w, hw, hempty, hquiet⟩ := hends
  refine ⟨w, hw, hempty, hquiet, ?_, ?_⟩
  · rw [hlevel w hw hempty hquiet.1 (fun _ => HIGH) 5 (by decide)]
    decide +kernel
  · rw [hlevel w hw hempty hquiet.1 (fun _ => LOW) 8 (by decide)]
    decide +kernel

end HomeControl
