import HomeControl.Lib.StepSystem
import HomeControl.HandldDevice

/-!
# All the threads together

`receive_get` allocates one `recv_msg`, copies each accepted message into its
buffer and starts a detached `handld_device` thread with a pointer to it; a
handler in turn starts a detached `voice_set` thread with a pointer to the same
bytes.  Nothing ever waits for any of them.  `world` is the step system of that
program: in each step one thread makes one access, and the label says which.

* `step_cases` is the inversion of the step function, and `handler_cases` and
  `voice_cases` say where a thread of the next state comes from.
* `Handler.Sound` collects what is true of a handler by its place alone, in
  every interleaving.
* `StoresOnly` is the condition that a step stores nothing in the buffer that
  one reader does not expect, with the two lemmas that make it exact.
-/

namespace HomeControl

open SharedMemory

/-- The places of `voice_set`: before its test of `serial_fd`, before
`uart_Puts`, and after `pthread_exit`. -/
inductive VoicePc where
  | start
  | puts
  | exited
  deriving DecidableEq, Repr

/-- A `voice_set` thread.  `announced` is a record of the six bytes in the buffer
when the thread was created, and `uart` of the six it passed to `uart_Puts`. -/
structure VoiceSet where
  announced : Msg
  pc : VoicePc := .start
  uart : Option Msg := none
  deriving DecidableEq, Repr

/-- One step of `voice_set`.  `serial` says whether the serial line is open,
possibly after another `voice_init`. -/
def VoiceSet.next (v : VoiceSet) (serial : Bool) (buffer : Buffer) : VoiceSet :=
  match v.pc with
  | .start => { v with pc := if serial then .puts else .exited }
  | .puts => { v with pc := .exited, uart := some (firstCells buffer 6) }
  | .exited => v

/-- The shared state, the messages still in the queue, and the threads in the
order in which they were created. -/
structure World where
  house : House
  queue : List Command
  handlers : List Handler := []
  voices : List VoiceSet := []

inductive Label where
  | receive
  | handler (i : Nat)
  | voice (j : Nat) (serial : Bool)
  deriving DecidableEq, Repr

/-- `receive_get` copies the message and starts its handler. -/
def World.dispatch (w : World) (c : Command) (rest : List Command) : World :=
  { w with
    house := w.house.receive c.frame.bytes
    queue := rest
    handlers := w.handlers ++ [.spawn c] }

/-- The `voice_set` thread that an access creates. -/
def Action.voiceThread (s : House) : Action → List VoiceSet
  | .pthreadCreate (some .voiceSet) => [{ announced := firstCells s.buffer 6 }]
  | _ => []

variable (ctrlPhead : List Control)

/-- The handler `h`, at index `i`, makes its next access. -/
def World.advance (w : World) (i : Nat) (h : Handler) : World :=
  { w with
    house := w.house.apply (h.next ctrlPhead w.house).2
    handlers := w.handlers.set i (h.next ctrlPhead w.house).1
    voices := w.voices ++ (h.next ctrlPhead w.house).2.voiceThread w.house }

/-- The voice thread `v`, at index `j`, makes its next access. -/
def World.announce (w : World) (j : Nat) (v : VoiceSet) (serial : Bool) : World :=
  { w with voices := w.voices.set j (v.next serial w.house.buffer) }

/-- One step of one thread. -/
def World.step (w : World) : Label → Option World
  | .receive =>
    match w.queue with
    | [] => none
    | c :: rest => some (w.dispatch c rest)
  | .handler i =>
    match w.handlers[i]? with
    | none => none
    | some h => if h.pc = .done then none else some (w.advance ctrlPhead i h)
  | .voice j serial =>
    match w.voices[j]? with
    | none => none
    | some v => if v.pc = .exited then none else some (w.announce j v serial)

/-- The program with device list `devs` and the messages `queue` still to come.
The buffer starts cleared. -/
def world (devs : List Gdevice) (queue : List Command) : StepSystem World Label where
  start := { house := { devs := devs, buffer := memset 0 }, queue := queue }
  step := World.step ctrlPhead

variable {ctrlPhead} {devs : List Gdevice} {queue : List Command}

/-! ## Inversion of a step -/

theorem World.step_cases {w w' : World} {ℓ : Label}
    (hstep : w.step ctrlPhead ℓ = some w') :
    (∃ c rest, ℓ = .receive ∧ w.queue = c :: rest ∧ w' = w.dispatch c rest) ∨
    (∃ i h, ℓ = .handler i ∧ w.handlers[i]? = some h ∧ h.pc ≠ .done ∧
      w' = w.advance ctrlPhead i h) ∨
    (∃ j v serial, ℓ = .voice j serial ∧ w.voices[j]? = some v ∧ v.pc ≠ .exited ∧
      w' = w.announce j v serial) := by
  cases ℓ with
  | receive =>
    simp only [World.step] at hstep
    split at hstep
    · cases hstep
    · rename_i c rest hq
      exact .inl ⟨c, rest, rfl, hq, (Option.some.inj hstep).symm⟩
  | handler i =>
    simp only [World.step] at hstep
    split at hstep
    · cases hstep
    · rename_i h hh
      split at hstep
      · cases hstep
      · rename_i hpc
        exact .inr (.inl ⟨i, h, rfl, hh, hpc, (Option.some.inj hstep).symm⟩)
  | voice j serial =>
    simp only [World.step] at hstep
    split at hstep
    · cases hstep
    · rename_i v hv
      split at hstep
      · cases hstep
      · rename_i hpc
        exact .inr (.inr ⟨j, v, serial, rfl, hv, hpc, (Option.some.inj hstep).symm⟩)

theorem World.step_receive {w : World} {c : Command} {rest : List Command}
    (hq : w.queue = c :: rest) :
    w.step ctrlPhead .receive = some (w.dispatch c rest) := by
  simp only [World.step, hq]

theorem World.step_handler {w : World} {i : Nat} {h : Handler}
    (hh : w.handlers[i]? = some h) (hpc : h.pc ≠ .done) :
    w.step ctrlPhead (.handler i) = some (w.advance ctrlPhead i h) := by
  simp only [World.step, hh, if_neg hpc]

theorem World.step_voice {w : World} {j : Nat} {v : VoiceSet}
    (hv : w.voices[j]? = some v) (hpc : v.pc ≠ .exited) (serial : Bool) :
    w.step ctrlPhead (.voice j serial) = some (w.announce j v serial) := by
  simp only [World.step, hv, if_neg hpc]

/-! ## The other threads of a step -/

/-- An entry of a list with one entry replaced. -/
theorem getElem?_set_cases {α : Type} {l : List α} {i k : Nat} {x y z : α}
    (hx : l[i]? = some x) (hz : (l.set i y)[k]? = some z) :
    (k = i ∧ z = y) ∨ (k ≠ i ∧ l[k]? = some z) := by
  by_cases hki : k = i
  · subst hki
    have hlt : k < l.length := (List.getElem?_eq_some_iff.mp hx).1
    rw [List.getElem?_set_self hlt] at hz
    exact .inl ⟨rfl, (Option.some.inj hz).symm⟩
  · rw [List.getElem?_set_ne (Ne.symm hki)] at hz
    exact .inr ⟨hki, hz⟩

/-- An entry of a list with one entry appended. -/
theorem getElem?_concat_cases {α : Type} {l : List α} {k : Nat} {x z : α}
    (hz : (l ++ [x])[k]? = some z) : l[k]? = some z ∨ (k = l.length ∧ z = x) := by
  rcases Nat.lt_or_ge k l.length with hk | hk
  · rw [List.getElem?_append_left hk] at hz
    exact .inl hz
  · have hlt : k < (l ++ [x]).length := (List.getElem?_eq_some_iff.mp hz).1
    have hkl : k = l.length := by
      rw [List.length_append, List.length_singleton] at hlt
      omega
    subst hkl
    rw [List.getElem?_concat_length] at hz
    exact .inr ⟨rfl, (Option.some.inj hz).symm⟩

theorem set_concat_length {α : Type} (l : List α) (x y : α) :
    (l ++ [x]).set l.length y = l ++ [y] := by
  rw [List.set_append_right _ _ (Nat.le_refl _), Nat.sub_self]
  rfl

/-- A handler of the next state did nothing, was just started, or has made the
step. -/
theorem World.handler_cases {w w' : World} {ℓ : Label}
    (hstep : w.step ctrlPhead ℓ = some w') {k : Nat} {h' : Handler}
    (hk : w'.handlers[k]? = some h') :
    (w.handlers[k]? = some h' ∧ ℓ ≠ .handler k) ∨
    (∃ c rest, ℓ = .receive ∧ w.queue = c :: rest ∧ w' = w.dispatch c rest ∧
      k = w.handlers.length ∧ h' = .spawn c) ∨
    (∃ h, ℓ = .handler k ∧ w.handlers[k]? = some h ∧ h.pc ≠ .done ∧
      w' = w.advance ctrlPhead k h ∧ h' = (h.next ctrlPhead w.house).1) := by
  rcases World.step_cases hstep with
    ⟨c, rest, rfl, hq, rfl⟩ | ⟨i, h, rfl, hh, hpc, rfl⟩ | ⟨j, v, serial, rfl, hv, hpc, rfl⟩
  · rcases getElem?_concat_cases hk with hold | ⟨hlen, hnew⟩
    · exact .inl ⟨hold, by simp⟩
    · exact .inr (.inl ⟨c, rest, rfl, hq, rfl, hlen, hnew⟩)
  · rcases getElem?_set_cases hh hk with ⟨rfl, hnew⟩ | ⟨hne, hold⟩
    · exact .inr (.inr ⟨h, rfl, hh, hpc, rfl, hnew⟩)
    · exact .inl ⟨hold, by simpa using Ne.symm hne⟩
  · exact .inl ⟨hk, by simp⟩

/-- A handler that does not make the step is still there after it. -/
theorem World.handler_stays {w w' : World} {ℓ : Label}
    (hstep : w.step ctrlPhead ℓ = some w') {k : Nat} {h : Handler}
    (hk : w.handlers[k]? = some h) (hne : ℓ ≠ .handler k) :
    w'.handlers[k]? = some h := by
  have hlt : k < w.handlers.length := (List.getElem?_eq_some_iff.mp hk).1
  rcases World.step_cases hstep with
    ⟨c, rest, rfl, hq, rfl⟩ | ⟨i, g, rfl, hg, hpc, rfl⟩ | ⟨j, v, serial, rfl, hv, hpc, rfl⟩
  · exact (List.getElem?_append_left hlt).trans hk
  · exact (List.getElem?_set_ne fun h => hne (congrArg _ h)).trans hk
  · exact hk

/-- The handler that makes the step has advanced after it. -/
theorem World.getElem?_advance (ctrlPhead : List Control) {w : World} {k : Nat}
    {h : Handler} (hk : w.handlers[k]? = some h) :
    (w.advance ctrlPhead k h).handlers[k]? = some (h.next ctrlPhead w.house).1 :=
  List.getElem?_set_self (List.getElem?_eq_some_iff.mp hk).1

/-- The house after a step of a handler that is known. -/
theorem World.house_advance {w : World} {h h' : Handler} {act : Action}
    (hnext : h.next ctrlPhead w.house = (h', act)) (k : Nat) :
    (w.advance ctrlPhead k h).house = w.house.apply act := by
  show w.house.apply (h.next ctrlPhead w.house).2 = w.house.apply act
  rw [hnext]

/-- A voice thread of the next state did nothing, was just created, or has made
the step. -/
theorem World.voice_cases {w w' : World} {ℓ : Label}
    (hstep : w.step ctrlPhead ℓ = some w') {v' : VoiceSet} (hv' : v' ∈ w'.voices) :
    (v' ∈ w.voices) ∨
    (∃ i h, ℓ = .handler i ∧ w.handlers[i]? = some h ∧ w' = w.advance ctrlPhead i h ∧
      (h.next ctrlPhead w.house).2 = .pthreadCreate (some .voiceSet) ∧
      v' = { announced := firstCells w.house.buffer 6 }) ∨
    (∃ j v serial, ℓ = .voice j serial ∧ v ∈ w.voices ∧ v.pc ≠ .exited ∧
      w' = w.announce j v serial ∧ v' = v.next serial w.house.buffer) := by
  rcases World.step_cases hstep with
    ⟨c, rest, rfl, hq, rfl⟩ | ⟨i, h, rfl, hh, hpc, rfl⟩ | ⟨j, v, serial, rfl, hv, hpc, rfl⟩
  · exact .inl hv'
  · rcases List.mem_append.mp hv' with hold | hnew
    · exact .inl hold
    · refine .inr (.inl ⟨i, h, rfl, hh, rfl, ?_⟩)
      unfold Action.voiceThread at hnew
      split at hnew
      · rename_i hact
        exact ⟨hact, List.mem_singleton.mp hnew⟩
      · cases hnew
  · rcases List.mem_or_eq_of_mem_set hv' with hold | hnew
    · exact .inl hold
    · exact .inr (.inr ⟨j, v, serial, rfl, List.mem_of_getElem? hv, hpc, rfl, hnew⟩)

/-- A voice thread that does not make the step is still there after it. -/
theorem World.voice_stays {w w' : World} {ℓ : Label}
    (hstep : w.step ctrlPhead ℓ = some w') {j : Nat} {v : VoiceSet}
    (hj : w.voices[j]? = some v) (hne : ∀ serial, ℓ ≠ .voice j serial) :
    w'.voices[j]? = some v := by
  have hlt : j < w.voices.length := (List.getElem?_eq_some_iff.mp hj).1
  rcases World.step_cases hstep with
    ⟨c, rest, rfl, hq, rfl⟩ | ⟨i, h, rfl, hh, hpc, rfl⟩ | ⟨i, u, serial, rfl, hu, hpc, rfl⟩
  · exact hj
  · exact (List.getElem?_append_left hlt).trans hj
  · exact (List.getElem?_set_ne fun h => hne serial (by rw [h])).trans hj

/-- The voice thread that makes the step has advanced after it. -/
theorem World.getElem?_announce {w : World} {j : Nat} {v : VoiceSet}
    (hj : w.voices[j]? = some v) (serial : Bool) :
    (w.announce j v serial).voices[j]? = some (v.next serial w.house.buffer) :=
  List.getElem?_set_self (List.getElem?_eq_some_iff.mp hj).1

/-- No step changes the configuration of a device. -/
theorem World.sameConfig_step {w w' : World} {ℓ : Label}
    (hstep : w.step ctrlPhead ℓ = some w') : SameConfig w.house.devs w'.house.devs := by
  rcases World.step_cases hstep with
    ⟨c, rest, rfl, hq, rfl⟩ | ⟨i, h, rfl, hh, hpc, rfl⟩ | ⟨j, v, serial, rfl, hv, hpc, rfl⟩
  · exact SameConfig.refl _
  · exact House.sameConfig_apply _ _
  · exact SameConfig.refl _

variable {ok : World → Label → Prop}

theorem sameConfig_of_reachable {w : World}
    (hw : (world ctrlPhead devs queue).ReachableWhere ok w) :
    SameConfig devs w.house.devs := by
  refine hw.invariant (fun w => SameConfig devs w.house.devs) (SameConfig.refl _) ?_
  intro s ℓ s' hs _ hstep
  exact hs.trans (World.sameConfig_step hstep)

/-- A handler keeps its command when it advances. -/
theorem World.cmds_advance (ctrlPhead : List Control) {w : World} {i : Nat} {h : Handler}
    (hh : w.handlers[i]? = some h) :
    (w.advance ctrlPhead i h).handlers.map (·.cmd) = w.handlers.map (·.cmd) := by
  have hlt : i < w.handlers.length := (List.getElem?_eq_some_iff.mp hh).1
  refine List.ext_getElem? fun k => ?_
  rw [List.getElem?_map, List.getElem?_map]
  by_cases hki : k = i
  · subst hki
    rw [World.getElem?_advance ctrlPhead hh, hh, Option.map_some, Option.map_some,
      Handler.next_cmd]
  · rw [World.advance, List.getElem?_set_ne (Ne.symm hki)]

/-- No command is lost or made up: the handlers that were started and the
messages that wait are the commands of the queue, in order. -/
theorem cmds_of_reachable {w : World}
    (hw : (world ctrlPhead devs queue).ReachableWhere ok w) :
    w.handlers.map (·.cmd) ++ w.queue = queue := by
  refine hw.invariant (fun w => w.handlers.map (·.cmd) ++ w.queue = queue) rfl ?_
  intro s ℓ s' hs _ hstep
  rcases World.step_cases hstep with
    ⟨c, rest, rfl, hq, rfl⟩ | ⟨i, h, rfl, hh, hpc, rfl⟩ | ⟨j, v, serial, rfl, hv, hpc, rfl⟩
  · rw [← hs, hq]
    simp [World.dispatch, Handler.spawn]
  · rw [World.cmds_advance ctrlPhead hh]
    exact hs
  · exact hs

/-! ## What a handler's place says -/

/-- The lookup of the handler found its device. -/
def Handler.Resolved (devs : List Gdevice) (h : Handler) : Prop :=
  ∃ k, h.lookedUp = some k ∧ findDeviceByKey devs k.toNat = some h.curDev

/-- The lookup found the device and its status has been assigned. -/
def Handler.Assigned (devs : List Gdevice) (h : Handler) : Prop :=
  h.Resolved devs ∧ ∃ p, h.payload = some p

/-- What is true of a handler by its place alone.  `devs` is the configuration,
which no step changes. -/
def Handler.Sound (devs : List Gdevice) (h : Handler) : Prop :=
  match h.pc with
  | .find => h.lookedUp = none ∧ h.payload = none ∧ h.faceRet = 0
  | .assign => h.Resolved devs ∧ h.payload = none ∧ h.faceRet = 0
  | .parRetfunc => h.Assigned devs ∧ checksFace devs h.curDev = true
  | .mark =>
    h.Assigned devs ∧ checksFace devs h.curDev = true ∧ h.faceRet = h.cmd.score
  | .setGpio =>
    h.Assigned devs ∧ (checksFace devs h.curDev = true →
      h.faceRet = h.cmd.score ∧ h.cmd.score > 1 / 2)
  | .announce _ | .oled =>
    h.Assigned devs ∧ (checksFace devs h.curDev = true →
      h.faceRet = h.cmd.score ∧ (h.cmd.score > 1 / 2 → h.ret = 0))
  | .relockAssign | .relockSet =>
    h.Assigned devs ∧ checksFace devs h.curDev = true ∧ h.faceRet = h.cmd.score ∧
      h.cmd.score > 1 / 2
  | .done =>
    h.Assigned devs ∨
      (h.payload = none ∧
        ∃ k, h.lookedUp = some k ∧ findDeviceByKey devs k.toNat = none)

/-- A handler that has set `ret` is at the announcement or at the display. -/
theorem Handler.sound_afterRet {h : Handler} {devs' : List Gdevice}
    (hpc : h.pc = afterRet ctrlPhead devs' h.curDev) (hassigned : h.Assigned devs)
    (hret : checksFace devs h.curDev = true →
      h.faceRet = h.cmd.score ∧ (h.cmd.score > 1 / 2 → h.ret = 0)) :
    h.Sound devs := by
  unfold Handler.Sound
  rcases afterRet_cases ctrlPhead devs' h.curDev with hafter | hafter
  · rw [hpc, hafter]
    exact ⟨hassigned, hret⟩
  · rw [hpc, hafter]
    exact ⟨hassigned, hret⟩

/-- One case for each place of the handler. -/
theorem Handler.sound_next {s : House} (hcfg : SameConfig devs s.devs) {h : Handler}
    (hsound : h.Sound devs) : (h.next ctrlPhead s).1.Sound devs := by
  cases hpc : h.pc with
  | find =>
    simp only [Handler.Sound, hpc] at hsound
    cases hfind : findDeviceByKey s.devs (s.buffer 2).toNat with
    | none =>
      rw [next_find_none hpc hfind]
      refine .inr ⟨hsound.2.1, _, rfl, ?_⟩
      rw [← hcfg.findDeviceByKey]
      exact hfind
    | some curDev =>
      rw [next_find hpc hfind]
      refine ⟨⟨_, rfl, ?_⟩, hsound.2⟩
      rw [← hcfg.findDeviceByKey]
      exact hfind
  | assign =>
    simp only [Handler.Sound, hpc] at hsound
    simp only [Handler.next, hpc, hcfg.checksFace]
    have hassigned : Handler.Assigned devs
        { h with pc := .parRetfunc, payload := some (s.buffer 3) } :=
      ⟨hsound.1, _, rfl⟩
    by_cases hface : checksFace devs h.curDev = true
    · rw [if_pos hface]
      exact ⟨hassigned, hface⟩
    · rw [if_neg hface]
      exact ⟨hassigned, fun h => absurd h hface⟩
  | parRetfunc =>
    simp only [Handler.Sound, hpc] at hsound
    simp only [Handler.next, hpc]
    exact ⟨hsound.1, hsound.2, rfl⟩
  | mark =>
    simp only [Handler.Sound, hpc] at hsound
    obtain ⟨hassigned, hface, hscored⟩ := hsound
    simp only [Handler.next, hpc]
    by_cases hscore : h.faceRet > 1 / 2
    · rw [if_pos hscore]
      exact ⟨hassigned, fun _ => ⟨hscored, hscored ▸ hscore⟩⟩
    · rw [if_neg hscore]
      refine Handler.sound_afterRet rfl hassigned fun _ => ⟨hscored, fun h => ?_⟩
      exact absurd (hscored ▸ h) hscore
  | setGpio =>
    simp only [Handler.Sound, hpc] at hsound
    simp only [Handler.next, hpc]
    obtain ⟨⟨⟨k, hk, hfind⟩, hpay⟩, hgranted⟩ := hsound
    obtain ⟨d, hd, -⟩ := findDeviceByKey_eq_some_iff.mp hfind
    obtain ⟨v, hv⟩ := hcfg.getElem? hd
    refine Handler.sound_afterRet rfl ⟨⟨k, hk, hfind⟩, hpay⟩ fun hface => ?_
    refine ⟨(hgranted hface).1, fun _ => ?_⟩
    show (setGpioGdeviceStatus s.devs[h.curDev]?).2 = 0
    rw [hv, setGpioGdeviceStatus_ret]
  | announce a =>
    simp only [Handler.Sound, hpc] at hsound
    simp only [Handler.next, hpc, Handler.Sound]
    rcases a.next_cases ((voiceControl ctrlPhead).map (·.set)) s.buffer with holed | ⟨a', ha'⟩
    · rw [holed]
      exact hsound
    · rw [ha']
      exact hsound
  | oled =>
    simp only [Handler.Sound, hpc] at hsound
    simp only [Handler.next, hpc, hcfg.checksFace]
    by_cases hrelock : checksFace devs h.curDev = true ∧ h.ret = 0 ∧ h.faceRet > 1 / 2
    · rw [if_pos hrelock]
      have hscored : h.faceRet = h.cmd.score := (hsound.2 hrelock.1).1
      exact ⟨hsound.1, hrelock.1, hscored, hscored ▸ hrelock.2.2⟩
    · rw [if_neg hrelock]
      exact .inl hsound.1
  | relockAssign =>
    simp only [Handler.Sound, hpc] at hsound
    simp only [Handler.next, hpc]
    exact hsound
  | relockSet =>
    simp only [Handler.Sound, hpc] at hsound
    simp only [Handler.next, hpc]
    exact .inl hsound.1
  | done =>
    simp only [Handler.next, hpc]
    exact hsound

theorem sound_of_reachable {w : World}
    (hw : (world ctrlPhead devs queue).ReachableWhere ok w) {k : Nat} {h : Handler}
    (hk : w.handlers[k]? = some h) : h.Sound devs := by
  refine hw.invariant'
    (fun w => ∀ k h, w.handlers[k]? = some h → h.Sound devs) ?_ ?_ k h hk
  · intro k h hk
    cases hk
  · intro s ℓ s' hs hinv _ hstep k h' hk'
    rcases World.handler_cases hstep hk' with
      ⟨hold, -⟩ | ⟨c, rest, -, -, -, -, rfl⟩ | ⟨h, -, hh, -, -, rfl⟩
    · exact hinv k h' hold
    · exact ⟨rfl, rfl, rfl⟩
    · exact Handler.sound_next (sameConfig_of_reachable hs) (hinv k h hh)

/-! ## What a step stores in the buffer -/

/-- The step stores nothing in the buffer that `E` does not expect. -/
def World.StoresOnly (ctrlPhead : List Control) (E : Expectation UInt8) (w : World) :
    Label → Prop
  | .receive => ∀ c rest, w.queue = c :: rest → Admits E c.frame.bytes
  | .handler i => ∀ h, w.handlers[i]? = some h → ∀ j v,
    (h.next ctrlPhead w.house).2 = .writeByte j v → E j v
  | .voice _ _ => True

theorem House.buffer_apply_writeByte (s : House) {a : Action} {j : Nat} {v : UInt8}
    (ha : a = .writeByte j v) : (s.apply a).buffer = Function.update s.buffer j v := by
  rw [ha]
  rfl

theorem World.StoresOnly.meets {E : Expectation UInt8} {w w' : World} {ℓ : Label}
    (hstep : w.step ctrlPhead ℓ = some w') (hok : w.StoresOnly ctrlPhead E ℓ)
    (hmeets : Meets w.house.buffer E) : Meets w'.house.buffer E := by
  rcases World.step_cases hstep with
    ⟨c, rest, rfl, hq, rfl⟩ | ⟨i, h, rfl, hh, hpc, rfl⟩ | ⟨j, v, serial, rfl, hv, hpc, rfl⟩
  · exact hmeets.memcpy (hok c rest hq)
  · by_cases hwrite : ∃ j v, (h.next ctrlPhead w.house).2 = .writeByte j v
    · obtain ⟨j, v, ha⟩ := hwrite
      show Meets (w.house.apply _).buffer E
      rw [House.buffer_apply_writeByte _ ha]
      exact hmeets.update (hok h hh j v ha)
    · show Meets (w.house.apply _).buffer E
      rw [House.apply_buffer _ fun j v ha => hwrite ⟨j, v, ha⟩]
      exact hmeets
  · exact hmeets

/-- A step that stores something unexpected leaves it in the buffer, at an offset
that it names. -/
theorem World.not_meets_of_not_storesOnly {E : Expectation UInt8} {w w' : World}
    {ℓ : Label} (hstep : w.step ctrlPhead ℓ = some w')
    (hok : ¬ w.StoresOnly ctrlPhead E ℓ) : ¬ Meets w'.house.buffer E := by
  rcases World.step_cases hstep with
    ⟨c, rest, rfl, hq, rfl⟩ | ⟨i, h, rfl, hh, hpc, rfl⟩ | ⟨j, v, serial, rfl, hv, hpc, rfl⟩
  · intro hmeets
    refine hok fun c' rest' hq' i v hv => ?_
    obtain ⟨rfl, rfl⟩ := List.cons.inj (hq.symm.trans hq')
    by_contra hne
    exact not_meets_memcpy hv hne hmeets
  · intro hmeets
    refine hok fun h' hh' j v ha => ?_
    obtain rfl : h = h' := Option.some.inj (hh.symm.trans hh')
    have hbuf : Meets (w.house.apply (h.next ctrlPhead w.house).2).buffer E := hmeets
    rw [House.buffer_apply_writeByte _ ha] at hbuf
    by_contra hne
    exact not_meets_update hne hbuf
  · exact fun _ => hok trivial

end HomeControl
