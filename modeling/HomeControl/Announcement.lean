import HomeControl.World

/-!
# What the voice module hears

A handler that announces starts a `voice_set` thread with a pointer to the shared
buffer and then resets bytes 2 and 3.  `Heard` says that each thread passes to
`uart_Puts` the six bytes that were in the buffer when it was created.

It fails, for one command alone: the handler can reset its two bytes before the
thread has read them, which the `usleep(100)` between the two makes unlikely and
does not exclude.  A thread that has yet to send expects its six bytes
(`VoiceSet.expects`), and `heard_iff_unspoilt` says that the property holds
exactly as long as nothing else is stored in them.
-/

namespace HomeControl

open SharedMemory StepSystem

variable {ctrlPhead : List Control} {devs : List Gdevice} {queue : List Command}

/-- What the voice module was sent is what was announced. -/
def Heard (w : World) : Prop :=
  ∀ v ∈ w.voices, ∀ bytes, v.uart = some bytes → bytes = v.announced

/-- A thread that has yet to send expects the bytes that were announced. -/
def VoiceSet.expects (v : VoiceSet) : Expectation UInt8 :=
  fun i b => v.pc ≠ .exited → i < 6 → v.announced[i]? = some b

/-- The step stores nothing in the six bytes that some `voice_set` thread has yet
to send, unless it stores the same. -/
def Unspoilt (ctrlPhead : List Control) (w : World) (ℓ : Label) : Prop :=
  ∀ v ∈ w.voices, w.StoresOnly ctrlPhead v.expects ℓ

/-- Six bytes were announced, and they were sent if anything was. -/
def VoiceSet.Faithful (v : VoiceSet) : Prop :=
  v.announced.length = 6 ∧ ∀ bytes, v.uart = some bytes → bytes = v.announced

theorem announced_of_meets {v : VoiceSet} {buffer : Buffer}
    (hlen : v.announced.length = 6) (hpc : v.pc ≠ .exited)
    (hmeets : Meets buffer v.expects) : firstCells buffer 6 = v.announced := by
  refine List.ext_getElem? fun i => ?_
  by_cases hi : i < 6
  · rw [getElem?_firstCells _ hi, hmeets i hpc hi]
  · rw [List.getElem?_eq_none (by rw [length_firstCells]; omega),
      List.getElem?_eq_none (by rw [hlen]; omega)]

/-- A thread that finds what it expects sends what was announced. -/
theorem VoiceSet.faithful_next {v : VoiceSet} {buffer : Buffer}
    (hfaithful : v.Faithful) (hmeets : Meets buffer v.expects) (serial : Bool) :
    (v.next serial buffer).Faithful := by
  cases hpc : v.pc with
  | start =>
    simp only [VoiceSet.next, hpc]
    exact hfaithful
  | puts =>
    simp only [VoiceSet.next, hpc]
    have hsent : firstCells buffer 6 = v.announced :=
      announced_of_meets hfaithful.1 (by simp [hpc]) hmeets
    refine ⟨hfaithful.1, fun bytes hbytes => ?_⟩
    exact (Option.some.inj hbytes).symm.trans hsent
  | exited =>
    simp only [VoiceSet.next, hpc]
    exact hfaithful

theorem VoiceSet.meets_next {v : VoiceSet} {buffer : Buffer}
    (hpc : v.pc ≠ .exited) (hmeets : Meets buffer v.expects) (serial : Bool) :
    Meets buffer (v.next serial buffer).expects := by
  intro i hnext hi
  have hsame : (v.next serial buffer).announced = v.announced := by
    unfold VoiceSet.next
    split <;> rfl
  rw [hsame]
  exact hmeets i hpc hi

/-- A thread that was just created finds what was announced. -/
theorem meets_created (buffer : Buffer) :
    Meets buffer (VoiceSet.mk (firstCells buffer 6) .start none).expects :=
  fun _ _ hi => getElem?_firstCells buffer hi

theorem faithful_of_unspoilt {w : World}
    (hw : (world ctrlPhead devs queue).ReachableWhere (Unspoilt ctrlPhead) w) :
    ∀ v ∈ w.voices, v.Faithful ∧ Meets w.house.buffer v.expects := by
  refine hw.invariant (fun w => ∀ v ∈ w.voices,
    v.Faithful ∧ Meets w.house.buffer v.expects) ?_ ?_
  · intro v hv
    cases hv
  · intro s ℓ s' hinv hok hstep v' hmem
    rcases World.voice_cases hstep hmem with
      hold | ⟨i, h, -, hh, rfl, hact, rfl⟩ | ⟨j, v, serial, -, hin, hpc, rfl, rfl⟩
    · obtain ⟨hfaithful, hmeets⟩ := hinv v' hold
      exact ⟨hfaithful, World.StoresOnly.meets hstep (hok v' hold) hmeets⟩
    · refine ⟨⟨length_firstCells _ 6, fun bytes hbytes => by cases hbytes⟩, ?_⟩
      have hbuf : (s.advance ctrlPhead i h).house.buffer = s.house.buffer := by
        refine House.apply_buffer _ fun j v => ?_
        rw [hact]
        simp
      rw [hbuf]
      exact meets_created _
    · obtain ⟨hfaithful, hmeets⟩ := hinv v hin
      exact ⟨VoiceSet.faithful_next hfaithful hmeets serial,
        VoiceSet.meets_next hpc hmeets serial⟩

/-- A thread that finds something else sends it. -/
theorem not_heard_of_not_meets {w : World} {j : Nat} {v : VoiceSet}
    (hj : w.voices[j]? = some v) (hnot : ¬ Meets w.house.buffer v.expects) :
    ∃ ls w', (world ctrlPhead devs queue).run w ls = some w' ∧ ¬ Heard w' := by
  obtain ⟨i, hi⟩ := not_forall.mp hnot
  obtain ⟨hpc, hlt, hbyte⟩ : v.pc ≠ .exited ∧ i < 6 ∧
      v.announced[i]? ≠ some (w.house.buffer i) := by
    by_contra hall
    exact hi fun hpc hlt => by_contra fun hne => hall ⟨hpc, hlt, hne⟩
  have hsent : firstCells w.house.buffer 6 ≠ v.announced := by
    intro heq
    rw [← heq, getElem?_firstCells _ hlt] at hbyte
    exact hbyte rfl
  -- The last step of the thread, from a state that still has this buffer.
  have hlast : ∀ (u : World) (x : VoiceSet), u.house.buffer = w.house.buffer →
      u.voices[j]? = some x → x.pc = .puts → x.announced = v.announced →
      ¬ Heard (u.announce j x true) := by
    intro u x hbuf hx hputs hann hheard
    have hmem := List.mem_of_getElem? (World.getElem?_announce hx true)
    have huart : (x.next true u.house.buffer).uart = some (firstCells w.house.buffer 6) := by
      simp only [VoiceSet.next, hputs, hbuf]
    have hsame : (x.next true u.house.buffer).announced = v.announced := by
      simp only [VoiceSet.next, hputs, hann]
    exact hsent ((hheard _ hmem _ huart).trans hsame)
  have hstep : w.step ctrlPhead (.voice j true) = some (w.announce j v true) :=
    World.step_voice hj hpc true
  cases hplace : v.pc with
  | exited => exact absurd hplace hpc
  | puts =>
    exact ⟨[.voice j true], w.announce j v true, run_cons hstep (run_nil _),
      hlast w v rfl hj hplace rfl⟩
  | start =>
    have hj' := World.getElem?_announce hj true
    have hputs : (v.next true w.house.buffer).pc = .puts := by
      simp only [VoiceSet.next, hplace, if_true]
    have hann : (v.next true w.house.buffer).announced = v.announced := by
      simp only [VoiceSet.next, hplace]
    have hstep' : (w.announce j v true).step ctrlPhead (.voice j true) =
        some ((w.announce j v true).announce j (v.next true w.house.buffer) true) :=
      World.step_voice hj' (by rw [hputs]; simp) true
    exact ⟨[.voice j true, .voice j true], _,
      run_cons hstep (run_cons hstep' (run_nil _)), hlast _ _ rfl hj' hputs hann⟩

/-- When the voice module hears what was announced: in every run that stores nothing
else in bytes that a `voice_set` thread has yet to send, and only there, since a
step that does can be continued to a thread that sends something else. -/
theorem heard_iff_unspoilt (ctrlPhead : List Control) (devs : List Gdevice)
    (queue : List Command) :
    (∀ w, (world ctrlPhead devs queue).ReachableWhere (Unspoilt ctrlPhead) w →
      Heard w) ∧
    (∀ w ℓ w',
      (world ctrlPhead devs queue).ReachableWhere (Unspoilt ctrlPhead) w →
      (world ctrlPhead devs queue).step w ℓ = some w' →
      ¬ Unspoilt ctrlPhead w ℓ →
      ∃ ls w'', (world ctrlPhead devs queue).run w' ls = some w'' ∧ ¬ Heard w'') := by
  constructor
  · intro w hw v hv
    exact (faithful_of_unspoilt hw v hv).1.2
  · intro w ℓ w' hw hstep hbad
    obtain ⟨v, hmem, hnot⟩ : ∃ v ∈ w.voices, ¬ w.StoresOnly ctrlPhead v.expects ℓ := by
      by_contra hall
      exact hbad fun v hv => by_contra fun hne => hall ⟨v, hv, hne⟩
    obtain ⟨j, hj⟩ := List.mem_iff_getElem?.mp hmem
    have hother : ∀ serial, ℓ ≠ .voice j serial := by
      intro serial heq
      rw [heq] at hnot
      exact hnot trivial
    exact not_heard_of_not_meets (World.voice_stays hstep hj hother)
      (World.not_meets_of_not_storesOnly hstep hnot)

/-- One alarm of the shipped configuration, and nothing else: the handler resets
its two bytes before `voice_set` sends them. -/
theorem not_heard_peripheral :
    ¬ ∀ w, (world [⟨ascii "voice", .voiceSet⟩] peripheral
      [⟨⟨0x45, 0x00⟩, 0⟩]).Reachable w → Heard w := by
  intro hall
  obtain ⟨w, hw, hsent⟩ := exists_reachable
    (world [⟨ascii "voice", .voiceSet⟩] peripheral [⟨⟨0x45, 0x00⟩, 0⟩])
    (.receive :: List.replicate 10 (.handler 0) ++ [.voice 0 true, .voice 0 true])
    (fun w => w.voices.any fun v =>
      v.announced == [0xAA, 0x55, 0x2D, 0x2D, 0x55, 0xAA] &&
        v.uart == some [0xAA, 0x55, 0x00, 0x00, 0x55, 0xAA]) (by decide +kernel)
  obtain ⟨v, hmem, hboth⟩ := List.any_eq_true.mp hsent
  simp only [Bool.and_eq_true, beq_iff_eq] at hboth
  have hheard := hall w hw v hmem _ hboth.2
  rw [hboth.1] at hheard
  exact absurd hheard (by decide)

end HomeControl
