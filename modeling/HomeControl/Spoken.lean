import HomeControl.Opening
import HomeControl.Display

/-!
# What the voice module is told

`handld_device` creates a `voice_set` thread for a device that asks for it, when the module
that it finds by the name `voice` has that routine.  The thread writes six bytes of the buffer
that all handlers share.

* `announced_signed` says that each such handler creates one thread, and no other handler
  creates any; and that the six bytes are those of a command, at the creation and when they
  are written, whatever the other handlers have stored in between.
-/

namespace HomeControl

open SharedMemory StepSystem SignedLog

variable {ctrlPhead : List Control} {devs : List Gdevice} {queue : List Command}

/-! ## The place of the creation -/

/-- The device asks for an announcement, and the module that is found makes it. -/
def Handler.Speaks (ctrlPhead : List Control) (devs : List Gdevice) (h : Handler) : Prop :=
  setsVoice devs h.curDev = true ∧ (voiceControl ctrlPhead).map (·.set) = some .voiceSet

/-- The handler is behind the call of `pthread_create`, or it has passed it by. -/
def Handler.pastCreate (h : Handler) : Bool :=
  match h.pc with
  | .announce .reset2 | .announce .reset3 | .oled => true
  | _ => h.displayed

/-- The handler has created its thread. -/
def Handler.Spoken (ctrlPhead : List Control) (devs : List Gdevice) (h : Handler) : Prop :=
  h.pastCreate = true ∧ h.Speaks ctrlPhead devs

theorem Handler.Speaks.of_eq {h h' : Handler} (hdev : h'.curDev = h.curDev) :
    h'.Speaks ctrlPhead devs ↔ h.Speaks ctrlPhead devs := by
  rw [Handler.Speaks, Handler.Speaks, hdev]

/-- A handler that is sent past the announcement does not speak. -/
theorem Handler.not_spoken_afterRet {s : House} (hcfg : SameConfig devs s.devs) {h : Handler}
    (hpc : h.pc = afterRet ctrlPhead s.devs h.curDev) : ¬ h.Spoken ctrlPhead devs := by
  rintro ⟨hpast, hvoice, hset⟩
  obtain ⟨c, hc, -⟩ := Option.map_eq_some_iff.mp hset
  have hannounces : setsVoice s.devs h.curDev = true ∧ (voiceControl ctrlPhead).isSome = true :=
    ⟨by rw [hcfg.setsVoice, hvoice], by rw [hc]; rfl⟩
  rw [afterRet, if_pos hannounces] at hpc
  simp [Handler.pastCreate, Handler.displayed, hpc] at hpast

/-- In the announcement, only the creation leads past itself. -/
theorem AnnouncePc.past_next (a : AnnouncePc) (set : Option SetRoutine) (buffer : Buffer)
    {h : Handler} (hpc : h.pc = .announce a) (hne : a ≠ .create) {h' : Handler}
    (hpc' : h'.pc = (a.next set buffer).1.elim Pc.oled .announce) :
    h'.pastCreate = h.pastCreate := by
  cases a with
  | create => exact absurd rfl hne
  | alarmKey | alarmStatus | openedKey | openedStatus | failedKey | failedStatus =>
    simp only [AnnouncePc.next, Option.elim_some] at hpc'
    split at hpc' <;> simp [Handler.pastCreate, Handler.displayed, hpc, hpc']
  | _ =>
    simp only [AnnouncePc.next, Option.elim_some, Option.elim_none] at hpc'
    simp [Handler.pastCreate, Handler.displayed, hpc, hpc']

/-- Only one place creates a thread. -/
theorem Handler.next_ne_pthreadCreate {s : House} {h : Handler}
    (hpc : h.pc ≠ .announce .create) (set : Option SetRoutine) :
    (h.next ctrlPhead s).2 ≠ .pthreadCreate set := by
  intro hact
  cases hplace : h.pc with
  | find =>
    cases hfind : findDeviceByKey s.devs (s.buffer 2).toNat <;>
      simp [Handler.next, hplace, hfind] at hact
  | mark =>
    simp only [Handler.next, hplace] at hact
    split at hact <;> cases hact
  | announce a =>
    cases a with
    | create => exact hpc hplace
    | _ => simp [Handler.next, hplace, AnnouncePc.next] at hact
  | _ => simp [Handler.next, hplace] at hact

theorem Handler.pastCreate_of_displayed {h : Handler} (hshown : h.displayed = true) :
    h.pastCreate = true := by
  unfold Handler.pastCreate
  split
  · rfl
  · rfl
  · rfl
  · exact hshown

/-- At the other places a step does not change whether the handler has spoken. -/
theorem Handler.spoken_next {s : House} (hcfg : SameConfig devs s.devs) {h : Handler}
    (hsound : h.Sound devs) (hdone : h.pc ≠ .done) (hpc : h.pc ≠ .announce .create) :
    (h.next ctrlPhead s).1.Spoken ctrlPhead devs ↔ h.Spoken ctrlPhead devs := by
  have hnot : ∀ {g : Handler}, g.pastCreate = false → ¬ g.Spoken ctrlPhead devs := by
    rintro g hg ⟨hpast, -⟩
    rw [hg] at hpast
    cases hpast
  have hkeep : h.pc ≠ .find → h.pc ≠ .assign →
      (h.next ctrlPhead s).1.pastCreate = h.pastCreate →
      ((h.next ctrlPhead s).1.Spoken ctrlPhead devs ↔ h.Spoken ctrlPhead devs) := by
    intro hfind hassign hpast
    have hdev := (h.next_records ctrlPhead s hfind hassign).2.2
    rw [Handler.Spoken, Handler.Spoken, hpast, Handler.Speaks.of_eq hdev]
  cases hplace : h.pc with
  | find =>
    have hbefore : h.pastCreate = false := by simp [Handler.pastCreate, Handler.displayed, hplace]
    refine iff_of_false (hnot ?_) (hnot hbefore)
    simp only [Handler.Sound, hplace] at hsound
    cases hfind : findDeviceByKey s.devs (s.buffer 2).toNat with
    | none =>
      rw [next_find_none hplace hfind]
      simp [Handler.pastCreate, Handler.displayed, hsound.2.1]
    | some curDev =>
      rw [next_find hplace hfind]
      rfl
  | assign =>
    have hbefore : h.pastCreate = false := by simp [Handler.pastCreate, Handler.displayed, hplace]
    refine iff_of_false (hnot ?_) (hnot hbefore)
    simp only [Handler.next, hplace]
    by_cases hface : checksFace s.devs h.curDev = true
    · rw [if_pos hface]
      rfl
    · rw [if_neg hface]
      rfl
  | parRetfunc =>
    refine hkeep (by simp [hplace]) (by simp [hplace]) ?_
    simp only [Handler.next, hplace, Handler.pastCreate, Handler.displayed]
  | mark =>
    have hbefore : h.pastCreate = false := by simp [Handler.pastCreate, Handler.displayed, hplace]
    refine iff_of_false ?_ (hnot hbefore)
    simp only [Handler.next, hplace]
    by_cases hscore : h.faceRet > 1 / 2
    · rw [if_pos hscore]
      exact hnot rfl
    · rw [if_neg hscore]
      exact Handler.not_spoken_afterRet hcfg rfl
  | setGpio =>
    have hbefore : h.pastCreate = false := by simp [Handler.pastCreate, Handler.displayed, hplace]
    refine iff_of_false ?_ (hnot hbefore)
    simp only [Handler.next, hplace]
    exact Handler.not_spoken_afterRet hcfg rfl
  | announce a =>
    refine hkeep (by simp [hplace]) (by simp [hplace]) ?_
    refine AnnouncePc.past_next a ((voiceControl ctrlPhead).map (·.set)) s.buffer hplace ?_ ?_
    · rintro rfl
      exact hpc hplace
    · simp only [Handler.next, hplace]
  | oled =>
    refine hkeep (by simp [hplace]) (by simp [hplace]) ?_
    have hbefore : h.pastCreate = true := by simp [Handler.pastCreate, hplace]
    rw [hbefore]
    exact Handler.pastCreate_of_displayed (Handler.next_oled hsound hplace).2.2.1
  | relockAssign =>
    refine hkeep (by simp [hplace]) (by simp [hplace]) ?_
    simp only [Handler.next, hplace, Handler.pastCreate, Handler.displayed]
  | relockSet =>
    refine hkeep (by simp [hplace]) (by simp [hplace]) ?_
    simp only [Handler.Sound, hplace] at hsound
    obtain ⟨⟨-, p, hp⟩, -⟩ := hsound
    simp only [Handler.next, hplace, Handler.pastCreate, Handler.displayed, hp, Option.isSome_some]
  | done => exact absurd hplace hdone

/-! ## The announcements of a run -/

theorem House.announced_apply (s : House) {a : Action} (h : a ≠ .pthreadCreate (some .voiceSet)) :
    (s.apply a).announced = s.announced := by
  cases a with
  | pthreadCreate set =>
    simp only [House.apply]
    split
    · exact absurd (congrArg _ ‹_›) h
    · rfl
  | _ => rfl

/-- When a handler has been started, the marks of a command are in the buffer. -/
theorem validData_of_reachable {w : World} (hw : (world ctrlPhead devs queue).Reachable w)
    (hne : w.handlers ≠ []) : validData w.house.buffer = true := by
  refine hw.invariant (fun w => w.handlers ≠ [] → validData w.house.buffer = true)
    (fun h => absurd rfl h) ?_ hne
  intro w ℓ w' hinv _ hstep hne
  rcases World.step_cases hstep with
    ⟨c, rest, rfl, -, rfl⟩ | ⟨i, h, rfl, hh, -, rfl⟩ | ⟨j, v, serial, rfl, -, -, rfl⟩
  · exact validData_memcpy_bytes _ _
  · have hvalid := hinv (List.ne_nil_of_mem (List.mem_of_getElem? hh))
    have hmark : ∀ i, i ≠ 2 → i ≠ 3 →
        (w.house.apply (h.next ctrlPhead w.house).2).buffer i = w.house.buffer i := by
      intro i h2 h3
      rcases h.buffer_next ctrlPhead w.house i with hsame | ⟨hat, -⟩
      · exact hsame
      · exact absurd hat (by omega)
    obtain ⟨h0, h1, h4, h5⟩ := validData_iff.mp hvalid
    refine validData_iff.mpr ⟨?_, ?_, ?_, ?_⟩
    · exact (hmark 0 (by decide) (by decide)).trans h0
    · exact (hmark 1 (by decide) (by decide)).trans h1
    · exact (hmark 4 (by decide) (by decide)).trans h4
    · exact (hmark 5 (by decide) (by decide)).trans h5
  · exact hinv hne

/-- The creation of the thread. -/
theorem Handler.next_create {s : House} {h : Handler} (hpc : h.pc = .announce .create) :
    (h.next ctrlPhead s).2 = .pthreadCreate ((voiceControl ctrlPhead).map (·.set)) ∧
      h.pastCreate = false ∧ (h.next ctrlPhead s).1.pastCreate = true ∧
      (h.next ctrlPhead s).1.curDev = h.curDev := by
  simp [Handler.next, Handler.pastCreate, Handler.displayed, AnnouncePc.next, hpc]

/-- There is one announcement from each handler that speaks, and it is a command. -/
theorem log_of_announced {w : World} (hw : (world ctrlPhead devs queue).Reachable w) :
    Signed (w.Has (Handler.Spoken ctrlPhead devs)) (fun _ m => ∃ f : Frame, m = f.bytes)
      w.house.announced := by
  refine (@signed_of_reachable ctrlPhead devs queue _ House.announced
    (Handler.Spoken ctrlPhead devs) (fun _ m => ∃ f : Frame, m = f.bytes) rfl ?_
    (fun _ _ => rfl) ?_ w hw).keep (fun _ => Iff.rfl) fun i m _ ⟨_, _, hm⟩ => hm
  · rintro c ⟨hpast, -⟩
    cases hpast
  · intro w k h hw hh hdone
    refine ⟨fun m _ hm => hm, ?_⟩
    by_cases hpc : h.pc = .announce .create
    · obtain ⟨hact, hbefore, hafter, hdev⟩ := @Handler.next_create ctrlPhead w.house h hpc
      have hnew : ¬ h.Spoken ctrlPhead devs := by
        rintro ⟨hpast, -⟩
        rw [hbefore] at hpast
        cases hpast
      have hjudged := judged_of_reachable hw hh
      simp only [Handler.Judged, hpc] at hjudged
      by_cases hset : (voiceControl ctrlPhead).map (·.set) = some .voiceSet
      · have hvalid := validData_of_reachable hw (List.ne_nil_of_mem (List.mem_of_getElem? hh))
        refine .inr ⟨firstCells w.house.buffer 6, ?_, hnew,
          ⟨hafter, (Handler.Speaks.of_eq hdev).mpr ⟨hjudged.2.1, hset⟩⟩,
          ⟨_, firstCells_of_validData hvalid⟩⟩
        rw [hact, hset]
        rfl
      · have hsilent : ¬ (h.next ctrlPhead w.house).1.Spoken ctrlPhead devs :=
          fun hspoken => hset hspoken.2.2
        refine .inl ⟨House.announced_apply _ ?_, iff_of_false hsilent hnew⟩
        rw [hact]
        exact fun heq => hset (Action.pthreadCreate.inj heq)
    · refine .inl ⟨House.announced_apply _ (Handler.next_ne_pthreadCreate hpc _), ?_⟩
      exact Handler.spoken_next (sameConfig_of_reachable hw) (sound_of_reachable hw hh) hdone hpc

/-- The voice threads are those of the announcements, in order. -/
theorem voices_of_reachable {w : World} (hw : (world ctrlPhead devs queue).Reachable w) :
    w.voices.map (·.announced) = w.house.announced.reverse := by
  refine hw.invariant (fun w => w.voices.map (·.announced) = w.house.announced.reverse) rfl ?_
  intro w ℓ w' hinv _ hstep
  rcases World.step_cases hstep with
    ⟨c, rest, rfl, -, rfl⟩ | ⟨i, h, rfl, hh, -, rfl⟩ | ⟨j, v, serial, rfl, hv, -, rfl⟩
  · exact hinv
  · show (w.voices ++ (h.next ctrlPhead w.house).2.voiceThread w.house).map _ =
      (w.house.apply (h.next ctrlPhead w.house).2).announced.reverse
    rw [List.map_append, hinv]
    by_cases hact : (h.next ctrlPhead w.house).2 = .pthreadCreate (some .voiceSet)
    · rw [hact]
      show _ = (firstCells w.house.buffer 6 :: w.house.announced).reverse
      rw [List.reverse_cons]
      rfl
    · rw [House.announced_apply _ hact]
      have hnone : (h.next ctrlPhead w.house).2.voiceThread w.house = [] := by
        unfold Action.voiceThread
        split
        · exact absurd ‹_› hact
        · rfl
      rw [hnone, List.map_nil, List.append_nil]
  · have hsame : (v.next serial w.house.buffer).announced = v.announced := by
      unfold VoiceSet.next
      split <;> rfl
    show (w.voices.set j (v.next serial w.house.buffer)).map _ = w.house.announced.reverse
    rw [← hinv, List.map_set, hsame]
    refine List.ext_getElem? fun k => ?_
    by_cases hjk : j = k
    · subst hjk
      have hlt := (List.getElem?_eq_some_iff.mp hv).1
      rw [List.getElem?_set_self (by rwa [List.length_map]), List.getElem?_map, hv, Option.map_some]
    · rw [List.getElem?_set_ne hjk]

/-- The marks of a command are in the buffer while a voice thread runs. -/
theorem validData_of_voice {w : World} (hw : (world ctrlPhead devs queue).Reachable w)
    {v : VoiceSet} (hv : v ∈ w.voices) : validData w.house.buffer = true := by
  have hmem : v.announced ∈ w.house.announced := by
    rw [← List.mem_reverse, ← voices_of_reachable hw]
    exact List.mem_map_of_mem hv
  obtain ⟨i, ⟨h, hh, -⟩, -⟩ := (log_of_announced hw).exists_writer hmem
  exact validData_of_reachable hw (List.ne_nil_of_mem (List.mem_of_getElem? hh))

/-- A voice thread writes a command. -/
theorem uart_of_reachable {w : World} (hw : (world ctrlPhead devs queue).Reachable w)
    {v : VoiceSet} (hv : v ∈ w.voices) {m : Msg} (hm : v.uart = some m) :
    ∃ f : Frame, m = f.bytes := by
  refine hw.invariant' (fun w => ∀ v ∈ w.voices, ∀ m, v.uart = some m → ∃ f : Frame, m = f.bytes)
    (fun v hv => by cases hv) ?_ v hv m hm
  intro w ℓ w' hw hinv _ hstep v' hv' m hm
  rcases World.voice_cases hstep hv' with
    hold | ⟨i, h, -, -, -, -, rfl⟩ | ⟨j, v, serial, -, hv, hpc, -, rfl⟩
  · exact hinv v' hold m hm
  · cases hm
  · cases hplace : v.pc with
    | start =>
      simp only [VoiceSet.next, hplace] at hm
      exact hinv v hv m hm
    | puts =>
      simp only [VoiceSet.next, hplace] at hm
      rw [← Option.some.inj hm]
      exact ⟨_, firstCells_of_validData (validData_of_voice hw hv)⟩
    | exited => exact absurd hplace hpc

/-- For every configuration and every module list, and in every run of the whole program,
whatever the order of its threads: each handler whose device asks for an announcement creates
one voice thread, and the others none; the threads are those of the announcements, in order;
and the six bytes that were in the buffer when a thread was created, as well as those that it
wrote, are a command. -/
theorem announced_signed (ctrlPhead : List Control) (devs : List Gdevice) (s : Home)
    (hs : (home ctrlPhead devs).Reachable s) :
    Signed (s.world.Has (Handler.Spoken ctrlPhead devs)) (fun _ m => ∃ f : Frame, m = f.bytes)
      s.world.house.announced ∧
    s.world.voices.map (·.announced) = s.world.house.announced.reverse ∧
    ∀ v ∈ s.world.voices, ∀ m, v.uart = some m → ∃ f : Frame, m = f.bytes := by
  have hw := world_of_home hs
  exact ⟨log_of_announced hw, voices_of_reachable hw, fun v hv m hm => uart_of_reachable hw hv hm⟩

/-- The announcement of one alarm, which was rewritten before. -/
theorem announced_signed_alarm :
    ∃ s, (home shippedControls peripheral).Reachable s ∧
      s.world.house.announced = [(Frame.mk 0x2D 0x2D).bytes] ∧
      Signed (s.world.Has (Handler.Spoken shippedControls peripheral))
        (fun _ m => ∃ f : Frame, m = f.bytes) s.world.house.announced ∧
      s.world.voices.map (·.announced) = s.world.house.announced.reverse ∧
      ∀ v ∈ s.world.voices, ∀ m, v.uart = some m → ∃ f : Frame, m = f.bytes := by
  obtain ⟨s, hs, hannounced⟩ := exists_reachable (home shippedControls peripheral)
    [.thread (.smokeRead LOW), .thread (.smokeSend true), .thread .mqReceive, .dispatch 0,
      .handler 0, .handler 0, .handler 0, .handler 0, .handler 0, .handler 0, .handler 0,
      .handler 0]
    (fun s => s.world.house.announced == [(Frame.mk 0x2D 0x2D).bytes]) (by decide +kernel)
  exact ⟨s, hs, beq_iff_eq.mp hannounced, announced_signed shippedControls peripheral s hs⟩

end HomeControl
