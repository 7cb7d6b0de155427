import HomeControl.Lib.SignedLog
import HomeControl.IniFile
import HomeControl.Requested

/-!
# What the display is told

Near its end `handld_device` shows a line on the display.  Other handlers run before it gets
there, and they overwrite the buffer and `gpio_status`.

* `signed_of_reachable` is the rule for a log to which each handler writes at most once.
* `display_signed` says that every handler that has found a device shows one line, with the
  name of that device and its own outcome, whatever the others do; only the word for the level
  can be that of another command, and the danger line takes a command for the alarm.
* `oled_fits` carries it to the configuration file: `oled_msg` is never overrun.
-/

namespace HomeControl

open SharedMemory StepSystem SignedLog

variable {ctrlPhead : List Control} {devs : List Gdevice} {queue : List Command}

/-! ## Logs of the handlers -/

/-- A handler of the world with the property has the index. -/
def World.Has (w : World) (p : Handler → Prop) (i : Nat) : Prop :=
  ∃ h, w.handlers[i]? = some h ∧ p h

theorem World.has_iff {w : World} {p : Handler → Prop} {i : Nat} {h : Handler}
    (hh : w.handlers[i]? = some h) : w.Has p i ↔ p h := by
  constructor
  · rintro ⟨g, hg, hp⟩
    obtain rfl := Option.some.inj (hh.symm.trans hg)
    exact hp
  · exact fun hp => ⟨h, hh, hp⟩

/-- A new handler that has not the property changes nothing. -/
theorem World.has_dispatch {w : World} {p : Handler → Prop} {c : Command} {rest : List Command}
    (hspawn : ¬ p (.spawn c)) (i : Nat) : (w.dispatch c rest).Has p i ↔ w.Has p i := by
  constructor
  · rintro ⟨h, hh, hp⟩
    rcases getElem?_concat_cases hh with hold | ⟨-, rfl⟩
    · exact ⟨h, hold, hp⟩
    · exact absurd hp hspawn
  · rintro ⟨h, hh, hp⟩
    have hlt : i < w.handlers.length := (List.getElem?_eq_some_iff.mp hh).1
    exact ⟨h, (List.getElem?_append_left hlt).trans hh, hp⟩

/-- A step of the handler `k` leaves the others alone. -/
theorem World.has_advance {w : World} {p : Handler → Prop} {k i : Nat} {h : Handler}
    (hne : i ≠ k) : (w.advance ctrlPhead k h).Has p i ↔ w.Has p i := by
  rw [World.Has, World.advance, List.getElem?_set_ne (Ne.symm hne)]
  exact Iff.rfl

/-- What a step of a handler may do to a log: nothing, or it writes its one entry. -/
structure WritesOnce {α : Type} (log : House → List α) (wrote : Handler → Prop)
    (entry : Handler → α → Prop) (s s' : House) (h h' : Handler) : Prop where
  stays : ∀ a, wrote h → entry h a → entry h' a
  step : (log s' = log s ∧ (wrote h' ↔ wrote h)) ∨
    ∃ a, log s' = a :: log s ∧ ¬ wrote h ∧ wrote h' ∧ entry h' a

/-- When each handler writes at most once, the log has one entry from each that has
written. -/
theorem signed_of_reachable {α : Type} {log : House → List α} {wrote : Handler → Prop}
    {entry : Handler → α → Prop} (hstart : log (.initial devs) = [])
    (hspawn : ∀ c, ¬ wrote (.spawn c)) (hreceive : ∀ s m, log (s.receive m) = log s)
    (hnext : ∀ (w : World) (k : Nat) (h : Handler),
      (world ctrlPhead devs queue).Reachable w → w.handlers[k]? = some h →
      h.pc ≠ .done → WritesOnce log wrote entry w.house
        (w.house.apply (h.next ctrlPhead w.house).2) h (h.next ctrlPhead w.house).1)
    {w : World} (hw : (world ctrlPhead devs queue).Reachable w) :
    Signed (w.Has wrote) (fun i a => w.Has (entry · a) i) (log w.house) := by
  refine hw.invariant' (fun w =>
    Signed (w.Has wrote) (fun i a => w.Has (entry · a) i) (log w.house)) ?_ ?_
  · have hnil : log (world ctrlPhead devs queue).start.house = [] := hstart
    rw [hnil]
    exact signed_nil fun i ⟨h, hh, _⟩ => by cases hh
  · intro w ℓ w' hw hinv _ hstep
    rcases World.step_cases hstep with
      ⟨c, rest, rfl, -, rfl⟩ | ⟨k, h, rfl, hh, hpc, rfl⟩ | ⟨j, v, serial, rfl, -, -, rfl⟩
    · have hlog : log (w.dispatch c rest).house = log w.house := hreceive _ _
      rw [hlog]
      refine hinv.keep (World.has_dispatch (hspawn c)) fun i a _ ⟨h, hh, ha⟩ => ?_
      have hlt : i < w.handlers.length := (List.getElem?_eq_some_iff.mp hh).1
      exact ⟨h, (List.getElem?_append_left hlt).trans hh, ha⟩
    · have honce := hnext w k h hw hh hpc
      have hat := World.getElem?_advance ctrlPhead hh
      have hentry : ∀ i a, w.Has wrote i → w.Has (entry · a) i →
          (w.advance ctrlPhead k h).Has (entry · a) i := by
        intro i a hwrote ha
        by_cases hik : i = k
        · subst hik
          rw [World.has_iff hh] at hwrote ha
          exact (World.has_iff hat).mpr (honce.stays a hwrote ha)
        · exact (World.has_advance hik).mpr ha
      rcases honce.step with ⟨hlog, hwrote⟩ | ⟨a, hlog, hnew, hwrote, ha⟩
      · show Signed _ _ (log (w.house.apply _))
        rw [hlog]
        refine hinv.keep (fun i => ?_) hentry
        by_cases hik : i = k
        · subst hik
          rw [World.has_iff hat, World.has_iff hh, hwrote]
        · exact World.has_advance hik
      · show Signed _ _ (log (w.house.apply _))
        rw [hlog]
        refine hinv.write (i := k) (fun h' => hnew ((World.has_iff hh).mp h')) (fun i => ?_) hentry
          ((World.has_iff hat).mpr ha)
        by_cases hik : i = k
        · subst hik
          exact ⟨fun _ => .inl rfl, fun _ => (World.has_iff hat).mpr hwrote⟩
        · rw [World.has_advance hik, or_iff_right hik]
    · exact hinv

/-! ## The outcome of a handler -/

/-- What `ret` comes to: -1 when the device checks the face and the score does not
suffice. -/
def Handler.outcome (devs : List Gdevice) (h : Handler) : Int :=
  if checksFace devs h.curDev = true ∧ ¬ h.cmd.score > 1 / 2 then -1 else 0

theorem SameConfig.setsVoice {devs devs' : List Gdevice} (h : SameConfig devs devs') (i : Nat) :
    setsVoice devs' i = setsVoice devs i := by
  unfold HomeControl.setsVoice
  rcases hd : devs[i]? with _ | d
  · rcases hd' : devs'[i]? with _ | d'
    · rfl
    · obtain ⟨v, hv⟩ := h.symm.getElem? hd'
      rw [hd] at hv
      cases hv
  · obtain ⟨v, hv⟩ := h.getElem? hd
    rw [hv]
    rfl

/-- The announcement is made for a device that asks for it. -/
def Handler.Announces (ctrlPhead : List Control) (devs : List Gdevice) (h : Handler) : Prop :=
  setsVoice devs h.curDev = true ∧ (voiceControl ctrlPhead).isSome = true

/-- Behind the decision, `ret` is the outcome, and only such a device has come to the
announcement. -/
def Handler.Judged (ctrlPhead : List Control) (devs : List Gdevice) (h : Handler) : Prop :=
  match h.pc with
  | .announce _ => h.ret = h.outcome devs ∧ h.Announces ctrlPhead devs
  | .oled | .relockAssign | .relockSet => h.ret = h.outcome devs
  | _ => True

theorem Handler.judged_afterRet {s : House} (hcfg : SameConfig devs s.devs) {h : Handler}
    (hpc : h.pc = afterRet ctrlPhead s.devs h.curDev) (hret : h.ret = h.outcome devs) :
    h.Judged ctrlPhead devs := by
  unfold afterRet at hpc
  rw [hcfg.setsVoice] at hpc
  unfold Handler.Judged
  by_cases hvoice : setsVoice devs h.curDev = true ∧ (voiceControl ctrlPhead).isSome = true
  · rw [if_pos hvoice] at hpc
    rw [hpc]
    exact ⟨hret, hvoice⟩
  · rw [if_neg hvoice] at hpc
    rw [hpc]
    exact hret

/-- One case for each place. -/
theorem Handler.judged_next {s : House} (hcfg : SameConfig devs s.devs) {h : Handler}
    (hsound : h.Sound devs) (hjudged : h.Judged ctrlPhead devs) :
    (h.next ctrlPhead s).1.Judged ctrlPhead devs := by
  cases hpc : h.pc with
  | find =>
    cases hfind : findDeviceByKey s.devs (s.buffer 2).toNat with
    | none =>
      rw [next_find_none hpc hfind]
      exact trivial
    | some curDev =>
      rw [next_find hpc hfind]
      exact trivial
  | assign =>
    simp only [Handler.next, hpc]
    by_cases hface : checksFace s.devs h.curDev = true
    · rw [if_pos hface]
      exact trivial
    · rw [if_neg hface]
      exact trivial
  | parRetfunc =>
    simp only [Handler.next, hpc]
    exact trivial
  | mark =>
    simp only [Handler.Sound, hpc] at hsound
    obtain ⟨-, hface, hscored⟩ := hsound
    simp only [Handler.next, hpc]
    by_cases hscore : h.faceRet > 1 / 2
    · rw [if_pos hscore]
      exact trivial
    · rw [if_neg hscore]
      refine Handler.judged_afterRet hcfg rfl ?_
      rw [hscored] at hscore
      exact (if_pos ⟨hface, hscore⟩).symm
  | setGpio =>
    simp only [Handler.Sound, hpc] at hsound
    obtain ⟨⟨⟨k, -, hfind⟩, -⟩, hgranted⟩ := hsound
    obtain ⟨d, hd, -⟩ := findDeviceByKey_eq_some_iff.mp hfind
    obtain ⟨v, hv⟩ := hcfg.getElem? hd
    simp only [Handler.next, hpc]
    refine Handler.judged_afterRet hcfg rfl ?_
    show (setGpioGdeviceStatus s.devs[h.curDev]?).2 = h.outcome devs
    rw [hv, setGpioGdeviceStatus_ret]
    exact (if_neg fun hdenied => hdenied.2 (hgranted hdenied.1).2).symm
  | announce a =>
    simp only [Handler.Judged, hpc] at hjudged
    simp only [Handler.next, hpc, Handler.Judged]
    rcases a.next_cases ((voiceControl ctrlPhead).map (·.set)) s.buffer with holed | ⟨a', ha'⟩
    · rw [holed]
      exact hjudged.1
    · rw [ha']
      exact hjudged
  | oled =>
    simp only [Handler.Judged, hpc] at hjudged
    simp only [Handler.next, hpc]
    split
    · exact hjudged
    · exact trivial
  | relockAssign =>
    simp only [Handler.Judged, hpc] at hjudged
    simp only [Handler.next, hpc]
    exact hjudged
  | relockSet =>
    simp only [Handler.next, hpc]
    exact trivial
  | done =>
    simp only [Handler.next, hpc]
    exact hjudged

theorem judged_of_reachable {w : World} (hw : (world ctrlPhead devs queue).Reachable w) {k : Nat}
    {h : Handler} (hk : w.handlers[k]? = some h) : h.Judged ctrlPhead devs := by
  refine hw.invariant'
    (fun w => ∀ (k : Nat) (h : Handler), w.handlers[k]? = some h → h.Judged ctrlPhead devs)
    ?_ ?_ k h hk
  · intro k h hk
    cases hk
  · intro w ℓ w' hw hinv _ hstep k h' hk'
    rcases World.handler_cases hstep hk' with
      ⟨hold, -⟩ | ⟨c, rest, -, -, -, -, rfl⟩ | ⟨h, -, hh, -, -, rfl⟩
    · exact hinv k h' hold
    · exact trivial
    · exact Handler.judged_next (sameConfig_of_reachable hw) (sound_of_reachable hw hh)
        (hinv k h hh)

/-! ## The line of a handler -/

/-- The handler has shown its line. -/
def Handler.displayed (h : Handler) : Bool :=
  match h.pc with
  | .relockAssign | .relockSet => true
  | .done => h.payload.isSome
  | _ => false

/-- The line that a handler shows: the name of its device and its own outcome, with the level
that is recorded at that moment. -/
def Handler.Shows (devs : List Gdevice) (h : Handler) (line : CString) : Prop :=
  ∃ d status, devs[h.curDev]? = some d ∧
    line = oledMsg (some { d with gpioStatus := status }) h.oledFlag (h.outcome devs)

theorem House.oled_apply (s : House) {a : Action} (h : ∀ line, a ≠ .oledShow line) :
    (s.apply a).oled = s.oled := by
  cases a with
  | oledShow line => exact absurd rfl (h line)
  | pthreadCreate set =>
    simp only [House.apply]
    split <;> rfl
  | _ => rfl

/-- Only one place shows a line. -/
theorem Handler.next_ne_oledShow {s : House} {h : Handler} (hpc : h.pc ≠ .oled) (line : CString) :
    (h.next ctrlPhead s).2 ≠ .oledShow line := by
  intro hact
  cases hplace : h.pc with
  | find =>
    cases hfind : findDeviceByKey s.devs (s.buffer 2).toNat <;>
      simp [Handler.next, hplace, hfind] at hact
  | mark =>
    simp only [Handler.next, hplace] at hact
    split at hact <;> cases hact
  | announce a => cases a <;> simp [Handler.next, hplace, AnnouncePc.next] at hact
  | oled => exact hpc hplace
  | _ => simp [Handler.next, hplace] at hact

/-- Whether a line has been shown is seen from the place, unless the handler has ended. -/
theorem Handler.displayed_eq_false {h : Handler} (hpc : h.pc ≠ .relockAssign ∧ h.pc ≠ .relockSet)
    (hdone : h.pc = .done → h.payload = none) : h.displayed = false := by
  unfold Handler.displayed
  split
  · exact absurd ‹_› hpc.1
  · exact absurd ‹_› hpc.2
  · rw [hdone ‹_›]
    rfl
  · rfl

/-- At the other places a step does not change whether the handler has shown its line. -/
theorem Handler.displayed_next {s : House} {h : Handler} (hsound : h.Sound devs)
    (hpc : h.pc ≠ .oled) (hdone : h.pc ≠ .done) :
    (h.next ctrlPhead s).1.displayed = h.displayed := by
  have hafter : ∀ (g : Handler) (devs' : List Gdevice) (curDev : Nat),
      g.pc = afterRet ctrlPhead devs' curDev → g.displayed = false := by
    intro g devs' curDev hg
    rcases afterRet_cases ctrlPhead devs' curDev with hto | hto
    · rw [hto] at hg
      exact displayed_eq_false (by simp [hg]) (by simp [hg])
    · rw [hto] at hg
      exact displayed_eq_false (by simp [hg]) (by simp [hg])
  cases hplace : h.pc with
  | relockAssign => simp only [Handler.next, hplace, Handler.displayed]
  | relockSet =>
    simp only [Handler.Sound, hplace] at hsound
    obtain ⟨⟨-, p, hp⟩, -⟩ := hsound
    simp only [Handler.next, hplace, Handler.displayed, hp, Option.isSome_some]
  | oled => exact absurd hplace hpc
  | done => exact absurd hplace hdone
  | find =>
    simp only [Handler.Sound, hplace] at hsound
    rw [h.displayed_eq_false (by simp [hplace]) (by simp [hplace])]
    cases hfind : findDeviceByKey s.devs (s.buffer 2).toNat with
    | none =>
      rw [next_find_none hplace hfind]
      exact displayed_eq_false (by simp) fun _ => hsound.2.1
    | some curDev =>
      rw [next_find hplace hfind]
      exact displayed_eq_false (by simp) (by simp)
  | assign =>
    rw [h.displayed_eq_false (by simp [hplace]) (by simp [hplace])]
    simp only [Handler.next, hplace]
    by_cases hface : checksFace s.devs h.curDev = true
    · rw [if_pos hface]
      rfl
    · rw [if_neg hface]
      rfl
  | parRetfunc => simp only [Handler.next, hplace, Handler.displayed]
  | mark =>
    rw [h.displayed_eq_false (by simp [hplace]) (by simp [hplace])]
    simp only [Handler.next, hplace]
    by_cases hscore : h.faceRet > 1 / 2
    · rw [if_pos hscore]
      rfl
    · rw [if_neg hscore]
      exact hafter _ _ _ rfl
  | setGpio =>
    rw [h.displayed_eq_false (by simp [hplace]) (by simp [hplace])]
    simp only [Handler.next, hplace]
    exact hafter _ _ _ rfl
  | announce a =>
    rw [h.displayed_eq_false (by simp [hplace]) (by simp [hplace])]
    simp only [Handler.next, hplace]
    rcases a.next_cases ((voiceControl ctrlPhead).map (·.set)) s.buffer with hto | ⟨a', hto⟩
    · rw [hto]
      rfl
    · rw [hto]
      rfl

/-- The step that shows the line. -/
theorem Handler.next_oled {s : House} {h : Handler} (hsound : h.Sound devs) (hpc : h.pc = .oled) :
    (h.next ctrlPhead s).2 = .oledShow (oledMsg s.devs[h.curDev]? h.oledFlag h.ret) ∧
      h.displayed = false ∧ (h.next ctrlPhead s).1.displayed = true ∧
      (h.next ctrlPhead s).1.oledFlag = h.oledFlag := by
  simp only [Handler.Sound, hpc] at hsound
  obtain ⟨⟨-, p, hp⟩, -⟩ := hsound
  refine ⟨by simp only [Handler.next, hpc], h.displayed_eq_false (by simp [hpc]) (by simp [hpc]),
    ?_, by simp only [Handler.next, hpc]⟩
  simp only [Handler.next, hpc]
  by_cases hrelock : checksFace s.devs h.curDev ∧ h.ret = 0 ∧ h.faceRet > 1 / 2
  · rw [if_pos hrelock]
    rfl
  · rw [if_neg hrelock]
    exact congrArg Option.isSome hp

/-- A handler that has shown its line keeps the flag with which it did. -/
theorem Handler.oledFlag_next {s : House} {h : Handler} (hshown : h.displayed = true) :
    (h.next ctrlPhead s).1.oledFlag = h.oledFlag := by
  cases hpc : h.pc with
  | relockAssign => simp only [Handler.next, hpc]
  | relockSet => simp only [Handler.next, hpc]
  | done => simp only [Handler.next, hpc]
  | _ => simp [Handler.displayed, hpc] at hshown

/-- A handler that has found its device keeps its outcome. -/
theorem Handler.outcome_next {s : House} {h : Handler} (hfind : h.pc ≠ .find)
    (hassign : h.pc ≠ .assign) :
    (h.next ctrlPhead s).1.curDev = h.curDev ∧
      (h.next ctrlPhead s).1.outcome devs = h.outcome devs := by
  have hdev := (h.next_records ctrlPhead s hfind hassign).2.2
  refine ⟨hdev, ?_⟩
  rw [Handler.outcome, Handler.outcome, hdev, Handler.next_cmd]

theorem Handler.shows_next {s : House} {h : Handler} {line : CString}
    (hfind : h.pc ≠ .find) (hassign : h.pc ≠ .assign)
    (hflag : (h.next ctrlPhead s).1.oledFlag = h.oledFlag) (hline : h.Shows devs line) :
    (h.next ctrlPhead s).1.Shows devs line := by
  obtain ⟨hdev, houtcome⟩ := @Handler.outcome_next ctrlPhead devs s h hfind hassign
  obtain ⟨d, status, hd, rfl⟩ := hline
  refine ⟨d, status, by rw [hdev, hd], ?_⟩
  rw [hflag, houtcome]

/-- The display has one line from each handler that has come to it. -/
theorem oled_signed {w : World} (hw : (world ctrlPhead devs queue).Reachable w) :
    Signed (w.Has (·.displayed = true)) (fun i line => w.Has (Handler.Shows devs · line) i)
      w.house.oled := by
  refine @signed_of_reachable ctrlPhead devs queue _ House.oled (·.displayed = true)
    (Handler.Shows devs) rfl (fun c => Bool.false_ne_true) (fun _ _ => rfl) ?_ w hw
  intro w k h hw hh hdone
  have hsound := sound_of_reachable hw hh
  have hcfg := sameConfig_of_reachable hw
  refine ⟨fun line hshown hline => ?_, ?_⟩
  · have hplace : h.pc ≠ .find ∧ h.pc ≠ .assign := by
      constructor <;> intro hpc <;> simp [Handler.displayed, hpc] at hshown
    exact Handler.shows_next hplace.1 hplace.2 (Handler.oledFlag_next hshown) hline
  · by_cases hpc : h.pc = .oled
    · have hjudged := judged_of_reachable hw hh
      simp only [Handler.Judged, hpc] at hjudged
      obtain ⟨hact, hbefore, hafter, hflag⟩ :=
        @Handler.next_oled ctrlPhead devs w.house h hsound hpc
      simp only [Handler.Sound, hpc] at hsound
      obtain ⟨⟨⟨_, -, hfind⟩, -⟩, -⟩ := hsound
      obtain ⟨d, hd, -⟩ := findDeviceByKey_eq_some_iff.mp hfind
      obtain ⟨v, hv⟩ := hcfg.getElem? hd
      refine .inr ⟨_, by rw [hact]; rfl, by simp [hbefore], hafter, ?_⟩
      exact Handler.shows_next (by simp [hpc]) (by simp [hpc]) hflag
        ⟨d, v, hd, by rw [hv, hjudged]⟩
    · refine .inl ⟨House.oled_apply _ (Handler.next_ne_oledShow hpc), ?_⟩
      rw [Handler.displayed_next hsound hpc hdone]

/-! ## The danger line -/

/-- The handler has read the key of the alarm in the buffer, and may show the danger line. -/
def Handler.Alert (h : Handler) : Prop :=
  h.oledFlag ≠ 0 ∨ h.pc = .announce .alarmStatus ∨ h.pc = .announce .alarm2

/-- The announcement goes to the alarm only by the key in the buffer. -/
theorem AnnouncePc.alert_next {a : AnnouncePc} {set : Option SetRoutine} {buffer : Buffer}
    (h : (a.next set buffer).1 = some .alarmStatus ∨ (a.next set buffer).1 = some .alarm2) :
    buffer 2 = 0x45 ∨ a = .alarmStatus := by
  cases a with
  | alarmKey =>
    by_cases hkey : buffer 2 = 0x45
    · exact .inl hkey
    · simp [AnnouncePc.next, hkey] at h
  | alarmStatus => exact .inr rfl
  | openedKey | openedStatus | failedKey | failedStatus =>
    simp only [AnnouncePc.next] at h
    split at h <;> simp at h
  | _ => simp [AnnouncePc.next] at h

/-- A handler becomes alert only by the key in the buffer. -/
theorem Handler.alert_next {s : House} {h : Handler} (halert : (h.next ctrlPhead s).1.Alert) :
    h.Alert ∨ s.buffer 2 = 0x45 := by
  -- Except in the announcement the flag stays, and no step leads into its middle.
  have hquiet : ∀ g : Handler, g.Alert → g.oledFlag = h.oledFlag →
      (∀ a, g.pc = .announce a → a = .alarmKey) → h.Alert ∨ s.buffer 2 = 0x45 := by
    rintro g (hflag | hplace | hplace) hsame hentry
    · exact .inl (.inl (hsame ▸ hflag))
    · cases hentry _ hplace
    · cases hentry _ hplace
  have hafter : ∀ a, afterRet ctrlPhead s.devs h.curDev = .announce a → a = .alarmKey := by
    intro a ha
    rcases afterRet_cases ctrlPhead s.devs h.curDev with hto | hto
    · exact (Pc.announce.inj (hto.symm.trans ha)).symm
    · cases hto.symm.trans ha
  cases hpc : h.pc with
  | find =>
    cases hfind : findDeviceByKey s.devs (s.buffer 2).toNat with
    | none =>
      rw [next_find_none hpc hfind] at halert
      exact hquiet _ halert rfl (by simp)
    | some curDev =>
      rw [next_find hpc hfind] at halert
      exact hquiet _ halert rfl (by simp)
  | assign =>
    simp only [Handler.next, hpc] at halert
    refine hquiet _ halert rfl fun a ha => ?_
    dsimp only at ha
    split at ha <;> cases ha
  | mark =>
    simp only [Handler.next, hpc] at halert
    split at halert
    · exact hquiet _ halert rfl (by simp)
    · exact hquiet _ halert rfl hafter
  | setGpio =>
    simp only [Handler.next, hpc] at halert
    exact hquiet _ halert rfl hafter
  | announce a =>
    simp only [Handler.next, hpc] at halert
    have hgoes : ∀ b, (a.next ((voiceControl ctrlPhead).map (·.set)) s.buffer).1.elim Pc.oled
        .announce = .announce b → (a.next ((voiceControl ctrlPhead).map (·.set)) s.buffer).1 =
          some b := by
      intro b hb
      cases hnext : (a.next ((voiceControl ctrlPhead).map (·.set)) s.buffer).1 with
      | none =>
        rw [hnext] at hb
        cases hb
      | some a' =>
        rw [hnext] at hb
        exact congrArg some (Pc.announce.inj hb)
    have hstay : a = .alarmStatus ∨ a = .alarm2 → h.Alert := by
      rintro (rfl | rfl)
      · exact .inr (.inl hpc)
      · exact .inr (.inr hpc)
    rcases halert with hflag | hplace | hplace
    · by_cases ha : a = .alarm2
      · exact .inl (hstay (.inr ha))
      · dsimp only at hflag
        rw [if_neg ha] at hflag
        exact .inl (.inl hflag)
    · rcases AnnouncePc.alert_next (.inl (hgoes _ hplace)) with hkey | ha
      · exact .inr hkey
      · exact .inl (hstay (.inl ha))
    · rcases AnnouncePc.alert_next (.inr (hgoes _ hplace)) with hkey | ha
      · exact .inr hkey
      · exact .inl (hstay (.inl ha))
  | oled =>
    simp only [Handler.next, hpc] at halert
    refine hquiet _ halert rfl fun a ha => ?_
    dsimp only at ha
    split at ha <;> cases ha
  | done =>
    simp only [Handler.next, hpc] at halert
    exact .inl halert
  | _ =>
    simp only [Handler.next, hpc] at halert
    exact hquiet _ halert rfl (by simp)

/-- An alert handler has read the key of the alarm. -/
theorem traced_of_alert {w : World} (hw : (world ctrlPhead devs queue).Reachable w) {k : Nat}
    {h : Handler} (hk : w.handlers[k]? = some h) (halert : h.Alert) : w.Traced 0x45 := by
  refine hw.invariant' (fun w => ∀ (k : Nat) (h : Handler), w.handlers[k]? = some h → h.Alert →
    w.Traced 0x45) ?_ ?_ k h hk halert
  · intro k h hk
    cases hk
  · intro w ℓ w' hw hinv _ hstep k h' hk' halert
    have hstep : w.step ctrlPhead ℓ = some w' := hstep
    rcases World.handler_cases hstep hk' with
      ⟨hold, -⟩ | ⟨c, rest, -, -, -, -, rfl⟩ | ⟨h, -, hh, -, -, rfl⟩
    · exact (hinv k h' hold halert).step hstep
    · rcases halert with hflag | hplace | hplace
      · exact absurd rfl hflag
      · cases hplace
      · cases hplace
    · rcases Handler.alert_next halert with hbefore | hkey
      · exact (hinv k h hh hbefore).step hstep
      · have htraced := traced_of_reachable hw
        rw [hkey] at htraced
        exact htraced.step hstep

/-- The flag is 0 or 1. -/
theorem Handler.oledFlag_cases {s : House} {h : Handler}
    (hflag : h.oledFlag = 0 ∨ h.oledFlag = 1) :
    (h.next ctrlPhead s).1.oledFlag = 0 ∨ (h.next ctrlPhead s).1.oledFlag = 1 := by
  have hset : (h.next ctrlPhead s).1.oledFlag = h.oledFlag ∨
      (h.next ctrlPhead s).1.oledFlag = 1 := by
    unfold Handler.next
    split
    · split <;> exact .inl rfl
    · exact .inl rfl
    · exact .inl rfl
    · split <;> exact .inl rfl
    · exact .inl rfl
    · dsimp only
      split
      · exact .inr rfl
      · exact .inl rfl
    · exact .inl rfl
    · exact .inl rfl
    · exact .inl rfl
    · exact .inl rfl
  rcases hset with hsame | hone
  · rw [hsame]
    exact hflag
  · exact .inr hone

theorem oledFlag_of_reachable {w : World} (hw : (world ctrlPhead devs queue).Reachable w)
    {k : Nat} {h : Handler} (hk : w.handlers[k]? = some h) :
    h.oledFlag = 0 ∨ h.oledFlag = 1 := by
  refine hw.invariant' (fun w => ∀ (k : Nat) (h : Handler), w.handlers[k]? = some h →
    h.oledFlag = 0 ∨ h.oledFlag = 1) ?_ ?_ k h hk
  · intro k h hk
    cases hk
  · intro w ℓ w' _ hinv _ hstep k h' hk'
    rcases World.handler_cases hstep hk' with
      ⟨hold, -⟩ | ⟨c, rest, -, -, -, -, rfl⟩ | ⟨h, -, hh, -, -, rfl⟩
    · exact hinv k h' hold
    · exact .inl rfl
    · exact Handler.oledFlag_cases (hinv k h hh)

/-- What the display says of a command for the device, by its own face check. -/
def Gdevice.outcomeLine (d : Gdevice) (word : CString) (score : ℚ) : CString :=
  word ++ ascii " " ++ d.devName ++ ascii " " ++
    (if d.checkFaceStatus = 1 ∧ ¬ score > 1 / 2 then ascii "failed" else ascii "success") ++
    ascii ".\n"

/-- The line says what the handler did to its own device, or else it is the danger line, and a
command for the alarm is among the messages. -/
def Handler.Displays (devs : List Gdevice) (sent : List Msg) (h : Handler) (line : CString) :
    Prop :=
  ∃ d word, devs[h.curDev]? = some d ∧ (word = ascii "Open" ∨ word = ascii "Close") ∧
    (line = d.outcomeLine word h.cmd.score ∨
      line = word ++ ascii " Trigger danger.\n" ∧ ∃ f : Frame, f.key = 0x45 ∧ f.bytes ∈ sent)

/-- The word for the level that is recorded at the moment of the line. -/
theorem oledMsg_eq {d : Gdevice} (status oledFlag ret : Int) (hflag : oledFlag = 0 ∨ oledFlag = 1) :
    ∃ word, (word = ascii "Open" ∨ word = ascii "Close") ∧
      oledMsg (some { d with gpioStatus := status }) oledFlag ret =
        if oledFlag = 1 then word ++ ascii " Trigger danger.\n"
        else word ++ ascii " " ++ d.devName ++ ascii " " ++
          (if ret = -1 then ascii "failed" else ascii "success") ++ ascii ".\n" := by
  refine ⟨if some status = some LOW then ascii "Open" else ascii "Close", ?_, ?_⟩
  · split
    · exact .inl rfl
    · exact .inr rfl
  · have htwo : oledFlag ≠ 2 := by omega
    unfold oledMsg
    dsimp only
    rw [if_neg htwo]
    rfl

/-- The outcome of a handler is that of its own face check. -/
theorem Handler.outcome_eq {h : Handler} {d : Gdevice} (hd : devs[h.curDev]? = some d) :
    (if h.outcome devs = -1 then ascii "failed" else ascii "success") =
      if d.checkFaceStatus = 1 ∧ ¬ h.cmd.score > 1 / 2 then ascii "failed"
      else ascii "success" := by
  have hchecks : checksFace devs h.curDev = true ↔ d.checkFaceStatus = 1 := by
    rw [checksFace, hd]
    exact beq_iff_eq
  simp only [Handler.outcome, hchecks]
  by_cases hdenied : d.checkFaceStatus = 1 ∧ ¬ h.cmd.score > 1 / 2
  · rw [if_pos hdenied, if_pos hdenied, if_pos rfl]
  · rw [if_neg hdenied, if_neg hdenied, if_neg (by decide)]

/-- For every configuration and in every run of the whole program, whatever the order of its
threads: the lines on the display are those of the handlers that have come to it, one line
from each, with the name of the device that it found and `success` or `failed` by its own
face check; or it is the danger line, and then a command for the alarm was sent. -/
theorem display_signed (ctrlPhead : List Control) (devs : List Gdevice) (s : Home)
    (hs : (home ctrlPhead devs).Reachable s) :
    Signed (s.world.Has (·.displayed = true))
      (fun i line => s.world.Has (Handler.Displays devs s.pipe.sent · line) i)
      s.world.house.oled := by
  have hw := world_of_home hs
  refine (oled_signed hw).keep (fun _ => Iff.rfl) fun i line _ ⟨h, hh, hline⟩ => ?_
  obtain ⟨d, status, hd, rfl⟩ := hline
  obtain ⟨word, hword, heq⟩ :=
    oledMsg_eq (d := d) status h.oledFlag (h.outcome devs) (oledFlag_of_reachable hw hh)
  rw [Handler.outcome_eq hd] at heq
  refine ⟨h, hh, d, word, hd, hword, ?_⟩
  by_cases hflag : h.oledFlag = 1
  · rw [if_pos hflag] at heq
    refine .inr ⟨heq, ?_⟩
    have halert : h.oledFlag ≠ 0 := by omega
    rcases traced_of_alert hw hh (.inl halert) with ⟨c, hc, hkey⟩ | hstored
    · exact ⟨c.frame, hkey, mem_sent hs hc⟩
    · exact absurd hstored (by decide)
  · rw [if_neg hflag] at heq
    exact .inl heq

/-- One alarm, from the sensor to the display. -/
def beepRun : List HomeLabel :=
  [.thread (.smokeRead LOW), .thread (.smokeSend true), .thread .mqReceive, .dispatch 0,
    .handler 0, .handler 0, .handler 0, .handler 0]

/-- The line of one alarm. -/
theorem display_signed_alarm :
    ∃ s, (home [] peripheral).Reachable s ∧
      s.world.house.oled = [ascii "Open beep success.\n"] ∧
      Signed (s.world.Has (·.displayed = true))
        (fun i line => s.world.Has (Handler.Displays peripheral s.pipe.sent · line) i)
        s.world.house.oled := by
  obtain ⟨s, hs, holed⟩ := exists_reachable (home [] peripheral) beepRun
    (fun s => s.world.house.oled == [ascii "Open beep success.\n"]) (by decide +kernel)
  exact ⟨s, hs, beq_iff_eq.mp holed, display_signed [] peripheral s hs⟩

/-! ## The buffer of the line -/

/-- The size of `oled_msg`. -/
def oledMsgSize : Nat := 512

theorem length_oledMsg_le (d : Gdevice) (oledFlag ret : Int) :
    (oledMsg (some d) oledFlag ret).length ≤ d.devName.length + 22 := by
  have hstatus :
      (if some d.gpioStatus = some LOW then ascii "Open" else ascii "Close").length ≤ 5 := by
    split <;> decide
  have hret : (if ret = -1 then ascii "failed" else ascii "success").length ≤ 7 := by
    split <;> decide
  have hdanger : (ascii " Trigger danger.\n").length = 17 := by decide
  have hspace : (ascii " ").length = 1 := by decide
  have hend : (ascii ".\n").length = 2 := by decide
  unfold oledMsg
  dsimp only
  split
  · rw [List.length_append, Option.map_some]
    omega
  · split
    · exact Nat.zero_le _
    · simp only [List.length_append, Option.map_some, Option.getD_some]
      omega

theorem length_devName_le {content : List UInt8}
    (hfit : ∀ e ∈ iniCalls content, e.sectionName.length ≤ 35) {d : Gdevice}
    (hd : d ∈ (loadFile content).map Record.toGdevice) : d.devName.length ≤ 35 := by
  obtain ⟨r, hr, rfl⟩ := List.mem_map.mp hd
  have hshort : ShortNames (loadFile content) := by
    refine shortNames_foldl fun entry hentry => ?_
    obtain ⟨e, he, rfl⟩ := List.mem_map.mp hentry
    rw [sectionName_toEntry he]
    exact hfit e he
  obtain ⟨name, hname⟩ := hshort r hr
  have hfits := hname.fits
  rw [devNameSize] at hfits
  show r.devName.length ≤ 35
  rw [hname.devName_eq]
  omega

/-- For every configuration file whose sections fit into `dev_name`: in every run of the whole
program on the devices of this file, each line that is shown fits into `oled_msg` with its
terminator. -/
theorem oled_fits (ctrlPhead : List Control) (content : List UInt8)
    (hfit : ∀ e ∈ iniCalls content, e.sectionName.length ≤ 35) (s : Home)
    (hs : (home ctrlPhead ((loadFile content).map Record.toGdevice)).Reachable s) :
    ∀ line ∈ s.world.house.oled, line.length + 1 ≤ oledMsgSize := by
  intro line hline
  obtain ⟨i, -, h, -, d, status, hd, rfl⟩ :=
    (oled_signed (world_of_home hs)).exists_writer hline
  have hname := length_devName_le hfit (List.mem_of_getElem? hd)
  have hlength := length_oledMsg_le { d with gpioStatus := status } h.oledFlag
    (h.outcome ((loadFile content).map Record.toGdevice))
  rw [oledMsgSize]
  dsimp only at hlength
  omega

/-- A beeper from a file of three lines shows its line. -/
theorem oled_fits_beep :
    ∃ s, (home [] ((loadFile (ascii "[beep]\nkey=0x45\ngpio_pin=10\n")).map
        Record.toGdevice)).Reachable s ∧
      s.world.house.oled = [ascii "Open beep success.\n"] ∧
      ∀ line ∈ s.world.house.oled, line.length + 1 ≤ oledMsgSize := by
  obtain ⟨s, hs, holed⟩ := exists_reachable
    (home [] ((loadFile (ascii "[beep]\nkey=0x45\ngpio_pin=10\n")).map Record.toGdevice))
    beepRun (fun s => s.world.house.oled == [ascii "Open beep success.\n"]) (by decide +kernel)
  have hfit : ∀ e ∈ iniCalls (ascii "[beep]\nkey=0x45\ngpio_pin=10\n"),
      e.sectionName.length ≤ 35 := by decide +kernel
  exact ⟨s, hs, beq_iff_eq.mp holed, oled_fits [] _ hfit s hs⟩

end HomeControl
