import HomeControl.House
import Mathlib.Data.Rat.Defs
import Mathlib.Algebra.Order.Ring.Unbundled.Rat

/-!
# The handler thread

`handld_device` runs as a detached thread, one for each accepted message.  It is
modelled twice.

* `Handler.next` is the thread, one access to the shared state at a time.  `Pc`
  names the places between two accesses, in program order.  The three `if`
  conditions of the announcement read bytes 2 and 3 in separate steps, as `&&`
  does.  `set_gpio_gdevice_status` reads `gpio_status` when it writes the pin,
  so it is one step.
* `handldDevice` is the same function executed alone, from its start to its
  last statement.

`completes_spawn` connects the two: a handler that nothing disturbs ends in
the state `handldDevice` computes.

A handler carries two records that the program does not have: the bytes it read
for its lookup and for its assignment.  They are written once and never read.
The value that `par_retfunc` is going to return to it is part of its command.
-/

namespace HomeControl

open SharedMemory

/-- A message together with the value that the call of `par_retfunc` made for
it returns. -/
structure Command where
  frame : Frame
  score : ℚ
  deriving DecidableEq

/-- The device that a command is for: the first of the list with its key. -/
def Command.device (devs : List Gdevice) (c : Command) : Option Nat :=
  devs.findIdx? fun d => d.key == (c.frame.key.toNat : Int)

/-- The places inside the announcement, lines 235 to 261. -/
inductive AnnouncePc where
  | alarmKey | alarmStatus
  | openedKey | openedStatus
  | failedKey | failedStatus
  | alarm2 | alarm3 | opened2 | failed2
  | create | reset2 | reset3
  deriving DecidableEq, Repr

/-- The places between two accesses of `handld_device`. -/
inductive Pc where
  | find
  | assign
  | parRetfunc
  | mark
  | setGpio
  | announce (a : AnnouncePc)
  | oled
  | relockAssign
  | relockSet
  | done
  deriving DecidableEq, Repr

/-- The local state of a handler. -/
structure Handler where
  cmd : Command
  pc : Pc := .find
  curDev : Nat := 0
  ret : Int := -1
  oledFlag : Int := 0
  faceRet : ℚ := 0
  lookedUp : Option UInt8 := none
  payload : Option UInt8 := none
  deriving DecidableEq

/-- A handler that `pthread_create` has just started. -/
def Handler.spawn (c : Command) : Handler := { cmd := c }

/-- `payload == 0 ? LOW : HIGH`. -/
def statusOf (payload : UInt8) : Int := if payload = 0 then LOW else HIGH

theorem statusOf_eq_LOW {payload : UInt8} : statusOf payload = LOW ↔ payload = 0 := by
  unfold statusOf
  split
  · simp [*]
  · simp [*, LOW_ne_HIGH.symm]

theorem statusOf_ne_zero {payload : UInt8} (h : payload ≠ 0) :
    statusOf payload = HIGH := if_neg h

theorem statusOf_ne_neg_one (payload : UInt8) : statusOf payload ≠ -1 := by
  unfold statusOf
  split <;> decide

/-- `1 == cur_dev->check_face_status`. -/
def checksFace (devs : List Gdevice) (curDev : Nat) : Bool :=
  devs[curDev]?.any fun d => d.checkFaceStatus == 1

/-- `1 == cur_dev->voice_set_status`. -/
def setsVoice (devs : List Gdevice) (curDev : Nat) : Bool :=
  devs[curDev]?.any fun d => d.voiceSetStatus == 1

/-- The line built by `sprintf` for the display. -/
def oledMsg (curDev : Option Gdevice) (oledFlag ret : Int) : CString :=
  let changeStatus :=
    if (curDev.map (·.gpioStatus)) = some LOW then ascii "Open" else ascii "Close"
  let successOrFailed := if ret = -1 then ascii "failed" else ascii "success"
  if oledFlag = 1 then changeStatus ++ ascii " Trigger danger.\n"
  else if oledFlag = 2 then []
  else changeStatus ++ ascii " " ++ (curDev.map (·.devName)).getD [] ++ ascii " " ++
    successOrFailed ++ ascii ".\n"

/-! ## One access at a time -/

/-- One step of the announcement.  `none` is its end. -/
def AnnouncePc.next (set : Option SetRoutine) (buffer : Buffer) :
    AnnouncePc → Option AnnouncePc × Action
  | .alarmKey => (some (if buffer 2 = 0x45 then .alarmStatus else .openedKey), .skip)
  | .alarmStatus => (some (if buffer 3 = 0x00 then .alarm2 else .openedKey), .skip)
  | .openedKey => (some (if buffer 2 = 0x44 then .openedStatus else .failedKey), .skip)
  | .openedStatus => (some (if buffer 3 = 0x2E then .opened2 else .failedKey), .skip)
  | .failedKey => (some (if buffer 2 = 0x44 then .failedStatus else .create), .skip)
  | .failedStatus => (some (if buffer 3 = 0x2F then .failed2 else .create), .skip)
  | .alarm2 => (some .alarm3, .writeByte 2 0x2D)
  | .alarm3 => (some .create, .writeByte 3 0x2D)
  | .opened2 => (some .create, .writeByte 2 0x2E)
  | .failed2 => (some .create, .writeByte 2 0x2F)
  | .create => (some .reset2, .pthreadCreate set)
  | .reset2 => (some .reset3, .writeByte 2 0x00)
  | .reset3 => (none, .writeByte 3 0x00)

/-- Where the handler goes once `ret` is set: to the announcement, when the
device asks for it and there is a voice module, else to the display. -/
def afterRet (ctrlPhead : List Control) (devs : List Gdevice) (curDev : Nat) : Pc :=
  if setsVoice devs curDev ∧ (voiceControl ctrlPhead).isSome then .announce .alarmKey
  else .oled

theorem afterRet_cases (ctrlPhead : List Control) (devs : List Gdevice) (curDev : Nat) :
    afterRet ctrlPhead devs curDev = .announce .alarmKey ∨
      afterRet ctrlPhead devs curDev = .oled := by
  unfold afterRet
  split
  · exact .inl rfl
  · exact .inr rfl

/-- One step of `handld_device`: the next local state and the access. -/
def Handler.next (ctrlPhead : List Control) (s : House) (h : Handler) :
    Handler × Action :=
  match h.pc with
  | .find =>
    match findDeviceByKey s.devs (s.buffer 2).toNat with
    | none => ({ h with pc := .done, lookedUp := some (s.buffer 2) }, .skip)
    | some i =>
      ({ h with pc := .assign, curDev := i, lookedUp := some (s.buffer 2) }, .skip)
  | .assign =>
    ({ h with
        pc := if checksFace s.devs h.curDev then .parRetfunc else .setGpio
        payload := some (s.buffer 3) },
      .assignStatus h.curDev (statusOf (s.buffer 3)))
  | .parRetfunc => ({ h with pc := .mark, faceRet := h.cmd.score }, .skip)
  | .mark =>
    if h.faceRet > 1 / 2 then ({ h with pc := .setGpio }, .writeByte 3 0x2E)
    else
      ({ h with pc := afterRet ctrlPhead s.devs h.curDev, ret := -1 },
        .writeByte 3 0x2F)
  | .setGpio =>
    ({ h with
        pc := afterRet ctrlPhead s.devs h.curDev
        ret := (setGpioGdeviceStatus s.devs[h.curDev]?).2 },
      .setGpio h.curDev)
  | .announce a =>
    let (a', act) := a.next ((voiceControl ctrlPhead).map (·.set)) s.buffer
    ({ h with
        pc := a'.elim .oled .announce
        oledFlag := if a = .alarm2 then 1 else h.oledFlag }, act)
  | .oled =>
    ({ h with
        pc := if checksFace s.devs h.curDev ∧ h.ret = 0 ∧ h.faceRet > 1 / 2
          then .relockAssign else .done },
      .oledShow (oledMsg s.devs[h.curDev]? h.oledFlag h.ret))
  | .relockAssign => ({ h with pc := .relockSet }, .assignStatus h.curDev HIGH)
  | .relockSet => ({ h with pc := .done }, .setGpio h.curDev)
  | .done => (h, .skip)

/-- A handler keeps its command. -/
@[simp] theorem Handler.next_cmd (ctrlPhead : List Control) (s : House) (h : Handler) :
    (h.next ctrlPhead s).1.cmd = h.cmd := by
  unfold Handler.next
  split
  case h_1 => split <;> rfl
  case h_4 => split <;> rfl
  all_goals rfl

/-- After its two reads of the message, a handler keeps what it read and the
device that it found. -/
theorem Handler.next_records (ctrlPhead : List Control) (s : House) {h : Handler}
    (hfind : h.pc ≠ .find) (hassign : h.pc ≠ .assign) :
    (h.next ctrlPhead s).1.lookedUp = h.lookedUp ∧
      (h.next ctrlPhead s).1.payload = h.payload ∧
      (h.next ctrlPhead s).1.curDev = h.curDev := by
  unfold Handler.next
  split
  case h_1 hpc => exact absurd hpc hfind
  case h_2 hpc => exact absurd hpc hassign
  case h_4 => split <;> exact ⟨rfl, rfl, rfl⟩
  all_goals exact ⟨rfl, rfl, rfl⟩

/-- The announcement goes on, or it goes over to the display. -/
theorem AnnouncePc.next_cases (a : AnnouncePc) (set : Option SetRoutine)
    (buffer : Buffer) :
    (a.next set buffer).1.elim Pc.oled .announce = .oled ∨
      ∃ a', (a.next set buffer).1.elim Pc.oled .announce = .announce a' := by
  rcases (a.next set buffer).1 with _ | a'
  · exact .inl rfl
  · exact .inr ⟨a', rfl⟩

/-- The control flow of `handld_device`: the places that one step can lead to. -/
def Pc.leadsTo : Pc → Pc → Bool
  | .find, .assign | .find, .done => true
  | .assign, .parRetfunc | .assign, .setGpio => true
  | .parRetfunc, .mark => true
  | .mark, .setGpio | .mark, .announce _ | .mark, .oled => true
  | .setGpio, .announce _ | .setGpio, .oled => true
  | .announce _, .announce _ | .announce _, .oled => true
  | .oled, .relockAssign | .oled, .done => true
  | .relockAssign, .relockSet => true
  | .relockSet, .done => true
  | .done, .done => true
  | _, _ => false

theorem Handler.next_leadsTo (ctrlPhead : List Control) (s : House) (h : Handler) :
    h.pc.leadsTo (h.next ctrlPhead s).1.pc = true := by
  have hafter : ∀ {pc : Pc}, pc = .mark ∨ pc = .setGpio →
      pc.leadsTo (afterRet ctrlPhead s.devs h.curDev) = true := by
    intro pc hpc
    rcases afterRet_cases ctrlPhead s.devs h.curDev with hafter | hafter
    · rw [hafter]
      rcases hpc with rfl | rfl <;> rfl
    · rw [hafter]
      rcases hpc with rfl | rfl <;> rfl
  cases hpc : h.pc with
  | find =>
    cases hfind : findDeviceByKey s.devs (s.buffer 2).toNat <;>
      simp only [Handler.next, hpc, hfind, Pc.leadsTo]
  | assign =>
    simp only [Handler.next, hpc]
    split <;> rfl
  | mark =>
    simp only [Handler.next, hpc]
    split
    · rfl
    · exact hafter (.inl rfl)
  | setGpio =>
    simp only [Handler.next, hpc]
    exact hafter (.inr rfl)
  | announce a =>
    simp only [Handler.next, hpc]
    rcases a.next_cases ((voiceControl ctrlPhead).map (·.set)) s.buffer with
      hnext | ⟨a', hnext⟩
    · rw [hnext, Pc.leadsTo]
    · rw [hnext, Pc.leadsTo]
  | oled =>
    simp only [Handler.next, hpc]
    split <;> rfl
  | _ => simp only [Handler.next, hpc, Pc.leadsTo]

/-- The two reads of the message are the first two steps only. -/
theorem Handler.next_pc_of_read (ctrlPhead : List Control) (s : House) {h : Handler}
    (hfind : h.pc ≠ .find) :
    (h.next ctrlPhead s).1.pc ≠ .find ∧ (h.next ctrlPhead s).1.pc ≠ .assign := by
  have hflow := h.next_leadsTo ctrlPhead s
  constructor
  · intro hnext
    rw [hnext] at hflow
    cases hpc : h.pc <;> simp [hpc, Pc.leadsTo] at hflow
  · intro hnext
    rw [hnext] at hflow
    cases hpc : h.pc <;> simp [hpc, Pc.leadsTo] at hflow
    exact hfind hpc

/-- The two places that assign `gpio_status`, and what they assign. -/
theorem Handler.next_assignStatus {ctrlPhead : List Control} {s : House} {h : Handler}
    {dev : Nat} {v : Int} (hact : (h.next ctrlPhead s).2 = .assignStatus dev v) :
    dev = h.curDev ∧ ((h.pc = .assign ∧ v = statusOf (s.buffer 3)) ∨
      (h.pc = .relockAssign ∧ v = HIGH)) := by
  cases hpc : h.pc with
  | find =>
    cases hfind : findDeviceByKey s.devs (s.buffer 2).toNat <;>
      simp [Handler.next, hpc, hfind] at hact
  | assign =>
    simp only [Handler.next, hpc, Action.assignStatus.injEq] at hact
    exact ⟨hact.1.symm, .inl ⟨rfl, hact.2.symm⟩⟩
  | mark =>
    simp only [Handler.next, hpc] at hact
    split at hact <;> cases hact
  | announce a => cases a <;> simp [Handler.next, hpc, AnnouncePc.next] at hact
  | relockAssign =>
    simp only [Handler.next, hpc, Action.assignStatus.injEq] at hact
    exact ⟨hact.1.symm, .inr ⟨rfl, hact.2.symm⟩⟩
  | _ => simp [Handler.next, hpc] at hact

/-- The two places that call `set_gpio_gdevice_status`. -/
theorem Handler.next_setGpio {ctrlPhead : List Control} {s : House} {h : Handler}
    {dev : Nat} (hact : (h.next ctrlPhead s).2 = .setGpio dev) :
    dev = h.curDev ∧ (h.pc = .setGpio ∨ h.pc = .relockSet) := by
  cases hpc : h.pc with
  | find =>
    cases hfind : findDeviceByKey s.devs (s.buffer 2).toNat <;>
      simp [Handler.next, hpc, hfind] at hact
  | setGpio =>
    simp only [Handler.next, hpc, Action.setGpio.injEq] at hact
    exact ⟨hact.symm, .inl rfl⟩
  | mark =>
    simp only [Handler.next, hpc] at hact
    split at hact <;> cases hact
  | announce a => cases a <;> simp [Handler.next, hpc, AnnouncePc.next] at hact
  | relockSet =>
    simp only [Handler.next, hpc, Action.setGpio.injEq] at hact
    exact ⟨hact.symm, .inr rfl⟩
  | _ => simp [Handler.next, hpc] at hact

/-! ## The whole function, executed alone -/

/-- Lines 235 to 254: rewrite bytes 2 and 3 for the voice module.  The second
component is `oled_flag`. -/
def rewriteForVoice (s : House) : House × Int :=
  if s.buffer 2 = 0x45 ∧ s.buffer 3 = 0x00 then
    ((s.apply (.writeByte 2 0x2D)).apply (.writeByte 3 0x2D), 1)
  else if s.buffer 2 = 0x44 ∧ s.buffer 3 = 0x2E then
    (s.apply (.writeByte 2 0x2E), 0)
  else if s.buffer 2 = 0x44 ∧ s.buffer 3 = 0x2F then
    (s.apply (.writeByte 2 0x2F), 0)
  else (s, 0)

/-- Lines 258 to 261: create the voice thread, then reset the two bytes. -/
def createVoice (ctrlPhead : List Control) (s : House) : House :=
  let s := s.apply (.pthreadCreate ((voiceControl ctrlPhead).map (·.set)))
  (s.apply (.writeByte 2 0x00)).apply (.writeByte 3 0x00)

/-- Lines 271 to 307: the display and, after a granted run, the relock. -/
def showAndRelock (s : House) (curDev : Nat) (ret oledFlag : Int) (faceRet : ℚ) :
    House :=
  let s := s.apply (.oledShow (oledMsg s.devs[curDev]? oledFlag ret))
  if checksFace s.devs curDev ∧ ret = 0 ∧ faceRet > 1 / 2 then
    (s.apply (.assignStatus curDev HIGH)).apply (.setGpio curDev)
  else s

/-- Lines 225 to 307. -/
def announceShowRelock (ctrlPhead : List Control) (s : House) (curDev : Nat)
    (ret : Int) (faceRet : ℚ) : House :=
  if setsVoice s.devs curDev ∧ (voiceControl ctrlPhead).isSome then
    showAndRelock (createVoice ctrlPhead (rewriteForVoice s).1) curDev ret
      (rewriteForVoice s).2 faceRet
  else showAndRelock s curDev ret 0 faceRet

/-- `handld_device`, when no other thread touches the shared state.  `score` is
what `par_retfunc` returns. -/
def handldDevice (ctrlPhead : List Control) (score : ℚ) (s : House) : House :=
  match findDeviceByKey s.devs (s.buffer 2).toNat with
  | none => s
  | some curDev =>
    let s := s.apply (.assignStatus curDev (statusOf (s.buffer 3)))
    if checksFace s.devs curDev then
      if score > 1 / 2 then
        let s := s.apply (.writeByte 3 0x2E)
        announceShowRelock ctrlPhead (s.apply (.setGpio curDev)) curDev
          (setGpioGdeviceStatus s.devs[curDev]?).2 score
      else
        announceShowRelock ctrlPhead (s.apply (.writeByte 3 0x2F)) curDev (-1) score
    else
      announceShowRelock ctrlPhead (s.apply (.setGpio curDev)) curDev
        (setGpioGdeviceStatus s.devs[curDev]?).2 0

/-! ## The thread refines the function -/

/-- The handler `h`, stepping alone from `s`, ends in `t`. -/
inductive Completes (ctrlPhead : List Control) : House → Handler → House → Prop
  | done {s : House} {h : Handler} (hpc : h.pc = .done) : Completes ctrlPhead s h s
  | step {s t : House} {h : Handler} (hpc : h.pc ≠ .done)
      (hrest : Completes ctrlPhead (s.apply (h.next ctrlPhead s).2)
        (h.next ctrlPhead s).1 t) : Completes ctrlPhead s h t

variable {ctrlPhead : List Control}

theorem Completes.of_done {s t : House} {h : Handler}
    (hc : Completes ctrlPhead s h t) (hpc : h.pc = .done) : s = t := by
  cases hc with
  | done _ => rfl
  | step hne _ => exact absurd hpc hne

theorem Completes.of_not_done {s t : House} {h : Handler}
    (hc : Completes ctrlPhead s h t) (hpc : h.pc ≠ .done) :
    Completes ctrlPhead (s.apply (h.next ctrlPhead s).2) (h.next ctrlPhead s).1 t := by
  cases hc with
  | done hd => exact absurd hd hpc
  | step _ hrest => exact hrest

theorem SameConfig.checksFace {devs devs' : List Gdevice} (h : SameConfig devs devs')
    (i : Nat) : checksFace devs' i = checksFace devs i := by
  unfold HomeControl.checksFace
  rcases hd : devs[i]? with _ | d
  · rcases hd' : devs'[i]? with _ | d'
    · rfl
    · obtain ⟨v, hv⟩ := h.symm.getElem? hd'
      rw [hd] at hv
      cases hv
  · obtain ⟨v, hv⟩ := h.getElem? hd
    rw [hv]
    rfl

/-! The lemmas below follow the thread backwards from its last access: each says
what a handler at one place leaves behind when it runs alone from there. -/

theorem completes_relockAssign (s : House) {h : Handler} (hpc : h.pc = .relockAssign) :
    Completes ctrlPhead s h
      ((s.apply (.assignStatus h.curDev HIGH)).apply (.setGpio h.curDev)) := by
  refine .step (by simp [hpc]) ?_
  simp only [Handler.next, hpc]
  exact .step (by simp) (.done rfl)

theorem completes_oled (s : House) {h : Handler} (hpc : h.pc = .oled) :
    Completes ctrlPhead s h (showAndRelock s h.curDev h.ret h.oledFlag h.faceRet) := by
  refine .step (by simp [hpc]) ?_
  simp only [Handler.next, hpc]
  by_cases hrelock : checksFace s.devs h.curDev ∧ h.ret = 0 ∧ h.faceRet > 1 / 2
  · rw [if_pos hrelock, show showAndRelock s h.curDev _ _ _ = _ from if_pos hrelock]
    exact completes_relockAssign _ rfl
  · rw [if_neg hrelock, show showAndRelock s h.curDev _ _ _ = _ from if_neg hrelock]
    exact .done rfl

/-- One step of the announcement that only reads. -/
theorem Completes.announceRead {s t : House} {h : Handler} {a a' : AnnouncePc}
    (hpc : h.pc = .announce a) (hflag : a ≠ .alarm2)
    (hnext : a.next ((voiceControl ctrlPhead).map (·.set)) s.buffer = (some a', .skip))
    (hrest : Completes ctrlPhead s { h with pc := .announce a' } t) :
    Completes ctrlPhead s h t := by
  refine .step (by simp [hpc]) ?_
  simp only [Handler.next, hpc, hnext, if_neg hflag]
  exact hrest

/-- One step of the announcement that writes or creates the thread. -/
theorem Completes.announceWrite {s t : House} {h : Handler} {a a' : AnnouncePc}
    {act : Action} (hpc : h.pc = .announce a) (hflag : a ≠ .alarm2)
    (hnext : a.next ((voiceControl ctrlPhead).map (·.set)) s.buffer = (some a', act))
    (hrest : Completes ctrlPhead (s.apply act) { h with pc := .announce a' } t) :
    Completes ctrlPhead s h t := by
  refine .step (by simp [hpc]) ?_
  simp only [Handler.next, hpc, hnext, if_neg hflag]
  exact hrest

theorem completes_create (s : House) {h : Handler} (hpc : h.pc = .announce .create) :
    Completes ctrlPhead s h
      (showAndRelock (createVoice ctrlPhead s) h.curDev h.ret h.oledFlag h.faceRet) := by
  refine .announceWrite hpc (by simp) rfl ?_
  refine .announceWrite rfl (by simp) rfl ?_
  exact .step (by simp) (completes_oled _ rfl)

theorem completes_failedKey (s : House) {h : Handler}
    (hpc : h.pc = .announce .failedKey) :
    Completes ctrlPhead s h
      (showAndRelock
        (createVoice ctrlPhead
          (if s.buffer 2 = 0x44 ∧ s.buffer 3 = 0x2F then s.apply (.writeByte 2 0x2F)
            else s))
        h.curDev h.ret h.oledFlag h.faceRet) := by
  by_cases hkey : s.buffer 2 = 0x44
  · refine .announceRead hpc (by simp) (by rw [AnnouncePc.next, if_pos hkey]) ?_
    by_cases hstatus : s.buffer 3 = 0x2F
    · rw [if_pos ⟨hkey, hstatus⟩]
      refine .announceRead rfl (by simp) (by rw [AnnouncePc.next, if_pos hstatus]) ?_
      exact .announceWrite rfl (by simp) rfl (completes_create _ rfl)
    · rw [if_neg fun hboth => hstatus hboth.2]
      refine .announceRead rfl (by simp) (by rw [AnnouncePc.next, if_neg hstatus]) ?_
      exact completes_create _ rfl
  · rw [if_neg fun hboth => hkey hboth.1]
    refine .announceRead hpc (by simp) (by rw [AnnouncePc.next, if_neg hkey]) ?_
    exact completes_create _ rfl

theorem completes_openedKey (s : House) {h : Handler}
    (hpc : h.pc = .announce .openedKey) :
    Completes ctrlPhead s h
      (showAndRelock
        (createVoice ctrlPhead
          (if s.buffer 2 = 0x44 ∧ s.buffer 3 = 0x2E then s.apply (.writeByte 2 0x2E)
            else if s.buffer 2 = 0x44 ∧ s.buffer 3 = 0x2F then
              s.apply (.writeByte 2 0x2F)
            else s))
        h.curDev h.ret h.oledFlag h.faceRet) := by
  by_cases hkey : s.buffer 2 = 0x44
  · refine .announceRead hpc (by simp) (by rw [AnnouncePc.next, if_pos hkey]) ?_
    by_cases hstatus : s.buffer 3 = 0x2E
    · rw [if_pos ⟨hkey, hstatus⟩]
      refine .announceRead rfl (by simp) (by rw [AnnouncePc.next, if_pos hstatus]) ?_
      exact .announceWrite rfl (by simp) rfl (completes_create _ rfl)
    · rw [if_neg fun hboth => hstatus hboth.2]
      refine .announceRead rfl (by simp) (by rw [AnnouncePc.next, if_neg hstatus]) ?_
      exact completes_failedKey _ rfl
  · rw [if_neg fun hboth => hkey hboth.1]
    refine .announceRead hpc (by simp) (by rw [AnnouncePc.next, if_neg hkey]) ?_
    exact completes_failedKey _ rfl

/-- Outside the alarm branch the flag stays 0 and only the state depends on the
tests. -/
theorem rewriteForVoice_of_not_alarm (s : House)
    (hno : ¬ (s.buffer 2 = 0x45 ∧ s.buffer 3 = 0x00)) :
    rewriteForVoice s =
      (if s.buffer 2 = 0x44 ∧ s.buffer 3 = 0x2E then s.apply (.writeByte 2 0x2E)
        else if s.buffer 2 = 0x44 ∧ s.buffer 3 = 0x2F then s.apply (.writeByte 2 0x2F)
        else s, 0) := by
  rw [rewriteForVoice, if_neg hno]
  split_ifs <;> rfl

/-- The whole announcement. -/
theorem completes_alarmKey (s : House) {h : Handler}
    (hpc : h.pc = .announce .alarmKey) (hflag : h.oledFlag = 0) :
    Completes ctrlPhead s h
      (showAndRelock (createVoice ctrlPhead (rewriteForVoice s).1) h.curDev h.ret
        (rewriteForVoice s).2 h.faceRet) := by
  by_cases hkey : s.buffer 2 = 0x45
  · refine .announceRead hpc (by simp) (by rw [AnnouncePc.next, if_pos hkey]) ?_
    by_cases hstatus : s.buffer 3 = 0x00
    · rw [rewriteForVoice, if_pos ⟨hkey, hstatus⟩]
      refine .announceRead rfl (by simp) (by rw [AnnouncePc.next, if_pos hstatus]) ?_
      refine .step (by simp) ?_
      exact .announceWrite rfl (by simp) rfl (completes_create _ rfl)
    · rw [rewriteForVoice_of_not_alarm s fun hboth => hstatus hboth.2, ← hflag]
      refine .announceRead rfl (by simp) (by rw [AnnouncePc.next, if_neg hstatus]) ?_
      exact completes_openedKey _ rfl
  · rw [rewriteForVoice_of_not_alarm s fun hboth => hkey hboth.1, ← hflag]
    refine .announceRead hpc (by simp) (by rw [AnnouncePc.next, if_neg hkey]) ?_
    exact completes_openedKey _ rfl

theorem completes_afterRet (s : House) {h : Handler}
    (hpc : h.pc = afterRet ctrlPhead s.devs h.curDev) (hflag : h.oledFlag = 0) :
    Completes ctrlPhead s h
      (announceShowRelock ctrlPhead s h.curDev h.ret h.faceRet) := by
  unfold announceShowRelock
  unfold afterRet at hpc
  by_cases hvoice : setsVoice s.devs h.curDev ∧ (voiceControl ctrlPhead).isSome
  · rw [if_pos hvoice] at hpc ⊢
    exact completes_alarmKey s hpc hflag
  · rw [if_neg hvoice] at hpc ⊢
    rw [← hflag]
    exact completes_oled s hpc

/-- The lookup of a handler that finds a device. -/
theorem next_find {s : House} {h : Handler} (hpc : h.pc = .find) {curDev : Nat}
    (hfind : findDeviceByKey s.devs (s.buffer 2).toNat = some curDev) :
    h.next ctrlPhead s =
      ({ h with pc := .assign, curDev := curDev, lookedUp := some (s.buffer 2) },
        .skip) := by
  simp only [Handler.next, hpc, hfind]

/-- The lookup of a handler that finds none. -/
theorem next_find_none {s : House} {h : Handler} (hpc : h.pc = .find)
    (hfind : findDeviceByKey s.devs (s.buffer 2).toNat = none) :
    h.next ctrlPhead s =
      ({ h with pc := .done, lookedUp := some (s.buffer 2) }, .skip) := by
  simp only [Handler.next, hpc, hfind]

theorem completes_assign (s : House) {h : Handler} (hpc : h.pc = .assign)
    (hflag : h.oledFlag = 0) (hface : h.faceRet = 0) {t : House}
    (ht : t = s.apply (.assignStatus h.curDev (statusOf (s.buffer 3)))) :
    Completes ctrlPhead s h
      (if checksFace t.devs h.curDev then
        if h.cmd.score > 1 / 2 then
          let t := t.apply (.writeByte 3 0x2E)
          announceShowRelock ctrlPhead (t.apply (.setGpio h.curDev)) h.curDev
            (setGpioGdeviceStatus t.devs[h.curDev]?).2 h.cmd.score
        else
          announceShowRelock ctrlPhead (t.apply (.writeByte 3 0x2F)) h.curDev (-1)
            h.cmd.score
      else
        announceShowRelock ctrlPhead (t.apply (.setGpio h.curDev)) h.curDev
          (setGpioGdeviceStatus t.devs[h.curDev]?).2 0) := by
  refine .step (by simp [hpc]) ?_
  simp only [Handler.next, hpc]
  have hgate : checksFace t.devs h.curDev = checksFace s.devs h.curDev := by
    rw [ht]
    exact (s.sameConfig_apply _).checksFace h.curDev
  rw [hgate, ← ht]
  by_cases hchecks : checksFace s.devs h.curDev = true
  · rw [if_pos hchecks, if_pos hchecks]
    refine .step (by simp) ?_
    simp only [Handler.next, House.apply_skip]
    refine .step (by simp) ?_
    simp only [Handler.next]
    by_cases hscore : h.cmd.score > 1 / 2
    · rw [if_pos hscore, if_pos hscore]
      exact .step (by simp) (completes_afterRet _ rfl hflag)
    · rw [if_neg hscore, if_neg hscore]
      exact completes_afterRet _ rfl hflag
  · rw [if_neg hchecks, if_neg hchecks, ← hface]
    exact .step (by simp) (completes_afterRet _ rfl hflag)

/-- A handler that nothing disturbs computes `handldDevice`. -/
theorem completes_spawn (s : House) (c : Command) :
    Completes ctrlPhead s (.spawn c) (handldDevice ctrlPhead c.score s) := by
  refine .step (by simp [Handler.spawn]) ?_
  unfold handldDevice
  cases hfind : findDeviceByKey s.devs (s.buffer 2).toNat with
  | none =>
    rw [next_find_none rfl hfind]
    exact .done rfl
  | some curDev =>
    rw [next_find rfl hfind]
    exact completes_assign s rfl rfl rfl rfl

end HomeControl
