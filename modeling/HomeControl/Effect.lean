import HomeControl.Lib.LastWrite
import HomeControl.HandldDevice

/-!
# What one command does

`handldDevice` is the handler executed alone.  This module says what it changes:

* `runCommand_devs`: at most the `gpio_status` of the device that the command
  resolves to;
* `level_runCommand`: the level of each pin, by `effect`;
* `runCommands` executes a list of commands one after the other, and
  `level_runCommands` gives the level of each pin after it, by the last command
  with an effect on it.
-/

namespace HomeControl

open SharedMemory LastWrite

variable {ctrlPhead : List Control}

/-! ## The announcement and the display change no device and no pin -/

@[simp] theorem rewriteForVoice_devs (s : House) : (rewriteForVoice s).1.devs = s.devs := by
  unfold rewriteForVoice
  split_ifs <;> rfl

@[simp] theorem rewriteForVoice_gpio (s : House) : (rewriteForVoice s).1.gpio = s.gpio := by
  unfold rewriteForVoice
  split_ifs <;> rfl

@[simp] theorem createVoice_devs (s : House) : (createVoice ctrlPhead s).devs = s.devs :=
  House.apply_devs s (by simp)

@[simp] theorem createVoice_gpio (s : House) : (createVoice ctrlPhead s).gpio = s.gpio :=
  House.apply_gpio s (by simp)

/-- The condition of the relock. -/
def Relocks (devs : List Gdevice) (curDev : Nat) (ret : Int) (faceRet : ℚ) : Prop :=
  checksFace devs curDev = true ∧ ret = 0 ∧ faceRet > 1 / 2

theorem showAndRelock_of_relocks {s : House} {curDev : Nat} {ret : Int} {faceRet : ℚ}
    (h : Relocks s.devs curDev ret faceRet) (oledFlag : Int) :
    (showAndRelock s curDev ret oledFlag faceRet).devs = assignStatus s.devs curDev HIGH ∧
      (showAndRelock s curDev ret oledFlag faceRet).gpio =
        (setGpioGdeviceStatus (assignStatus s.devs curDev HIGH)[curDev]?).1.reverse ++
          s.gpio := by
  rw [show showAndRelock s curDev ret oledFlag faceRet = _ from if_pos h]
  exact ⟨rfl, rfl⟩

theorem showAndRelock_of_not_relocks {s : House} {curDev : Nat} {ret : Int}
    {faceRet : ℚ} (h : ¬ Relocks s.devs curDev ret faceRet) (oledFlag : Int) :
    (showAndRelock s curDev ret oledFlag faceRet).devs = s.devs ∧
      (showAndRelock s curDev ret oledFlag faceRet).gpio = s.gpio := by
  rw [show showAndRelock s curDev ret oledFlag faceRet = _ from if_neg h]
  exact ⟨rfl, rfl⟩

theorem announceShowRelock_of_relocks (ctrlPhead : List Control) {s : House}
    {curDev : Nat} {ret : Int} {faceRet : ℚ} (h : Relocks s.devs curDev ret faceRet) :
    (announceShowRelock ctrlPhead s curDev ret faceRet).devs =
        assignStatus s.devs curDev HIGH ∧
      (announceShowRelock ctrlPhead s curDev ret faceRet).gpio =
        (setGpioGdeviceStatus (assignStatus s.devs curDev HIGH)[curDev]?).1.reverse ++
          s.gpio := by
  unfold announceShowRelock
  split
  · have hvoice : Relocks (createVoice ctrlPhead (rewriteForVoice s).1).devs curDev ret
        faceRet := by simpa using h
    have hshow := showAndRelock_of_relocks hvoice (rewriteForVoice s).2
    simpa using hshow
  · exact showAndRelock_of_relocks h 0

theorem announceShowRelock_of_not_relocks (ctrlPhead : List Control) {s : House}
    {curDev : Nat} {ret : Int} {faceRet : ℚ} (h : ¬ Relocks s.devs curDev ret faceRet) :
    (announceShowRelock ctrlPhead s curDev ret faceRet).devs = s.devs ∧
      (announceShowRelock ctrlPhead s curDev ret faceRet).gpio = s.gpio := by
  unfold announceShowRelock
  split
  · have hvoice : ¬ Relocks (createVoice ctrlPhead (rewriteForVoice s).1).devs curDev ret
        faceRet := by simpa using h
    have hshow := showAndRelock_of_not_relocks hvoice (rewriteForVoice s).2
    simpa using hshow
  · exact showAndRelock_of_not_relocks h 0

/-! ## The outcomes of a command -/

variable (ctrlPhead) in
/-- A key that no device has. -/
theorem handldDevice_of_none {s : House} (score : ℚ)
    (hfind : findDeviceByKey s.devs (s.buffer 2).toNat = none) :
    handldDevice ctrlPhead score s = s := by
  simp only [handldDevice, hfind]

variable (ctrlPhead) in
/-- A device without a face check. -/
theorem handldDevice_of_open {s : House} {i : Nat} {d : Gdevice} (score : ℚ)
    (hfind : findDeviceByKey s.devs (s.buffer 2).toNat = some i)
    (hd : s.devs[i]? = some d) (hface : d.checkFaceStatus ≠ 1) :
    (handldDevice ctrlPhead score s).devs =
        assignStatus s.devs i (statusOf (s.buffer 3)) ∧
      (handldDevice ctrlPhead score s).gpio =
        (setGpioGdeviceStatus
          (some { d with gpioStatus := statusOf (s.buffer 3) })).1.reverse ++ s.gpio := by
  have hdev := getElem?_assignStatus_self hd (statusOf (s.buffer 3))
  have hgate : checksFace (assignStatus s.devs i (statusOf (s.buffer 3))) i = false := by
    simp [checksFace, hdev, hface]
  have hnot : ¬ checksFace (assignStatus s.devs i (statusOf (s.buffer 3))) i = true := by
    rw [hgate]
    exact Bool.false_ne_true
  rw [← hdev]
  simp only [handldDevice, hfind, House.apply, hgate, Bool.false_eq_true, if_false]
  exact announceShowRelock_of_not_relocks ctrlPhead fun h => hnot h.1

variable (ctrlPhead) in
/-- A device with a face check, and a score that is not above 0.5. -/
theorem handldDevice_of_denied {s : House} {i : Nat} {d : Gdevice} {score : ℚ}
    (hfind : findDeviceByKey s.devs (s.buffer 2).toNat = some i)
    (hd : s.devs[i]? = some d) (hface : d.checkFaceStatus = 1)
    (hscore : ¬ score > 1 / 2) :
    (handldDevice ctrlPhead score s).devs =
        assignStatus s.devs i (statusOf (s.buffer 3)) ∧
      (handldDevice ctrlPhead score s).gpio = s.gpio := by
  have hdev := getElem?_assignStatus_self hd (statusOf (s.buffer 3))
  have hgate : checksFace (assignStatus s.devs i (statusOf (s.buffer 3))) i = true := by
    simp [checksFace, hdev, hface]
  simp only [handldDevice, hfind, House.apply, if_pos hgate, if_neg hscore]
  exact announceShowRelock_of_not_relocks ctrlPhead fun h => hscore h.2.2

variable (ctrlPhead) in
/-- A device with a face check, and a score above 0.5: the pin is written twice, the
second time with `HIGH`. -/
theorem handldDevice_of_granted {s : House} {i : Nat} {d : Gdevice} {score : ℚ}
    (hfind : findDeviceByKey s.devs (s.buffer 2).toNat = some i)
    (hd : s.devs[i]? = some d) (hface : d.checkFaceStatus = 1) (hscore : score > 1 / 2) :
    (handldDevice ctrlPhead score s).devs =
        assignStatus (assignStatus s.devs i (statusOf (s.buffer 3))) i HIGH ∧
      (handldDevice ctrlPhead score s).gpio =
        (setGpioGdeviceStatus (some { d with gpioStatus := HIGH })).1.reverse ++
          ((setGpioGdeviceStatus
            (some { d with gpioStatus := statusOf (s.buffer 3) })).1.reverse ++ s.gpio) := by
  have hdev := getElem?_assignStatus_self hd (statusOf (s.buffer 3))
  have hgate : checksFace (assignStatus s.devs i (statusOf (s.buffer 3))) i = true := by
    simp [checksFace, hdev, hface]
  have hhigh : (assignStatus (assignStatus s.devs i (statusOf (s.buffer 3))) i HIGH)[i]? =
      some { d with gpioStatus := HIGH } :=
    getElem?_assignStatus_self hdev HIGH
  rw [← hdev, ← hhigh]
  simp only [handldDevice, hfind, House.apply, if_pos hgate, if_pos hscore]
  refine announceShowRelock_of_relocks ctrlPhead ⟨hgate, ?_, hscore⟩
  rw [hdev, setGpioGdeviceStatus_ret]

/-! ## The effect of a command -/

/-- What a command leaves on pin `p`, when it has an effect on it: its device is the first
of the list with its key. -/
def effect (devs : List Gdevice) (p : Int) (c : Command) : Option Int :=
  match devs.find? fun d => d.key == (c.frame.key.toNat : Int) with
  | none => none
  | some d =>
    if d.gpioPin = p then
      if d.checkFaceStatus = 1 then
        if c.score > 1 / 2 then some HIGH else none
      else some (statusOf c.frame.status)
    else none

/-- The effect depends on the configuration alone. -/
theorem SameConfig.effect {devs devs' : List Gdevice} (h : SameConfig devs devs') (p : Int)
    (c : Command) : effect devs' p c = effect devs p c := by
  unfold HomeControl.effect
  rw [find?_key, find?_key, h.findDeviceByKey]
  cases hfind : HomeControl.findDeviceByKey devs c.frame.key.toNat with
  | none => rfl
  | some i =>
    obtain ⟨d, hd, -⟩ := findDeviceByKey_eq_some_iff.mp hfind
    obtain ⟨v, hv⟩ := h.getElem? hd
    simp only [Option.bind_some, hd, hv]

/-- One command, executed alone on its own message. -/
def runCommand (ctrlPhead : List Control) (s : House) (c : Command) : House :=
  handldDevice ctrlPhead c.score (s.receive c.frame.bytes)

/-- A command changes at most the `gpio_status` of the device it resolves to. -/
theorem runCommand_devs (ctrlPhead : List Control) (s : House) (c : Command) :
    SameConfig s.devs (runCommand ctrlPhead s c).devs ∧
      ∀ i, findDeviceByKey s.devs c.frame.key.toNat ≠ some i →
        (runCommand ctrlPhead s c).devs[i]? = s.devs[i]? := by
  unfold runCommand
  cases hfind : findDeviceByKey s.devs c.frame.key.toNat with
  | none =>
    rw [handldDevice_of_none ctrlPhead (s := s.receive c.frame.bytes) c.score hfind]
    exact ⟨SameConfig.refl _, fun i _ => rfl⟩
  | some i =>
    obtain ⟨d, hd, -⟩ := findDeviceByKey_eq_some_iff.mp hfind
    have hone : ∀ v, SameConfig s.devs (assignStatus s.devs i v) ∧
        ∀ j, some i ≠ some j → (assignStatus s.devs i v)[j]? = s.devs[j]? := by
      intro v
      refine ⟨sameConfig_assignStatus s.devs i v, fun j hj => ?_⟩
      exact getElem?_assignStatus_ne s.devs (fun h => hj (congrArg some h)) v
    by_cases hface : d.checkFaceStatus = 1
    · by_cases hscore : c.score > 1 / 2
      · rw [(handldDevice_of_granted ctrlPhead (s := s.receive c.frame.bytes) hfind hd hface
          hscore).1]
        refine ⟨(hone _).1.trans (sameConfig_assignStatus _ i HIGH), fun j hj => ?_⟩
        rw [getElem?_assignStatus_ne _ (fun h => hj (congrArg some h))]
        exact (hone _).2 j hj
      · rw [(handldDevice_of_denied ctrlPhead (s := s.receive c.frame.bytes) hfind hd hface
          hscore).1]
        exact hone _
    · rw [(handldDevice_of_open ctrlPhead (s := s.receive c.frame.bytes) c.score hfind hd hface).1]
      exact hone _

/-- The level of a pin after one command. -/
theorem level_runCommand (ctrlPhead : List Control) (init : Int → Int) (s : House)
    (c : Command) {p : Int} (hp : p ≠ -1) :
    level init (runCommand ctrlPhead s c).gpio p =
      (effect s.devs p c).getD (level init s.gpio p) := by
  unfold runCommand effect
  rw [find?_key]
  cases hfind : findDeviceByKey s.devs c.frame.key.toNat with
  | none =>
    rw [handldDevice_of_none ctrlPhead (s := s.receive c.frame.bytes) c.score hfind]
    rfl
  | some i =>
    obtain ⟨d, hd, -⟩ := findDeviceByKey_eq_some_iff.mp hfind
    simp only [Option.bind_some, hd]
    by_cases hface : d.checkFaceStatus = 1
    · by_cases hscore : c.score > 1 / 2
      · rw [(handldDevice_of_granted ctrlPhead (s := s.receive c.frame.bytes) hfind hd hface
          hscore).2, level_setGpio, level_setGpio]
        by_cases hpin : d.gpioPin = p
        · rw [if_pos ⟨hpin, hp, HIGH_ne_neg_one⟩, if_pos hpin, if_pos hface, if_pos hscore]
          rfl
        · rw [if_neg fun h => hpin h.1, if_neg fun h => hpin h.1, if_neg hpin]
          rfl
      · rw [(handldDevice_of_denied ctrlPhead (s := s.receive c.frame.bytes) hfind hd hface
          hscore).2, if_pos hface, if_neg hscore, ite_self]
        rfl
    · rw [(handldDevice_of_open ctrlPhead (s := s.receive c.frame.bytes) c.score hfind hd hface).2,
        level_setGpio, if_neg hface]
      by_cases hpin : d.gpioPin = p
      · rw [if_pos ⟨hpin, hp, statusOf_ne_neg_one _⟩, if_pos hpin]
        rfl
      · rw [if_neg fun h => hpin h.1, if_neg hpin]
        rfl

/-! ## A list of commands -/

/-- The commands one after the other, each copied into the buffer when the one
before has finished. -/
def runCommands (ctrlPhead : List Control) (s : House) (cs : List Command) : House :=
  cs.foldl (runCommand ctrlPhead) s

theorem runCommands_concat (s : House) (cs : List Command) (c : Command) :
    runCommands ctrlPhead s (cs ++ [c]) =
      runCommand ctrlPhead (runCommands ctrlPhead s cs) c := by
  unfold runCommands
  rw [List.foldl_append]
  rfl

/-- The level of a pin after a list of commands is that of the last command with an
effect on it. -/
theorem level_runCommands (init : Int → Int) (s : House) (cs : List Command) {p : Int}
    (hp : p ≠ -1) :
    level init (runCommands ctrlPhead s cs).gpio p =
      lastWrite (effect s.devs p) (level init s.gpio p) cs := by
  refine foldl_observe (runCommand ctrlPhead) (fun t => level init t.gpio p)
    (effect s.devs p) (fun t => SameConfig s.devs t.devs) ?_ ?_ cs s (SameConfig.refl _)
  · intro t c ht
    exact ht.trans (runCommand_devs ctrlPhead t c).1
  · intro t c ht
    rw [level_runCommand ctrlPhead init t c hp, ht.effect]

end HomeControl
