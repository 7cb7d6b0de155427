import HomeControl.Effect

/-!
# What is announced of the lock

After a command with the key 0x44, `handld_device` hands the voice module a frame that
says that the door was opened, or that it was not.  The frame depends on the face score,
and the level of the pin on the payload.

* `announced_lockCommand` gives the frame, and `drivesLow_lockCommand` says when the pin
  is driven `LOW`.
* `announcesOpening_iff` says when the frame tells the truth: where there is a voice module,
  unless the command is granted and its payload is not 0.
-/

namespace HomeControl

open SharedMemory

variable {ctrlPhead : List Control}

/-! ## The frame -/

@[simp] theorem rewriteForVoice_announced (s : House) :
    (rewriteForVoice s).1.announced = s.announced := by
  unfold rewriteForVoice
  split_ifs <;> rfl

@[simp] theorem showAndRelock_announced (s : House) (curDev : Nat) (ret oledFlag : Int)
    (faceRet : ℚ) : (showAndRelock s curDev ret oledFlag faceRet).announced = s.announced := by
  unfold showAndRelock
  dsimp only
  split <;> rfl

/-- Where the device and the module list ask for it, the frame in the buffer is handed to
the voice module once it is rewritten. -/
theorem announceShowRelock_announced (s : House) {curDev : Nat}
    (hvoice : setsVoice s.devs curDev = true)
    (hmodule : (voiceControl ctrlPhead).map (·.set) = some .voiceSet) (ret : Int)
    (faceRet : ℚ) :
    (announceShowRelock ctrlPhead s curDev ret faceRet).announced =
      firstCells (rewriteForVoice s).1.buffer 6 :: s.announced := by
  have hsome : (voiceControl ctrlPhead).isSome = true := by
    rw [← Option.isSome_map (f := fun c : Control => c.set), hmodule]
    rfl
  rw [announceShowRelock, if_pos ⟨hvoice, hsome⟩, showAndRelock_announced, createVoice, hmodule,
    ← rewriteForVoice_announced s]
  rfl

/-- Where the walk over the module list does not find the voice module, nothing is handed to
it. -/
theorem announceShowRelock_announced_of_ne (s : House) {curDev : Nat}
    (hmodule : (voiceControl ctrlPhead).map (·.set) ≠ some .voiceSet) (ret : Int)
    (faceRet : ℚ) :
    (announceShowRelock ctrlPhead s curDev ret faceRet).announced = s.announced := by
  unfold announceShowRelock
  split
  · rw [showAndRelock_announced, ← rewriteForVoice_announced s]
    show (House.apply _ (.pthreadCreate _)).announced = _
    rw [House.apply, if_neg hmodule]
  · exact showAndRelock_announced s curDev ret 0 faceRet

/-- The two rewrites that concern the lock. -/
theorem firstCells_rewriteForVoice {s : House} (hvalid : validData s.buffer = true)
    (hkey : s.buffer 2 = 0x44) {mark : UInt8} (hmark : mark = 0x2E ∨ mark = 0x2F)
    (hstatus : s.buffer 3 = mark) :
    firstCells (rewriteForVoice s).1.buffer 6 = (Frame.mk mark mark).bytes := by
  have hbuffer : (rewriteForVoice s).1.buffer = Function.update s.buffer 2 mark := by
    have halarm : ¬ (s.buffer 2 = 0x45 ∧ s.buffer 3 = 0x00) := by
      rw [hkey]
      exact fun h => absurd h.1 (by decide)
    rw [rewriteForVoice_of_not_alarm s halarm, hkey, hstatus]
    rcases hmark with rfl | rfl <;> rfl
  obtain ⟨h0, h1, h4, h5⟩ := validData_iff.mp hvalid
  rw [hbuffer]
  show [s.buffer 0, s.buffer 1, mark, s.buffer 3, s.buffer 4, s.buffer 5] = _
  rw [h0, h1, h4, h5, hstatus]
  rfl

/-! ## One command for the lock -/

/-- The device that the key 0x44 resolves to asks for the face check and for the
announcement, and has a pin. -/
structure LockAt (devs : List Gdevice) (i : Nat) (d : Gdevice) : Prop where
  find : findDeviceByKey devs 0x44 = some i
  device : devs[i]? = some d
  checksFace : d.checkFaceStatus = 1
  setsVoice : d.voiceSetStatus = 1
  pin : d.gpioPin ≠ -1

/-- `handld_device` on a frame with the key 0x44, alone, from a state in which nothing
has been announced or driven. -/
def lockCommand (ctrlPhead : List Control) (devs : List Gdevice) (payload : UInt8)
    (score : ℚ) : House :=
  runCommand ctrlPhead (.initial devs) ⟨⟨0x44, payload⟩, score⟩

variable {devs : List Gdevice} {i : Nat} {d : Gdevice}

/-- The frame that a command for the lock announces carries the mark of its score. -/
theorem announced_lockCommand (hlock : LockAt devs i d) (payload : UInt8) (score : ℚ) :
    (lockCommand ctrlPhead devs payload score).announced =
      if (voiceControl ctrlPhead).map (·.set) = some .voiceSet then
        [if score > 1 / 2 then (Frame.mk 0x2E 0x2E).bytes else (Frame.mk 0x2F 0x2F).bytes]
      else [] := by
  have hdev := getElem?_assignStatus_self hlock.device (statusOf payload)
  have hgate : checksFace (((House.initial devs).receive (Frame.mk 0x44 payload).bytes).apply
      (.assignStatus i (statusOf payload))).devs i = true := by
    show checksFace (assignStatus devs i (statusOf payload)) i = true
    simp [checksFace, hdev, hlock.checksFace]
  have hvoice : setsVoice (assignStatus devs i (statusOf payload)) i = true := by
    simp [setsVoice, hdev, hlock.setsVoice]
  have hfind : findDeviceByKey ((House.initial devs).receive (Frame.mk 0x44 payload).bytes).devs
      (((House.initial devs).receive (Frame.mk 0x44 payload).bytes).buffer 2).toNat = some i :=
    hlock.find
  have hstatus : statusOf
      (((House.initial devs).receive (Frame.mk 0x44 payload).bytes).buffer 3) =
        statusOf payload := rfl
  simp only [lockCommand, runCommand, handldDevice, hfind, hstatus]
  rw [if_pos hgate]
  by_cases hmodule : (voiceControl ctrlPhead).map (·.set) = some .voiceSet
  · rw [if_pos hmodule]
    by_cases hscore : score > 1 / 2
    · rw [if_pos hscore, if_pos hscore,
        announceShowRelock_announced _ (by exact hvoice) hmodule,
        firstCells_rewriteForVoice (by rfl) rfl (.inl rfl) rfl]
      rfl
    · rw [if_neg hscore, if_neg hscore,
        announceShowRelock_announced _ (by exact hvoice) hmodule,
        firstCells_rewriteForVoice (by rfl) rfl (.inr rfl) rfl]
      rfl
  · rw [if_neg hmodule]
    by_cases hscore : score > 1 / 2
    · rw [if_pos hscore, announceShowRelock_announced_of_ne _ hmodule]
      rfl
    · rw [if_neg hscore, announceShowRelock_announced_of_ne _ hmodule]
      rfl

/-- The pin is driven `LOW` when the command is granted and its payload is 0. -/
theorem drivesLow_lockCommand (hlock : LockAt devs i d) (payload : UInt8) (score : ℚ) :
    .digitalWrite d.gpioPin LOW ∈ (lockCommand ctrlPhead devs payload score).gpio ↔
      score > 1 / 2 ∧ payload = 0 := by
  by_cases hscore : score > 1 / 2
  · have hgpio := (handldDevice_of_granted ctrlPhead
      (s := (House.initial devs).receive (Frame.mk 0x44 payload).bytes)
      hlock.find hlock.device hlock.checksFace hscore).2
    rw [lockCommand, runCommand, hgpio, List.mem_append, List.mem_append, List.mem_reverse,
      List.mem_reverse, digitalWrite_mem_setGpio, digitalWrite_mem_setGpio]
    have hstatus : statusOf
        (((House.initial devs).receive (Frame.mk 0x44 payload).bytes).buffer 3) =
          statusOf payload := rfl
    rw [hstatus, eq_comm (a := LOW), eq_comm (a := LOW), statusOf_eq_LOW]
    constructor
    · rintro (⟨-, hhigh, -⟩ | ⟨-, hzero, -⟩ | hnil)
      · exact absurd hhigh.symm LOW_ne_HIGH
      · exact ⟨hscore, hzero⟩
      · cases hnil
    · intro ⟨_, hzero⟩
      exact .inr (.inl ⟨rfl, hzero, hlock.pin, statusOf_ne_neg_one payload⟩)
  · have hgpio := (handldDevice_of_denied ctrlPhead
      (s := (House.initial devs).receive (Frame.mk 0x44 payload).bytes)
      hlock.find hlock.device hlock.checksFace hscore).2
    rw [lockCommand, runCommand, hgpio]
    refine ⟨fun hmem => ?_, fun h => absurd h.1 hscore⟩
    cases hmem

/-- The frame with bytes (2E, 2E) is announced exactly when the pin was driven `LOW`, and
the frame with bytes (2F, 2F) exactly when it was not. -/
def AnnouncesOpening (ctrlPhead : List Control) (devs : List Gdevice) (pin : Int)
    (payload : UInt8) (score : ℚ) : Prop :=
  ((Frame.mk 0x2E 0x2E).bytes ∈ (lockCommand ctrlPhead devs payload score).announced ↔
      .digitalWrite pin LOW ∈ (lockCommand ctrlPhead devs payload score).gpio) ∧
    ((Frame.mk 0x2F 0x2F).bytes ∈ (lockCommand ctrlPhead devs payload score).announced ↔
      .digitalWrite pin LOW ∉ (lockCommand ctrlPhead devs payload score).gpio)

/-- For every lock, every module list, every payload and every score: the announcement tells
what happened, exactly when `handld_device` finds the voice module, and the payload is 0 or
the command is denied. -/
theorem announcesOpening_iff (ctrlPhead : List Control) (devs : List Gdevice) (i : Nat)
    (d : Gdevice) (hlock : LockAt devs i d) (payload : UInt8) (score : ℚ) :
    AnnouncesOpening ctrlPhead devs d.gpioPin payload score ↔
      (voiceControl ctrlPhead).map (·.set) = some .voiceSet ∧
        (payload = 0 ∨ ¬ score > 1 / 2) := by
  have hne : (Frame.mk 0x2F 0x2F).bytes ≠ (Frame.mk 0x2E 0x2E).bytes := by decide
  rw [AnnouncesOpening, announced_lockCommand hlock, drivesLow_lockCommand hlock]
  by_cases hmodule : (voiceControl ctrlPhead).map (·.set) = some .voiceSet
  · rw [if_pos hmodule, and_iff_right hmodule]
    by_cases hscore : score > 1 / 2
    · simp only [hscore, if_true, List.mem_singleton, hne, true_and, true_iff, false_iff, not_not,
        and_self, not_true_eq_false, or_false]
    · simp only [hscore, if_false, List.mem_singleton, hne.symm, false_and, not_false_eq_true,
        and_self, or_true]
  · -- Neither frame is announced, and the pin either was driven `LOW` or was not.
    rw [if_neg hmodule]
    refine ⟨fun ⟨hopened, hfailed⟩ => ?_, fun h => absurd h.1 hmodule⟩
    have hnotLow := fun hlow => List.not_mem_nil (hopened.mpr hlow)
    exact absurd (hfailed.mpr hnotLow) List.not_mem_nil

/-- The module list of `main`, as far as the handlers look at it. -/
def shippedControls : List Control :=
  [⟨ascii "receive", .receiveSet⟩, ⟨ascii "smoke", .smokeSet⟩, ⟨ascii "socket", .tcpsocketSet⟩,
    ⟨ascii "voice", .voiceSet⟩]

theorem lockAt_peripheral : LockAt peripheral 1 ⟨ascii "lock", 0x44, 8, OUTPUT, HIGH, 1, 1⟩ :=
  ⟨by decide, rfl, rfl, rfl, by decide⟩

/-- A granted request to open the lock. -/
theorem announcesOpening_peripheral :
    AnnouncesOpening shippedControls peripheral 8 0x00 (9 / 10) :=
  (announcesOpening_iff shippedControls peripheral 1 _ lockAt_peripheral 0x00 (9 / 10)).mpr
    ⟨by decide +kernel, .inl rfl⟩

/-- A granted request to close the lock is announced as an opening. -/
theorem not_announcesOpening_peripheral :
    ¬ ∀ payload score, AnnouncesOpening shippedControls peripheral 8 payload score := by
  intro hall
  have hopened := (hall 0x01 (9 / 10)).1
  have hannounced : (Frame.mk 0x2E 0x2E).bytes ∈
      (lockCommand shippedControls peripheral 0x01 (9 / 10)).announced := by decide +kernel
  have hgpio : .digitalWrite 8 LOW ∉
      (lockCommand shippedControls peripheral 0x01 (9 / 10)).gpio := by decide +kernel
  exact hgpio (hopened.mp hannounced)

end HomeControl
