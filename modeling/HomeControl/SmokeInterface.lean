import HomeControl.Gdevice
import HomeControl.Frame

/-!
# The smoke producer

`smoke_get` reads the sensor, sends the alarm command for every `LOW` reading, and
sends the all-clear command for the first `HIGH` reading after an alarm.  It builds
both in one buffer that it keeps for the whole thread.  `SmokeGet.read` is one round
of its loop up to the call of `mq_send`, and `SmokeGet.returned` what follows the
return of that call.
-/

namespace HomeControl

open SharedMemory

/-- The local state of `smoke_get`.  `sending` is the message while `mq_send` has not
returned. -/
structure SmokeGet where
  buffer : Buffer
  status : Int
  switchStatus : Int
  sending : Option Msg

def SmokeGet.start : SmokeGet :=
  { buffer := memcpy (memset 0) [0xAA, 0x55, 0x00, 0x00, 0x55, 0xAA]
    status := HIGH
    switchStatus := 0
    sending := none }

/-- `digitalRead`, the two branches, and the call of `mq_send`. -/
def SmokeGet.read (s : SmokeGet) (status : Int) : SmokeGet :=
  if status = LOW then
    let buffer := Function.update (Function.update s.buffer 2 0x45) 3 0x00
    { buffer := buffer, status := status, switchStatus := 1
      sending := some (firstCells buffer 6) }
  else if status = HIGH ∧ s.switchStatus = 1 then
    let buffer := Function.update (Function.update s.buffer 2 0x45) 3 0x01
    { buffer := buffer, status := status, switchStatus := 0
      sending := some (firstCells buffer 6) }
  else { s with status := status }

/-- `mq_send` has returned.  After a successful all-clear byte 2 is reset; a failed
call skips the rest of the round. -/
def SmokeGet.returned (s : SmokeGet) (success : Bool) : SmokeGet :=
  { s with
    buffer := if s.status ≠ LOW ∧ success then Function.update s.buffer 2 0x00 else s.buffer
    sending := none }

/-- The alarm command and the all-clear command. -/
def alarmFrame : Frame := ⟨0x45, 0x00⟩
def allClearFrame : Frame := ⟨0x45, 0x01⟩

/-- The bytes of the buffer that no branch writes. -/
def SmokeGet.Framed (s : SmokeGet) : Prop := validData s.buffer = true

theorem SmokeGet.framed_start : SmokeGet.start.Framed := rfl

theorem validData_update {buffer : Buffer} {i : Nat} (hi : i = 2 ∨ i = 3) (v : UInt8)
    (h : validData buffer = true) : validData (Function.update buffer i v) = true := by
  have hother : ∀ j, j = 0 ∨ j = 1 ∨ j = 4 ∨ j = 5 →
      Function.update buffer i v j = buffer j := by
    intro j hj
    have hne : j ≠ i := by omega
    exact Function.update_of_ne hne v buffer
  obtain ⟨h0, h1, h4, h5⟩ := validData_iff.mp h
  refine validData_iff.mpr ⟨?_, ?_, ?_, ?_⟩
  · rw [hother 0 (by omega), h0]
  · rw [hother 1 (by omega), h1]
  · rw [hother 4 (by omega), h4]
  · rw [hother 5 (by omega), h5]

/-- What the buffer holds once a branch has written its two bytes. -/
theorem firstCells_branch {buffer : Buffer} (h : validData buffer = true) (v : UInt8) :
    firstCells (Function.update (Function.update buffer 2 0x45) 3 v) 6 =
      (Frame.mk 0x45 v).bytes := by
  have hvalid := validData_update (.inr rfl) v (validData_update (.inl rfl) 0x45 h)
  rw [firstCells_of_validData hvalid]
  rfl

theorem SmokeGet.framed_read {s : SmokeGet} (h : s.Framed) (status : Int) :
    (s.read status).Framed := by
  unfold SmokeGet.read SmokeGet.Framed
  split
  · exact validData_update (.inr rfl) _ (validData_update (.inl rfl) _ h)
  · split
    · exact validData_update (.inr rfl) _ (validData_update (.inl rfl) _ h)
    · exact h

theorem SmokeGet.framed_returned {s : SmokeGet} (h : s.Framed) (success : Bool) :
    (s.returned success).Framed := by
  unfold SmokeGet.returned SmokeGet.Framed
  split
  · exact validData_update (.inl rfl) _ h
  · exact h

/-- The three outcomes of a reading. -/
theorem SmokeGet.read_cases {s : SmokeGet} (h : s.Framed) (status : Int) :
    (status = LOW ∧ (s.read status).switchStatus = 1 ∧
      (s.read status).sending = some alarmFrame.bytes) ∨
    (status = HIGH ∧ s.switchStatus = 1 ∧ (s.read status).switchStatus = 0 ∧
      (s.read status).sending = some allClearFrame.bytes) ∨
    (status ≠ LOW ∧ ¬ (status = HIGH ∧ s.switchStatus = 1) ∧
      (s.read status).switchStatus = s.switchStatus ∧
      (s.read status).sending = s.sending) := by
  unfold SmokeGet.read
  by_cases hlow : status = LOW
  · rw [if_pos hlow]
    exact .inl ⟨hlow, rfl, congrArg some (firstCells_branch h 0x00)⟩
  · rw [if_neg hlow]
    by_cases hhigh : status = HIGH ∧ s.switchStatus = 1
    · rw [if_pos hhigh]
      exact .inr (.inl ⟨hhigh.1, hhigh.2, rfl, congrArg some (firstCells_branch h 0x01)⟩)
    · rw [if_neg hhigh]
      exact .inr (.inr ⟨hlow, hhigh, rfl, rfl⟩)

@[simp] theorem SmokeGet.status_read (s : SmokeGet) (status : Int) :
    (s.read status).status = status := by
  unfold SmokeGet.read
  split
  · rfl
  · split <;> rfl

end HomeControl
