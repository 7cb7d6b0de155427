import HomeControl.Gdevice
import HomeControl.Frame
import Mathlib.Data.List.Infix

/-!
# The state that the handlers share

Every `handld_device` thread works on the same objects: the device list
`pdevhead`, the buffer of the one `recv_msg`, the GPIO pins and the display.
`House` is that state.  `Action` lists the ways in which a thread changes it,
each of them one access to one object, and `House.apply` performs one.

The lemmas say which component each action leaves alone.  They are the frame
conditions of the later proofs: `apply_devs`, `apply_gpio` and `apply_buffer`
name the only action that changes the device list, the pins and the buffer.
-/

namespace HomeControl

open SharedMemory

/-- The routine behind the `set` pointer of a module. -/
inductive SetRoutine where
  | voiceSet
  | tcpsocketSet
  | smokeSet
  | receiveSet
  deriving DecidableEq, Repr

/-- `struct control`, with the two fields that `handld_device` reads. -/
structure Control where
  controlName : CString
  set : SetRoutine
  deriving DecidableEq, Repr

/-- `strstr`, as a truth value. -/
def strstr (haystack needle : CString) : Bool := decide (needle <:+: haystack)

/-- The walk over the module list: the first module whose name contains
`voice`. -/
def voiceControl (ctrlPhead : List Control) : Option Control :=
  ctrlPhead.find? fun c => strstr c.controlName (ascii "voice")

/-- What the handlers share.  The logs have the newest entry first: `gpio` the
calls to the GPIO library, `announced` the six bytes in the buffer at each
creation of a `voice_set` thread, `oled` the lines shown. -/
structure House where
  devs : List Gdevice
  buffer : Buffer
  gpio : List GpioCall := []
  announced : List Msg := []
  oled : List CString := []

/-- The state before the first command. -/
def House.initial (devs : List Gdevice) : House := { devs := devs, buffer := memset 0 }

/-- One access of a handler to the shared state. -/
inductive Action where
  | skip
  | writeByte (i : Nat) (v : UInt8)
  | assignStatus (dev : Nat) (v : Int)
  | setGpio (dev : Nat)
  | pthreadCreate (set : Option SetRoutine)
  | oledShow (line : CString)
  deriving DecidableEq, Repr

def House.apply (s : House) : Action → House
  | .skip => s
  | .writeByte i v => { s with buffer := Function.update s.buffer i v }
  | .assignStatus i v => { s with devs := HomeControl.assignStatus s.devs i v }
  | .setGpio i =>
    { s with gpio := (setGpioGdeviceStatus s.devs[i]?).1.reverse ++ s.gpio }
  | .pthreadCreate set =>
    if set = some .voiceSet then
      { s with announced := firstCells s.buffer 6 :: s.announced }
    else s
  | .oledShow line => { s with oled := line :: s.oled }

/-- The copy of a message into `recv_msg->buffer`. -/
def House.receive (s : House) (m : Msg) : House :=
  { s with buffer := memcpy s.buffer m }

/-! ## What an action leaves alone -/

@[simp] theorem House.apply_skip (s : House) : s.apply .skip = s := rfl

theorem House.apply_devs (s : House) {a : Action}
    (h : ∀ i v, a ≠ .assignStatus i v) : (s.apply a).devs = s.devs := by
  cases a with
  | assignStatus i v => exact absurd rfl (h i v)
  | pthreadCreate set =>
    simp only [House.apply]
    split <;> rfl
  | _ => rfl

theorem House.apply_gpio (s : House) {a : Action} (h : ∀ i, a ≠ .setGpio i) :
    (s.apply a).gpio = s.gpio := by
  cases a with
  | setGpio i => exact absurd rfl (h i)
  | pthreadCreate set =>
    simp only [House.apply]
    split <;> rfl
  | _ => rfl

theorem House.apply_buffer (s : House) {a : Action}
    (h : ∀ i v, a ≠ .writeByte i v) : (s.apply a).buffer = s.buffer := by
  cases a with
  | writeByte i v => exact absurd rfl (h i v)
  | pthreadCreate set =>
    simp only [House.apply]
    split <;> rfl
  | _ => rfl

/-- No action changes the configuration of a device. -/
theorem House.sameConfig_apply (s : House) (a : Action) :
    SameConfig s.devs (s.apply a).devs := by
  cases a with
  | assignStatus i v => exact sameConfig_assignStatus s.devs i v
  | _ =>
    rw [House.apply_devs s (by simp)]
    exact SameConfig.refl _

end HomeControl
