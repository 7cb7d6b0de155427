import HomeControl.Lib.Memory

/-!
# Command frames

A command is the six bytes `AA 55 k s 55 AA`.  Byte 2 is the key of a device and
byte 3 the payload: 0 drives the pin `LOW`, any other value drives it `HIGH`.

* `Frame` holds the two bytes that vary, so every `Frame` is well formed, and
  `Frame.bytes` is its layout.
* `validData` is the test that `voice_get`, `tcpsocket_get` and `receive_get`
  make on the first six bytes of their buffers.  `firstCells_of_validData` and
  `validData_memcpy_bytes` say that it accepts exactly the layouts of frames.
* `IoResult` is what `read`, `recv` and `mq_receive` return.
-/

namespace HomeControl

open SharedMemory

/-- A byte buffer, read at an offset. -/
abbrev Buffer := Cells UInt8

/-- The bytes of one message. -/
abbrev Msg := List UInt8

/-- A well-formed command: the key of a device and the payload. -/
structure Frame where
  key : UInt8
  status : UInt8
  deriving DecidableEq, Repr

/-- The layout of a frame. -/
def Frame.bytes (f : Frame) : Msg := [0xAA, 0x55, f.key, f.status, 0x55, 0xAA]

/-- The test on bytes 0, 1, 4 and 5 that the source marks "valid data". -/
def validData (buffer : Buffer) : Bool :=
  buffer 0 == 0xAA && buffer 1 == 0x55 && buffer 4 == 0x55 && buffer 5 == 0xAA

/-- The frame in the first six bytes of a list, if they are one. -/
def Frame.ofBytes? : List UInt8 → Option Frame
  | b0 :: b1 :: key :: status :: b4 :: b5 :: _ =>
    if b0 = 0xAA ∧ b1 = 0x55 ∧ b4 = 0x55 ∧ b5 = 0xAA then some ⟨key, status⟩ else none
  | _ => none

@[simp] theorem Frame.length_bytes (f : Frame) : f.bytes.length = 6 := rfl

theorem validData_iff {buffer : Buffer} :
    validData buffer = true ↔
      buffer 0 = 0xAA ∧ buffer 1 = 0x55 ∧ buffer 4 = 0x55 ∧ buffer 5 = 0xAA := by
  simp only [validData, Bool.and_eq_true, beq_iff_eq, and_assoc]

/-- What the test accepts is the layout of a frame. -/
theorem firstCells_of_validData {buffer : Buffer} (h : validData buffer = true) :
    firstCells buffer 6 = (Frame.mk (buffer 2) (buffer 3)).bytes := by
  obtain ⟨h0, h1, h4, h5⟩ := validData_iff.mp h
  show [buffer 0, buffer 1, buffer 2, buffer 3, buffer 4, buffer 5] = _
  rw [Frame.bytes, h0, h1, h4, h5]

/-- The test accepts every frame that was copied to the start of the buffer. -/
theorem validData_memcpy_bytes (buffer : Buffer) (f : Frame) :
    validData (memcpy buffer f.bytes) = true := rfl

/-- Reading a frame back from its layout, whatever follows it. -/
theorem Frame.ofBytes?_bytes_append (f : Frame) (rest : List UInt8) :
    Frame.ofBytes? (f.bytes ++ rest) = some f := rfl

theorem Frame.ofBytes?_eq_some_iff {bs : List UInt8} {f : Frame} :
    Frame.ofBytes? bs = some f ↔ ∃ rest, bs = f.bytes ++ rest := by
  constructor
  · intro h
    unfold Frame.ofBytes? at h
    split at h
    · split at h
      · rename_i b0 b1 key status b4 b5 rest hb
        obtain ⟨rfl, rfl, rfl, rfl⟩ := hb
        cases h
        exact ⟨rest, rfl⟩
      · cases h
    · cases h
  · rintro ⟨rest, rfl⟩
    exact Frame.ofBytes?_bytes_append f rest

/-- What a read returns: `none` for the error value `-1`, and otherwise the
bytes that were stored, none of them for 0. -/
abbrev IoResult := Option (List UInt8)

/-- The returned count. -/
def IoResult.ret : IoResult → Int
  | none => -1
  | some bs => bs.length

/-- The bytes that the call stored. -/
def IoResult.stored : IoResult → List UInt8
  | none => []
  | some bs => bs

/-- The frame in bytes 0 to 5 of one read result, if they are one. -/
def IoResult.frame? (r : IoResult) : Option Frame := Frame.ofBytes? r.stored

/-- A call that returned no positive count stored nothing. -/
theorem IoResult.stored_eq_nil {r : IoResult} (h : ¬ r.ret > 0) : r.stored = [] := by
  cases r with
  | none => rfl
  | some bs =>
    have hlen : bs.length = 0 := by
      simp only [IoResult.ret] at h
      omega
    exact List.eq_nil_of_length_eq_zero hlen

theorem IoResult.frame?_eq_none {r : IoResult} (h : ¬ r.ret > 0) : r.frame? = none := by
  rw [IoResult.frame?, IoResult.stored_eq_nil h]
  rfl

/-- On a cleared buffer the test accepts a read result exactly when the result
itself starts with a frame: no byte of an earlier read can complete it. -/
theorem frame?_eq_of_validData (buffer : Buffer) (hclear : ∀ i, i < 6 → buffer i = 0)
    (r : IoResult) :
    r.frame? = if validData (memcpy buffer r.stored)
      then some ⟨memcpy buffer r.stored 2, memcpy buffer r.stored 3⟩ else none := by
  unfold IoResult.frame?
  by_cases hlen : 6 ≤ r.stored.length
  · obtain ⟨b0, b1, key, status, b4, b5, rest, hb⟩ :
        ∃ b0 b1 key status b4 b5 rest,
          r.stored = b0 :: b1 :: key :: status :: b4 :: b5 :: rest := by
      rcases hs : r.stored with
        _ | ⟨b0, _ | ⟨b1, _ | ⟨key, _ | ⟨status, _ | ⟨b4, _ | ⟨b5, rest⟩⟩⟩⟩⟩⟩
      all_goals first
        | exact ⟨_, _, _, _, _, _, _, rfl⟩
        | (rw [hs] at hlen; simp at hlen)
    have hvalid : validData (memcpy buffer r.stored) =
        decide (b0 = 0xAA ∧ b1 = 0x55 ∧ b4 = 0x55 ∧ b5 = 0xAA) := by
      rw [hb, Bool.eq_iff_iff, validData_iff, decide_eq_true_iff]
      rfl
    rw [hvalid, hb]
    simp only [Frame.ofBytes?, decide_eq_true_eq]
    rfl
  · -- A short result leaves byte 5 at 0, and 0 is not `AA`.
    have h5 : memcpy buffer r.stored 5 = 0 := by
      rw [memcpy_of_le buffer (by omega), hclear 5 (by omega)]
    have hvalid : validData (memcpy buffer r.stored) ≠ true := by
      intro h
      have := (validData_iff.mp h).2.2.2
      rw [h5] at this
      exact absurd this (by decide)
    rw [if_neg hvalid]
    rcases hf : Frame.ofBytes? r.stored with _ | f
    · rfl
    · obtain ⟨rest, hrest⟩ := Frame.ofBytes?_eq_some_iff.mp hf
      rw [hrest, List.length_append, Frame.length_bytes] at hlen
      omega

end HomeControl
