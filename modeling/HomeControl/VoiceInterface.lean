import HomeControl.Lib.Segments
import HomeControl.Frame

/-!
# The voice producer

`voice_get` reads up to six bytes from the serial line into `buffer`, sends them
when they are a command, and clears the buffer after every read that returned
something.  `VoiceGet.read` is one round of its loop up to the call of
`send_message`, and `VoiceGet.returned` what follows the return of that call.

The port is opened with `VMIN` 0, so a read can return a part of a command, or nothing.
`VoiceGet.loop` is the thread over a list of results.  It keeps nothing from one result
to the next: `messages_of_splitting` says that the messages are the commands that some
result is, so they depend on how the stream is split.
-/

namespace HomeControl

open SharedMemory

/-- The local state of `voice_get`.  `sending` is the message while `send_message`
has not returned. -/
structure VoiceGet where
  buffer : Buffer
  sending : Option Msg

def VoiceGet.start : VoiceGet := { buffer := memset 0, sending := none }

/-- `uart_Getstr`, the test, and the call of `send_message` with the length that the
read returned. -/
def VoiceGet.read (s : VoiceGet) (r : IoResult) : VoiceGet :=
  let buffer := memcpy s.buffer r.stored
  if r.ret > 0 then
    if validData buffer then
      { buffer := buffer, sending := some (firstCells buffer r.ret.toNat) }
    else { buffer := memset 0, sending := none }
  else { buffer := buffer, sending := none }

/-- `send_message` has returned, and the buffer is cleared. -/
def VoiceGet.returned (_ : VoiceGet) : VoiceGet := { buffer := memset 0, sending := none }

/-- Between two rounds the buffer is clear. -/
def VoiceGet.Clear (s : VoiceGet) : Prop := s.sending = none → ∀ i, s.buffer i = 0

theorem VoiceGet.clear_start : VoiceGet.start.Clear := fun _ _ => rfl

theorem VoiceGet.clear_returned (s : VoiceGet) : s.returned.Clear := fun _ _ => rfl

theorem VoiceGet.clear_read {s : VoiceGet} (hclear : s.Clear) (hidle : s.sending = none)
    (r : IoResult) : (s.read r).Clear := by
  intro hnone i
  unfold VoiceGet.read at hnone ⊢
  by_cases hret : r.ret > 0
  · rw [if_pos hret] at hnone ⊢
    by_cases hvalid : validData (memcpy s.buffer r.stored) = true
    · rw [if_pos hvalid] at hnone
      cases hnone
    · rw [if_neg hvalid]
      rfl
  · -- Nothing was stored.
    rw [if_neg hret]
    rw [IoResult.stored_eq_nil hret]
    exact hclear hidle i

/-- `send_message` is called exactly for a read that itself is a command, and with
its six bytes. -/
theorem VoiceGet.sending_read {s : VoiceGet} (hclear : s.Clear) (hidle : s.sending = none)
    {r : IoResult} (hlen : r.stored.length ≤ 6) :
    (s.read r).sending = r.frame?.map Frame.bytes := by
  have hframe := frame?_eq_of_validData s.buffer (fun i _ => hclear hidle i) r
  unfold VoiceGet.read
  by_cases hvalid : validData (memcpy s.buffer r.stored) = true
  · rw [if_pos hvalid] at hframe
    obtain ⟨rest, hrest⟩ := Frame.ofBytes?_eq_some_iff.mp hframe
    have hsix : r.stored.length = 6 := by
      have h := congrArg List.length hrest
      rw [List.length_append, Frame.length_bytes] at h
      omega
    have hret : r.ret = 6 := by
      cases r with
      | none => simp [IoResult.stored] at hsix
      | some bs =>
        have hbs : bs.length = 6 := hsix
        simp [IoResult.ret, hbs]
    rw [if_pos (by rw [hret]; decide), if_pos hvalid, hframe, hret]
    exact congrArg some (firstCells_of_validData hvalid)
  · rw [if_neg hvalid] at hframe
    rw [hframe]
    by_cases hret : r.ret > 0
    · rw [if_pos hret, if_neg hvalid]
      rfl
    · rw [if_neg hret]
      rfl

/-! ## A stream and its splittings -/

/-- One round of the loop, up to the next call of `uart_Getstr`. -/
def VoiceGet.round (s : VoiceGet) (r : IoResult) : VoiceGet :=
  if (s.read r).sending = none then s.read r else (s.read r).returned

/-- The messages that the rounds send, when every `send_message` succeeds. -/
def VoiceGet.loop (s : VoiceGet) : List IoResult → List Msg
  | [] => []
  | r :: rs => (s.read r).sending.toList ++ (s.round r).loop rs

theorem VoiceGet.round_clear {s : VoiceGet} (hclear : s.Clear) (hidle : s.sending = none)
    (r : IoResult) : (s.round r).Clear ∧ (s.round r).sending = none := by
  unfold VoiceGet.round
  by_cases hsend : (s.read r).sending = none
  · rw [if_pos hsend]
    exact ⟨clear_read hclear hidle r, hsend⟩
  · rw [if_neg hsend]
    exact ⟨clear_returned _, rfl⟩

/-- The loop sends the results that are themselves commands. -/
theorem VoiceGet.loop_eq {s : VoiceGet} (hclear : s.Clear) (hidle : s.sending = none)
    {rs : List IoResult} (hlen : ∀ r ∈ rs, r.stored.length ≤ 6) :
    s.loop rs = (rs.filterMap IoResult.frame?).map Frame.bytes := by
  induction rs generalizing s with
  | nil => rfl
  | cons r rs ih =>
    obtain ⟨hclear', hidle'⟩ := round_clear hclear hidle r
    have hrest := ih hclear' hidle' fun q hq => hlen q (List.mem_cons_of_mem _ hq)
    rw [VoiceGet.loop, sending_read hclear hidle (hlen r List.mem_cons_self), hrest]
    cases hframe : r.frame? with
    | none => rw [List.filterMap_cons_none hframe]; rfl
    | some f => rw [List.filterMap_cons_some hframe]; rfl

/-- The result is a command. -/
def isFrame (bs : List UInt8) : Bool := (Frame.ofBytes? bs).isSome

/-- A result of at most six bytes that starts with a command is one. -/
theorem bytes_of_isFrame {bs : List UInt8} (hlen : bs.length ≤ 6) {f : Frame}
    (h : Frame.ofBytes? bs = some f) : bs = f.bytes := by
  obtain ⟨rest, rfl⟩ := Frame.ofBytes?_eq_some_iff.mp h
  rw [List.length_append, Frame.length_bytes] at hlen
  rw [List.eq_nil_of_length_eq_zero (by omega : rest.length = 0), List.append_nil]

/-- The messages that the thread sends for a splitting of the stream. -/
def voiceMessages (chunks : List (List UInt8)) : List Msg :=
  VoiceGet.start.loop (chunks.map some)

theorem voiceMessages_eq_filter {chunks : List (List UInt8)}
    (hlen : ∀ c ∈ chunks, c.length ≤ 6) : voiceMessages chunks = chunks.filter isFrame := by
  have hstored : ∀ r ∈ chunks.map some, (IoResult.stored r).length ≤ 6 := by
    intro r hr
    obtain ⟨c, hc, rfl⟩ := List.mem_map.mp hr
    exact hlen c hc
  rw [voiceMessages, VoiceGet.loop_eq VoiceGet.clear_start rfl hstored, List.filterMap_map]
  show (chunks.filterMap Frame.ofBytes?).map Frame.bytes = _
  clear hstored
  induction chunks with
  | nil => rfl
  | cons c chunks ih =>
    have hrest := ih fun d hd => hlen d (List.mem_cons_of_mem _ hd)
    cases hframe : Frame.ofBytes? c with
    | none =>
      have hno : ¬ isFrame c = true := by rw [isFrame, hframe]; exact Bool.false_ne_true
      rw [List.filterMap_cons_none hframe, List.filter_cons_of_neg hno, hrest]
    | some f =>
      have hyes : isFrame c = true := by rw [isFrame, hframe]; rfl
      rw [List.filterMap_cons_some hframe, List.filter_cons_of_pos hyes, List.map_cons, hrest,
        bytes_of_isFrame (hlen c List.mem_cons_self) hframe]

/-- The offsets in the stream of the results that are commands. -/
def wholeFrames (chunks : List (List UInt8)) : List Nat := Segments.offsets isFrame 0 chunks

/-- What the thread sends for a splitting: the six bytes of the stream at each offset at
which a result is a command. -/
theorem voiceMessages_eq_map {chunks : List (List UInt8)} (hlen : ∀ c ∈ chunks, c.length ≤ 6) :
    voiceMessages chunks =
      (wholeFrames chunks).map fun i => (chunks.flatten.drop i).take 6 := by
  have hsix : ∀ c ∈ chunks, isFrame c = true → c.length = 6 := by
    intro c hc hframe
    obtain ⟨f, hf⟩ := Option.isSome_iff_exists.mp hframe
    rw [bytes_of_isFrame (hlen c hc) hf, Frame.length_bytes]
  rw [voiceMessages_eq_filter hlen]
  exact Segments.filter_eq_map_offsets isFrame hsix []

/-- For every stream and any two ways of splitting it into results of at most six bytes,
empty ones included: the messages are the commands that are results of their own, in
order; they are the same for both when these are at the same places of the stream; and
empty results make no difference. -/
theorem messages_of_splitting (chunks chunks' : List (List UInt8))
    (hlen : ∀ c ∈ chunks, c.length ≤ 6) (hlen' : ∀ c ∈ chunks', c.length ≤ 6)
    (hstream : chunks.flatten = chunks'.flatten) :
    voiceMessages chunks = chunks.filter isFrame ∧
      (wholeFrames chunks = wholeFrames chunks' → voiceMessages chunks = voiceMessages chunks') ∧
      voiceMessages (chunks.filter fun c => decide (c ≠ [])) = voiceMessages chunks := by
  refine ⟨voiceMessages_eq_filter hlen, fun hsame => ?_, ?_⟩
  · rw [voiceMessages_eq_map hlen, voiceMessages_eq_map hlen', hsame, hstream]
  · have hlenFilter : ∀ c ∈ chunks.filter fun c => decide (c ≠ []), c.length ≤ 6 :=
      fun c hc => hlen c (List.mem_filter.mp hc).1
    rw [voiceMessages_eq_filter hlenFilter, voiceMessages_eq_filter hlen, List.filter_filter]
    refine List.filter_congr fun c _ => ?_
    cases c with
    | nil => rfl
    | cons b c => simp

/-- A command in one result, with an empty result before it and one after it. -/
theorem messages_of_splitting_empty :
    voiceMessages [[], [0xAA, 0x55, 0x41, 0x00, 0x55, 0xAA], []] =
      voiceMessages [[0xAA, 0x55, 0x41, 0x00, 0x55, 0xAA]] :=
  (messages_of_splitting _ _ (by decide) (by decide) (by decide)).2.1 (by decide)

/-- The same command in two results is not sent. -/
theorem messages_depend_on_splitting :
    ¬ ∀ chunks chunks' : List (List UInt8),
      (∀ c ∈ chunks, c.length ≤ 6) → (∀ c ∈ chunks', c.length ≤ 6) →
      chunks.flatten = chunks'.flatten → voiceMessages chunks = voiceMessages chunks' := by
  intro hall
  have hsame := hall [[0xAA, 0x55, 0x41, 0x00, 0x55, 0xAA]] [[0xAA, 0x55, 0x41],
    [0x00, 0x55, 0xAA]] (by decide) (by decide) (by decide)
  exact absurd hsame (by decide +kernel)

end HomeControl
