import HomeControl.Home
import Mathlib.Tactic.IntervalCases

/-!
# The alarm follows the sensor

The sensor reaches the alarm device through `smoke_get`, the queue, `receive_get`
and a handler.  `alarm_follows_sensor` says that the pin of the device is `LOW`
exactly while the latest reading was, whenever nothing is on the way, and that
`smoke_get` sends nothing before the first alarm.

The proof has two halves.  On the sending side, the messages that were sent would
leave the pin at the level that the latest reading asks for (`SmokeTracked`).  On the
receiving side, what was dispatched is what was sent, and the handlers compute the
last effect of what was dispatched.  A message that `receive_get` holds counts as
still in the queue, and a reading counts as processed when its round has ended.
-/

namespace HomeControl

open SharedMemory StepSystem LastWrite

variable {ctrlPhead : List Control} {devs : List Gdevice}

/-- Key 0x45 resolves to a device without a face check, with a pin that no other
device uses. -/
def AlarmPin (devs : List Gdevice) (p : Int) : Prop :=
  ∃ i d, findDeviceByKey devs 0x45 = some i ∧ devs[i]? = some d ∧
    d.checkFaceStatus ≠ 1 ∧ d.gpioPin = p ∧ p ≠ -1 ∧
    ∀ j e, devs[j]? = some e → e.gpioPin = p → j = i

/-- Every send succeeds, the sensor reads `LOW` or `HIGH`, the other producers send
commands for other keys, and the handlers run one at a time. -/
def Calm (s : Home) : HomeLabel → Prop
  | .thread (.voiceRead r) => ∀ f, r.frame? = some f → f.key ≠ 0x45
  | .thread (.tcpRecv r) => ∀ f, r.frame? = some f → f.key ≠ 0x45
  | .thread (.voiceSend success) => success = true
  | .thread (.tcpSend success) => success = true
  | .thread (.smokeSend success) => success = true
  | .thread (.smokeRead status) => status = LOW ∨ status = HIGH
  | .dispatch _ => ∀ h ∈ s.world.handlers, h.pc = .done
  | _ => True

instance (s : Home) (ℓ : HomeLabel) : Decidable (Calm s ℓ) :=
  match ℓ with
  | .thread (.voiceRead r) => inferInstanceAs (Decidable (∀ f ∈ r.frame?, f.key ≠ 0x45))
  | .thread (.tcpRecv r) => inferInstanceAs (Decidable (∀ f ∈ r.frame?, f.key ≠ 0x45))
  | .thread (.voiceSend success) => inferInstanceAs (Decidable (success = true))
  | .thread (.tcpSend success) => inferInstanceAs (Decidable (success = true))
  | .thread (.smokeSend success) => inferInstanceAs (Decidable (success = true))
  | .thread (.smokeRead status) => inferInstanceAs (Decidable (status = LOW ∨ status = HIGH))
  | .dispatch _ => inferInstanceAs (Decidable (∀ h ∈ s.world.handlers, h.pc = .done))
  | .thread (.tcpAccept _ _) | .thread .mqReceive | .thread (.mqError _)
  | .thread .dispatch | .handler _ | .voice _ _ => inferInstanceAs (Decidable True)

theorem orderly_of_calm {s : Home} {ℓ : HomeLabel} (h : Calm s ℓ) : Orderly s ℓ := by
  rintro score rfl
  exact h

/-! ## The effect of a message on the alarm pin -/

/-- What a message leaves on the alarm pin. -/
def alarmEffect (m : Msg) : Option Int :=
  (Frame.ofBytes? m).bind fun f => if f.key = 0x45 then some (statusOf f.status) else none

theorem alarmEffect_bytes (f : Frame) :
    alarmEffect f.bytes = if f.key = 0x45 then some (statusOf f.status) else none := by
  unfold alarmEffect
  rw [← List.append_nil f.bytes, Frame.ofBytes?_bytes_append]
  rfl

theorem alarmEffect_alarm : alarmEffect alarmFrame.bytes = some LOW := by
  rw [alarmEffect_bytes]
  rfl

theorem alarmEffect_allClear : alarmEffect allClearFrame.bytes = some HIGH := by
  rw [alarmEffect_bytes]
  rfl

/-- The effect of a command on the alarm pin is that of its message. -/
theorem effect_alarmPin {p : Int} (hpin : AlarmPin devs p) (c : Command) :
    alarmEffect c.frame.bytes = effect devs p c := by
  obtain ⟨i, d, hfind, hd, hface, hp, -, huniq⟩ := hpin
  rw [alarmEffect_bytes]
  unfold effect
  rw [find?_key]
  by_cases hkey : c.frame.key = 0x45
  · have hsame : findDeviceByKey devs c.frame.key.toNat = some i := by
      rw [hkey]
      exact hfind
    rw [if_pos hkey, hsame]
    simp only [Option.bind_some, hd, if_pos hp, if_neg hface]
  · rw [if_neg hkey]
    cases hother : findDeviceByKey devs c.frame.key.toNat with
    | none => rfl
    | some j =>
      obtain ⟨e, he, hekey, -⟩ := findDeviceByKey_eq_some_iff.mp hother
      have hne : e.gpioPin ≠ p := by
        intro heq
        obtain rfl := huniq j e he heq
        obtain ⟨d', hd', hdkey, -⟩ := findDeviceByKey_eq_some_iff.mp hfind
        obtain rfl : d' = e := Option.some.inj (hd'.symm.trans he)
        refine hkey (UInt8.toNat_inj.mp ?_)
        have hnat : (c.frame.key.toNat : Int) = 0x45 := hekey.symm.trans hdkey
        show c.frame.key.toNat = 69
        omega
      simp only [Option.bind_some, he, if_neg hne]

/-! ## The sending side -/

/-- The level that the latest reading asks for. -/
def wanted (readings : List Int) : Int := if readings.getLast? = some LOW then LOW else HIGH

/-- What the messages that were sent, and the state of `smoke_get`, say about the
readings.  `before` is the state before the first alarm and `after` the one from then
on. -/
structure SmokeTracked (s : Home) : Prop where
  voice : ∀ m, s.pipe.voice.sending = some m → alarmEffect m = none
  tcp : ∀ m, s.pipe.tcp.sending = some m → alarmEffect m = none
  switchOn : s.pipe.smoke.sending = none →
    (s.pipe.smoke.switchStatus = 1 ↔ s.readings.getLast? = some LOW)
  sending : ∀ m, s.pipe.smoke.sending = some m →
    (s.pipe.smoke.status = LOW ∧ m = alarmFrame.bytes ∧ s.pipe.smoke.switchStatus = 1) ∨
    (s.pipe.smoke.status = HIGH ∧ m = allClearFrame.bytes ∧
      s.pipe.smoke.switchStatus = 0 ∧ s.readings.getLast? = some LOW)
  before : LOW ∉ s.readings → s.smokeSent = []
  after : LOW ∈ s.readings → ∀ v, lastWrite alarmEffect v s.pipe.sent = wanted s.readings

theorem wanted_concat (readings : List Int) (status : Int) :
    wanted (readings ++ [status]) = if status = LOW then LOW else HIGH := by
  unfold wanted
  rw [List.getLast?_concat]
  simp

theorem smokeTracked_start : SmokeTracked (home ctrlPhead devs).start where
  voice m h := by cases h
  tcp m h := by cases h
  switchOn _ := by
    show (0 : Int) = 1 ↔ none = some LOW
    simp
  sending m h := by cases h
  before _ := rfl
  after h := by cases h

/-- A command for another key has no effect on the alarm pin. -/
theorem alarmEffect_of_frame {r : IoResult} {m : Msg}
    (hkey : ∀ f, r.frame? = some f → f.key ≠ 0x45)
    (hm : r.frame?.map Frame.bytes = some m) : alarmEffect m = none := by
  obtain ⟨f, hf, rfl⟩ := Option.map_eq_some_iff.mp hm
  rw [alarmEffect_bytes, if_neg (hkey f hf)]

/-- Another producer has sent a message. -/
theorem SmokeTracked.otherSent {s : Home} (h : SmokeTracked s) {m : Msg}
    (hm : alarmEffect m = none) {t : Pipeline} (ht : s.pipe.send m true = some t) :
    SmokeTracked { s with pipe := t } := by
  rcases Pipeline.send_cases ht with ⟨-, q, -, rfl⟩ | ⟨hfalse, -⟩
  · refine { h with after := ?_ }
    intro hin v
    show lastWrite alarmEffect v (s.pipe.sent ++ [m]) = wanted s.readings
    rw [lastWrite_concat, hm]
    exact h.after hin v
  · cases hfalse

/-- A reading that needs no message. -/
theorem SmokeTracked.quietReading {s : Home} (h : SmokeTracked s)
    (hidle : s.pipe.smoke.sending = none) (hswitch : s.pipe.smoke.switchStatus ≠ 1)
    {smoke : SmokeGet} (hswitch' : smoke.switchStatus = s.pipe.smoke.switchStatus)
    (hidle' : smoke.sending = none) :
    SmokeTracked { s with
      pipe := { s.pipe with smoke := smoke }, readings := s.readings ++ [HIGH] } := by
  have hlast : s.readings.getLast? ≠ some LOW := fun hl => hswitch ((h.switchOn hidle).mpr hl)
  have hmem : LOW ∈ s.readings ++ [HIGH] ↔ LOW ∈ s.readings := by
    simp [LOW_ne_HIGH]
  refine { h with switchOn := ?_, sending := ?_, before := ?_, after := ?_ }
  · intro _
    show smoke.switchStatus = 1 ↔ _
    rw [hswitch', List.getLast?_concat]
    simp [hswitch, LOW_ne_HIGH.symm]
  · intro m hm
    rw [show smoke.sending = some m from hm] at hidle'
    cases hidle'
  · intro hno
    exact h.before fun hin => hno (hmem.mpr hin)
  · intro hin v
    show lastWrite alarmEffect v s.pipe.sent = wanted (s.readings ++ [HIGH])
    rw [h.after (hmem.mp hin) v, wanted_concat, if_neg LOW_ne_HIGH.symm, wanted, if_neg hlast]

/-- A reading that starts a message: it is not processed before the message is sent. -/
theorem SmokeTracked.startsMessage {s : Home} (h : SmokeTracked s) {smoke : SmokeGet}
    {n : Msg} (hn : smoke.sending = some n)
    (hwhich : (smoke.status = LOW ∧ n = alarmFrame.bytes ∧ smoke.switchStatus = 1) ∨
      (smoke.status = HIGH ∧ n = allClearFrame.bytes ∧ smoke.switchStatus = 0 ∧
        s.readings.getLast? = some LOW)) :
    SmokeTracked { s with pipe := { s.pipe with smoke := smoke } } := by
  refine { h with switchOn := ?_, sending := ?_ }
  · intro hnone
    rw [show smoke.sending = none from hnone] at hn
    cases hn
  · intro m hm
    obtain rfl : n = m := Option.some.inj (hn.symm.trans hm)
    exact hwhich

/-- A message of `smoke_get` has been sent. -/
theorem SmokeTracked.smokeSent {s : Home} (h : SmokeTracked s) {n : Msg}
    (hn : s.pipe.smoke.sending = some n) {q : Fifo Msg mqMaxmsg} :
    SmokeTracked { s with
      pipe := { s.pipe with
        queue := q, sent := s.pipe.sent ++ [n], smoke := s.pipe.smoke.returned true }
      readings := s.readings ++ [s.pipe.smoke.status]
      smokeSent := s.smokeSent ++ [n] } := by
  rcases h.sending n hn with ⟨hstatus, rfl, hswitch⟩ | ⟨hstatus, rfl, hswitch, hlast⟩
  · rw [hstatus]
    refine { h with switchOn := ?_, sending := ?_, before := ?_, after := ?_ }
    · intro _
      show s.pipe.smoke.switchStatus = 1 ↔ _
      rw [hswitch, List.getLast?_concat]
      simp
    · intro m hm
      cases hm
    · intro hno
      exact absurd (List.mem_append_right _ (List.mem_singleton_self LOW)) hno
    · intro _ v
      show lastWrite alarmEffect v (s.pipe.sent ++ [alarmFrame.bytes]) = wanted (_ ++ [LOW])
      rw [lastWrite_concat, alarmEffect_alarm, wanted_concat, if_pos rfl]
      rfl
  · rw [hstatus]
    refine { h with switchOn := ?_, sending := ?_, before := ?_, after := ?_ }
    · intro _
      show s.pipe.smoke.switchStatus = 1 ↔ _
      rw [hswitch, List.getLast?_concat]
      simp [LOW_ne_HIGH.symm]
    · intro m hm
      cases hm
    · intro hno
      exact absurd (List.mem_append_left _ (List.mem_of_getLast? hlast)) hno
    · intro _ v
      show lastWrite alarmEffect v (s.pipe.sent ++ [allClearFrame.bytes]) =
        wanted (_ ++ [HIGH])
      rw [lastWrite_concat, alarmEffect_allClear, wanted_concat, if_neg LOW_ne_HIGH.symm]
      rfl

/-- The switch of the sensor, one reading. -/
theorem SmokeTracked.smokeRead {s : Home} (h : SmokeTracked s) (hf : s.pipe.Faithful)
    {status : Int} (hok : Calm s (.thread (.smokeRead status)))
    (hidle : s.pipe.smoke.sending = none) :
    SmokeTracked { s with
      pipe := { s.pipe with smoke := s.pipe.smoke.read status }
      readings := s.readings ++ s.pipe.endedReading (.smokeRead status) } := by
  have hstatus := SmokeGet.status_read s.pipe.smoke status
  rcases SmokeGet.read_cases hf.smokeFramed status with
    ⟨hlow, hswitch, hs⟩ | ⟨hhigh, hon, hswitch, hs⟩ | ⟨hlow, hnot, hswitch, hs⟩
  · simp only [Pipeline.endedReading, hs, reduceCtorEq, if_false, List.append_nil]
    exact h.startsMessage hs (.inl ⟨hstatus.trans hlow, rfl, hswitch⟩)
  · simp only [Pipeline.endedReading, hs, reduceCtorEq, if_false, List.append_nil]
    exact h.startsMessage hs
      (.inr ⟨hstatus.trans hhigh, rfl, hswitch, (h.switchOn hidle).mp hon⟩)
  · have hhigh : status = HIGH := hok.resolve_left hlow
    have hoff : s.pipe.smoke.switchStatus ≠ 1 := fun hon => hnot ⟨hhigh, hon⟩
    have hidle' := hs.trans hidle
    simp only [Pipeline.endedReading, hidle', if_true]
    rw [hhigh] at hswitch hidle' ⊢
    exact h.quietReading hidle hoff hswitch hidle'

/-- One case for each kind of step of the pipeline. -/
theorem SmokeTracked.thread {s : Home} (h : SmokeTracked s) (hf : s.pipe.Faithful)
    {ℓ : PipelineLabel} (hok : Calm s (.thread ℓ)) {pipe : Pipeline}
    (hstep : s.pipe.Takes ℓ pipe) (hne : ℓ ≠ .dispatch) :
    SmokeTracked { s with
      pipe := pipe
      readings := s.readings ++ s.pipe.endedReading ℓ
      smokeSent := s.smokeSent ++ s.pipe.smokeSends ℓ } := by
  cases hstep with
  | dispatch => exact absurd rfl hne
  | voiceRead hidle hlen =>
    simp only [Pipeline.endedReading, Pipeline.smokeSends, List.append_nil]
    refine { h with voice := ?_ }
    intro m hm
    have hsend := VoiceGet.sending_read hf.voiceClear hidle hlen
    exact alarmEffect_of_frame hok (hsend.symm.trans hm)
  | @tcpRecv r hplace hidle hlen =>
    simp only [Pipeline.endedReading, Pipeline.smokeSends, List.append_nil]
    refine { h with tcp := ?_ }
    intro m hm
    have hsend := TcpsocketGet.sending_recv hidle r
    exact alarmEffect_of_frame hok (hsend.symm.trans hm)
  | @voiceSend m success t hm ht =>
    simp only [Pipeline.endedReading, Pipeline.smokeSends, List.append_nil]
    obtain rfl : success = true := hok
    refine { h.otherSent (h.voice m hm) ht with voice := ?_ }
    intro n hn
    cases hn
  | @tcpSend m success t hm ht =>
    simp only [Pipeline.endedReading, Pipeline.smokeSends, List.append_nil]
    obtain rfl : success = true := hok
    refine { h.otherSent (h.tcp m hm) ht with tcp := ?_ }
    intro n hn
    cases hn
  | @smokeSend m success t hm ht =>
    obtain rfl : success = true := hok
    simp only [Pipeline.endedReading, Pipeline.smokeSends, hm, Option.toList_some]
    rcases Pipeline.send_cases ht with ⟨-, q, -, rfl⟩ | ⟨hfalse, -⟩
    · exact h.smokeSent hm
    · cases hfalse
  | smokeRead hidle =>
    simp only [Pipeline.smokeSends, List.append_nil]
    exact h.smokeRead hf hok hidle
  | @tcpAccept accepted optionsSet hplace =>
    simp only [Pipeline.endedReading, Pipeline.smokeSends, List.append_nil]
    refine { h with tcp := ?_ }
    intro m hm
    exact h.tcp m ((s.pipe.tcp.sending_accept accepted optionsSet).symm.trans hm)
  | mqReceive =>
    simp only [Pipeline.endedReading, Pipeline.smokeSends, List.append_nil]
    exact { h with }
  | mqError =>
    simp only [Pipeline.endedReading, Pipeline.smokeSends, List.append_nil]
    exact { h with }

theorem smokeTracked_of_calm {s : Home} (hs : (home ctrlPhead devs).ReachableWhere Calm s) :
    SmokeTracked s := by
  refine hs.invariant' SmokeTracked smokeTracked_start ?_
  intro s ℓ s' hs h hok hstep
  have hf := faithful_of_reachable (pipeline_of_home hs)
  rcases Home.step_cases hstep with
    ⟨ℓ', pipe, rfl, hne, hpipe, rfl⟩ | ⟨score, pipe, -, hpipe, rfl⟩ | ⟨ℓ', world, -, -, -, rfl⟩
  · exact h.thread hf hok (Pipeline.takes_of_step hpipe) hne
  · cases Pipeline.takes_dispatch hpipe with
    | dispatch => exact { h with }
  · exact { h with }

/-! ## Both sides together -/

/-- Nothing is on the way: the queue is empty, `receive_get` holds no message, and no
handler is running. -/
def Home.Settled (s : Home) : Prop :=
  s.pipe.queue.items = [] ∧ s.pipe.receiver.held = [] ∧
    ∀ h ∈ s.world.handlers, h.pc = .done

/-- The alarm follows the sensor from end to end. -/
theorem alarm_follows_sensor (ctrlPhead : List Control) (devs : List Gdevice) (p : Int)
    (hpin : AlarmPin devs p) (init : Int → Int) (s : Home)
    (hs : (home ctrlPhead devs).ReachableWhere Calm s) :
    (LOW ∈ s.readings → s.Settled →
      (level init s.world.house.gpio p = LOW ↔ s.readings.getLast? = some LOW)) ∧
    (LOW ∉ s.readings → s.smokeSent = []) := by
  have htracked := smokeTracked_of_calm hs
  refine ⟨fun hlow hsettled => ?_, htracked.before⟩
  obtain ⟨hempty, hheld, hdone⟩ := hsettled
  have hinorder := inOrder_of_home (hs.mono fun s ℓ h => orderly_of_calm h)
  have horder := (faithful_of_reachable (pipeline_of_home hs)).order
  rw [hheld, hempty, List.append_nil, List.append_nil] at horder
  have hp : p ≠ -1 := by
    obtain ⟨i, d, -, -, -, -, hp, -⟩ := hpin
    exact hp
  have hlevel : level init s.world.house.gpio p = wanted s.readings := by
    have hmap : lastWrite alarmEffect (init p)
        ((s.world.handlers.map (·.cmd)).map (·.frame.bytes)) =
        lastWrite (effect devs p) (init p) (s.world.handlers.map (·.cmd)) :=
      lastWrite_map _ _ fun c _ => effect_alarmPin hpin c
    rw [frames_of_home hs, horder, htracked.after hlow] at hmap
    rw [hinorder.house_eq hdone, World.outcome, level_runCommands init _ _ hp]
    exact hmap.symm
  rw [hlevel, wanted]
  by_cases hlast : s.readings.getLast? = some LOW
  · simp [hlast]
  · simp [hlast, LOW_ne_HIGH.symm]

/-- The buzzer of the shipped configuration. -/
theorem alarmPin_peripheral : AlarmPin peripheral 10 := by
  refine ⟨0, _, by decide +kernel, rfl, by decide, rfl, by decide, ?_⟩
  intro j e he hpin
  have hj : j < 5 := (List.getElem?_eq_some_iff.mp he).1
  interval_cases j
  · rfl
  all_goals
    cases he
    exact absurd hpin (by decide)

/-- The sensor reads `LOW` and then `HIGH`, with a command for a lamp in between. -/
def alarmSends : List HomeLabel :=
  [.thread (.smokeRead LOW), .thread (.smokeSend true),
    .thread (.voiceRead (some [0xAA, 0x55, 0x41, 0x00, 0x55, 0xAA])), .thread (.voiceSend true),
    .thread (.smokeRead HIGH), .thread (.smokeSend true)]

/-- The handler at index `i`, from the receive of its message to its end. -/
def handles (i : Nat) : List HomeLabel :=
  [.thread .mqReceive, .dispatch 0] ++ List.replicate 4 (.handler i)

/-- The shipped configuration: an alarm drives the buzzer, and after the all-clear, with a
command for a lamp between the two, it is off again. -/
theorem alarm_follows_sensor_peripheral :
    (∃ s, (home [] peripheral).ReachableWhere Calm s ∧ s.readings = [LOW] ∧
      level (fun _ => HIGH) s.world.house.gpio 10 = LOW) ∧
    ∃ s, (home [] peripheral).ReachableWhere Calm s ∧ s.readings = [LOW, HIGH] ∧
      s.world.handlers.map (·.cmd.frame) = [alarmFrame, ⟨0x41, 0x00⟩, allClearFrame] ∧
      level (fun _ => LOW) s.world.house.gpio 10 ≠ LOW := by
  constructor
  · obtain ⟨s, hs, hend⟩ := exists_reachableWhere (home [] peripheral) Calm
      (alarmSends.take 2 ++ handles 0)
      (fun s => s.readings == [LOW] && s.pipe.queue.items == [] &&
        s.pipe.receiver.held == [] && s.world.handlers.all fun h => h.pc == .done)
      (by decide +kernel)
    simp only [Bool.and_eq_true, beq_iff_eq, List.all_eq_true] at hend
    obtain ⟨⟨⟨hreadings, hempty⟩, hheld⟩, hdone⟩ := hend
    have hfollows := (alarm_follows_sensor [] peripheral 10 alarmPin_peripheral (fun _ => HIGH)
      s hs).1 (by rw [hreadings]; decide) ⟨hempty, hheld, hdone⟩
    exact ⟨s, hs, hreadings, hfollows.mpr (by rw [hreadings]; rfl)⟩
  · obtain ⟨s, hs, hend⟩ := exists_reachableWhere (home [] peripheral) Calm
      (alarmSends ++ handles 0 ++ handles 1 ++ handles 2)
      (fun s => s.readings == [LOW, HIGH] && s.pipe.queue.items == [] &&
        s.pipe.receiver.held == [] && (s.world.handlers.all fun h => h.pc == .done) &&
        s.world.handlers.map (·.cmd.frame) == [alarmFrame, ⟨0x41, 0x00⟩, allClearFrame])
      (by decide +kernel)
    simp only [Bool.and_eq_true, beq_iff_eq, List.all_eq_true] at hend
    obtain ⟨⟨⟨⟨hreadings, hempty⟩, hheld⟩, hdone⟩, hcmds⟩ := hend
    have hfollows := (alarm_follows_sensor [] peripheral 10 alarmPin_peripheral (fun _ => LOW)
      s hs).1 (by rw [hreadings]; decide) ⟨hempty, hheld, hdone⟩
    refine ⟨s, hs, hreadings, hcmds, fun hlow => ?_⟩
    have hlast := hfollows.mp hlow
    rw [hreadings] at hlast
    exact absurd hlast (by decide)

end HomeControl
