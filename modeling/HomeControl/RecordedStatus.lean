import HomeControl.Lib.History
import HomeControl.Effect
import HomeControl.Relock
import Mathlib.Data.List.Induction

/-!
# The recorded status

`handld_device` assigns `gpio_status` before the face check, and a denied command does
not take the assignment back.

* `StatusAgrees` says that every device that has been driven records the level of its
  pin, and `Keeps` that a denied command changes no record and no pin.
* `AsksForRecorded` is the condition on the commands: each one that is denied asks for
  the status that its device has already, which is the configured one until a command
  with its key is granted and `HIGH` from then on.
* `recorded_iff_asksForRecorded` shows that this is exactly when the two hold
  throughout.
-/

namespace HomeControl

open SharedMemory

variable {ctrlPhead : List Control} {devs : List Gdevice} {init : Int → Int}

/-- Every device that has been driven records the level of its pin. -/
def StatusAgrees (init : Int → Int) (devs : List Gdevice) (gpio : List GpioCall) : Prop :=
  ∀ (i : Nat) (d : Gdevice), devs[i]? = some d → Driven gpio d.gpioPin →
    level init gpio d.gpioPin = d.gpioStatus

/-- The face check denies the command. -/
def Denied (devs : List Gdevice) (c : Command) : Prop :=
  ∃ i d, findDeviceByKey devs c.frame.key.toNat = some i ∧ devs[i]? = some d ∧
    d.checkFaceStatus = 1 ∧ ¬ c.score > 1 / 2

/-- If the command is denied, it leaves the records and the pins as they were. -/
def Keeps (ctrlPhead : List Control) (s : House) (c : Command) : Prop :=
  Denied s.devs c → (runCommand ctrlPhead s c).devs = s.devs ∧
    (runCommand ctrlPhead s c).gpio = s.gpio

/-- A command with this key has been granted. -/
def grantedBefore (key : UInt8) (pre : List Command) : Bool :=
  pre.any fun c => c.frame.key == key && decide (c.score > 1 / 2)

/-- A denied command asks for the status that its device has: `HIGH` once a command with
its key has been granted, and the configured status before. -/
def AsksForRecordedAt (devs : List Gdevice) (pre : List Command) (c : Command) : Prop :=
  ∀ i d, findDeviceByKey devs c.frame.key.toNat = some i → devs[i]? = some d →
    d.checkFaceStatus = 1 → ¬ c.score > 1 / 2 →
    statusOf c.frame.status = if grantedBefore c.frame.key pre then HIGH else d.gpioStatus

def AsksForRecorded (devs : List Gdevice) (cs : List Command) : Prop :=
  ∀ pre c post, cs = pre ++ c :: post → AsksForRecordedAt devs pre c

/-! ## The records of the gated devices -/

theorem assignStatus_eq_self_iff {i : Nat} {d : Gdevice} (hd : devs[i]? = some d) (v : Int) :
    assignStatus devs i v = devs ↔ d.gpioStatus = v := by
  have hat := getElem?_assignStatus_self hd v
  constructor
  · intro h
    rw [h, hd] at hat
    exact congrArg Gdevice.gpioStatus (Option.some.inj hat)
  · intro h
    refine List.ext_getElem? fun j => ?_
    by_cases hij : i = j
    · rw [← hij, hat, hd, ← h]
    · exact getElem?_assignStatus_ne devs hij v

theorem sameConfig_runCommands (ctrlPhead : List Control) (s : House) (cs : List Command) :
    SameConfig s.devs (runCommands ctrlPhead s cs).devs := by
  induction cs using List.reverseRecOn with
  | nil => exact SameConfig.refl _
  | append_singleton cs c ih =>
    rw [runCommands_concat]
    exact ih.trans (runCommand_devs ctrlPhead _ c).1

/-- Where denied commands change nothing, a gated device records `HIGH` once it has been
granted, and its configured status before. -/
theorem gatedStatus_runCommands {key : UInt8} {i : Nat} {d : Gdevice}
    (hfind : findDeviceByKey devs key.toNat = some i) (hd : devs[i]? = some d)
    (hface : d.checkFaceStatus = 1) {cs : List Command}
    (hkeeps : ∀ pre c post, cs = pre ++ c :: post →
      Keeps ctrlPhead (runCommands ctrlPhead (.initial devs) pre) c) :
    (runCommands ctrlPhead (.initial devs) cs).devs[i]? =
      some { d with gpioStatus := if grantedBefore key cs then HIGH else d.gpioStatus } := by
  induction cs using List.reverseRecOn with
  | nil => exact hd
  | append_singleton cs c ih =>
    obtain ⟨hbefore, hat⟩ := History.forall_split_concat.mp hkeeps
    have hnow := ih hbefore
    have hconfig := sameConfig_runCommands ctrlPhead (.initial devs) cs
    have hlookup : ∀ k, findDeviceByKey (runCommands ctrlPhead (.initial devs) cs).devs k =
        findDeviceByKey devs k := hconfig.findDeviceByKey
    have hgranted : grantedBefore key (cs ++ [c]) =
        (grantedBefore key cs || (c.frame.key == key && decide (c.score > 1 / 2))) := by
      rw [grantedBefore, grantedBefore, List.any_append]
      simp
    rw [runCommands_concat, hgranted]
    by_cases hkey : c.frame.key = key
    · have hfindc := (hlookup key.toNat).trans hfind
      rw [← hkey] at hfindc
      by_cases hscore : c.score > 1 / 2
      · have hdevs := (handldDevice_of_granted ctrlPhead
          (s := (runCommands ctrlPhead (.initial devs) cs).receive c.frame.bytes)
          hfindc hnow hface hscore).1
        have hfirst := getElem?_assignStatus_self hnow (statusOf c.frame.status)
        rw [show (runCommand ctrlPhead _ c).devs = _ from hdevs]
        rw [hkey, decide_eq_true hscore, beq_self_eq_true, Bool.and_true, Bool.or_true]
        exact getElem?_assignStatus_self hfirst HIGH
      · have hsame := (hat ⟨i, _, hfindc, hnow, hface, hscore⟩).1
        rw [hsame, hnow, decide_eq_false hscore, Bool.and_false, Bool.or_false]
    · -- A command with another key resolves to another device.
      have hother : findDeviceByKey (runCommands ctrlPhead (.initial devs) cs).devs
          c.frame.key.toNat ≠ some i := by
        intro hsome
        rw [hlookup] at hsome
        obtain ⟨d', hd', hkey', -⟩ := findDeviceByKey_eq_some_iff.mp hsome
        obtain ⟨d'', hd'', hkey'', -⟩ := findDeviceByKey_eq_some_iff.mp hfind
        obtain rfl := Option.some.inj (hd'.symm.trans hd'')
        have hnat : c.frame.key.toNat = key.toNat := by omega
        exact hkey (UInt8.toNat_inj.mp hnat)
      rw [(runCommand_devs ctrlPhead _ c).2 i hother, hnow]
      simp [hkey]

/-- After commands that kept the records, a denied command keeps them exactly when it
asks for the recorded status. -/
theorem keeps_iff_asksForRecordedAt {pre : List Command}
    (hkeeps : ∀ pre' c post, pre = pre' ++ c :: post →
      Keeps ctrlPhead (runCommands ctrlPhead (.initial devs) pre') c) (c : Command) :
    Keeps ctrlPhead (runCommands ctrlPhead (.initial devs) pre) c ↔
      AsksForRecordedAt devs pre c := by
  have hconfig := sameConfig_runCommands ctrlPhead (.initial devs) pre
  have hlookup : ∀ k, findDeviceByKey (runCommands ctrlPhead (.initial devs) pre).devs k =
      findDeviceByKey devs k := hconfig.findDeviceByKey
  -- What a denied command does, in terms of the configured device.
  have hdenied : ∀ i d, findDeviceByKey devs c.frame.key.toNat = some i → devs[i]? = some d →
      d.checkFaceStatus = 1 → ¬ c.score > 1 / 2 →
      Denied (runCommands ctrlPhead (.initial devs) pre).devs c ∧
        (runCommand ctrlPhead (runCommands ctrlPhead (.initial devs) pre) c).gpio =
          (runCommands ctrlPhead (.initial devs) pre).gpio ∧
        ((runCommand ctrlPhead (runCommands ctrlPhead (.initial devs) pre) c).devs =
            (runCommands ctrlPhead (.initial devs) pre).devs ↔
          statusOf c.frame.status =
            if grantedBefore c.frame.key pre then HIGH else d.gpioStatus) := by
    intro i d hfind hd hface hscore
    have hnow := gatedStatus_runCommands hfind hd hface hkeeps
    have hfindc := (hlookup c.frame.key.toNat).trans hfind
    have hrun := handldDevice_of_denied ctrlPhead
      (s := (runCommands ctrlPhead (.initial devs) pre).receive c.frame.bytes)
      hfindc hnow hface hscore
    refine ⟨⟨i, _, hfindc, hnow, hface, hscore⟩, hrun.2, ?_⟩
    rw [show (runCommand ctrlPhead _ c).devs = _ from hrun.1]
    exact (assignStatus_eq_self_iff hnow _).trans eq_comm
  constructor
  · intro h i d hfind hd hface hscore
    obtain ⟨hden, -, hiff⟩ := hdenied i d hfind hd hface hscore
    exact hiff.mp (h hden).1
  · intro h hden
    obtain ⟨i, d', hfind, hd', hface, hscore⟩ := hden
    rw [hlookup] at hfind
    obtain ⟨v, hv⟩ := hconfig.symm.getElem? hd'
    have hv' : devs[i]? = some { d' with gpioStatus := v } := hv
    obtain ⟨-, hgpio, hiff⟩ := hdenied i _ hfind hv' hface hscore
    exact ⟨hiff.mpr (h i _ hfind hv' hface hscore), hgpio⟩

/-! ## The records and the pins -/

/-- A device that is assigned a status and driven records its level, and the other
devices are not concerned. -/
theorem StatusAgrees.drive {gpio : List GpioCall} (h : StatusAgrees init devs gpio)
    (hpins : NoSharedPins devs) {i : Nat} {d : Gdevice} (hd : devs[i]? = some d)
    (hpin : d.gpioPin ≠ -1) {v : Int} (hv : v ≠ -1) :
    StatusAgrees init (assignStatus devs i v)
      ((setGpioGdeviceStatus (some { d with gpioStatus := v })).1.reverse ++ gpio) := by
  intro j e he hdriven
  rw [level_setGpio]
  by_cases hij : i = j
  · subst hij
    obtain rfl := Option.some.inj ((getElem?_assignStatus_self hd v).symm.trans he)
    rw [if_pos ⟨rfl, hpin, hv⟩]
  · rw [getElem?_assignStatus_ne devs hij] at he
    have hne : d.gpioPin ≠ e.gpioPin := fun heq => hij (hpins i j d e hd he heq hpin)
    rw [if_neg fun hboth => hne hboth.1]
    refine h j e he ?_
    rcases driven_append.mp hdriven with ⟨w, hw⟩ | hlog
    · exact absurd (digitalWrite_mem_setGpio.mp hw).1.symm hne
    · exact hlog

/-- A command that keeps the records where it is denied keeps the agreement. -/
theorem StatusAgrees.runCommand {s : House} (h : StatusAgrees init s.devs s.gpio)
    (hpins : NoSharedPins s.devs) (hset : ∀ d ∈ s.devs, d.gpioPin ≠ -1) {c : Command}
    (hkeeps : Keeps ctrlPhead s c) :
    StatusAgrees init (runCommand ctrlPhead s c).devs (runCommand ctrlPhead s c).gpio := by
  cases hfind : findDeviceByKey s.devs c.frame.key.toNat with
  | none =>
    have hrun := handldDevice_of_none ctrlPhead
      (s := s.receive c.frame.bytes) c.score hfind
    rw [HomeControl.runCommand, hrun]
    exact h
  | some i =>
    obtain ⟨d, hd, -⟩ := findDeviceByKey_eq_some_iff.mp hfind
    have hpin := hset d (List.mem_of_getElem? hd)
    have hstatus : statusOf ((s.receive c.frame.bytes).buffer 3) ≠ -1 := statusOf_ne_neg_one _
    by_cases hface : d.checkFaceStatus = 1
    · by_cases hscore : c.score > 1 / 2
      · obtain ⟨hdevs, hgpio⟩ := handldDevice_of_granted ctrlPhead
          (s := s.receive c.frame.bytes) hfind hd hface hscore
        rw [HomeControl.runCommand, hdevs, hgpio]
        -- The pin is driven twice, and the second assignment is `HIGH`.
        have hopened := h.drive hpins hd hpin hstatus
        have hpins' := (sameConfig_assignStatus s.devs i
          (statusOf ((s.receive c.frame.bytes).buffer 3))).noSharedPins hpins
        exact hopened.drive hpins' (getElem?_assignStatus_self hd _) hpin HIGH_ne_neg_one
      · obtain ⟨hdevs, hgpio⟩ := hkeeps ⟨i, d, hfind, hd, hface, hscore⟩
        rw [hdevs, hgpio]
        exact h
    · obtain ⟨hdevs, hgpio⟩ := handldDevice_of_open ctrlPhead
        (s := s.receive c.frame.bytes) c.score hfind hd hface
      rw [HomeControl.runCommand, hdevs, hgpio]
      exact h.drive hpins hd hpin hstatus

/-- Throughout the commands every driven device records the level of its pin, and no
denied command changes a record or a pin. -/
def Recorded (ctrlPhead : List Control) (devs : List Gdevice) (init : Int → Int)
    (cs : List Command) : Prop :=
  ∀ pre c post, cs = pre ++ c :: post →
    StatusAgrees init (runCommands ctrlPhead (.initial devs) (pre ++ [c])).devs
        (runCommands ctrlPhead (.initial devs) (pre ++ [c])).gpio ∧
      Keeps ctrlPhead (runCommands ctrlPhead (.initial devs) pre) c

theorem statusAgrees_runCommands (hpins : NoSharedPins devs)
    (hset : ∀ d ∈ devs, d.gpioPin ≠ -1) {cs : List Command}
    (hkeeps : ∀ pre c post, cs = pre ++ c :: post →
      Keeps ctrlPhead (runCommands ctrlPhead (.initial devs) pre) c) :
    StatusAgrees init (runCommands ctrlPhead (.initial devs) cs).devs
      (runCommands ctrlPhead (.initial devs) cs).gpio := by
  induction cs using List.reverseRecOn with
  | nil =>
    intro i d _ hdriven
    obtain ⟨v, hv⟩ := hdriven
    cases hv
  | append_singleton cs c ih =>
    obtain ⟨hbefore, hat⟩ := History.forall_split_concat.mp hkeeps
    have hconfig := sameConfig_runCommands ctrlPhead (.initial devs) cs
    rw [runCommands_concat]
    refine (ih hbefore).runCommand (hconfig.noSharedPins hpins) (fun d hd => ?_) hat
    obtain ⟨i, hi⟩ := List.mem_iff_getElem?.mp hd
    obtain ⟨v, hv⟩ := hconfig.symm.getElem? hi
    exact hset { d with gpioStatus := v } (List.mem_of_getElem? hv)

/-- For every list of devices with a pin of its own each, every initial levels and every
list of commands: the records agree with the pins, and denied commands change nothing,
exactly when each denied command asks for the status that its device records. -/
theorem recorded_iff_asksForRecorded (ctrlPhead : List Control) (devs : List Gdevice)
    (hpins : (devs.map (·.gpioPin)).Nodup) (hset : ∀ d ∈ devs, d.gpioPin ≠ -1)
    (init : Int → Int) (cs : List Command) :
    Recorded ctrlPhead devs init cs ↔ AsksForRecorded devs cs := by
  have hkeeps : (∀ pre c post, cs = pre ++ c :: post →
      Keeps ctrlPhead (runCommands ctrlPhead (.initial devs) pre) c) ↔
        AsksForRecorded devs cs := by
    induction cs using List.reverseRecOn with
    | nil =>
      refine ⟨fun _ pre c post h => ?_, fun _ pre c post h => ?_⟩
      · simp at h
      · simp at h
    | append_singleton cs c ih =>
      rw [AsksForRecorded, History.forall_split_concat, History.forall_split_concat, ih,
        AsksForRecorded]
      exact and_congr_right fun hbefore => keeps_iff_asksForRecordedAt (ih.mpr hbefore) c
  constructor
  · intro h
    exact hkeeps.mp fun pre c post hsplit => (h pre c post hsplit).2
  · intro h pre c post hsplit
    have hall := hkeeps.mpr h
    refine ⟨statusAgrees_runCommands (noSharedPins_of_nodup hpins) hset ?_,
      hall pre c post hsplit⟩
    intro pre' d post' hpre
    refine hall pre' d (post' ++ post) ?_
    rw [hsplit, ← List.singleton_append, ← List.append_assoc, hpre, List.append_assoc,
      List.cons_append]

/-- An open request for the lock of the shipped configuration is granted, and a request
to close it is denied. -/
theorem recorded_peripheral :
    Recorded [] peripheral (fun _ => HIGH) [⟨⟨0x44, 0x00⟩, 9 / 10⟩, ⟨⟨0x44, 0x01⟩, 1 / 10⟩] := by
  refine (recorded_iff_asksForRecorded [] peripheral (by decide) (by decide) _ _).mpr ?_
  intro pre c post hsplit i d hfind hd _ hscore
  match pre, hsplit with
  | [], hsplit =>
    obtain ⟨rfl, -⟩ := List.cons.inj hsplit
    exact absurd (by decide +kernel) hscore
  | [c'], hsplit =>
    obtain ⟨rfl, hrest⟩ := List.cons.inj hsplit
    obtain ⟨rfl, -⟩ := List.cons.inj hrest
    have hgranted : grantedBefore 0x44 [⟨⟨0x44, 0x00⟩, 9 / 10⟩] = true := by decide +kernel
    exact (if_pos hgranted).symm
  | c' :: c'' :: pre', hsplit =>
    obtain ⟨-, hrest⟩ := List.cons.inj hsplit
    obtain ⟨-, hnil⟩ := List.cons.inj hrest
    exact absurd hnil.symm (List.append_ne_nil_of_right_ne_nil _ (List.cons_ne_nil _ _))

/-- A request to open the lock is denied, and the lock records `LOW` all the same. -/
theorem not_recorded_peripheral :
    ¬ ∀ cs, Recorded [] peripheral (fun _ => HIGH) cs := by
  intro hall
  let granted : Command := ⟨⟨0x44, 0x00⟩, 9 / 10⟩
  let denied : Command := ⟨⟨0x44, 0x00⟩, 1 / 10⟩
  have hagrees := (hall [granted, denied] [granted] denied [] rfl).1
  have hlock : (runCommands [] (.initial peripheral) [granted, denied]).devs[1]? =
      some ⟨ascii "lock", 0x44, 8, OUTPUT, LOW, 1, 1⟩ := by decide +kernel
  have hgpio : (runCommands [] (.initial peripheral) [granted, denied]).gpio =
      [.digitalWrite 8 HIGH, .pinMode 8 OUTPUT, .digitalWrite 8 LOW, .pinMode 8 OUTPUT] := by
    decide +kernel
  have hlevel := hagrees 1 _ hlock ⟨HIGH, by
    rw [show [granted] ++ [denied] = [granted, denied] from rfl, hgpio]
    exact List.mem_cons_self⟩
  rw [show [granted] ++ [denied] = [granted, denied] from rfl, hgpio] at hlevel
  exact absurd hlevel (by decide)

end HomeControl
