import HomeControl.Lib.History
import HomeControl.SmokeInterface
import Mathlib.Data.List.Induction

/-!
# The end of an alarm

`smoke_get` clears `switch_status` before it sends the all-clear command.  When that
send fails, no later round repeats it.

* `smokeRun` is the thread over a list of rounds, with the messages that it enqueued.
* `Clears` says that after each `HIGH` reading without a failed send, the last message
  enqueued is the all-clear.
* `clears_iff_not_abandoned` says for which rounds it holds: those without an alarm that
  was enqueued, is followed by failed sends only, the last of them for a `HIGH` reading,
  and then by another `HIGH` reading.
-/

namespace HomeControl

/-- One round of the loop: what `digitalRead` returns, and whether `mq_send` succeeds if
it is called. -/
structure Iteration where
  status : Int
  success : Bool
  level : status = LOW ∨ status = HIGH

/-- The thread between two rounds.  `enqueued` is a record of the messages that
`mq_send` accepted, the newest last. -/
structure SmokeRun where
  smoke : SmokeGet
  enqueued : List Msg

def SmokeRun.start : SmokeRun := { smoke := .start, enqueued := [] }

/-- One round. -/
def SmokeRun.iterate (s : SmokeRun) (it : Iteration) : SmokeRun :=
  let smoke := s.smoke.read it.status
  match smoke.sending with
  | none => { s with smoke := smoke }
  | some m =>
    { smoke := smoke.returned it.success
      enqueued := if it.success then s.enqueued ++ [m] else s.enqueued }

/-- The rounds one after the other. -/
def smokeRun (its : List Iteration) : SmokeRun := its.foldl SmokeRun.iterate .start

/-- The round calls `mq_send`, and the call fails. -/
def SmokeRun.SendFails (s : SmokeRun) (it : Iteration) : Prop :=
  (s.smoke.read it.status).sending ≠ none ∧ it.success = false

/-- After this round, if it reads `HIGH` and no send fails in it, the last message
enqueued is the all-clear. -/
def ClearsAt (pre : List Iteration) (it : Iteration) : Prop :=
  it.status = HIGH → ¬ (smokeRun pre).SendFails it →
    ∀ m, (smokeRun (pre ++ [it])).enqueued.getLast? = some m → m = allClearFrame.bytes

/-- No round that reads `HIGH`, and in which no send fails, leaves the alarm as the last
message. -/
def Clears (its : List Iteration) : Prop :=
  ∀ pre it post, its = pre ++ it :: post → ClearsAt pre it

/-- An alarm was enqueued, all sends after it failed, and a `HIGH` reading follows
directly on another. -/
def Abandoned (its : List Iteration) : Prop :=
  ∃ pre alarm failed it post, its = pre ++ alarm :: failed ++ it :: post ∧
    (alarm.status = LOW ∧ alarm.success = true) ∧ (∀ x ∈ failed, x.success = false) ∧
    (∃ last, failed.getLast? = some last ∧ last.status = HIGH) ∧ it.status = HIGH

/-! ## One round -/

/-- Between two rounds no message waits, and the buffer has its fixed bytes. -/
structure SmokeRun.Ready (s : SmokeRun) : Prop where
  idle : s.smoke.sending = none
  framed : s.smoke.Framed

/-- What a round does: it sends the alarm, it sends the all-clear, or it sends
nothing. -/
theorem SmokeRun.iterate_cases {s : SmokeRun} (h : s.Ready) (it : Iteration) :
    (it.status = LOW ∧ (s.iterate it).smoke.switchStatus = 1 ∧
      (s.iterate it).enqueued =
        if it.success then s.enqueued ++ [alarmFrame.bytes] else s.enqueued) ∨
    (it.status = HIGH ∧ s.smoke.switchStatus = 1 ∧ (s.iterate it).smoke.switchStatus = 0 ∧
      (s.SendFails it ↔ it.success = false) ∧
      (s.iterate it).enqueued =
        if it.success then s.enqueued ++ [allClearFrame.bytes] else s.enqueued) ∨
    (it.status = HIGH ∧ s.smoke.switchStatus ≠ 1 ∧ ¬ s.SendFails it ∧
      (s.iterate it).smoke.switchStatus = s.smoke.switchStatus ∧
      (s.iterate it).enqueued = s.enqueued) := by
  rcases SmokeGet.read_cases h.framed it.status with
    ⟨hlow, hswitch, hsend⟩ | ⟨hhigh, hon, hswitch, hsend⟩ | ⟨hlow, hoff, hswitch, hsend⟩
  · refine .inl ⟨hlow, ?_, ?_⟩
    · simp only [SmokeRun.iterate, hsend]
      exact hswitch
    · simp only [SmokeRun.iterate, hsend]
  · refine .inr (.inl ⟨hhigh, hon, ?_, ?_, ?_⟩)
    · simp only [SmokeRun.iterate, hsend]
      exact hswitch
    · simp [SmokeRun.SendFails, hsend]
    · simp only [SmokeRun.iterate, hsend]
  · have hhigh := it.level.resolve_left hlow
    rw [h.idle] at hsend
    refine .inr (.inr ⟨hhigh, fun hon => hoff ⟨hhigh, hon⟩, fun h => h.1 hsend, ?_, ?_⟩)
    · simp only [SmokeRun.iterate, hsend]
      exact hswitch
    · simp only [SmokeRun.iterate, hsend]

theorem SmokeRun.Ready.iterate {s : SmokeRun} (h : s.Ready) (it : Iteration) :
    (s.iterate it).Ready := by
  have hframed := SmokeGet.framed_read h.framed it.status
  cases hsend : (s.smoke.read it.status).sending with
  | none =>
    simp only [SmokeRun.iterate, hsend]
    exact ⟨hsend, hframed⟩
  | some m =>
    simp only [SmokeRun.iterate, hsend]
    exact ⟨rfl, SmokeGet.framed_returned hframed it.success⟩

/-! ## A list of rounds -/

theorem smokeRun_concat (its : List Iteration) (it : Iteration) :
    smokeRun (its ++ [it]) = (smokeRun its).iterate it := by
  rw [smokeRun, List.foldl_append]
  rfl

theorem ready_smokeRun (its : List Iteration) : (smokeRun its).Ready := by
  induction its using List.reverseRecOn with
  | nil => exact ⟨rfl, SmokeGet.framed_start⟩
  | append_singleton its it ih =>
    rw [smokeRun_concat]
    exact ih.iterate it

/-- `switch_status` is set exactly when the last reading was `LOW`. -/
theorem switchStatus_smokeRun (its : List Iteration) :
    (smokeRun its).smoke.switchStatus = 1 ↔ ∃ it, its.getLast? = some it ∧ it.status = LOW := by
  induction its using List.reverseRecOn with
  | nil => simp [smokeRun, SmokeRun.start, SmokeGet.start]
  | append_singleton its it ih =>
    have hlast : (∃ x, (its ++ [it]).getLast? = some x ∧ x.status = LOW) ↔ it.status = LOW := by
      simp
    rw [hlast, smokeRun_concat]
    rcases SmokeRun.iterate_cases (ready_smokeRun its) it with
      ⟨hlow, hswitch, -⟩ | ⟨hhigh, -, hswitch, -⟩ | ⟨hhigh, hoff, -, hswitch, -⟩
    · simp [hlow, hswitch]
    · simp [hhigh, hswitch, LOW_ne_HIGH.symm]
    · simp [hhigh, hswitch, hoff, LOW_ne_HIGH.symm]

/-- A round whose send fails, or that sends nothing, enqueues nothing. -/
theorem enqueued_of_failed (pre : List Iteration) {failed : List Iteration}
    (h : ∀ x ∈ failed, x.success = false) :
    (smokeRun (pre ++ failed)).enqueued = (smokeRun pre).enqueued := by
  induction failed using List.reverseRecOn with
  | nil => rw [List.append_nil]
  | append_singleton failed x ih =>
    have hfail := h x (List.mem_append_right _ (List.mem_singleton_self x))
    have hrest := ih fun y hy => h y (List.mem_append_left _ hy)
    rw [← List.append_assoc, smokeRun_concat, ← hrest]
    rcases SmokeRun.iterate_cases (ready_smokeRun (pre ++ failed)) x with
      ⟨-, -, heq⟩ | ⟨-, -, -, -, heq⟩ | ⟨-, -, -, -, heq⟩
    · simpa [hfail] using heq
    · simpa [hfail] using heq
    · exact heq

/-- An alarm that is accepted is the last message, as long as every send after it fails. -/
theorem enqueued_of_alarm (pre : List Iteration) {alarm : Iteration} {failed : List Iteration}
    (hlow : alarm.status = LOW) (hsuccess : alarm.success = true)
    (hfailed : ∀ x ∈ failed, x.success = false) :
    (smokeRun (pre ++ alarm :: failed)).enqueued =
      (smokeRun pre).enqueued ++ [alarmFrame.bytes] := by
  rw [List.append_cons, enqueued_of_failed _ hfailed, smokeRun_concat]
  rcases SmokeRun.iterate_cases (ready_smokeRun pre) alarm with
    ⟨-, -, heq⟩ | ⟨hhigh, -⟩ | ⟨hhigh, -⟩
  · rw [heq, if_pos hsuccess]
  · exact absurd (hlow.symm.trans hhigh) LOW_ne_HIGH
  · exact absurd (hlow.symm.trans hhigh) LOW_ne_HIGH

/-- Every message is the alarm or the all-clear. -/
theorem enqueued_cases (its : List Iteration) :
    ∀ m ∈ (smokeRun its).enqueued, m = alarmFrame.bytes ∨ m = allClearFrame.bytes := by
  induction its using List.reverseRecOn with
  | nil =>
    intro m hm
    cases hm
  | append_singleton its it ih =>
    rw [smokeRun_concat]
    have hadd : ∀ n : Msg, n = alarmFrame.bytes ∨ n = allClearFrame.bytes →
        ∀ m ∈ (if it.success then (smokeRun its).enqueued ++ [n] else (smokeRun its).enqueued),
          m = alarmFrame.bytes ∨ m = allClearFrame.bytes := by
      intro n hn m hm
      split at hm
      · rcases List.mem_append.mp hm with hm | hm
        · exact ih m hm
        · rw [List.mem_singleton.mp hm]
          exact hn
      · exact ih m hm
    rcases SmokeRun.iterate_cases (ready_smokeRun its) it with
      ⟨-, -, heq⟩ | ⟨-, -, -, -, heq⟩ | ⟨-, -, -, -, heq⟩
    · rw [heq]
      exact hadd _ (.inl rfl)
    · rw [heq]
      exact hadd _ (.inr rfl)
    · rw [heq]
      exact ih

/-! ## When the alarm is cleared -/

theorem clears_concat {its : List Iteration} {it : Iteration} :
    Clears (its ++ [it]) ↔ Clears its ∧ ClearsAt its it :=
  History.forall_split_concat

/-- As long as the alarm was always cleared, the last message is an alarm only while
every send since has failed. -/
theorem failed_since_alarm {its : List Iteration} (hclears : Clears its)
    (hlast : (smokeRun its).enqueued.getLast? = some alarmFrame.bytes) :
    ∃ pre alarm failed, its = pre ++ alarm :: failed ∧
      (alarm.status = LOW ∧ alarm.success = true) ∧ ∀ x ∈ failed, x.success = false := by
  have hne : alarmFrame.bytes ≠ allClearFrame.bytes := by decide
  induction its using List.reverseRecOn with
  | nil => cases hlast
  | append_singleton its it ih =>
    obtain ⟨hbefore, hat⟩ := clears_concat.mp hclears
    -- A round that enqueues nothing is one more failed round.
    have hextend : (smokeRun its).enqueued.getLast? = some alarmFrame.bytes →
        it.success = false → ∃ pre alarm failed, its ++ [it] = pre ++ alarm :: failed ∧
          (alarm.status = LOW ∧ alarm.success = true) ∧ ∀ x ∈ failed, x.success = false := by
      intro hold hfail
      obtain ⟨pre, alarm, failed, rfl, halarm, hfailed⟩ := ih hbefore hold
      refine ⟨pre, alarm, failed ++ [it], by simp, halarm, fun x hx => ?_⟩
      rcases List.mem_append.mp hx with hx | hx
      · exact hfailed x hx
      · rw [List.mem_singleton.mp hx]
        exact hfail
    have hlast' := hlast
    rw [smokeRun_concat] at hlast'
    rcases SmokeRun.iterate_cases (ready_smokeRun its) it with
      ⟨hlow, -, heq⟩ | ⟨-, -, -, -, heq⟩ | ⟨hhigh, -, hnofail, -⟩
    · cases hsuccess : it.success with
      | true => exact ⟨its, it, [], rfl, ⟨hlow, hsuccess⟩, fun x hx => by cases hx⟩
      | false =>
        rw [heq, hsuccess] at hlast'
        exact hextend hlast' hsuccess
    · cases hsuccess : it.success with
      | true =>
        rw [heq, hsuccess, if_pos rfl, List.getLast?_concat] at hlast'
        exact absurd (Option.some.inj hlast').symm hne
      | false =>
        rw [heq, hsuccess] at hlast'
        exact hextend hlast' hsuccess
    · -- No send was due, so the alarm would have had to be cleared before.
      exact absurd (hat hhigh hnofail _ hlast) hne

/-- For every list of rounds: each `HIGH` reading without a failed send leaves the
all-clear as the last message, exactly when no alarm was abandoned. -/
theorem clears_iff_not_abandoned (its : List Iteration) : Clears its ↔ ¬ Abandoned its := by
  have hne : alarmFrame.bytes ≠ allClearFrame.bytes := by decide
  constructor
  · rintro hclears ⟨pre, alarm, failed, it, post, rfl, ⟨hlow, hsuccess⟩, hfailed,
      ⟨last, hlast, hlastHigh⟩, hhigh⟩
    have hoff : (smokeRun (pre ++ alarm :: failed)).smoke.switchStatus ≠ 1 := by
      intro hon
      obtain ⟨x, hx, hxlow⟩ := (switchStatus_smokeRun _).mp hon
      have hend : (pre ++ alarm :: failed).getLast? = some last := by
        rw [List.getLast?_append, List.getLast?_cons, hlast]
        rfl
      rw [hend] at hx
      obtain rfl := Option.some.inj hx
      exact LOW_ne_HIGH (hxlow.symm.trans hlastHigh)
    have henqueued := enqueued_of_alarm pre hlow hsuccess hfailed
    have hready := ready_smokeRun (pre ++ alarm :: failed)
    rcases SmokeRun.iterate_cases hready it with
      ⟨hl, -⟩ | ⟨-, hon, -⟩ | ⟨-, -, hnofail, -, heq⟩
    · exact absurd (hl.symm.trans hhigh) LOW_ne_HIGH
    · exact hoff hon
    · have hend : (smokeRun (pre ++ alarm :: failed ++ [it])).enqueued.getLast? =
          some alarmFrame.bytes := by
        rw [smokeRun_concat, heq, henqueued, List.getLast?_concat]
      exact hne (hclears _ it post rfl hhigh hnofail _ hend)
  · intro hno
    induction its using List.reverseRecOn with
    | nil =>
      intro pre it post h
      exact absurd h.symm (List.append_ne_nil_of_right_ne_nil _ (List.cons_ne_nil _ _))
    | append_singleton its it ih =>
      have hbefore : Clears its := ih fun ⟨pre, alarm, failed, x, post, hsplit, hrest⟩ =>
        hno ⟨pre, alarm, failed, x, post ++ [it], by rw [hsplit]; simp, hrest⟩
      refine clears_concat.mpr ⟨hbefore, fun hhigh hnofail m hm => ?_⟩
      rw [smokeRun_concat] at hm
      rcases SmokeRun.iterate_cases (ready_smokeRun its) it with
        ⟨hlow, -⟩ | ⟨-, -, -, hfails, heq⟩ | ⟨-, hoff, -, -, heq⟩
      · exact absurd (hlow.symm.trans hhigh) LOW_ne_HIGH
      · have hsuccess : it.success = true := by
          cases hs : it.success with
          | true => rfl
          | false => exact absurd (hfails.mpr hs) hnofail
        rw [heq, if_pos hsuccess, List.getLast?_concat] at hm
        exact (Option.some.inj hm).symm
      · rw [heq] at hm
        rcases enqueued_cases its m (List.mem_of_getLast? hm) with rfl | hclear
        · exfalso
          obtain ⟨pre, alarm, failed, rfl, halarm, hfailed⟩ := failed_since_alarm hbefore hm
          have hlast : ∃ last, failed.getLast? = some last ∧ last.status = HIGH := by
            rcases List.eq_nil_or_concat' failed with rfl | ⟨init, last, rfl⟩
            · have hon := (switchStatus_smokeRun (pre ++ [alarm])).mpr
                ⟨alarm, List.getLast?_concat, halarm.1⟩
              exact absurd hon hoff
            · refine ⟨last, List.getLast?_concat, last.level.resolve_left fun hlow => hoff ?_⟩
              refine (switchStatus_smokeRun _).mpr ⟨last, ?_, hlow⟩
              rw [← List.cons_append, ← List.append_assoc, List.getLast?_concat]
          exact hno ⟨pre, alarm, failed, it, [], by simp, halarm, hfailed, hlast, hhigh⟩
        · exact hclear

/-- The alarm is enqueued, the all-clear fails, and the next round does not repeat it. -/
def failedClear : List Iteration :=
  [⟨LOW, true, .inl rfl⟩, ⟨HIGH, false, .inr rfl⟩, ⟨HIGH, true, .inr rfl⟩]

theorem not_clears_failedClear : ¬ Clears failedClear := by
  intro hclears
  have hnofail : ¬ (smokeRun [⟨LOW, true, .inl rfl⟩, ⟨HIGH, false, .inr rfl⟩]).SendFails
      ⟨HIGH, true, .inr rfl⟩ := fun h => by cases h.2
  have hclear := hclears [⟨LOW, true, .inl rfl⟩, ⟨HIGH, false, .inr rfl⟩]
    ⟨HIGH, true, .inr rfl⟩ [] rfl rfl hnofail alarmFrame.bytes (by decide +kernel)
  exact absurd hclear (by decide)

end HomeControl
