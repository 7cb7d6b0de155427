import HomeControl.Lib.Work
import HomeControl.Home

/-!
# The program comes to rest

Between the readings of the producers the program has work to do: messages wait in the
queue, `receive_get` may hold one, and handlers and `voice_set` threads are under way.
`Home.work` counts the steps that all of this can still take.  A message that
`mq_receive` returns, its dispatch, and a step of a handler or of a voice thread use up at
least one of them each, and only a message that is enqueued adds any, 22 at most.  A call of
`mq_receive` that fails does no work and is not counted.

* `Handler.work_next` is the count for one handler: the longest way through
  `handld_device` has 18 accesses, and it creates one voice thread, which makes two.
* `work_paid` is the count for whole runs.
* `comes_to_rest` and `orderly_rest` say that the work can always be finished, and what the
  pins and the device list are then.
-/

namespace HomeControl

open SharedMemory StepSystem LastWrite

/-! ## The work of one thread -/

/-- The steps that the announcement can still take, with those of the display, the relock
and the voice thread. -/
def AnnouncePc.work : AnnouncePc → Nat
  | .alarmKey => 15
  | .alarmStatus => 14
  | .openedKey => 13
  | .openedStatus => 12
  | .failedKey => 11
  | .failedStatus => 10
  | .alarm2 => 10
  | .alarm3 | .opened2 | .failed2 => 9
  | .create => 8
  | .reset2 => 5
  | .reset3 => 4

/-- The steps that a handler can still take, with those of the voice thread that it may
create. -/
def Pc.work : Pc → Nat
  | .find => 20
  | .assign => 19
  | .parRetfunc => 18
  | .mark => 17
  | .setGpio => 16
  | .announce a => a.work
  | .oled => 3
  | .relockAssign => 2
  | .relockSet => 1
  | .done => 0

def VoicePc.work : VoicePc → Nat
  | .start => 2
  | .puts => 1
  | .exited => 0

/-- The work of the voice thread that an access creates. -/
def Action.work : Action → Nat
  | .pthreadCreate (some .voiceSet) => 2
  | _ => 0

theorem Action.work_le (act : Action) : act.work ≤ 2 := by
  unfold Action.work
  split
  · exact Nat.le_refl 2
  · exact Nat.zero_le 2

theorem Action.sum_voiceThread (act : Action) (s : House) :
    ((act.voiceThread s).map (·.pc.work)).sum = act.work := by
  cases act with
  | pthreadCreate set => rcases set with _ | ⟨_ | _⟩ <;> rfl
  | _ => rfl

theorem Pc.work_eq_zero {pc : Pc} : pc.work = 0 ↔ pc = .done := by
  cases pc with
  | announce a => cases a <;> simp [Pc.work, AnnouncePc.work]
  | _ => simp [Pc.work]

theorem VoicePc.work_eq_zero {pc : VoicePc} : pc.work = 0 ↔ pc = .exited := by
  cases pc <;> simp [VoicePc.work]

/-- One step of the announcement. -/
theorem AnnouncePc.work_next (a : AnnouncePc) (set : Option SetRoutine) (buffer : Buffer) :
    ((a.next set buffer).1.elim Pc.oled .announce).work + (a.next set buffer).2.work <
      a.work := by
  cases a with
  | create =>
    have hvoice := (Action.pthreadCreate set).work_le
    show 5 + (Action.pthreadCreate set).work < 8
    omega
  | alarmKey | alarmStatus | openedKey | openedStatus | failedKey | failedStatus =>
    simp only [AnnouncePc.next]
    split <;> simp [Pc.work, AnnouncePc.work, Action.work]
  | _ => simp [AnnouncePc.next, Pc.work, AnnouncePc.work, Action.work]

/-- After `ret` is set, the announcement is the longer way. -/
theorem work_afterRet (ctrlPhead : List Control) (devs : List Gdevice) (curDev : Nat) :
    (afterRet ctrlPhead devs curDev).work ≤ 15 := by
  rcases afterRet_cases ctrlPhead devs curDev with hafter | hafter
  · rw [hafter]
    decide
  · rw [hafter]
    decide

variable {ctrlPhead : List Control} {devs : List Gdevice}

/-- A step of a handler that has not ended uses up work, also when it creates a voice
thread. -/
theorem Handler.work_next (ctrlPhead : List Control) (s : House) {h : Handler}
    (hpc : h.pc ≠ .done) :
    (h.next ctrlPhead s).1.pc.work + (h.next ctrlPhead s).2.work < h.pc.work := by
  have hafter := work_afterRet ctrlPhead s.devs h.curDev
  cases hplace : h.pc with
  | find =>
    cases hfind : findDeviceByKey s.devs (s.buffer 2).toNat <;>
      simp [Handler.next, hplace, hfind, Pc.work, Action.work]
  | assign =>
    simp only [Handler.next, hplace]
    split <;> simp [Pc.work, Action.work]
  | mark =>
    simp only [Handler.next, hplace]
    split
    · simp [Pc.work, Action.work]
    · show (afterRet ctrlPhead s.devs h.curDev).work + 0 < 17
      omega
  | setGpio =>
    simp only [Handler.next, hplace]
    show (afterRet ctrlPhead s.devs h.curDev).work + 0 < 16
    omega
  | announce a =>
    simp only [Handler.next, hplace]
    exact a.work_next _ s.buffer
  | oled =>
    simp only [Handler.next, hplace]
    split <;> simp [Pc.work, Action.work]
  | parRetfunc | relockAssign | relockSet => simp [Handler.next, hplace, Pc.work, Action.work]
  | done => exact absurd hplace hpc

theorem VoiceSet.work_next (v : VoiceSet) (serial : Bool) (buffer : Buffer)
    (hpc : v.pc ≠ .exited) : (v.next serial buffer).pc.work < v.pc.work := by
  cases hplace : v.pc with
  | start =>
    simp only [VoiceSet.next, hplace]
    split <;> decide
  | puts => simp [VoiceSet.next, hplace, VoicePc.work]
  | exited => exact absurd hplace hpc

/-! ## The work of the program -/

/-- The steps that the handlers and the voice threads can still take. -/
def World.work (w : World) : Nat :=
  (w.handlers.map (·.pc.work)).sum + (w.voices.map (·.pc.work)).sum

/-- A message in the queue has yet to be received, dispatched and handled. -/
def Home.work (s : Home) : Nat :=
  22 * s.pipe.queue.items.length + 21 * s.pipe.receiver.held.length + s.world.work

theorem World.work_advance {w : World} {i : Nat} {h : Handler} (hh : w.handlers[i]? = some h)
    (hpc : h.pc ≠ .done) : (w.advance ctrlPhead i h).work < w.work := by
  have hnext := h.work_next ctrlPhead w.house hpc
  have hset := @sum_map_set _ (fun h : Handler => h.pc.work) _ _ _
    (h.next ctrlPhead w.house).1 hh
  have hvoices := (h.next ctrlPhead w.house).2.sum_voiceThread w.house
  unfold World.work World.advance
  dsimp only
  rw [List.map_append, List.sum_append, hvoices]
  omega

theorem World.work_announce {w : World} {j : Nat} {v : VoiceSet} (hv : w.voices[j]? = some v)
    (hpc : v.pc ≠ .exited) (serial : Bool) : (w.announce j v serial).work < w.work := by
  have hnext := v.work_next serial w.house.buffer hpc
  have hset := @sum_map_set _ (fun v : VoiceSet => v.pc.work) _ _ _
    (v.next serial w.house.buffer) hv
  unfold World.work World.announce
  dsimp only
  omega

theorem World.work_step {w w' : World} {ℓ : Label} (hstep : w.step ctrlPhead ℓ = some w')
    (hne : ℓ ≠ .receive) : w'.work < w.work := by
  rcases World.step_cases hstep with
    ⟨c, rest, rfl, -, -⟩ | ⟨i, h, rfl, hh, hpc, rfl⟩ | ⟨j, v, serial, rfl, hv, hpc, rfl⟩
  · exact absurd rfl hne
  · exact World.work_advance hh hpc
  · exact World.work_announce hv hpc serial

theorem World.work_dispatch (w : World) (c : Command) (rest : List Command) :
    (w.dispatch c rest).work = w.work + 20 := by
  unfold World.work World.dispatch
  dsimp only
  rw [List.map_append, List.sum_append]
  show _ + 20 + _ = _
  omega

/-- A message that `mq_receive` returns, a dispatch, or a step of a handler or of a voice
thread.  A call of `mq_receive` that fails is none of these. -/
def HomeLabel.consumes : HomeLabel → Bool
  | .thread .mqReceive | .dispatch _ | .handler _ | .voice _ _ => true
  | .thread _ => false

theorem ReceiveGet.held_error (s : ReceiveGet) (eagain : Bool) :
    (s.error eagain).held = s.held := by
  unfold ReceiveGet.error
  split <;> rfl

/-- A send pays for the message that it enqueues. -/
theorem Pipeline.work_send {s t : Pipeline} {m : Msg} {success : Bool}
    (ht : s.send m success = some t) :
    t.receiver = s.receiver ∧
      22 * t.queue.items.length + 22 * s.sent.length =
        22 * s.queue.items.length + 22 * t.sent.length := by
  rcases Pipeline.send_cases ht with ⟨-, q, hq, rfl⟩ | ⟨-, rfl⟩
  · refine ⟨rfl, ?_⟩
    show 22 * q.items.length + 22 * s.sent.length =
      22 * s.queue.items.length + 22 * (s.sent ++ [m]).length
    rw [hq, List.length_append, List.length_append, List.length_singleton]
    omega
  · exact ⟨rfl, rfl⟩

/-- The books of one step of the pipeline other than the dispatch. -/
theorem Pipeline.work_takes {s s' : Pipeline} {ℓ : PipelineLabel} (hstep : s.Takes ℓ s')
    (hne : ℓ ≠ .dispatch) :
    (if (HomeLabel.thread ℓ).consumes then 1 else 0) + 22 * s'.queue.items.length +
        21 * s'.receiver.held.length + 22 * s.sent.length ≤
      22 * s.queue.items.length + 21 * s.receiver.held.length + 22 * s'.sent.length := by
  cases hstep with
  | dispatch => exact absurd rfl hne
  | @mqReceive m q hrun hidle hpop =>
    have hitems := congrArg List.length (Fifo.items_of_pop? hpop)
    rw [List.length_cons] at hitems
    show 1 + 22 * q.items.length + 21 * (s.receiver.receive m).held.length +
        22 * s.sent.length ≤
      22 * s.queue.items.length + 21 * s.receiver.held.length + 22 * s.sent.length
    rw [ReceiveGet.held_receive, List.length_singleton]
    omega
  | @mqError eagain hrun hidle =>
    show 0 + 22 * s.queue.items.length + 21 * (s.receiver.error eagain).held.length +
        22 * s.sent.length ≤
      22 * s.queue.items.length + 21 * s.receiver.held.length + 22 * s.sent.length
    rw [ReceiveGet.held_error]
    omega
  | @voiceSend m success t hm ht =>
    obtain ⟨hreceiver, hpaid⟩ := Pipeline.work_send ht
    show 0 + 22 * t.queue.items.length + 21 * t.receiver.held.length + 22 * s.sent.length ≤
      22 * s.queue.items.length + 21 * s.receiver.held.length + 22 * t.sent.length
    rw [hreceiver]
    omega
  | @tcpSend m success t hm ht =>
    obtain ⟨hreceiver, hpaid⟩ := Pipeline.work_send ht
    show 0 + 22 * t.queue.items.length + 21 * t.receiver.held.length + 22 * s.sent.length ≤
      22 * s.queue.items.length + 21 * s.receiver.held.length + 22 * t.sent.length
    rw [hreceiver]
    omega
  | @smokeSend m success t hm ht =>
    obtain ⟨hreceiver, hpaid⟩ := Pipeline.work_send ht
    show 0 + 22 * t.queue.items.length + 21 * t.receiver.held.length + 22 * s.sent.length ≤
      22 * s.queue.items.length + 21 * s.receiver.held.length + 22 * t.sent.length
    rw [hreceiver]
    omega
  | voiceRead | tcpAccept | tcpRecv | smokeRead =>
    exact Nat.le_of_eq (by simp [HomeLabel.consumes])

/-- The books of one step of the program. -/
theorem Home.work_step {s s' : Home} (hf : s.pipe.Faithful) {ℓ : HomeLabel}
    (hstep : s.step ctrlPhead ℓ = some s') :
    (if ℓ.consumes then 1 else 0) + s'.work + 22 * s.pipe.sent.length ≤
      s.work + 22 * s'.pipe.sent.length := by
  rcases Home.step_cases hstep with
    ⟨ℓ', pipe, rfl, hne, hpipe, rfl⟩ | ⟨score, pipe, rfl, hpipe, rfl⟩ |
      ⟨ℓ', world, hne, hnot, hworld, rfl⟩
  · have hbooks := Pipeline.work_takes (Pipeline.takes_of_step hpipe) hne
    unfold Home.work
    dsimp only
    omega
  · obtain ⟨f, hacc, -⟩ := Pipeline.dispatch_cases hf hpipe
    have hwork := s.world.work_dispatch ⟨f, score⟩ []
    rw [← World.start_frame, ← hacc] at hwork
    cases Pipeline.takes_dispatch hpipe with
    | @dispatch n hn =>
      have hheld : s.pipe.receiver.held.length = 1 := by
        rw [ReceiveGet.held, hn]
        rfl
      show 1 + (22 * s.pipe.queue.items.length + 21 * 0 +
          (s.world.start s.pipe.receiver.accepted score).work) + 22 * s.pipe.sent.length ≤
        22 * s.pipe.queue.items.length + 21 * s.pipe.receiver.held.length + s.world.work +
          22 * s.pipe.sent.length
      omega
  · have hless := World.work_step hworld hne
    show _ + (22 * s.pipe.queue.items.length + 21 * s.pipe.receiver.held.length + world.work) +
        22 * s.pipe.sent.length ≤
      22 * s.pipe.queue.items.length + 21 * s.pipe.receiver.held.length + s.world.work +
        22 * s.pipe.sent.length
    split <;> omega

/-- Every message that `mq_receive` returns, every dispatch, and every step of a handler or
of a voice thread is paid for by a message, in any run: there are at most 22 such steps for
each message that was enqueued, and those that are still to come are accounted for.  The
calls of `mq_receive` that fail are not among them. -/
theorem work_paid (ctrlPhead : List Control) (devs : List Gdevice) (ls : List HomeLabel)
    (s : Home) (hrun : (home ctrlPhead devs).run (home ctrlPhead devs).start ls = some s) :
    ls.countP HomeLabel.consumes + s.work ≤ 22 * s.pipe.sent.length := by
  have hkeep : ∀ s ℓ s', (home ctrlPhead devs).Reachable s →
      (home ctrlPhead devs).step s ℓ = some s' → (home ctrlPhead devs).Reachable s' ∧
        (if ℓ.consumes then 1 else 0) + s'.work + 22 * s.pipe.sent.length ≤
          s.work + 22 * s'.pipe.sent.length := by
    intro s ℓ s' hs hstep
    have hf := faithful_of_reachable (pipeline_of_home hs)
    exact ⟨.step hs trivial hstep, Home.work_step hf hstep⟩
  have hbooks := (@run_paid _ _ _ _ Home.work HomeLabel.consumes
    (fun s => 22 * s.pipe.sent.length) hkeep _ _ .start _ hrun).2
  have hstart : (home ctrlPhead devs).start.work = 0 := rfl
  have hsent : (home ctrlPhead devs).start.pipe.sent = [] := rfl
  rw [hstart, hsent, List.length_nil, Nat.zero_add] at hbooks
  exact hbooks

/-- A run that enqueues one alarm and receives it. -/
theorem work_paid_alarm :
    ∃ ls s, (home [] peripheral).run (home [] peripheral).start ls = some s ∧
      s.pipe.sent.length = 1 ∧
      ls.countP HomeLabel.consumes + s.work ≤ 22 * s.pipe.sent.length := by
  have hends : ((home [] peripheral).run (home [] peripheral).start
      [.thread (.smokeRead LOW), .thread (.smokeSend true), .thread .mqReceive]).any
        (fun s => s.pipe.sent.length == 1) = true := by decide +kernel
  rcases hrun : (home [] peripheral).run (home [] peripheral).start
      [.thread (.smokeRead LOW), .thread (.smokeSend true), .thread .mqReceive] with _ | s
  · rw [hrun] at hends
    cases hends
  · rw [hrun] at hends
    exact ⟨_, s, hrun, beq_iff_eq.mp hends, work_paid [] peripheral _ s hrun⟩

/-! ## Rest -/

/-- Nothing waits in the queue or is held, and every handler and voice thread has ended. -/
def Home.AtRest (s : Home) : Prop :=
  s.pipe.queue.items = [] ∧ s.pipe.receiver.held = [] ∧ s.world.Quiet

theorem World.work_eq_zero {w : World} : w.work = 0 ↔ w.Quiet := by
  rw [World.work, Nat.add_eq_zero_iff, sum_map_eq_zero_iff, sum_map_eq_zero_iff]
  simp only [Pc.work_eq_zero, VoicePc.work_eq_zero]
  rfl

theorem Home.work_eq_zero {s : Home} : s.work = 0 ↔ s.AtRest := by
  have hqueue : 22 * s.pipe.queue.items.length = 0 ↔ s.pipe.queue.items = [] := by
    rw [← List.length_eq_zero_iff]
    omega
  have hheld : 21 * s.pipe.receiver.held.length = 0 ↔ s.pipe.receiver.held = [] := by
    rw [← List.length_eq_zero_iff]
    omega
  rw [Home.work, Nat.add_eq_zero_iff, Nat.add_eq_zero_iff, hqueue, hheld, World.work_eq_zero,
    Home.AtRest, and_assoc]

/-- A handler or a voice thread that has not ended can make a step. -/
theorem World.exists_step {w : World} (hwork : 0 < w.work) :
    ∃ ℓ w', ℓ ≠ .receive ∧ w.step ctrlPhead ℓ = some w' := by
  by_cases hdone : ∀ h ∈ w.handlers, h.pc = .done
  · by_cases hexited : ∀ v ∈ w.voices, v.pc = .exited
    · rw [World.work_eq_zero.mpr ⟨hdone, hexited⟩] at hwork
      exact absurd hwork (Nat.lt_irrefl 0)
    · push Not at hexited
      obtain ⟨v, hv, hpc⟩ := hexited
      obtain ⟨j, hj⟩ := List.mem_iff_getElem?.mp hv
      exact ⟨.voice j false, _, by simp, World.step_voice hj hpc false⟩
  · push Not at hdone
    obtain ⟨h, hh, hpc⟩ := hdone
    obtain ⟨i, hi⟩ := List.mem_iff_getElem?.mp hh
    exact ⟨.handler i, _, by simp, World.step_handler hi hpc⟩

/-- The step of the program that a step of a handler or of a voice thread is. -/
theorem Home.step_of_world {s : Home} {ℓ : Label} {w : World} (hne : ℓ ≠ .receive)
    (hstep : s.world.step ctrlPhead ℓ = some w) :
    ∃ ℓ' : HomeLabel, ℓ'.consumes = true ∧ (∀ score, ℓ' ≠ .dispatch score) ∧
      s.step ctrlPhead ℓ' = some { s with world := w } := by
  cases ℓ with
  | receive => exact absurd rfl hne
  | handler i =>
    refine ⟨.handler i, rfl, by simp, ?_⟩
    rw [Home.step, hstep, Option.map_some]
  | voice j serial =>
    refine ⟨.voice j serial, rfl, by simp, ?_⟩
    rw [Home.step, hstep, Option.map_some]

/-- While there is work, some step uses it up, and the handlers come first. -/
theorem Home.exists_consumes {s : Home} (hrunning : s.pipe.receiver.running = true)
    (hwork : 0 < s.work) :
    ∃ ℓ s', ℓ.consumes = true ∧ Orderly s ℓ ∧ s.step ctrlPhead ℓ = some s' := by
  by_cases hworld : 0 < s.world.work
  · obtain ⟨ℓ, w, hne, hstep⟩ := @World.exists_step ctrlPhead _ hworld
    obtain ⟨ℓ', hconsumes, hnot, hstep'⟩ := Home.step_of_world hne hstep
    exact ⟨ℓ', _, hconsumes, fun score h => absurd h (hnot score), hstep'⟩
  · have hquiet : s.world.Quiet := World.work_eq_zero.mp (by omega)
    cases hread : s.pipe.receiver.readLen with
    | some n =>
      have hstep : ∃ pipe, s.pipe.dispatch = some pipe := by
        rw [Pipeline.dispatch, hread, if_neg (Option.some_ne_none n)]
        exact ⟨_, rfl⟩
      obtain ⟨pipe, hpipe⟩ := hstep
      have hdispatch : s.step ctrlPhead (.dispatch 0) = some { s with
          pipe := pipe, world := s.world.start s.pipe.receiver.accepted 0 } := by
        rw [Home.step, hpipe, Option.map_some]
      exact ⟨.dispatch 0, _, rfl, fun _ _ => hquiet.1, hdispatch⟩
    | none =>
      have hheld : s.pipe.receiver.held = [] := by
        rw [ReceiveGet.held, hread]
        rfl
      have hqueue : s.pipe.queue.items ≠ [] := by
        intro hempty
        rw [Home.work_eq_zero.mpr ⟨hempty, hheld, hquiet⟩] at hwork
        exact Nat.lt_irrefl 0 hwork
      obtain ⟨m, q, hpop⟩ := Fifo.exists_pop? hqueue
      have hstep : s.pipe.step .mqReceive =
          some { s.pipe with queue := q, receiver := s.pipe.receiver.receive m } := by
        show s.pipe.mqReceive = _
        rw [Pipeline.mqReceive, if_pos ⟨hrunning, hread⟩, hpop, Option.map_some]
      have hreceive : ∃ s', s.step ctrlPhead (.thread .mqReceive) = some s' := by
        rw [Home.step, if_neg (by simp), hstep]
        exact ⟨_, rfl⟩
      obtain ⟨s', hs'⟩ := hreceive
      exact ⟨.thread .mqReceive, s', rfl, fun score h => (by cases h), hs'⟩

/-- Such a step sends nothing and keeps `receive_get` running. -/
theorem Home.consumes_keeps {s s' : Home} {ℓ : HomeLabel} (hℓ : ℓ.consumes = true)
    (hstep : s.step ctrlPhead ℓ = some s') :
    s'.pipe.sent = s.pipe.sent ∧ s'.pipe.receiver.running = s.pipe.receiver.running := by
  rcases Home.step_cases hstep with
    ⟨ℓ', pipe, rfl, hne, hpipe, rfl⟩ | ⟨score, pipe, rfl, hpipe, rfl⟩ |
      ⟨ℓ', world, -, -, -, rfl⟩
  · cases Pipeline.takes_of_step hpipe with
    | mqReceive hrun hidle hpop => exact ⟨rfl, rfl⟩
    | _ => cases hℓ
  · cases Pipeline.takes_dispatch hpipe with
    | dispatch hn => exact ⟨rfl, rfl⟩
  · exact ⟨rfl, rfl⟩

/-- And it uses up work. -/
theorem Home.work_consumes {s s' : Home} (hf : s.pipe.Faithful) {ℓ : HomeLabel}
    (hℓ : ℓ.consumes = true) (hstep : s.step ctrlPhead ℓ = some s') : s'.work < s.work := by
  have hbooks := Home.work_step hf hstep
  rw [if_pos hℓ, (Home.consumes_keeps hℓ hstep).1] at hbooks
  omega

variable {ok : Home → HomeLabel → Prop}

/-- From every state of a run that permits steps in the order of `exists_consumes`, a run
of steps that use up work leads to rest, as long as `receive_get` is running. -/
theorem exists_rest_of_orderly (hok : ∀ s ℓ, Orderly s ℓ → ok s ℓ) {s : Home}
    (hs : (home ctrlPhead devs).ReachableWhere ok s)
    (hrunning : s.pipe.receiver.running = true) :
    ∃ ls t, (home ctrlPhead devs).run s ls = some t ∧ (∀ ℓ ∈ ls, ℓ.consumes = true) ∧
      (home ctrlPhead devs).ReachableWhere ok t ∧ t.AtRest ∧ t.pipe.sent = s.pipe.sent := by
  have hprogress : ∀ t, ((home ctrlPhead devs).ReachableWhere ok t ∧
        t.pipe.receiver.running = true ∧ t.pipe.sent = s.pipe.sent) → 0 < t.work →
      ∃ ℓ t', ℓ.consumes = true ∧ (home ctrlPhead devs).step t ℓ = some t' ∧
        ((home ctrlPhead devs).ReachableWhere ok t' ∧ t'.pipe.receiver.running = true ∧
          t'.pipe.sent = s.pipe.sent) ∧ t'.work < t.work := by
    intro t ⟨ht, hrun, hsent⟩ hwork
    obtain ⟨ℓ, t', hℓ, hOrderly, hstep⟩ := @Home.exists_consumes ctrlPhead _ hrun hwork
    have hf := faithful_of_reachable (pipeline_of_home ht)
    have hkeeps := Home.consumes_keeps hℓ hstep
    exact ⟨ℓ, t', hℓ, hstep, ⟨.step ht (hok t ℓ hOrderly) hstep, hkeeps.2.trans hrun,
      hkeeps.1.trans hsent⟩, Home.work_consumes hf hℓ hstep⟩
  obtain ⟨ls, t, hrun, hls, ⟨ht, -, hsent⟩, hzero⟩ := exists_rest hprogress ⟨hs, hrunning, rfl⟩
  exact ⟨ls, t, hrun, hls, ht, Home.work_eq_zero.mp hzero, hsent⟩

/-- At rest every message that was sent has been handled, in order. -/
theorem Home.AtRest.handled {s : Home} (h : s.AtRest)
    (hs : (home ctrlPhead devs).ReachableWhere ok s) :
    s.world.handlers.map (·.cmd.frame.bytes) = s.pipe.sent := by
  have horder := (faithful_of_reachable (pipeline_of_home hs)).order
  rw [h.1, h.2.1, List.append_nil, List.append_nil] at horder
  rw [← horder, ← frames_of_home hs, List.map_map]
  rfl

/-- With no step left that uses up work, the program is at rest. -/
theorem Home.atRest_iff {s : Home} (hs : (home ctrlPhead devs).ReachableWhere ok s)
    (hrunning : s.pipe.receiver.running = true) :
    s.AtRest ↔ ∀ ℓ : HomeLabel, ℓ.consumes = true → s.step ctrlPhead ℓ = none := by
  have hf := faithful_of_reachable (pipeline_of_home hs)
  constructor
  · intro h ℓ hℓ
    cases hstep : s.step ctrlPhead ℓ with
    | none => rfl
    | some s' =>
      have hless := Home.work_consumes hf hℓ hstep
      rw [Home.work_eq_zero.mpr h] at hless
      exact absurd hless (Nat.not_lt_zero _)
  · intro h
    rcases Nat.eq_zero_or_pos s.work with hzero | hpos
    · exact Home.work_eq_zero.mp hzero
    · obtain ⟨ℓ, s', hℓ, -, hstep⟩ := @Home.exists_consumes ctrlPhead _ hrunning hpos
      rw [h ℓ hℓ] at hstep
      cases hstep

/-- A run of such steps, in the books. -/
theorem length_le_work {s t : Home} (hs : (home ctrlPhead devs).Reachable s)
    {ls : List HomeLabel} (hrun : (home ctrlPhead devs).run s ls = some t)
    (hls : ∀ ℓ ∈ ls, ℓ.consumes = true) :
    (home ctrlPhead devs).Reachable t ∧ t.pipe.sent = s.pipe.sent ∧
      t.pipe.receiver.running = s.pipe.receiver.running ∧ ls.length + t.work ≤ s.work := by
  induction ls generalizing s with
  | nil =>
    obtain rfl := Option.some.inj hrun
    exact ⟨hs, rfl, rfl, by rw [List.length_nil, Nat.zero_add]⟩
  | cons ℓ ls ih =>
    obtain ⟨hℓ, hrest⟩ := List.forall_mem_cons.mp hls
    obtain ⟨u, hstep, hrun⟩ := Option.bind_eq_some_iff.mp hrun
    have hless := Home.work_consumes (faithful_of_reachable (pipeline_of_home hs)) hℓ hstep
    obtain ⟨hsent, hrunning⟩ := Home.consumes_keeps hℓ hstep
    obtain ⟨ht, hsent', hrunning', hwork⟩ := ih (.step hs trivial hstep) hrun hrest
    refine ⟨ht, hsent'.trans hsent, hrunning'.trans hrunning, ?_⟩
    rw [List.length_cons]
    omega

/-- Left alone by its producers, the program comes to rest from every reachable state in
which `receive_get` runs.  A run of receives, dispatches and steps of the handlers and the
voice threads leads to rest; each such run, whatever its order, has at most `s.work` steps,
and it is at rest exactly when no such step is left; and at rest every message that was sent
has had its handler, in the order of the sends.  A failed `mq_receive` is no such step. -/
theorem comes_to_rest (ctrlPhead : List Control) (devs : List Gdevice) (s : Home)
    (hs : (home ctrlPhead devs).Reachable s) (hrunning : s.pipe.receiver.running = true) :
    (∃ ls t, (home ctrlPhead devs).run s ls = some t ∧ (∀ ℓ ∈ ls, ℓ.consumes = true) ∧
      t.AtRest) ∧
    ∀ ls t, (home ctrlPhead devs).run s ls = some t → (∀ ℓ ∈ ls, ℓ.consumes = true) →
      ls.length ≤ s.work ∧
      (t.AtRest ↔ ∀ ℓ : HomeLabel, ℓ.consumes = true → (home ctrlPhead devs).step t ℓ = none) ∧
      (t.AtRest → t.world.handlers.map (·.cmd.frame.bytes) = s.pipe.sent) := by
  constructor
  · obtain ⟨ls, t, hrun, hls, -, hrest, -⟩ :=
      exists_rest_of_orderly (fun _ _ _ => trivial) hs hrunning
    exact ⟨ls, t, hrun, hls, hrest⟩
  · intro ls t hrun hls
    obtain ⟨ht, hsent, hstill, hwork⟩ := length_le_work hs hrun hls
    refine ⟨by omega, Home.atRest_iff ht (hstill.trans hrunning), fun hrest => ?_⟩
    rw [hrest.handled ht, hsent]

/-- With one message in the queue, the program comes to rest, in at most 22 steps. -/
theorem comes_to_rest_alarm :
    ∃ s, (home [] peripheral).Reachable s ∧ s.pipe.queue.items = [alarmFrame.bytes] ∧
      (∃ ls t, (home [] peripheral).run s ls = some t ∧ (∀ ℓ ∈ ls, ℓ.consumes = true) ∧
        t.AtRest) ∧
      ∀ ls t, (home [] peripheral).run s ls = some t → (∀ ℓ ∈ ls, ℓ.consumes = true) →
        ls.length ≤ 22 ∧
        (t.AtRest ↔ ∀ ℓ : HomeLabel, ℓ.consumes = true → (home [] peripheral).step t ℓ = none) ∧
        (t.AtRest → t.world.handlers.map (·.cmd.frame.bytes) = [alarmFrame.bytes]) := by
  obtain ⟨s, hs, hend⟩ := exists_reachable (home [] peripheral)
    [.thread (.smokeRead LOW), .thread (.smokeSend true)]
    (fun s => s.pipe.queue.items == [alarmFrame.bytes] && s.pipe.receiver.running &&
      s.pipe.sent == [alarmFrame.bytes] && s.work == 22)
    (by decide +kernel)
  simp only [Bool.and_eq_true, beq_iff_eq] at hend
  obtain ⟨⟨⟨hqueue, hrunning⟩, hsent⟩, hwork⟩ := hend
  have hrests := comes_to_rest [] peripheral s hs hrunning
  rw [hwork, hsent] at hrests
  exact ⟨s, hs, hqueue, hrests⟩

/-- In the runs that start a handler only when no other is running, the program computes
`runCommands`: as long as `receive_get` is running it can still come to rest in such a run,
and at rest the house is what the commands of the sent messages compute one after the other,
with the level of each pin set by the last command that has an effect on it. -/
theorem orderly_rest (ctrlPhead : List Control) (devs : List Gdevice) (s : Home)
    (hs : (home ctrlPhead devs).ReachableWhere Orderly s) :
    (s.pipe.receiver.running = true →
      ∃ ls t, (home ctrlPhead devs).run s ls = some t ∧ (∀ ℓ ∈ ls, ℓ.consumes = true) ∧
        (home ctrlPhead devs).ReachableWhere Orderly t ∧ t.AtRest ∧
        t.pipe.sent = s.pipe.sent) ∧
    (s.AtRest → ∃ cmds : List Command, cmds.map (·.frame.bytes) = s.pipe.sent ∧
      s.world.house = runCommands ctrlPhead (.initial devs) cmds ∧
      ∀ (init : Int → Int) (p : Int), p ≠ -1 →
        level init s.world.house.gpio p = lastWrite (effect devs p) (init p) cmds) := by
  constructor
  · intro hrunning
    exact exists_rest_of_orderly (fun _ _ h => h) hs hrunning
  · intro hrest
    have hhouse : s.world.house = runCommands ctrlPhead (.initial devs)
        (s.world.handlers.map (·.cmd)) := (inOrder_of_home hs).house_eq hrest.2.2.1
    refine ⟨s.world.handlers.map (·.cmd), ?_, hhouse, fun init p hp => ?_⟩
    · rw [List.map_map]
      exact hrest.handled hs
    · rw [hhouse]
      exact level_runCommands init (.initial devs) _ hp

instance (s : Home) (ℓ : HomeLabel) : Decidable (Orderly s ℓ) :=
  match ℓ with
  | .dispatch score =>
    decidable_of_iff (∀ h ∈ s.world.handlers, h.pc = .done)
      ⟨fun h _ _ => h, fun h => h score rfl⟩
  | .thread _ | .handler _ | .voice _ _ => isTrue fun _ h => HomeLabel.noConfusion h

/-- A run that comes to rest after one alarm, which drives the buzzer. -/
theorem orderly_rest_alarm :
    ∃ s, (home [] peripheral).ReachableWhere Orderly s ∧
      ∃ cmds : List Command, cmds.map (·.frame.bytes) = [alarmFrame.bytes] ∧
        s.world.house = runCommands [] (.initial peripheral) cmds ∧
        level (fun _ => HIGH) s.world.house.gpio 10 = LOW := by
  obtain ⟨s, hs, hend⟩ := exists_reachableWhere (home [] peripheral) Orderly
    [.thread (.smokeRead LOW), .thread (.smokeSend true)]
    (fun s => s.pipe.sent == [alarmFrame.bytes] && s.pipe.receiver.running)
    (by decide +kernel)
  simp only [Bool.and_eq_true, beq_iff_eq] at hend
  obtain ⟨ls, t, -, -, ht, hrest, hsent⟩ := (orderly_rest [] peripheral s hs).1 hend.2
  obtain ⟨cmds, hcmds, hhouse, hlevel⟩ := (orderly_rest [] peripheral t ht).2 hrest
  have halarm : cmds.map (·.frame.bytes) = [alarmFrame.bytes] :=
    hcmds.trans (hsent.trans hend.1)
  refine ⟨t, ht, cmds, halarm, hhouse, ?_⟩
  -- The score of the command plays no part: the buzzer has no face check.
  obtain ⟨⟨f, score⟩, rest, rfl, hf, hnil⟩ := List.map_eq_cons_iff.mp halarm
  obtain rfl := List.map_eq_nil_iff.mp hnil
  have hframe : f = alarmFrame := by
    have hread := congrArg Frame.ofBytes? hf
    rw [← List.append_nil f.bytes, ← List.append_nil alarmFrame.bytes,
      Frame.ofBytes?_bytes_append, Frame.ofBytes?_bytes_append] at hread
    exact Option.some.inj hread
  rw [hlevel (fun _ => HIGH) 10 (by decide), hframe]
  rfl

end HomeControl
