import HomeControl.Rest

/-!
# The handlers inside the whole program

`world` is a model of the handlers alone, with the messages that are still to come in a list
of its own.  In the whole program the messages come from the producers, through the queue,
while the handlers run.

* `world_of_home` says that the program does nothing with its handlers that `world` does not,
  when `world` is given the messages that were dispatched.
* `home_of_world` is the converse: for every run of `world` there is one of the program, in
  which the serial line delivers each message when it is due.

Together they are `home_iff_world`, so that whatever is true of all states of `world`, and
whatever is possible in it, is true of the program, and possible.
-/

namespace HomeControl

open SharedMemory StepSystem

variable {ctrlPhead : List Control} {devs : List Gdevice} {queue : List Command}

/-! ## Messages that are still to come -/

/-- A step of a handler or of a voice thread does not depend on the messages to come. -/
theorem World.step_withQueue {w w' : World} {ℓ : Label} (hne : ℓ ≠ .receive)
    (hstep : w.step ctrlPhead ℓ = some w') (cs : List Command) :
    ({ w with queue := cs } : World).step ctrlPhead ℓ = some { w' with queue := cs } := by
  rcases World.step_cases hstep with
    ⟨c, rest, rfl, -, -⟩ | ⟨i, h, rfl, hh, hpc, rfl⟩ | ⟨j, v, serial, rfl, hv, hpc, rfl⟩
  · exact absurd rfl hne
  · exact World.step_handler hh hpc
  · exact @World.step_voice ctrlPhead { w with queue := cs } j v hv hpc serial

/-- A step with one more message to come. -/
theorem World.step_concat {w w' : World} {ℓ : Label} (hstep : w.step ctrlPhead ℓ = some w')
    (c : Command) :
    ({ w with queue := w.queue ++ [c] } : World).step ctrlPhead ℓ =
      some { w' with queue := w'.queue ++ [c] } := by
  rcases World.step_cases hstep with
    ⟨d, rest, rfl, hq, rfl⟩ | ⟨i, h, rfl, hh, hpc, rfl⟩ | ⟨j, v, serial, rfl, hv, hpc, rfl⟩
  · have hq' : ({ w with queue := w.queue ++ [c] } : World).queue = d :: (rest ++ [c]) := by
      rw [hq]
      rfl
    exact World.step_receive hq'
  · exact World.step_handler hh hpc
  · exact @World.step_voice ctrlPhead { w with queue := w.queue ++ [c] } j v hv hpc serial

theorem reachable_concat {w : World} (hw : (world ctrlPhead devs queue).Reachable w)
    (c : Command) :
    (world ctrlPhead devs (queue ++ [c])).Reachable { w with queue := w.queue ++ [c] } := by
  induction hw with
  | start => exact .start
  | step _ _ hstep ih => exact .step ih trivial (World.step_concat hstep c)

/-- The step that starts a handler for the message that was added. -/
theorem reachable_dispatch {w : World} (hw : (world ctrlPhead devs queue).Reachable w)
    (hempty : w.queue = []) (c : Command) :
    (world ctrlPhead devs (queue ++ [c])).Reachable (w.dispatch c []) := by
  have hqueue : w.queue ++ [c] = [c] := by rw [hempty, List.nil_append]
  have hstep : (world ctrlPhead devs (queue ++ [c])).step { w with queue := w.queue ++ [c] }
      .receive = some (w.dispatch c []) :=
    @World.step_receive ctrlPhead { w with queue := w.queue ++ [c] } c [] hqueue
  exact .step (reachable_concat hw c) trivial hstep

/-- Nothing is left to come when the handlers are those of all messages. -/
theorem queue_eq_nil {w : World}
    (hw : (world ctrlPhead devs (w.handlers.map (·.cmd))).Reachable w) : w.queue = [] :=
  List.append_cancel_left ((cmds_of_reachable hw).trans (List.append_nil _).symm)

/-! ## From the program to the handlers -/

/-- The handlers of the program run as they do alone, on the messages that were dispatched. -/
theorem world_of_home {ok : Home → HomeLabel → Prop} {s : Home}
    (hs : (home ctrlPhead devs).ReachableWhere ok s) :
    (world ctrlPhead devs (s.world.handlers.map (·.cmd))).Reachable s.world := by
  refine hs.invariant' (fun s : Home =>
    (world ctrlPhead devs (s.world.handlers.map (·.cmd))).Reachable s.world) ?_ ?_
  · exact .start
  intro s ℓ s' hs hw _ hstep
  rcases Home.step_cases hstep with
    ⟨ℓ', pipe, -, -, -, rfl⟩ | ⟨score, pipe, -, hpipe, rfl⟩ | ⟨ℓ', world, hne, -, hworld, rfl⟩
  · exact hw
  · obtain ⟨f, hacc, -⟩ :=
      Pipeline.dispatch_cases (faithful_of_reachable (pipeline_of_home hs)) hpipe
    have hcmds : (s.world.dispatch ⟨f, score⟩ []).handlers.map (·.cmd) =
        s.world.handlers.map (·.cmd) ++ [⟨f, score⟩] := by
      rw [World.dispatch, List.map_append]
      rfl
    show (HomeControl.world ctrlPhead devs
      ((s.world.start s.pipe.receiver.accepted score).handlers.map (·.cmd))).Reachable
        (s.world.start s.pipe.receiver.accepted score)
    rw [hacc, World.start_frame, hcmds]
    exact reachable_dispatch hw (queue_eq_nil hw) _
  · show (HomeControl.world ctrlPhead devs (world.handlers.map (·.cmd))).Reachable world
    rw [World.cmds_step hworld hne]
    exact .step hw trivial hworld

/-! ## From the handlers to the program -/

/-- Nothing is on its way from the serial line to `receive_get`, which waits. -/
structure Pipeline.Waiting (s : Pipeline) : Prop where
  voice : s.voice.sending = none
  queue : s.queue.items = []
  readLen : s.receiver.readLen = none
  running : s.receiver.running = true

/-- A command on the serial line passes through the queue and is received. -/
theorem Pipeline.Waiting.carries {s : Pipeline} (h : s.Waiting) (hclear : s.voice.Clear)
    (f : Frame) :
    ∃ t u v, s.step (.voiceRead (some f.bytes)) = some t ∧ t.step (.voiceSend true) = some u ∧
      u.step .mqReceive = some v ∧ v.voice.sending = none ∧ v.queue.items = [] ∧
      v.receiver = s.receiver.receive f.bytes := by
  have hlen : (IoResult.stored (some f.bytes)).length ≤ 6 := Nat.le_of_eq f.length_bytes
  have hframe : IoResult.frame? (some f.bytes) = some f := Frame.ofBytes?_bytes_append f []
  have hsending : (s.voice.read (some f.bytes)).sending = some f.bytes := by
    rw [VoiceGet.sending_read hclear h.voice hlen, hframe]
    rfl
  obtain ⟨q, hpush⟩ := Fifo.exists_push? (q := s.queue) (by rw [h.queue]; decide) f.bytes
  have hitems : q.items = [f.bytes] := by rw [Fifo.items_of_push? hpush, h.queue]; rfl
  obtain ⟨m, q', hpop⟩ := Fifo.exists_pop? (q := q) (by rw [hitems]; simp)
  obtain ⟨hm, hempty⟩ := List.cons.inj (hitems.symm.trans (Fifo.items_of_pop? hpop))
  let t : Pipeline := { s with
    voice := s.voice.read (some f.bytes)
    voiceReads := s.voiceReads ++ [some f.bytes]
    voiceCalls := s.voiceCalls ++ (s.voice.read (some f.bytes)).sending.toList }
  let u : Pipeline := { t with
    queue := q, sent := t.sent ++ [f.bytes], voice := t.voice.returned }
  refine ⟨t, u, { u with queue := q', receiver := u.receiver.receive m }, ?_, ?_, ?_, rfl,
    hempty.symm, by rw [← hm]⟩
  · exact if_pos ⟨h.voice, hlen⟩
  · have hsend : t.send f.bytes true = some { t with queue := q, sent := t.sent ++ [f.bytes] } := by
      rw [Pipeline.send, if_pos rfl, hpush, Option.map_some]
    show (t.voice.sending.bind fun m =>
      (t.send m true).map fun t => { t with voice := t.voice.returned }) = some u
    rw [hsending, Option.bind_some, hsend, Option.map_some]
  · show u.mqReceive = _
    rw [Pipeline.mqReceive, if_pos ⟨h.running, h.readLen⟩, hpop, Option.map_some]

/-- From a state in which `receive_get` waits, the program can start a handler for any command
and wait again. -/
theorem Home.exists_dispatch {s : Home} (hs : (home ctrlPhead devs).Reachable s)
    (h : s.pipe.Waiting) (c : Command) :
    ∃ s', (home ctrlPhead devs).Reachable s' ∧ s'.pipe.Waiting ∧
      s'.world = s.world.dispatch c [] := by
  obtain ⟨t, u, v, ht, hu, hv, hvoice, hqueue, hreceiver⟩ :=
    h.carries (faithful_of_reachable (pipeline_of_home hs)).voiceClear c.frame
  have hthread : ∀ {r : Home} {ℓ : PipelineLabel} {p : Pipeline},
      (home ctrlPhead devs).Reachable r → ℓ ≠ .dispatch → r.pipe.step ℓ = some p →
      ∃ r', (home ctrlPhead devs).Reachable r' ∧ r'.pipe = p ∧ r'.world = r.world := by
    intro r ℓ p hr hne hp
    have hstep : (home ctrlPhead devs).step r (.thread ℓ) = some { r with
        pipe := p
        readings := r.readings ++ r.pipe.endedReading ℓ
        smokeSent := r.smokeSent ++ r.pipe.smokeSends ℓ } := by
      show r.step ctrlPhead (.thread ℓ) = _
      rw [Home.step, if_neg hne, hp, Option.map_some]
    exact ⟨_, .step hr trivial hstep, rfl, rfl⟩
  obtain ⟨s₁, hs₁, rfl, hw₁⟩ := hthread hs (by simp) ht
  obtain ⟨s₂, hs₂, rfl, hw₂⟩ := hthread hs₁ (by simp) hu
  obtain ⟨s₃, hs₃, rfl, hw₃⟩ := hthread hs₂ (by simp) hv
  have hheld : s₃.pipe.receiver.held = [c.frame.bytes] := by
    rw [hreceiver, ReceiveGet.held_receive]
  have hacc : s₃.pipe.receiver.accepted = [c.frame.bytes] := by
    rw [← hheld]
    refine ReceiveGet.accepted_eq_held fun m hm => ⟨c.frame, ?_⟩
    rw [hheld] at hm
    exact List.mem_singleton.mp hm
  have hread : s₃.pipe.receiver.readLen ≠ none := by
    rw [hreceiver]
    exact Option.some_ne_none _
  have hrunning : s₃.pipe.receiver.running = true := by
    rw [hreceiver]
    exact h.running
  have hdispatch : s₃.pipe.dispatch = some { s₃.pipe with
      receiver := { s₃.pipe.receiver with readLen := none }
      dispatched := s₃.pipe.dispatched ++ s₃.pipe.receiver.accepted } := if_neg hread
  have hstep : (home ctrlPhead devs).step s₃ (.dispatch c.score) = some { s₃ with
      pipe := { s₃.pipe with
        receiver := { s₃.pipe.receiver with readLen := none }
        dispatched := s₃.pipe.dispatched ++ s₃.pipe.receiver.accepted }
      world := s₃.world.start s₃.pipe.receiver.accepted c.score } := by
    show s₃.pipe.dispatch.map _ = _
    rw [hdispatch, Option.map_some]
  refine ⟨_, .step hs₃ trivial hstep, ⟨hvoice, hqueue, rfl, hrunning⟩, ?_⟩
  show s₃.world.start s₃.pipe.receiver.accepted c.score = _
  rw [hacc, World.start_frame, hw₃, hw₂, hw₁]

/-- Every run of the handlers is one that the program can have. -/
theorem home_of_world {w : World} (hw : (world ctrlPhead devs queue).Reachable w) :
    ∃ s, (home ctrlPhead devs).Reachable s ∧ s.pipe.Waiting ∧
      s.world = { w with queue := [] } := by
  induction hw with
  | start => exact ⟨_, .start, ⟨rfl, rfl, rfl, rfl⟩, rfl⟩
  | @step w w' ℓ _ _ hstep ih =>
    obtain ⟨s, hs, hwaiting, hworld⟩ := ih
    have hstep : w.step ctrlPhead ℓ = some w' := hstep
    by_cases hne : ℓ = .receive
    · subst hne
      rcases World.step_cases hstep with
        ⟨c, rest, -, -, rfl⟩ | ⟨i, h, hℓ, -⟩ | ⟨j, v, serial, hℓ, -⟩
      · obtain ⟨s', hs', hwaiting', hworld'⟩ := Home.exists_dispatch hs hwaiting c
        refine ⟨s', hs', hwaiting', ?_⟩
        rw [hworld', hworld]
        rfl
      · cases hℓ
      · cases hℓ
    · have hstep' : s.world.step ctrlPhead ℓ = some { w' with queue := [] } := by
        rw [hworld]
        exact World.step_withQueue hne hstep []
      obtain ⟨ℓ', -, -, hhome⟩ := Home.step_of_world hne hstep'
      exact ⟨_, .step hs trivial hhome, hwaiting, rfl⟩

/-- The states of the handlers in the runs of the whole program are those of the handlers
alone that are reached when all the messages have come: the producers and the queue add
nothing, and they exclude nothing. -/
theorem home_iff_world (ctrlPhead : List Control) (devs : List Gdevice) (w : World) :
    (∃ s, (home ctrlPhead devs).Reachable s ∧ s.world = w) ↔
      ∃ queue, (world ctrlPhead devs queue).Reachable w ∧ w.queue = [] := by
  constructor
  · rintro ⟨s, hs, rfl⟩
    have hw := world_of_home hs
    exact ⟨_, hw, queue_eq_nil hw⟩
  · rintro ⟨queue, hw, hempty⟩
    obtain ⟨s, hs, -, hworld⟩ := home_of_world hw
    refine ⟨s, hs, hworld.trans ?_⟩
    rw [← hempty]

end HomeControl
