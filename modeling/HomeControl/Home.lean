import HomeControl.Pipeline
import HomeControl.Serial

/-!
# The whole program

`home` puts the pipeline and the handlers together.  The dispatch of a message is one
step of both: `receive_get` copies it into `recv_msg->buffer` and starts its handler.
All the other steps are those of the two parts.

* `pipeline_of_home` and `frames_of_home` connect the parts: the pipeline runs as it
  does alone, and the handlers are those of the messages that it dispatched.
* `inOrder_of_home` says what the handlers compute when they run one at a time.
-/

namespace HomeControl

open SharedMemory StepSystem

/-- The pipeline, the handlers, and two records about `smoke_get`: the readings whose
round has ended, and the messages that it sent. -/
structure Home where
  pipe : Pipeline
  world : World
  readings : List Int := []
  smokeSent : List Msg := []

/-- `score` is what `par_retfunc` is going to return to the handler that is started. -/
inductive HomeLabel where
  | thread (ℓ : PipelineLabel)
  | dispatch (score : ℚ)
  | handler (i : Nat)
  | voice (j : Nat) (serial : Bool)

/-- The reading of a round of `smoke_get` that ends with this step. -/
def Pipeline.endedReading (s : Pipeline) : PipelineLabel → List Int
  | .smokeRead status => if (s.smoke.read status).sending = none then [status] else []
  | .smokeSend _ => [s.smoke.status]
  | _ => []

/-- The message that `smoke_get` sends with this step. -/
def Pipeline.smokeSends (s : Pipeline) : PipelineLabel → List Msg
  | .smokeSend true => s.smoke.sending.toList
  | _ => []

/-- The handler of an accepted message. -/
def World.start (w : World) (accepted : List Msg) (score : ℚ) : World :=
  match accepted.head?.bind Frame.ofBytes? with
  | some f => w.dispatch ⟨f, score⟩ []
  | none => w

variable (ctrlPhead : List Control)

def Home.step (s : Home) : HomeLabel → Option Home
  | .thread ℓ =>
    if ℓ = .dispatch then none
    else (s.pipe.step ℓ).map fun pipe =>
      { s with
        pipe := pipe
        readings := s.readings ++ s.pipe.endedReading ℓ
        smokeSent := s.smokeSent ++ s.pipe.smokeSends ℓ }
  | .dispatch score =>
    s.pipe.dispatch.map fun pipe =>
      { s with pipe := pipe, world := s.world.start s.pipe.receiver.accepted score }
  | .handler i =>
    (s.world.step ctrlPhead (.handler i)).map fun world => { s with world := world }
  | .voice j serial =>
    (s.world.step ctrlPhead (.voice j serial)).map fun world => { s with world := world }

/-- The program with device list `devs`, an empty queue and no handler. -/
def home (devs : List Gdevice) : StepSystem Home HomeLabel where
  start := { pipe := pipeline.start, world := (HomeControl.world ctrlPhead devs []).start }
  step := Home.step ctrlPhead

variable {ctrlPhead} {devs : List Gdevice} {ok : Home → HomeLabel → Prop}

/-! ## The parts -/

/-- The four kinds of step. -/
theorem Home.step_cases {s s' : Home} {ℓ : HomeLabel}
    (hstep : s.step ctrlPhead ℓ = some s') :
    (∃ ℓ' pipe, ℓ = .thread ℓ' ∧ ℓ' ≠ .dispatch ∧ s.pipe.step ℓ' = some pipe ∧
      s' = { s with
        pipe := pipe
        readings := s.readings ++ s.pipe.endedReading ℓ'
        smokeSent := s.smokeSent ++ s.pipe.smokeSends ℓ' }) ∨
    (∃ score pipe, ℓ = .dispatch score ∧ s.pipe.dispatch = some pipe ∧
      s' = { s with
        pipe := pipe, world := s.world.start s.pipe.receiver.accepted score }) ∨
    (∃ ℓ' world, ℓ' ≠ .receive ∧ (∀ score, ℓ ≠ .dispatch score) ∧
      s.world.step ctrlPhead ℓ' = some world ∧ s' = { s with world := world }) := by
  cases ℓ with
  | thread ℓ' =>
    simp only [Home.step] at hstep
    split at hstep
    · cases hstep
    · rename_i hne
      obtain ⟨pipe, hpipe, rfl⟩ := Option.map_eq_some_iff.mp hstep
      exact .inl ⟨ℓ', pipe, rfl, hne, hpipe, rfl⟩
  | dispatch score =>
    obtain ⟨pipe, hpipe, rfl⟩ := Option.map_eq_some_iff.mp hstep
    exact .inr (.inl ⟨score, pipe, rfl, hpipe, rfl⟩)
  | handler i =>
    obtain ⟨world, hworld, rfl⟩ := Option.map_eq_some_iff.mp hstep
    exact .inr (.inr ⟨.handler i, world, by simp, by simp, hworld, rfl⟩)
  | voice j serial =>
    obtain ⟨world, hworld, rfl⟩ := Option.map_eq_some_iff.mp hstep
    exact .inr (.inr ⟨.voice j serial, world, by simp, by simp, hworld, rfl⟩)

/-- The pipeline inside the program runs as it does alone. -/
theorem pipeline_of_home {s : Home} (hs : (home ctrlPhead devs).ReachableWhere ok s) :
    pipeline.Reachable s.pipe := by
  refine hs.project (fun s : Home => s.pipe) rfl ?_
  intro s ℓ s' _ _ hstep
  rcases Home.step_cases hstep with
    ⟨ℓ', pipe, -, -, hpipe, rfl⟩ | ⟨score, pipe, -, hpipe, rfl⟩ | ⟨ℓ', world, -, -, -, rfl⟩
  · exact .inr ⟨ℓ', hpipe⟩
  · exact .inr ⟨.dispatch, hpipe⟩
  · exact .inl rfl

theorem Pipeline.dispatched_send {s t : Pipeline} {m : Msg} {success : Bool}
    (ht : s.send m success = some t) : t.dispatched = s.dispatched := by
  rcases Pipeline.send_cases ht with ⟨-, q, -, rfl⟩ | ⟨-, rfl⟩
  · rfl
  · rfl

/-- A step of the pipeline other than the dispatch starts no handler. -/
theorem Pipeline.Takes.dispatched {s s' : Pipeline} {ℓ : PipelineLabel} (hstep : s.Takes ℓ s')
    (hne : ℓ ≠ .dispatch) : s'.dispatched = s.dispatched := by
  cases hstep with
  | dispatch => exact absurd rfl hne
  | voiceSend hm ht =>
    have hsent := Pipeline.dispatched_send ht
    exact hsent
  | tcpSend hm ht =>
    have hsent := Pipeline.dispatched_send ht
    exact hsent
  | smokeSend hm ht =>
    have hsent := Pipeline.dispatched_send ht
    exact hsent
  | _ => rfl

/-- What a dispatch records and starts. -/
theorem Pipeline.dispatch_cases {s t : Pipeline} (hs : s.Faithful)
    (ht : s.dispatch = some t) :
    ∃ f : Frame, s.receiver.accepted = [f.bytes] ∧
      t.dispatched = s.dispatched ++ [f.bytes] := by
  cases Pipeline.takes_dispatch ht with
  | @dispatch n hn =>
    have hheld : s.receiver.held = [firstCells s.receiver.buffer n] := by
      rw [ReceiveGet.held, hn]
      rfl
    obtain ⟨f, hf⟩ := hs.held _ (by rw [hheld]; exact List.mem_singleton_self _)
    have hacc : s.receiver.accepted = [f.bytes] := by
      rw [ReceiveGet.accepted_eq_held hs.held, hheld, hf]
    exact ⟨f, hacc, by rw [hacc]⟩

theorem World.start_frame (w : World) (f : Frame) (score : ℚ) :
    w.start [f.bytes] score = w.dispatch ⟨f, score⟩ [] := rfl

/-- A step of the handlers alone keeps their commands. -/
theorem World.cmds_step {w w' : World} {ℓ : Label} (hstep : w.step ctrlPhead ℓ = some w')
    (hne : ℓ ≠ .receive) : w'.handlers.map (·.cmd) = w.handlers.map (·.cmd) := by
  rcases World.step_cases hstep with
    ⟨c, rest, rfl, -, -⟩ | ⟨i, h, rfl, hh, -, rfl⟩ | ⟨j, v, serial, rfl, -, -, rfl⟩
  · exact absurd rfl hne
  · exact World.cmds_advance ctrlPhead hh
  · rfl

/-- The handlers are those of the dispatched messages. -/
theorem frames_of_home {s : Home} (hs : (home ctrlPhead devs).ReachableWhere ok s) :
    (s.world.handlers.map (·.cmd)).map (·.frame.bytes) = s.pipe.dispatched := by
  refine hs.invariant' (fun s : Home =>
    (s.world.handlers.map (·.cmd)).map (·.frame.bytes) = s.pipe.dispatched) rfl ?_
  intro s ℓ s' hs hinv _ hstep
  rcases Home.step_cases hstep with
    ⟨ℓ', pipe, -, hne, hpipe, rfl⟩ | ⟨score, pipe, -, hpipe, rfl⟩ |
      ⟨ℓ', world, hne, -, hworld, rfl⟩
  · exact hinv.trans ((Pipeline.takes_of_step hpipe).dispatched hne).symm
  · obtain ⟨f, hacc, hdisp⟩ :=
      Pipeline.dispatch_cases (faithful_of_reachable (pipeline_of_home hs)) hpipe
    show ((s.world.start s.pipe.receiver.accepted score).handlers.map (·.cmd)).map _ = _
    rw [hacc, World.start_frame, hdisp, ← hinv]
    simp [World.dispatch, Handler.spawn]
  · show (world.handlers.map (·.cmd)).map _ = _
    rw [World.cmds_step hworld hne]
    exact hinv

/-! ## Handlers that run one at a time -/

/-- A message is dispatched only when no handler is running. -/
def Orderly (s : Home) (ℓ : HomeLabel) : Prop :=
  ∀ score, ℓ = .dispatch score → ∀ h ∈ s.world.handlers, h.pc = .done

theorem inOrder_of_home {s : Home} (hs : (home ctrlPhead devs).ReachableWhere Orderly s) :
    InOrder ctrlPhead devs s.world := by
  refine hs.invariant' (fun s : Home => InOrder ctrlPhead devs s.world)
    (inOrder_start []) ?_
  intro s ℓ s' hs hinv hok hstep
  rcases Home.step_cases hstep with
    ⟨ℓ', pipe, -, -, -, rfl⟩ | ⟨score, pipe, rfl, hpipe, rfl⟩ |
      ⟨ℓ', world, hne, -, hworld, rfl⟩
  · exact hinv
  · obtain ⟨f, hacc, -⟩ :=
      Pipeline.dispatch_cases (faithful_of_reachable (pipeline_of_home hs)) hpipe
    have hdone := hok score rfl
    show InOrder ctrlPhead devs (s.world.start s.pipe.receiver.accepted score)
    rw [hacc, World.start_frame]
    exact inOrder_dispatch hdone (hinv.house_eq hdone)
  · exact hinv.step (fun h => absurd h hne) hworld

end HomeControl
