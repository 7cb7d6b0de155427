import HomeControl.Lib.Interleaving
import HomeControl.Home

/-!
# From a reading to its handler

Every handler of the program was started for something that one of the three producers
read: a command in a result of `read`, one in a result of `recv`, or a reading of the
smoke sensor.  `Home.Provenance` says so of the messages that were sent, for every
interleaving of the threads: each producer has sent, in order, some of the messages that
its readings offer, and each of these at most once.

* `Home.sending` and `Home.offered` treat the three producers alike, so that a step of one
  of them offers a message, or ends a call of `mq_send`.
* `handlers_interleave` carries the provenance over the queue to the handlers.
* `backlog_bounded` says how many messages can be without a handler.
-/

namespace HomeControl

open SharedMemory StepSystem

/-- The command that `smoke_get` may send for a reading. -/
def smokeCommand (status : Int) : Option Frame :=
  if status = LOW then some alarmFrame
  else if status = HIGH then some allClearFrame
  else none

/-- The commands of the smoke sensor's readings. -/
def smokeCommands (readings : List Int) : List Msg :=
  (readings.filterMap smokeCommand).map Frame.bytes

/-- The message of a producer whose `mq_send` has not returned. -/
def Home.sending (s : Home) : Producer → Option Msg
  | .voice => s.pipe.voice.sending
  | .tcp => s.pipe.tcp.sending
  | .smoke => s.pipe.smoke.sending

/-- The reading of the round of `smoke_get` that has yet to end. -/
def Home.openReading (s : Home) : List Int :=
  if s.pipe.smoke.sending = none then [] else [s.pipe.smoke.status]

/-- The messages that the readings of a producer allow it to send. -/
def Home.offered (s : Home) : Producer → List Msg
  | .voice => s.pipe.voiceCalls
  | .tcp => s.pipe.tcpCalls
  | .smoke => smokeCommands (s.readings ++ s.openReading)

/-- The sent messages are those of the three producers, and each producer has sent some of
what it was offered. -/
def Home.Provenance (s : Home) : Prop :=
  ∃ parts : Producer → List Msg, Interleaving parts s.pipe.sent ∧
    ∀ p, (parts p ++ (s.sending p).toList).Sublist (s.offered p)

variable {ctrlPhead : List Control} {devs : List Gdevice} {ok : Home → HomeLabel → Prop}

theorem smokeCommands_append (readings readings' : List Int) :
    smokeCommands (readings ++ readings') =
      smokeCommands readings ++ smokeCommands readings' := by
  rw [smokeCommands, List.filterMap_append, List.map_append]
  rfl

theorem smokeCommands_nil : smokeCommands [] = [] := rfl

theorem length_smokeCommands_le (readings : List Int) :
    (smokeCommands readings).length ≤ readings.length := by
  rw [smokeCommands, List.length_map]
  exact List.length_filterMap_le _ _

theorem provenance_start : (home ctrlPhead devs).start.Provenance := by
  refine ⟨fun _ => [], .nil, fun p => ?_⟩
  cases p with
  | voice => exact List.Sublist.refl _
  | tcp => exact List.Sublist.refl _
  | smoke => exact List.Sublist.refl _

/-! ## What one step does to the provenance -/

/-- A producer is left alone, or it was idle and is offered what it is now sending. -/
def Home.Offers (s s' : Home) (p : Producer) : Prop :=
  (s'.sending p = s.sending p ∧ (s.offered p).Sublist (s'.offered p)) ∨
    (s.sending p = none ∧ (s.offered p ++ (s'.sending p).toList).Sublist (s'.offered p))

theorem Home.Offers.of_eq {s s' : Home} {p : Producer} (hsending : s'.sending p = s.sending p)
    (hoffered : s'.offered p = s.offered p) : s.Offers s' p :=
  .inl ⟨hsending, by rw [hoffered]⟩

/-- What a producer has sent and is sending stays within what it is offered. -/
theorem Home.Offers.sublist {s s' : Home} {p : Producer} (h : s.Offers s' p) {part : List Msg}
    (hpart : (part ++ (s.sending p).toList).Sublist (s.offered p)) :
    (part ++ (s'.sending p).toList).Sublist (s'.offered p) := by
  rcases h with ⟨hsending, hoffered⟩ | ⟨hidle, hoffered⟩
  · rw [hsending]
    exact hpart.trans hoffered
  · rw [hidle, Option.toList_none, List.append_nil] at hpart
    exact (hpart.append_right _).trans hoffered

/-- A step that sends nothing. -/
theorem Home.Provenance.offers {s s' : Home} (h : s.Provenance)
    (hsent : s'.pipe.sent = s.pipe.sent) (hoffers : ∀ p, s.Offers s' p) : s'.Provenance := by
  obtain ⟨parts, hmerged, hparts⟩ := h
  exact ⟨parts, hsent ▸ hmerged, fun p => (hoffers p).sublist (hparts p)⟩

/-- The call of `mq_send` that `p` makes returns. -/
theorem Home.Provenance.sends {s s' : Home} (h : s.Provenance) {p : Producer} {m : Msg}
    {success : Bool} (hm : s.sending p = some m) (hidle : s'.sending p = none)
    (hoffered : s'.offered p = s.offered p)
    (hsent : s'.pipe.sent = s.pipe.sent ++ if success then [m] else [])
    (hothers : ∀ q, q ≠ p → s.Offers s' q) : s'.Provenance := by
  obtain ⟨parts, hmerged, hparts⟩ := h
  have hcall : (parts p ++ [m]).Sublist (s.offered p) := by
    have hp := hparts p
    rw [hm] at hp
    exact hp
  cases success with
  | true =>
    refine ⟨_, hsent ▸ hmerged.concat p m, fun q => ?_⟩
    by_cases hq : q = p
    · subst hq
      rw [Function.update_self, hidle, hoffered, Option.toList_none, List.append_nil]
      exact hcall
    · rw [Function.update_of_ne hq]
      exact (hothers q hq).sublist (hparts q)
  | false =>
    have hsame : s'.pipe.sent = s.pipe.sent := hsent.trans (List.append_nil _)
    refine ⟨parts, hsame ▸ hmerged, fun q => ?_⟩
    by_cases hq : q = p
    · subst hq
      rw [hidle, hoffered, Option.toList_none, List.append_nil]
      exact (List.sublist_append_left _ _).trans hcall
    · exact (hothers q hq).sublist (hparts q)

/-- What a reading of the smoke sensor offers and sends. -/
theorem Home.Offers.smokeRead {s : Home} (hframed : s.pipe.smoke.Framed)
    (hidle : s.pipe.smoke.sending = none) (status : Int) :
    s.Offers { s with
      pipe := { s.pipe with smoke := s.pipe.smoke.read status }
      readings := s.readings ++ s.pipe.endedReading (.smokeRead status) } .smoke := by
  have hopen : s.offered .smoke = smokeCommands s.readings := by
    show smokeCommands (s.readings ++ s.openReading) = _
    rw [Home.openReading, if_pos hidle, List.append_nil]
  refine .inr ⟨hidle, ?_⟩
  rw [hopen]
  show (_ ++ (s.pipe.smoke.read status).sending.toList).Sublist (smokeCommands
    ((s.readings ++ if (s.pipe.smoke.read status).sending = none then [status] else []) ++
      if (s.pipe.smoke.read status).sending = none then []
      else [(s.pipe.smoke.read status).status]))
  rw [SmokeGet.status_read]
  rcases SmokeGet.read_cases hframed status with
    ⟨rfl, -, hsending⟩ | ⟨rfl, -, -, hsending⟩ | ⟨-, -, -, hsending⟩
  · rw [hsending, if_neg (Option.some_ne_none _), if_neg (Option.some_ne_none _),
      List.append_nil, smokeCommands_append]
    exact List.Sublist.refl _
  · rw [hsending, if_neg (Option.some_ne_none _), if_neg (Option.some_ne_none _),
      List.append_nil, smokeCommands_append]
    exact List.Sublist.refl _
  · rw [hsending, hidle, if_pos rfl, if_pos rfl, Option.toList_none, List.append_nil,
      List.append_nil, smokeCommands_append]
    exact List.sublist_append_left _ _

/-- The smoke sensor, in a step of another producer. -/
theorem Home.Offers.smokeUnchanged {s s' : Home} (hsmoke : s'.pipe.smoke = s.pipe.smoke)
    (hreadings : s'.readings = s.readings ++ []) : s.Offers s' .smoke := by
  rw [List.append_nil] at hreadings
  refine .of_eq (congrArg SmokeGet.sending hsmoke) ?_
  show smokeCommands (s'.readings ++ s'.openReading) = smokeCommands (s.readings ++ s.openReading)
  rw [Home.openReading, Home.openReading, hsmoke, hreadings]

/-- A step of the pipeline, other than the dispatch. -/
theorem Home.Provenance.thread {s : Home} (h : s.Provenance) (hf : s.pipe.Faithful)
    {ℓ : PipelineLabel} {pipe : Pipeline} (hstep : s.pipe.Takes ℓ pipe) (hne : ℓ ≠ .dispatch) :
    Home.Provenance { s with
      pipe := pipe
      readings := s.readings ++ s.pipe.endedReading ℓ
      smokeSent := s.smokeSent ++ s.pipe.smokeSends ℓ } := by
  cases hstep with
  | @voiceRead r hidle hlen =>
    refine h.offers rfl fun p => ?_
    cases p with
    | voice => exact .inr ⟨hidle, List.Sublist.refl _⟩
    | tcp => exact .of_eq rfl rfl
    | smoke => exact .smokeUnchanged rfl rfl
  | @tcpRecv r hplace hidle hlen =>
    refine h.offers rfl fun p => ?_
    cases p with
    | voice => exact .of_eq rfl rfl
    | tcp => exact .inr ⟨hidle, List.Sublist.refl _⟩
    | smoke => exact .smokeUnchanged rfl rfl
  | @tcpAccept accepted optionsSet hplace =>
    refine h.offers rfl fun p => ?_
    cases p with
    | voice => exact .of_eq rfl rfl
    | tcp => exact .of_eq (s.pipe.tcp.sending_accept accepted optionsSet) rfl
    | smoke => exact .smokeUnchanged rfl rfl
  | @smokeRead status hidle =>
    refine h.offers rfl fun p => ?_
    cases p with
    | voice => exact .of_eq rfl rfl
    | tcp => exact .of_eq rfl rfl
    | smoke => exact .smokeRead hf.smokeFramed hidle status
  | @voiceSend m success t hm ht =>
    obtain ⟨-, htcp, hsmoke, hcalls, htcpCalls, hsent⟩ := Pipeline.send_keeps ht
    refine h.sends (p := .voice) hm rfl hcalls hsent fun q hq => ?_
    cases q with
    | voice => exact absurd rfl hq
    | tcp => exact .of_eq (congrArg TcpsocketGet.sending htcp) htcpCalls
    | smoke => exact .smokeUnchanged hsmoke rfl
  | @tcpSend m success t hm ht =>
    obtain ⟨hvoice, -, hsmoke, hvoiceCalls, hcalls, hsent⟩ := Pipeline.send_keeps ht
    refine h.sends (p := .tcp) hm rfl hcalls hsent fun q hq => ?_
    cases q with
    | voice => exact .of_eq (congrArg VoiceGet.sending hvoice) hvoiceCalls
    | tcp => exact absurd rfl hq
    | smoke => exact .smokeUnchanged hsmoke rfl
  | @smokeSend m success t hm ht =>
    obtain ⟨hvoice, htcp, -, hvoiceCalls, htcpCalls, hsent⟩ := Pipeline.send_keeps ht
    have hopen : s.openReading = [s.pipe.smoke.status] := by
      rw [Home.openReading, hm, if_neg (Option.some_ne_none m)]
    refine h.sends (p := .smoke) hm rfl ?_ hsent fun q hq => ?_
    · -- The reading of the round that ends is recorded, and none is open.
      show smokeCommands ((s.readings ++ [s.pipe.smoke.status]) ++ []) =
        smokeCommands (s.readings ++ s.openReading)
      rw [hopen, List.append_nil]
    · cases q with
      | voice => exact .of_eq (congrArg VoiceGet.sending hvoice) hvoiceCalls
      | tcp => exact .of_eq (congrArg TcpsocketGet.sending htcp) htcpCalls
      | smoke => exact absurd rfl hq
  | dispatch => exact absurd rfl hne
  | mqReceive | mqError =>
    refine h.offers rfl fun p => ?_
    cases p with
    | voice => exact .of_eq rfl rfl
    | tcp => exact .of_eq rfl rfl
    | smoke => exact .smokeUnchanged rfl rfl

theorem provenance_of_reachable {s : Home} (hs : (home ctrlPhead devs).ReachableWhere ok s) :
    s.Provenance := by
  refine hs.invariant' Home.Provenance provenance_start ?_
  intro s ℓ s' hs h _ hstep
  rcases Home.step_cases hstep with
    ⟨ℓ', pipe, -, hne, hpipe, rfl⟩ | ⟨score, pipe, -, hpipe, rfl⟩ |
      ⟨ℓ', world, -, -, -, rfl⟩
  · exact h.thread (faithful_of_reachable (pipeline_of_home hs)) (Pipeline.takes_of_step hpipe) hne
  · cases Pipeline.takes_dispatch hpipe with
    | dispatch hn =>
      refine h.offers rfl fun p => ?_
      cases p <;> exact .of_eq rfl rfl
  · refine h.offers rfl fun p => ?_
    cases p <;> exact .of_eq rfl rfl

/-! ## The handlers -/

/-- Commands read back from their bytes. -/
theorem filterMap_ofBytes? (frames : List Frame) :
    (frames.map Frame.bytes).filterMap Frame.ofBytes? = frames := by
  have hread : Frame.ofBytes? ∘ Frame.bytes = some := by
    funext f
    exact Frame.ofBytes?_bytes_append f []
  rw [List.filterMap_map, hread, List.filterMap_some]

/-- A part of messages that are commands, as commands. -/
theorem sublist_frames {part : List Msg} {frames : List Frame}
    (h : part.Sublist (frames.map Frame.bytes)) :
    (part.filterMap Frame.ofBytes?).Sublist frames := by
  have hread := h.filterMap Frame.ofBytes?
  rw [filterMap_ofBytes?] at hread
  exact hread

/-- One item less on the left, at most one on the right. -/
theorem sublist_of_concat {α : Type} {l l' : List α} {x : α} {last : List α}
    (hlast : last.length ≤ 1) (h : (l ++ [x]).Sublist (l' ++ last)) : l.Sublist l' := by
  cases last with
  | nil =>
    rw [List.append_nil] at h
    exact (List.sublist_append_left _ _).trans h
  | cons y rest =>
    obtain rfl : rest = [] := by
      rw [List.length_cons] at hlast
      exact List.eq_nil_of_length_eq_zero (by omega)
    have htail := h.reverse.tail
    rw [List.reverse_append, List.reverse_append] at htail
    exact List.reverse_sublist.mp htail

/-- What each producer sent, apart from the message that it is sending. -/
theorem Home.Provenance.sent {s : Home} (h : s.Provenance) (hf : s.pipe.Faithful) :
    ∃ parts : Producer → List Msg, Interleaving parts s.pipe.sent ∧
      (parts .voice).Sublist ((s.pipe.voiceReads.filterMap IoResult.frame?).map Frame.bytes) ∧
      (parts .tcp).Sublist ((s.pipe.tcpReads.filterMap IoResult.frame?).map Frame.bytes) ∧
      (parts .smoke).Sublist (smokeCommands s.readings) := by
  obtain ⟨parts, hmerged, hparts⟩ := h
  refine ⟨parts, hmerged, ?_, ?_, ?_⟩
  · rw [← hf.voiceCalls]
    exact (List.sublist_append_left _ _).trans (hparts .voice)
  · rw [← hf.tcpCalls]
    exact (List.sublist_append_left _ _).trans (hparts .tcp)
  · have hsmoke := hparts .smoke
    change (_ ++ s.pipe.smoke.sending.toList).Sublist
      (smokeCommands (s.readings ++ s.openReading)) at hsmoke
    rw [smokeCommands_append] at hsmoke
    cases hsending : s.pipe.smoke.sending with
    | none =>
      rw [Home.openReading, if_pos hsending, hsending, Option.toList_none,
        List.append_nil] at hsmoke
      exact hsmoke.trans (by rw [smokeCommands_nil, List.append_nil])
    | some m =>
      rw [hsending] at hsmoke
      refine sublist_of_concat ?_ hsmoke
      rw [Home.openReading, hsending, if_neg (Option.some_ne_none m)]
      exact length_smokeCommands_le [s.pipe.smoke.status]

/-- Every handler was started for something that a producer read, in any interleaving of
the threads: the commands of the handlers are an interleaving of commands that `voice_get`
read, of commands that `tcpsocket_get` received, and of those that `smoke_get` sends for
its readings, each part in order and with every read used at most once. -/
theorem handlers_interleave (ctrlPhead : List Control) (devs : List Gdevice) (s : Home)
    (hs : (home ctrlPhead devs).Reachable s) :
    ∃ parts : Producer → List Frame,
      Interleaving parts (s.world.handlers.map (·.cmd.frame)) ∧
        (parts .voice).Sublist (s.pipe.voiceReads.filterMap IoResult.frame?) ∧
        (parts .tcp).Sublist (s.pipe.tcpReads.filterMap IoResult.frame?) ∧
        (parts .smoke).Sublist (s.readings.filterMap smokeCommand) := by
  have hf := faithful_of_reachable (pipeline_of_home hs)
  obtain ⟨parts, hmerged, hvoice, htcp, hsmoke⟩ := (provenance_of_reachable hs).sent hf
  have hfirst : s.pipe.dispatched <+: s.pipe.sent := by
    rw [← hf.order, List.append_assoc]
    exact List.prefix_append _ _
  obtain ⟨parts', hmerged', hpre⟩ := hmerged.of_isPrefix hfirst
  have hbytes : (s.world.handlers.map (·.cmd.frame)).map Frame.bytes = s.pipe.dispatched := by
    rw [← frames_of_home hs, List.map_map, List.map_map]
    rfl
  have hhandlers : s.pipe.dispatched.filterMap Frame.ofBytes? =
      s.world.handlers.map (·.cmd.frame) := by
    rw [← hbytes, filterMap_ofBytes?]
  refine ⟨_, hhandlers ▸ hmerged'.filterMap Frame.ofBytes?, ?_, ?_, ?_⟩
  · exact sublist_frames ((hpre .voice).sublist.trans hvoice)
  · exact sublist_frames ((hpre .tcp).sublist.trans htcp)
  · exact sublist_frames ((hpre .smoke).sublist.trans hsmoke)

/-- A command of the voice module that is read before an alarm and handled after it. -/
theorem handlers_interleave_two :
    ∃ s, (home [] peripheral).Reachable s ∧
      s.world.handlers.map (·.cmd.frame) = [alarmFrame, ⟨0x41, 0x00⟩] ∧
      ∃ parts : Producer → List Frame,
        Interleaving parts (s.world.handlers.map (·.cmd.frame)) ∧
          (parts .voice).Sublist (s.pipe.voiceReads.filterMap IoResult.frame?) ∧
          (parts .tcp).Sublist (s.pipe.tcpReads.filterMap IoResult.frame?) ∧
          (parts .smoke).Sublist (s.readings.filterMap smokeCommand) := by
  obtain ⟨s, hs, hend⟩ := exists_reachable (home [] peripheral)
    [.thread (.voiceRead (some [0xAA, 0x55, 0x41, 0x00, 0x55, 0xAA])),
      .thread (.smokeRead LOW), .thread (.smokeSend true), .thread (.voiceSend true),
      .thread .mqReceive, .dispatch 0, .thread .mqReceive, .dispatch 0]
    (fun s => s.world.handlers.map (·.cmd.frame) == [alarmFrame, ⟨0x41, 0x00⟩])
    (by decide +kernel)
  exact ⟨s, hs, beq_iff_eq.mp hend, handlers_interleave [] peripheral s hs⟩

/-! ## Messages without a handler -/

/-- The messages that no handler was started for are in the queue, or held. -/
theorem length_sent {s : Home} (hs : (home ctrlPhead devs).ReachableWhere ok s) :
    s.pipe.sent.length =
      s.world.handlers.length + s.pipe.receiver.held.length + s.pipe.queue.items.length := by
  have hf := faithful_of_reachable (pipeline_of_home hs)
  have hhandlers := congrArg List.length (frames_of_home hs)
  rw [List.length_map, List.length_map] at hhandlers
  rw [← hf.order, List.length_append, List.length_append, ← hhandlers]

/-- `receive_get` holds nothing once it has ended. -/
theorem idle_of_ended {s : Home} (hs : (home ctrlPhead devs).ReachableWhere ok s) :
    s.pipe.receiver.running = false → s.pipe.receiver.readLen = none := by
  refine (pipeline_of_home hs).invariant
    (fun s : Pipeline => s.receiver.running = false → s.receiver.readLen = none)
    (fun _ => rfl) ?_
  intro s ℓ s' hidle _ hstep hended
  cases Pipeline.takes_of_step hstep with
  | mqReceive hrun _ _ => exact absurd (hended.symm.trans hrun) Bool.false_ne_true
  | @mqError eagain hrun hnone =>
    show (s.receiver.error eagain).readLen = none
    unfold ReceiveGet.error
    split
    · exact hnone
    · exact hnone
  | dispatch => rfl
  | voiceSend hm ht | tcpSend hm ht | smokeSend hm ht =>
    rcases Pipeline.send_cases ht with ⟨-, q, -, rfl⟩ | ⟨-, rfl⟩
    · exact hidle hended
    · exact hidle hended
  | _ => exact hidle hended

/-- Once `receive_get` has ended, a step starts no handler. -/
theorem Home.ended_step {s s' : Home} (hended : s.pipe.receiver.running = false)
    (hidle : s.pipe.receiver.readLen = none) {ℓ : HomeLabel}
    (hstep : s.step ctrlPhead ℓ = some s') :
    s'.pipe.receiver.running = false ∧
      s'.world.handlers.map (·.cmd) = s.world.handlers.map (·.cmd) := by
  rcases Home.step_cases hstep with
    ⟨ℓ', pipe, -, hne, hpipe, rfl⟩ | ⟨score, pipe, -, hpipe, rfl⟩ |
      ⟨ℓ', world, hne, -, hworld, rfl⟩
  · refine ⟨?_, rfl⟩
    cases Pipeline.takes_of_step hpipe with
    | mqReceive hrun _ _ => exact absurd (hended.symm.trans hrun) Bool.false_ne_true
    | mqError hrun _ => exact absurd (hended.symm.trans hrun) Bool.false_ne_true
    | dispatch => exact absurd rfl hne
    | voiceSend hm ht | tcpSend hm ht | smokeSend hm ht =>
      rcases Pipeline.send_cases ht with ⟨-, q, -, rfl⟩ | ⟨-, rfl⟩
      · exact hended
      · exact hended
    | _ => exact hended
  · cases Pipeline.takes_dispatch hpipe with
    | dispatch hn => rw [hidle] at hn; cases hn
  · exact ⟨hended, World.cmds_step hworld hne⟩

/-- What waits for a handler is bounded, and a receiver that has ended is the end of the
program: in every reachable state at most 11 messages were sent and have no handler, and
after an error other than `EAGAIN` no run starts another handler, while `mq_send` still
accepts messages until the queue has 10. -/
theorem backlog_bounded (ctrlPhead : List Control) (devs : List Gdevice) (s : Home)
    (hs : (home ctrlPhead devs).Reachable s) :
    s.pipe.sent.length ≤ s.world.handlers.length + 11 ∧
      (s.pipe.receiver.running = false → ∀ ls t, (home ctrlPhead devs).run s ls = some t →
        t.world.handlers.map (·.cmd) = s.world.handlers.map (·.cmd) ∧
          t.pipe.sent.length ≤ s.world.handlers.length + 10) := by
  have hbound : ∀ q : Fifo Msg mqMaxmsg, q.items.length ≤ 10 := fun q => q.bound
  constructor
  · have hlength := length_sent hs
    have hqueue := hbound s.pipe.queue
    have hheld : s.pipe.receiver.held.length ≤ 1 := by
      rw [ReceiveGet.held, List.length_map]
      cases s.pipe.receiver.readLen with
      | none => exact Nat.zero_le 1
      | some n => exact Nat.le_refl 1
    omega
  · intro hended ls t hrun
    induction ls generalizing s with
    | nil =>
      obtain rfl := Option.some.inj hrun
      have hlength := length_sent hs
      have hqueue := hbound s.pipe.queue
      rw [ReceiveGet.held, idle_of_ended hs hended] at hlength
      refine ⟨rfl, ?_⟩
      rw [hlength]
      exact Nat.add_le_add_left hqueue _
    | cons ℓ ls ih =>
      obtain ⟨u, hstep, hrest⟩ := Option.bind_eq_some_iff.mp hrun
      obtain ⟨hended', hcmds⟩ := Home.ended_step hended (idle_of_ended hs hended) hstep
      have hcount := congrArg List.length hcmds
      rw [List.length_map, List.length_map] at hcount
      obtain ⟨hsame, hsent⟩ := ih u (.step hs trivial hstep) hended' hrest
      exact ⟨hsame.trans hcmds, hcount ▸ hsent⟩

/-- An alarm that is sent just before `receive_get` ends is never handled. -/
theorem backlog_bounded_ended :
    ∃ s, (home [] peripheral).Reachable s ∧ s.pipe.sent = [alarmFrame.bytes] ∧
      ∀ ls t, (home [] peripheral).run s ls = some t → t.world.handlers.map (·.cmd) = [] := by
  obtain ⟨s, hs, hend⟩ := exists_reachable (home [] peripheral)
    [.thread (.smokeRead LOW), .thread (.smokeSend true), .thread (.mqError false)]
    (fun s => s.pipe.sent == [alarmFrame.bytes] && s.pipe.receiver.running == false &&
      s.world.handlers.map (·.cmd) == []) (by decide +kernel)
  simp only [Bool.and_eq_true, beq_iff_eq] at hend
  obtain ⟨⟨hsent, hended⟩, hnone⟩ := hend
  refine ⟨s, hs, hsent, fun ls t hrun => ?_⟩
  rw [((backlog_bounded [] peripheral s hs).2 hended ls t hrun).1, hnone]

end HomeControl
