import Freeshard.Service.WebSocket

/-! # The loops of the websocket worker

The message loop survives every failing send. The heartbeat loop awaits what `broadcast_message` returns, which is
`None`, so its first step ends it. -/

namespace Freeshard.Websocket
set_option autoImplicit false

variable {Socket : Type}

/-! ## What the runs are to keep -/

def WSWorker.messagesRun (self : WSWorker Socket) : Prop := ∃ task, self.messageTask = some task ∧ ∀ e, task ≠ .ended e

def WSWorker.heartbeatsRun (self : WSWorker Socket) : Prop :=
  ∃ task, self.heartbeatTask = some task ∧ ∀ e, task ≠ .ended e

/-- The messages that a step broadcasts. -/
def Action.broadcasts : Action Socket → List Message
  | .broadcast messageType message => [.of messageType message]
  | .sendHeartbeats => [.of "heartbeat" none]
  | _ => []

def Action.isHeartbeat : Action Socket → Bool
  | .sendHeartbeats => true
  | _ => false

/-- The sends that a message is offered by. -/
def offers (taken : Message × List Socket) : List (Socket × Message) := taken.2.map fun socket => (socket, taken.1)

def State.offered (s : State Socket) : List (Socket × Message) := s.sends.map fun send => (send.socket, send.message)

/-- After these actions, from `s₀` on, the message loop has done its work and goes on. -/
structure MessagesGoOn (s₀ : State Socket) (actions : List (Action Socket)) (s : State Socket) : Prop where
  messagesRun : s.worker.messagesRun
  /-- The messages taken and those still queued are those broadcast, in order. -/
  fifo : s.taken.map Prod.fst ++ s.worker.outgoingMessages.items =
    s₀.worker.outgoingMessages.items ++ actions.flatMap Action.broadcasts
  /-- Each message taken has been offered to each socket that was active. -/
  offered : s.offered = s₀.offered ++ s.taken.flatMap offers

/-- Both loops have done their work and go on. -/
structure GoesOn (s₀ : State Socket) (actions : List (Action Socket)) (s : State Socket) : Prop
    extends MessagesGoOn s₀ actions s where
  heartbeatsRun : s.worker.heartbeatsRun
  /-- One heartbeat more than sleeps. -/
  heartbeats : s.worker.heartbeatTask ≠ some .created → actions.countP Action.isHeartbeat = s.sleeps + 1

/-! ## Messages -/

section Messages
variable {s s' : State Socket} {action : Action Socket}

/-- The queue has no bound, the message loop is at one of its suspensions, and no exception that it does not catch is
under way. -/
structure Healthy (s : State Socket) : Prop where
  isStarted : s.worker.isStarted = true
  unbounded : s.worker.outgoingMessages.maxsize = 0
  task : ∃ task, s.worker.messageTask = some task ∧ (∀ e, task ≠ .ended e) ∧
    ∀ children e, task = .gathering children (some (.error e)) → e.isException = true

theorem broadcastMessage_unbounded {worker : WSWorker Socket} (h : worker.outgoingMessages.maxsize = 0)
    (messageType : String) (message : Option Content) :
    worker.broadcastMessage messageType message = ({ worker with outgoingMessages :=
      ⟨0, worker.outgoingMessages.items ++ [.of messageType message]⟩ }, .none) := by
  have hput : worker.outgoingMessages.putNowait (.of messageType message) =
      some ⟨0, worker.outgoingMessages.items ++ [.of messageType message]⟩ := by
    simp [Queue.putNowait, Queue.full, h]
  rw [WSWorker.broadcastMessage, hput]

theorem heartbeat_eq (h : s.worker.outgoingMessages.maxsize = 0) :
    s.heartbeat = { s with worker := { s.worker with
      outgoingMessages := ⟨0, s.worker.outgoingMessages.items ++ [.of "heartbeat" none]⟩
      heartbeatTask := some (.ended (.typeError "object NoneType can't be used in 'await' expression")) } } := by
  rw [State.heartbeat, broadcastMessage_unbounded h]
  rfl

theorem Healthy.start (h : Healthy s) : s.worker.start = s.worker := by
  rw [WSWorker.start, if_pos h.isStarted]

/-- What a step of a healthy worker does: the messages stay in order, what is taken is offered, and only a step of the
heartbeat loop changes how that loop stands. -/
structure Keeps (s : State Socket) (action : Action Socket) (s' : State Socket) : Prop where
  healthy : Healthy s'
  fifo : s'.taken.map Prod.fst ++ s'.worker.outgoingMessages.items =
    s.taken.map Prod.fst ++ s.worker.outgoingMessages.items ++ action.broadcasts
  offered : ∃ new, s'.taken = s.taken ++ new ∧ s'.offered = s.offered ++ new.flatMap offers
  heartbeat : action.isHeartbeat = false →
    s'.worker.heartbeatTask = s.worker.heartbeatTask ∧ s'.sleeps = s.sleeps

theorem Healthy.keeps (h : Healthy s') {items : List Message} (hitems : action.broadcasts = items)
    (hqueue : s'.worker.outgoingMessages.items = s.worker.outgoingMessages.items ++ items)
    (htaken : s'.taken = s.taken) (hoffered : s'.offered = s.offered)
    (hheartbeat : action.isHeartbeat = false →
      s'.worker.heartbeatTask = s.worker.heartbeatTask ∧ s'.sleeps = s.sleeps) : Keeps s action s' where
  healthy := h
  fifo := by rw [htaken, hqueue, hitems, List.append_assoc]
  offered := ⟨[], by rw [htaken, List.append_nil], by rw [hoffered, List.flatMap_nil, List.append_nil]⟩
  heartbeat := hheartbeat

theorem sendMessages_cases (h : s.sendMessages = some s') :
    (∃ message items, s.worker.messageTask = some .getting ∧ s.worker.outgoingMessages.items = message :: items ∧
      s' = { (s.gather (s.worker.activeSockets.map fun socket => ⟨socket, message, none⟩)).1 with
        worker := { s.worker with
          outgoingMessages := { s.worker.outgoingMessages with items := items }
          messageTask := some (s.gather (s.worker.activeSockets.map fun socket => ⟨socket, message, none⟩)).2 }
        taken := s.taken ++ [(message, s.worker.activeSockets)] }) ∨
    ∃ children result, s.worker.messageTask = some (.gathering children (some result)) ∧
      s' = { s with worker := { s.worker with messageTask := some (State.afterGather result) } } := by
  unfold State.sendMessages at h
  split at h
  · next htask =>
    cases hitems : s.worker.outgoingMessages.items with
    | nil =>
      rw [Queue.get, hitems] at h
      cases h
    | cons message items =>
      rw [Queue.get, hitems] at h
      exact .inl ⟨message, items, htask, rfl, (Option.some.inj h).symm⟩
  · next children result htask => exact .inr ⟨children, result, htask, (Option.some.inj h).symm⟩
  · cases h

theorem Healthy.sendMessages (h : Healthy s) (hs : s.sendMessages = some s') : Keeps s .sendMessages s' := by
  obtain ⟨message, items, htask, hitems, rfl⟩ | ⟨children, result, htask, rfl⟩ := sendMessages_cases hs
  · refine ⟨⟨h.isStarted, h.unbounded, _, rfl, fun e he => (by cases he), fun children e he => ?_⟩, ?_, ?_,
      fun _ => ⟨rfl, rfl⟩⟩
    · simp only [State.gather, MessageTask.gathering.injEq] at he
      obtain ⟨-, hfuture⟩ := he
      split at hfuture <;> cases hfuture
    · simp [hitems, Action.broadcasts]
    · refine ⟨[(message, s.worker.activeSockets)], rfl, ?_⟩
      simp [State.offered, State.gather, offers]
  · obtain ⟨task, htask', -, hresult⟩ := h.task
    rw [htask] at htask'
    cases htask'
    have hgetting : State.afterGather result = .getting := by
      cases result with
      | ok u => rfl
      | error e => exact if_pos (hresult children e rfl)
    have hhealthy : Healthy { s with worker := { s.worker with messageTask := some (State.afterGather result) } } := by
      rw [hgetting]
      exact ⟨h.isStarted, h.unbounded, .getting, rfl, fun e he => (by cases he), fun children e he => (by cases he)⟩
    exact hhealthy.keeps rfl (List.append_nil _).symm rfl rfl fun _ => ⟨rfl, rfl⟩

theorem settle_cases (sends : List (Send Socket)) (k : ℕ) (result : Except Exn Unit) (task : MessageTask) :
    State.settle sends k result task = task ∨ ∃ children, task = .gathering children none ∧
      (State.settle sends k result task = .gathering children (some (.ok ())) ∨
        ∃ e, result = .error e ∧ State.settle sends k result task = .gathering children (some (.error e))) := by
  cases task with
  | getting => exact .inl rfl
  | ended e => exact .inl rfl
  | gathering children future =>
    cases future with
    | some result' => exact .inl rfl
    | none =>
      simp only [State.settle]
      split
      · cases result with
        | error e => exact .inr ⟨children, rfl, .inr ⟨e, rfl, rfl⟩⟩
        | ok u =>
          simp only
          split
          · exact .inr ⟨children, rfl, .inl rfl⟩
          · exact .inl rfl
      · exact .inl rfl

theorem finishSend_cases {k : ℕ} {outcome : Outcome} (h : s.finishSend k outcome = some s') :
    ∃ socket message sends, s.sends[k]? = some ⟨socket, message, none⟩ ∧
      sends = s.sends.set k ⟨socket, message, some outcome.result⟩ ∧
      s' = { s with
        sends := sends
        worker := { s.worker with
          messageTask := s.worker.messageTask.map (State.settle sends k outcome.result) } } := by
  unfold State.finishSend at h
  split at h
  · next socket message hk => exact ⟨socket, message, _, hk, rfl, (Option.some.inj h).symm⟩
  · cases h

theorem Outcome.isException {outcome : Outcome} {e : Exn} (h : outcome.result = .error e) :
    e.isException = true := by
  cases outcome with
  | sent => cases h
  | fails e' he =>
    cases h
    exact he

theorem Healthy.finishSend (h : Healthy s) {k : ℕ} {outcome : Outcome} (hs : s.finishSend k outcome = some s') :
    Keeps s (.finishSend k outcome) s' := by
  obtain ⟨socket, message, sends, hk, hsends, rfl⟩ := finishSend_cases hs
  obtain ⟨task, htask, hended, hexn⟩ := h.task
  have htask' := congrArg (Option.map (State.settle sends k outcome.result)) htask
  refine Healthy.keeps ⟨h.isStarted, h.unbounded, _, htask', ?_⟩ rfl (List.append_nil _).symm rfl ?_
    fun _ => ⟨rfl, rfl⟩
  · obtain heq | ⟨children, rfl, heq | ⟨e, he, heq⟩⟩ := settle_cases sends k outcome.result task
    · rw [heq]
      exact ⟨hended, hexn⟩
    · rw [heq]
      exact ⟨fun e he => (by cases he), fun children e he => (by cases he)⟩
    · rw [heq]
      refine ⟨fun e he => (by cases he), fun children' e' he' => ?_⟩
      cases he'
      exact Outcome.isException he
  · have hmap : sends.map (fun send => (send.socket, send.message)) =
        s.sends.map fun send => (send.socket, send.message) := by
      obtain ⟨hlt, hget⟩ := List.getElem?_eq_some_iff.mp hk
      apply List.ext_getElem?
      intro j
      by_cases hj : k = j
      · subst hj
        simp [hsends, hlt, hget]
      · simp [hsends, List.getElem?_set_ne hj]
    exact hmap

theorem Healthy.broadcast (h : Healthy s) (messageType : String) (message : Option Content) :
    Keeps s (.broadcast messageType message)
      { s with worker := (s.worker.broadcastMessage messageType message).1 } := by
  rw [broadcastMessage_unbounded h.unbounded]
  exact Healthy.keeps ⟨h.isStarted, rfl, h.task⟩ rfl rfl rfl rfl fun _ => ⟨rfl, rfl⟩

theorem Healthy.heartbeat (h : Healthy s) : Keeps s .sendHeartbeats s.heartbeat := by
  rw [heartbeat_eq h.unbounded]
  exact Healthy.keeps ⟨h.isStarted, rfl, h.task⟩ rfl rfl rfl rfl fun hnot => by cases hnot

theorem Healthy.step [DecidableEq Socket] (h : Healthy s) (hs : s.perform action = some s') : Keeps s action s' := by
  cases action with
  | start =>
    cases hs
    rw [h.start]
    exact h.keeps rfl (List.append_nil _).symm rfl rfl fun _ => ⟨rfl, rfl⟩
  | connect socket =>
    cases hs
    exact Healthy.keeps ⟨h.isStarted, h.unbounded, h.task⟩ rfl (List.append_nil _).symm rfl rfl fun _ => ⟨rfl, rfl⟩
  | disconnect socket =>
    cases hs
    exact Healthy.keeps ⟨h.isStarted, h.unbounded, h.task⟩ rfl (List.append_nil _).symm rfl rfl fun _ => ⟨rfl, rfl⟩
  | broadcast messageType message =>
    cases hs
    exact h.broadcast messageType message
  | finishSend k outcome => exact h.finishSend hs
  | sendMessages => exact h.sendMessages hs
  | sendHeartbeats =>
    simp only [State.perform, State.sendHeartbeats] at hs
    split at hs
    · cases hs
      exact h.heartbeat
    · cases hs
      have hkeeps := (Healthy.mk (s := { s with sleeps := s.sleeps + 1 }) h.isStarted h.unbounded h.task).heartbeat
      exact ⟨hkeeps.healthy, hkeeps.fifo, hkeeps.offered, fun hnot => by cases hnot⟩
    · cases hs

theorem Healthy.started (sockets : List Socket) (messages : List Message) (sends : List (Send Socket)) :
    Healthy (State.started sockets messages sends) :=
  ⟨rfl, rfl, .getting, rfl, fun e he => (by cases he), fun children e he => (by cases he)⟩

end Messages

/-! ## Runs -/

section Runs
variable [DecidableEq Socket] {s s' : State Socket} {actions : List (Action Socket)}

theorem run_cons {action : Action Socket} (h : s.run (action :: actions) = some s') :
    ∃ s₁, s.perform action = some s₁ ∧ s₁.run actions = some s' := by
  rw [State.run] at h
  exact Option.bind_eq_some_iff.mp h

theorem Healthy.run (h : Healthy s) (hrun : s.run actions = some s') : Healthy s' ∧
    s'.taken.map Prod.fst ++ s'.worker.outgoingMessages.items =
      s.taken.map Prod.fst ++ s.worker.outgoingMessages.items ++ actions.flatMap Action.broadcasts ∧
    ∃ new, s'.taken = s.taken ++ new ∧ s'.offered = s.offered ++ new.flatMap offers := by
  induction actions generalizing s with
  | nil =>
    cases hrun
    exact ⟨h, (List.append_nil _).symm, [], (List.append_nil _).symm, (List.append_nil _).symm⟩
  | cons action actions ih =>
    obtain ⟨s₁, hs₁, hrun⟩ := run_cons hrun
    have hstep := h.step hs₁
    obtain ⟨hhealthy, hfifo, new, htaken, hoffered⟩ := ih hstep.healthy hrun
    obtain ⟨new₁, htaken₁, hoffered₁⟩ := hstep.offered
    refine ⟨hhealthy, ?_, new₁ ++ new, ?_, ?_⟩
    · rw [hfifo, hstep.fifo, List.flatMap_cons, List.append_assoc, List.append_assoc]
    · rw [htaken, htaken₁, List.append_assoc]
    · rw [hoffered, hoffered₁, List.flatMap_append, List.append_assoc]

theorem Healthy.run_ended (h : Healthy s) {e : Exn} (htask : s.worker.heartbeatTask = some (.ended e))
    (hrun : s.run actions = some s') : actions.countP Action.isHeartbeat = 0 ∧ s'.sleeps = s.sleeps ∧
      s'.worker.heartbeatTask = some (.ended e) := by
  induction actions generalizing s with
  | nil =>
    cases hrun
    exact ⟨rfl, rfl, htask⟩
  | cons action actions ih =>
    obtain ⟨s₁, hs₁, hrun⟩ := run_cons hrun
    have hstep := h.step hs₁
    have hother : action.isHeartbeat = false := by
      cases action with
      | sendHeartbeats =>
        rw [State.perform, State.sendHeartbeats, htask] at hs₁
        cases hs₁
      | _ => rfl
    obtain ⟨htask₁, hsleeps₁⟩ := hstep.heartbeat hother
    obtain ⟨hcount, hsleeps, hended⟩ := ih hstep.healthy (htask₁.trans htask) hrun
    refine ⟨?_, hsleeps.trans hsleeps₁, hended⟩
    rw [List.countP_cons, hcount, hother]
    rfl

/-- Before its first step the loop has not ended, after it there is no other one. -/
theorem Healthy.run_created (h : Healthy s) (htask : s.worker.heartbeatTask = some .created)
    (hrun : s.run actions = some s') : s'.sleeps = s.sleeps ∧
      (actions.countP Action.isHeartbeat = 0 ∧ s'.worker.heartbeatTask = some .created ∨
        actions.countP Action.isHeartbeat = 1 ∧ ∃ e, s'.worker.heartbeatTask = some (.ended e)) := by
  induction actions generalizing s with
  | nil =>
    cases hrun
    exact ⟨rfl, .inl ⟨rfl, htask⟩⟩
  | cons action actions ih =>
    obtain ⟨s₁, hs₁, hrun⟩ := run_cons hrun
    have hstep := h.step hs₁
    cases hbeat : action.isHeartbeat with
    | false =>
      obtain ⟨htask₁, hsleeps₁⟩ := hstep.heartbeat hbeat
      obtain ⟨hsleeps, hcases⟩ := ih hstep.healthy (htask₁.trans htask) hrun
      rw [List.countP_cons, hbeat]
      exact ⟨hsleeps.trans hsleeps₁, hcases⟩
    | true =>
      have haction : action = .sendHeartbeats := by
        cases action with
        | sendHeartbeats => rfl
        | _ => cases hbeat
      subst haction
      rw [State.perform, State.sendHeartbeats, htask] at hs₁
      cases hs₁
      rw [heartbeat_eq h.unbounded] at hrun hstep
      obtain ⟨hcount, hsleeps, hended⟩ := hstep.healthy.run_ended rfl hrun
      refine ⟨hsleeps, .inr ⟨?_, _, hended⟩⟩
      rw [List.countP_cons, hcount]
      rfl

variable {sockets : List Socket} {messages : List Message} {sends : List (Send Socket)}

theorem messagesGoOn (hrun : (State.started sockets messages sends).run actions = some s) :
    MessagesGoOn (State.started sockets messages sends) actions s := by
  obtain ⟨hhealthy, hfifo, new, htaken, hoffered⟩ := (Healthy.started sockets messages sends).run hrun
  obtain ⟨task, htask, hended, -⟩ := hhealthy.task
  have hnew : s.taken = new := htaken
  refine ⟨⟨task, htask, hended⟩, hfifo, ?_⟩
  rw [hnew]
  exact hoffered

/-- Both loops go on exactly as long as that of the heartbeats has not taken a step. -/
theorem goesOn_iff (hrun : (State.started sockets messages sends).run actions = some s) :
    GoesOn (State.started sockets messages sends) actions s ↔ ∀ action ∈ actions, action.isHeartbeat = false := by
  obtain ⟨hsleeps, hcases⟩ := (Healthy.started sockets messages sends).run_created rfl hrun
  have hnone : (∀ action ∈ actions, action.isHeartbeat = false) ↔ actions.countP Action.isHeartbeat = 0 := by
    simp only [List.countP_eq_zero, Bool.not_eq_true]
  rw [hnone]
  constructor
  · intro h
    obtain ⟨hcount, -⟩ | ⟨-, e, hended⟩ := hcases
    · exact hcount
    · obtain ⟨task, htask, hnot⟩ := h.heartbeatsRun
      rw [hended] at htask
      cases htask
      exact absurd rfl (hnot e)
  · intro hcount
    obtain ⟨-, hcreated⟩ | ⟨hone, -⟩ := hcases
    · exact ⟨messagesGoOn hrun, ⟨.created, hcreated, fun e he => by cases he⟩, fun h => absurd hcreated h⟩
    · rw [hcount] at hone
      cases hone

end Runs

/-- A send that fails does not keep the message from the other socket. -/
theorem goesOn_failing_send : ∃ s, (State.started [1, 2] [] []).run [.broadcast "apps_update" (some (.list [])),
      .sendMessages, .finishSend 0 (.fails (.webSocketDisconnect 1006 "") rfl), .sendMessages, .disconnect 1,
      .finishSend 1 .sent] = some s ∧
    GoesOn (State.started [1, 2] [] []) [.broadcast "apps_update" (some (.list [])),
      .sendMessages, .finishSend 0 (.fails (.webSocketDisconnect 1006 "") rfl), .sendMessages, .disconnect 1,
      .finishSend 1 .sent] s :=
  ⟨_, rfl, (goesOn_iff rfl).mpr (by simp [Action.isHeartbeat])⟩

/-- The first step of the heartbeat loop ends it. -/
theorem heartbeats_end : ∃ s, (State.started [1] [] []).run [.sendHeartbeats] = some s ∧
    ¬ GoesOn (State.started [1] [] []) [.sendHeartbeats] s := by
  refine ⟨_, rfl, fun h => ?_⟩
  obtain ⟨task, htask, hnot⟩ := h.heartbeatsRun
  cases htask
  exact hnot _ rfl

end Freeshard.Websocket
