import Freeshard.Sql.Table
import Mathlib.Data.Nat.Notation

/-! # The websocket worker

`WSWorker` of `service/websocket.py` in the event loop of `asyncio`. Between two suspensions a coroutine runs alone,
so a step resumes one task and ends where it is suspended again. -/

namespace Freeshard.Websocket
open Sql (Json)
set_option autoImplicit false

/-! ## Messages -/

/-- `Dict | List`. -/
inductive Content where
  | dict (members : List (String × Json))
  | list (elements : List Json)

structure Message where
  messageType : String
  message : Content

/-- `message or {}`. -/
def orEmpty : Option Content → Content
  | none => .dict []
  | some (.list []) => .dict []
  | some content => content

/-- The message that `broadcast_message` makes. -/
def Message.of (messageType : String) (message : Option Content) : Message := ⟨messageType, orEmpty message⟩

inductive Exn where
  | typeError (text : String)
  | runtimeError (text : String)
  | webSocketDisconnect (code : ℕ) (reason : String)
  | cancelledError
  deriving DecidableEq

/-- The exceptions that `except Exception` catches. -/
def Exn.isException : Exn → Bool
  | .cancelledError => false
  | _ => true

/-- `asyncio.Queue`. -/
structure Queue where
  maxsize : ℕ
  items : List Message

def Queue.full (queue : Queue) : Bool := 0 < queue.maxsize ∧ queue.maxsize ≤ queue.items.length

/-- `none` where it raises `QueueFull`. -/
def Queue.putNowait (queue : Queue) (message : Message) : Option Queue :=
  if queue.full then none else some { queue with items := queue.items ++ [message] }

/-- `none` where `get` waits. -/
def Queue.get (queue : Queue) : Option (Message × Queue) :=
  match queue.items with
  | [] => none
  | message :: items => some (message, { queue with items := items })

/-! ## Tasks -/

/-- A task of `_send_messages`, by where it is suspended. -/
inductive MessageTask where
  /-- At `outgoing_messages.get()`; also before its first step. -/
  | getting
  /-- At the `gather` of these sends, whose future may have a result. -/
  | gathering (children : List ℕ) (future : Option (Except Exn Unit))
  | ended (e : Exn)

/-- A task of `_send_heartbeats`, by where it is suspended. -/
inductive HeartbeatTask where
  | created
  | sleeping (seconds : ℕ)
  | ended (e : Exn)
  deriving DecidableEq

/-- What a call returns, as far as `await` tells it apart. -/
inductive Returned where
  | none
  | awaitable

/-- `await` of what a call has returned. -/
def Returned.await : Returned → Except Exn Unit
  | .none => .error (.typeError "object NoneType can't be used in 'await' expression")
  | .awaitable => .ok ()

/-! ## The worker -/

variable {Socket : Type}

structure WSWorker (Socket : Type) where
  activeSockets : List Socket
  outgoingMessages : Queue
  isStarted : Bool := false
  messageTask : Option MessageTask := none
  heartbeatTask : Option HeartbeatTask := none

namespace WSWorker

/-- What `__init__` makes, with the sockets that have connected and the messages that have been queued since. -/
def init (sockets : List Socket) (messages : List Message) : WSWorker Socket where
  activeSockets := sockets
  outgoingMessages := { maxsize := 0, items := messages }

def start (self : WSWorker Socket) : WSWorker Socket :=
  if self.isStarted then self
  else { self with isStarted := true, messageTask := some .getting, heartbeatTask := some .created }

/-- `connect`, after the `accept`. -/
def connect (self : WSWorker Socket) (socket : Socket) : WSWorker Socket :=
  { self with activeSockets := self.activeSockets ++ [socket] }

/-- `disconnect`. Where `remove` raises, it does so in the caller. -/
def disconnect [DecidableEq Socket] (self : WSWorker Socket) (socket : Socket) : WSWorker Socket :=
  { self with activeSockets := self.activeSockets.erase socket }

def broadcastMessage (self : WSWorker Socket) (messageType : String) (message : Option Content) :
    WSWorker Socket × Returned :=
  match self.outgoingMessages.putNowait (.of messageType message) with
  | some queue => ({ self with outgoingMessages := queue }, .none)
  -- `except QueueFull`
  | none => (self, .none)

end WSWorker

/-! ## The event loop -/

/-- A task of `send_text`. -/
structure Send (Socket : Type) where
  socket : Socket
  message : Message
  outcome : Option (Except Exn Unit) := none

/-- How a `send_text` ends. -/
inductive Outcome where
  | sent
  | fails (e : Exn) (h : e.isException = true)

def Outcome.result : Outcome → Except Exn Unit
  | .sent => .ok ()
  | .fails e _ => .error e

structure State (Socket : Type) where
  worker : WSWorker Socket
  sends : List (Send Socket)
  /-- The messages taken from the queue so far, each with the sockets that were active. -/
  taken : List (Message × List Socket) := []
  /-- The sleeps of the heartbeat loop that have ended. -/
  sleeps : ℕ := 0

namespace State

/-- `gather(*coroutines)`: each is a task from now on. The future of no coroutines has its result at once. -/
def gather (s : State Socket) (coroutines : List (Send Socket)) : State Socket × MessageTask :=
  let children := List.range' s.sends.length coroutines.length
  ({ s with sends := s.sends ++ coroutines }, .gathering children (if children = [] then some (.ok ()) else none))

/-- The `try` statement of `_send_messages`, after its `gather`. -/
def afterGather : Except Exn Unit → MessageTask
  | .ok () => .getting
  | .error e => if e.isException then .getting else .ended e

/-- `_send_messages` is resumed. -/
def sendMessages (s : State Socket) : Option (State Socket) :=
  match s.worker.messageTask with
  | some .getting =>
    match s.worker.outgoingMessages.get with
    | none => none
    | some (message, queue) =>
      let (s', task) := s.gather (s.worker.activeSockets.map fun socket => ⟨socket, message, none⟩)
      some { s' with
        worker := { s.worker with outgoingMessages := queue, messageTask := some task }
        taken := s.taken ++ [(message, s.worker.activeSockets)] }
  | some (.gathering _ (some result)) =>
    some { s with worker := { s.worker with messageTask := some (afterGather result) } }
  | _ => none

/-- The future of a `gather` after one of its tasks has ended: the first exception is its result. -/
def settle (sends : List (Send Socket)) (k : ℕ) (result : Except Exn Unit) : MessageTask → MessageTask
  | .gathering children none =>
    if k ∈ children then
      match result with
      | .error e => .gathering children (some (.error e))
      | .ok () =>
        if children.all fun k => (sends[k]?.bind (·.outcome)).isSome then .gathering children (some (.ok ()))
        else .gathering children none
    else .gathering children none
  | task => task

/-- A `send_text` ends. -/
def finishSend (s : State Socket) (k : ℕ) (outcome : Outcome) : Option (State Socket) :=
  match s.sends[k]? with
  | some ⟨socket, message, none⟩ =>
    let sends := s.sends.set k ⟨socket, message, some outcome.result⟩
    some { s with
      sends := sends
      worker := { s.worker with messageTask := s.worker.messageTask.map (settle sends k outcome.result) } }
  | _ => none

/-- The body of the loop of `_send_heartbeats`. -/
def heartbeat (s : State Socket) : State Socket :=
  let (worker, returned) := s.worker.broadcastMessage "heartbeat" none
  match returned.await with
  | .ok () => { s with worker := { worker with heartbeatTask := some (.sleeping 30) } }
  | .error e => { s with worker := { worker with heartbeatTask := some (.ended e) } }

/-- `_send_heartbeats` is resumed. -/
def sendHeartbeats (s : State Socket) : Option (State Socket) :=
  match s.worker.heartbeatTask with
  | some .created => some s.heartbeat
  | some (.sleeping _) => some { s with sleeps := s.sleeps + 1 }.heartbeat
  | _ => none

end State

/-! ## Runs -/

inductive Action (Socket : Type) where
  | start
  | connect (socket : Socket)
  | disconnect (socket : Socket)
  | broadcast (messageType : String) (message : Option Content)
  | finishSend (k : ℕ) (outcome : Outcome)
  | sendMessages
  | sendHeartbeats

variable [DecidableEq Socket]

/-- `none` where the action cannot take place. -/
def State.perform (s : State Socket) : Action Socket → Option (State Socket)
  | .start => some { s with worker := s.worker.start }
  | .connect socket => some { s with worker := s.worker.connect socket }
  | .disconnect socket => some { s with worker := s.worker.disconnect socket }
  | .broadcast messageType message => some { s with worker := (s.worker.broadcastMessage messageType message).1 }
  | .finishSend k outcome => s.finishSend k outcome
  | .sendMessages => s.sendMessages
  | .sendHeartbeats => s.sendHeartbeats

def State.run (s : State Socket) : List (Action Socket) → Option (State Socket)
  | [] => some s
  | action :: actions => s.perform action >>= fun s' => s'.run actions

/-- The worker has been started; earlier sends may still be under way. -/
def State.started (sockets : List Socket) (messages : List Message) (sends : List (Send Socket)) : State Socket where
  worker := (WSWorker.init sockets messages).start
  sends := sends

end Freeshard.Websocket
