import Mathlib.Data.Fintype.Basic
import MuduoCpp.Lib.Run
import MuduoCpp.Registration

/-!
# `src/TcpServer.cc`: a server with its loops and connections

The runs of a `TcpServer` from its start to its destruction and beyond.  `L` is the type of the
`EventLoop`s, the base loop `loop_` and those of the thread pool, `loops_`; each has its thread.  A
`TcpConnection *` is a number, in the order of the calls of `newConnection`.

One step is a public call, a callback of a channel or a queued task, or one of the things that a
loop does between them: it polls, it takes the next channel of `activeChannels_`, it swaps
`pendingFunctors_` out, it leaves `doPendingFunctors`.  The loops take their steps in any order, and
the public calls of the user come at any time, from any thread that has a reference.  A call on
another thread than that of the connection's loop may also come apart: it reads `kConnected` at some
time after `connectEstablished`, and `store` and `push` are what is left of it.

A `TcpConnectionPtr` is held by `connections_`, by the functors (also by those that have run, until
`doPendingFunctors` returns), by the guard in `Channel::handleEvent` and by the user.  A connection
without a holder has been destroyed and its fd is closed: see `Held`.

`~TcpServer` runs on the thread of the base loop.  Its body (`destroy`) is one step; then that
thread is in the destructor of the thread pool and waits for the io threads, which go on until they
leave `loop()` (`exit`); with `destroyed` the destructor has finished and the base loop goes on.

`trace` records what ran on which thread; no step reads it.
-/

namespace Muduo

/-- The tasks that the public calls queue. -/
def Task.isPublic {β : Type} : Task β → Bool
  | .sendInLoop _ | .sendFileInLoop _ _ _ | .shutdownInLoop => true
  | _ => false

namespace TcpServer

/-- A functor, with the connection that it has captured; `listen` is `Acceptor::listen`. -/
inductive Functor (β : Type)
  | run (task : Task β) (conn : ℕ)
  | removeConnectionInLoop (conn : ℕ)
  | listen
  deriving DecidableEq, Repr

/-- The connection that the functor holds. -/
def Functor.conn {β : Type} : Functor β → Option ℕ
  | .run _ conn => some conn
  | .removeConnectionInLoop conn => some conn
  | .listen => none

/-- Where a loop is in the body of `loop()`. -/
inductive Phase (β : Type)
  | polling
  /-- The channels that await dispatch, and the callbacks that `handleEventWithGuard` still has to
  run. -/
  | dispatching (activeChannels_ : List ℕ) (running : List (ℕ × Callback))
  /-- The functors of `doPendingFunctors`: those that still have to run and those that have run. -/
  | calling (functors done : List (Functor β))
  deriving DecidableEq, Repr

namespace Phase

variable {β : Type}

/-- The channels that await dispatch. -/
def activeChannels_ : Phase β → List ℕ
  | .dispatching activeChannels_ _ => activeChannels_
  | _ => []

/-- The callbacks that `handleEventWithGuard` still has to run. -/
def running : Phase β → List (ℕ × Callback)
  | .dispatching _ running => running
  | _ => []

/-- The functors that `doPendingFunctors` still has to run. -/
def functors : Phase β → List (Functor β)
  | .calling functors _ => functors
  | _ => []

/-- Those that have run; the vector holds them until the round ends. -/
def done : Phase β → List (Functor β)
  | .calling _ done => done
  | _ => []

end Phase

/-- An `EventLoop`, with its poller. -/
structure Loop (β : Type) where
  poller : EPollPoller ℕ
  pendingFunctors_ : List (Functor β)
  phase : Phase β
  /-- `loop()` has returned and the `EventLoop` is destroyed. -/
  exited : Bool

namespace Loop

variable {β : Type}

/-- What the loop still has to run, in order. -/
def todo (loop : Loop β) : List (Functor β) := loop.phase.functors ++ loop.pendingFunctors_

/-- The connections that are held by functors and by the guard of `handleEvent`. -/
def holders (loop : Loop β) : List ℕ :=
  (loop.todo ++ loop.phase.done).filterMap Functor.conn ++ loop.phase.running.map Prod.fst

end Loop

/-- A connection of the server, with the loop and the name that it was made with. -/
structure Connection (L β : Type) where
  loop_ : L
  name_ : String
  conn : TcpConnection β
  /-- The thread on which `connectDestroyed` has run; no step reads it. -/
  destroyed : Option L

/-- The life of the server: in use, in its destructor, gone. -/
inductive Stage
  | alive
  | joining
  | destroyed
  deriving DecidableEq, Repr

/-- What the trace records. -/
inductive Act (L : Type)
  /-- A function of the connection. -/
  | ran (c : ℕ)
  /-- `updateChannel` or `removeChannel` on the poller of `l`. -/
  | registers (l : L)
  /-- An insertion into `connections_` or an erasure from it. -/
  | connections_
  /-- The body of `removeConnection` or of `removeConnectionInLoop`. -/
  | removes (stage : Stage)
  deriving DecidableEq, Repr

end TcpServer

/-- `TcpServer`, with its loops, its connections and what its user holds. -/
structure TcpServer (L β : Type) where
  loop_ : L
  loops_ : List L
  next_ : ℕ
  ipPort_ : String
  name_ : String
  /-- The callback is set. -/
  writeCompleteCallback_ : Bool
  started_ : Bool
  nextConnId_ : BitVec 32
  connections_ : String → Option ℕ
  /-- The acceptor listens. -/
  listenning_ : Bool
  stage : TcpServer.Stage
  /-- How many connections `newConnection` has made. -/
  made : ℕ
  conns : ℕ → TcpServer.Connection L β
  loops : L → TcpServer.Loop β
  /-- The references of the user. -/
  user : List ℕ
  /-- What ran, with the loop whose thread it ran on (`none`: another thread). -/
  trace : List (Option L × TcpServer.Act L)

namespace TcpServer

variable {L β : Type}

/-! ### References -/

/-- Somebody holds a reference. -/
def Held (s : TcpServer L β) (c : ℕ) : Prop :=
  s.connections_ (s.conns c).name_ = some c ∨ (∃ l, c ∈ (s.loops l).holders) ∨ c ∈ s.user

/-- The connection has been made and has not been destroyed. -/
def Alive (s : TcpServer L β) (c : ℕ) : Prop := c < s.made ∧ s.Held c

instance [Fintype L] (s : TcpServer L β) : DecidablePred s.Held := fun _ =>
  inferInstanceAs (Decidable (_ ∨ _ ∨ _))

instance [Fintype L] (s : TcpServer L β) : DecidablePred s.Alive := fun _ =>
  inferInstanceAs (Decidable (_ ∧ _))

/-! ### The functions

`t` is the thread that runs the function. -/

section Functions

variable [DecidableEq L] [Inhabited β]

/-- Entries of the trace. -/
def record (s : TcpServer L β) (t : Option L) (acts : List (Act L)) : TcpServer L β :=
  { s with trace := s.trace ++ acts.map fun act => (t, act) }

/-- A change of one loop. -/
def modifyLoop (s : TcpServer L β) (l : L) (f : Loop β → Loop β) : TcpServer L β :=
  { s with loops := Function.update s.loops l (f (s.loops l)) }

/-- One loop goes on in its body. -/
def setPhase (s : TcpServer L β) (l : L) (phase : Phase β) : TcpServer L β :=
  s.modifyLoop l fun loop => { loop with phase := phase }

/-- A change of one connection. -/
def setConn (s : TcpServer L β) (c : ℕ) (conn : TcpConnection β) : TcpServer L β :=
  { s with conns := Function.update s.conns c { s.conns c with conn := conn } }

/-- `EventLoop::queueInLoop`; that the loop wakes up is not part of this model. -/
def queueInLoop (s : TcpServer L β) (l : L) (f : Functor β) : TcpServer L β :=
  s.modifyLoop l fun loop => { loop with pendingFunctors_ := loop.pendingFunctors_ ++ [f] }

/-- A function of the connection `c` has run: what it did to the connection, its poller and its
queue. -/
def perform (s : TcpServer L β) (t : Option L) (c : ℕ) (res : TcpConnection β × List (Effect β)) :
    TcpServer L β :=
  let l := (s.conns c).loop_
  let r := res.2.foldl (Effect.register c) ((s.loops l).poller, res.1.channel_)
  let s := (s.setConn c { res.1 with channel_ := r.2 }).modifyLoop l fun loop =>
    { loop with
      poller := r.1
      pendingFunctors_ := loop.pendingFunctors_ ++ (queued res.2).map fun task => .run task c }
  s.record t (.ran c :: if res.2.any Effect.registers then [.registers l] else [])

/-- `connectDestroyed` has run on the thread `t`. -/
def markDestroyed (s : TcpServer L β) (t : Option L) (c : ℕ) : TcpServer L β :=
  { s with conns := Function.update s.conns c { s.conns c with destroyed := t } }

/-- A task of the connection `c` runs. -/
def runTask (s : TcpServer L β) (t : Option L) (c : ℕ) (task : Task β) (r : WriteResult) :
    TcpServer L β :=
  let s := s.perform t c ((s.conns c).conn.runTask r task)
  match task with
  | .connectDestroyed => s.markDestroyed t c
  | _ => s

/-- `runInLoop` of the connection's loop. -/
def runInLoop (s : TcpServer L β) (t : Option L) (c : ℕ) (task : Task β) (r : WriteResult) :
    TcpServer L β :=
  if t = some (s.conns c).loop_ then s.runTask t c task r
  else s.queueInLoop (s.conns c).loop_ (.run task c)

/-- `acceptChannel_` is registered with the poller of the base loop. -/
def listen (s : TcpServer L β) (t : Option L) : TcpServer L β :=
  { s with listenning_ := true }.record t [.registers s.loop_]

/-- `TcpServer::start`: `listen` runs in the base loop, once. -/
def start (s : TcpServer L β) (t : Option L) : TcpServer L β :=
  if s.started_ then s
  else if t = some s.loop_ then { s with started_ := true }.listen t
  else { s with started_ := true }.queueInLoop s.loop_ .listen

/-- The loop and the new value of `next_`. -/
def getNextLoop (s : TcpServer L β) : L × ℕ :=
  if s.loops_.isEmpty then (s.loop_, s.next_)
  else (s.loops_.getD s.next_ s.loop_, (s.next_ + 1) % s.loops_.length)

/-- The name that `newConnection` builds. -/
def connName (s : TcpServer L β) : String :=
  s.name_ ++ "-" ++ s.ipPort_ ++ "#" ++ toString s.nextConnId_.toInt

/-- The first part of `newConnection`: the connection is made and entered in `connections_`.  The
high-water callback is the user's, set in the connection callback. -/
def makeConnection (s : TcpServer L β) (t : Option L) (sockfd : ℤ) (highWater : Bool) (mark : ℕ) :
    TcpServer L β :=
  { s with
    next_ := s.getNextLoop.2
    nextConnId_ := s.nextConnId_ + 1
    made := s.made + 1
    conns := Function.update s.conns s.made
      { loop_ := s.getNextLoop.1
        name_ := s.connName
        conn := .init sockfd s.writeCompleteCallback_ highWater mark
        destroyed := none }
    connections_ := Function.update s.connections_ s.connName (some s.made) }.record t
      [.connections_]

/-- `TcpServer::newConnection`. -/
def newConnection (s : TcpServer L β) (t : Option L) (sockfd : ℤ) (highWater : Bool) (mark : ℕ) :
    TcpServer L β :=
  (s.makeConnection t sockfd highWater mark).runInLoop t s.made .connectEstablished (.sent 0)

/-- `TcpServer::removeConnectionInLoop`. -/
def removeConnectionInLoop (s : TcpServer L β) (t : Option L) (c : ℕ) : TcpServer L β :=
  let s := { s with
    connections_ := Function.update s.connections_ (s.conns c).name_ none }.record t
      [.removes s.stage, .connections_]
  s.queueInLoop (s.conns c).loop_ (.run .connectDestroyed c)

/-- `TcpServer::removeConnection`, the close callback of the connections. -/
def removeConnection (s : TcpServer L β) (t : Option L) (c : ℕ) : TcpServer L β :=
  let s := s.record t [.removes s.stage]
  if t = some s.loop_ then s.removeConnectionInLoop t c
  else s.queueInLoop s.loop_ (.removeConnectionInLoop c)

/-- The body of `~TcpServer`, with the connections in the order of its loop. -/
def destroy (s : TcpServer L β) (t : Option L) (conns : List ℕ) : TcpServer L β :=
  { (conns.foldl (fun s c => s.runInLoop t c .connectDestroyed (.sent 0)) s).record t
      [.connections_] with
    connections_ := fun _ => none
    stage := .joining }

/-! ### The loops

The pollers of the model hold the channels of the connections; those of the acceptor and of the
eventfds are left out. -/

/-- One event of `fillActiveChannels`. -/
def activate (l : L) (s : TcpServer L β) (e : ℤ × Events) : TcpServer L β :=
  match (s.loops l).poller.epollfd_ e.1 with
  | none => s
  | some event =>
      let conn := (s.conns event.ptr).conn
      let s := s.setConn event.ptr { conn with channel_ := { conn.channel_ with revents_ := e.2 } }
      s.setPhase l (.dispatching ((s.loops l).phase.activeChannels_ ++ [event.ptr]) [])

/-- `poll` returns with the events, and the loop starts to dispatch them. -/
def poll (s : TcpServer L β) (l : L) (events : List (ℤ × Events)) : TcpServer L β :=
  events.foldl (activate l) (s.setPhase l (.dispatching [] []))

/-- A callback of `c` runs, and with it `removeConnection` if it calls `closeCallback_`. -/
def runCallback (s : TcpServer L β) (t : Option L) (c : ℕ) (k : Callback) (read : ReadResult β)
    (write : WriteResult) : TcpServer L β :=
  let res := (s.conns c).conn.runCallback read write k
  let s := s.perform t c res
  if res.2.any Effect.isClose then s.removeConnection t c else s

/-- A functor runs. -/
def call (s : TcpServer L β) (t : Option L) (r : WriteResult) : Functor β → TcpServer L β
  | .run task c => s.runTask t c task r
  | .removeConnectionInLoop c => s.removeConnectionInLoop t c
  | .listen => s.listen t

/-! ### The rule of a poll -/

variable {s : TcpServer L β} {l : L}

omit [Inhabited β] in
theorem loops_modifyLoop (f : Loop β → Loop β) (k : L) :
    (s.modifyLoop l f).loops k = if k = l then f (s.loops l) else s.loops k :=
  Function.update_apply _ _ _ _

omit [Inhabited β] in
theorem phase_setPhase (phase : Phase β) : ((s.setPhase l phase).loops l).phase = phase := by
  rw [setPhase, loops_modifyLoop, if_pos rfl]

omit [Inhabited β] in
/-- What each event keeps while the loop dispatches holds after all of them. -/
theorem foldl_activate {I : TcpServer L β → Prop} {events : List (ℤ × Events)}
    (hone : ∀ u, ∀ e ∈ events, ∀ active, (u.loops l).phase = .dispatching active [] → I u →
      I (activate l u e)) {active : List ℕ} (hp : (s.loops l).phase = .dispatching active [])
    (hI : I s) : I (events.foldl (activate l) s) := by
  have hphase : ∀ (u : TcpServer L β) (e : ℤ × Events),
      (∃ active, (u.loops l).phase = .dispatching active []) →
      ∃ active, ((activate l u e).loops l).phase = .dispatching active [] := by
    intro u e hu
    unfold activate
    cases (u.loops l).poller.epollfd_ e.1 with
    | none => exact hu
    | some event => exact ⟨_, phase_setPhase _⟩
  have hrun := List.foldlRecOn (motive := fun u : TcpServer L β =>
    I u ∧ ∃ active, (u.loops l).phase = .dispatching active []) events (activate l) ⟨hI, active, hp⟩
  refine (hrun fun u hu e he => ?_).1
  obtain ⟨hu, active, hactive⟩ := hu
  exact ⟨hone u e he active hactive hu, hphase u e ⟨active, hactive⟩⟩

omit [Inhabited β] in
/-- An invariant of `poll`: it holds of the loop that starts to dispatch, and each event keeps
it. -/
theorem poll_inv {I : TcpServer L β → Prop} (hI : I (s.setPhase l (.dispatching [] [])))
    (hone : ∀ u e active, (u.loops l).phase = .dispatching active [] → I u → I (activate l u e))
    (events : List (ℤ × Events)) : I (s.poll l events) :=
  foldl_activate (fun u e _ => hone u e) (phase_setPhase _) hI

end Functions

/-! ### Steps -/

/-- A step of a loop, or a public call on the thread `t`. -/
inductive Label (L β : Type)
  | start (t : Option L)
  /-- `epoll_wait` returns: the fds with their masks. -/
  | poll (l : L) (events : List (ℤ × Events))
  /-- The acceptor's channel has its turn. -/
  | newConnection (sockfd : ℤ) (highWater : Bool) (mark : ℕ)
  | handleEvent (l : L)
  | callback (l : L) (read : ReadResult β) (write : WriteResult)
  | swap (l : L)
  | functor (l : L) (r : WriteResult)
  | finish (l : L)
  | send (t : Option L) (c : ℕ) (data : List β) (r : WriteResult)
  | sendFile (t : Option L) (c : ℕ) (file : List β) (offset count : ℕ) (r : WriteResult)
  | shutdown (t : Option L) (c : ℕ)
  /-- `shutdown()` on another thread, which has read `kConnected`, stores `kDisconnecting`. -/
  | store (c : ℕ)
  /-- A public call on another thread, which has read `kConnected`, queues its task. -/
  | push (c : ℕ) (task : Task β)
  /-- The user copies a `TcpConnectionPtr`, or drops one. -/
  | keep (c : ℕ)
  | drop (c : ℕ)
  | destroy (conns : List ℕ)
  | exit (l : L)
  | destroyed
  deriving DecidableEq, Repr

/-- The thread that takes the step; `none` if it is not that of a loop. -/
def Label.thread (s : TcpServer L β) : Label L β → Option L
  | .poll l _ | .handleEvent l | .callback l _ _ | .swap l | .functor l _ | .finish l | .exit l =>
      some l
  | .newConnection _ _ _ | .destroy _ => some s.loop_
  | .start t | .send t _ _ _ | .sendFile t _ _ _ _ _ | .shutdown t _ => t
  | .store _ | .push _ _ | .keep _ | .drop _ | .destroyed => none

variable [DecidableEq L] [Fintype L] [Inhabited β]

/-- The thread of `l` has left `loop()`, or is the base loop's and waits in `~TcpServer`. -/
def stopped (s : TcpServer L β) (l : L) : Bool :=
  (s.loops l).exited || (s.stage = .joining && l = s.loop_)

/-- What a step does when its thread is not stopped. -/
def next (s : TcpServer L β) : Label L β → Option (TcpServer L β)
  | .start t => if s.stage = .alive then some (s.start t) else none
  | .poll l events =>
      match (s.loops l).phase with
      | .polling =>
          if (events.map Prod.fst).Nodup ∧
              ∀ e ∈ events, ((s.loops l).poller.epollfd_ e.1).isSome = true then
            some (s.poll l events)
          else none
      | _ => none
  | .newConnection sockfd highWater mark =>
      match (s.loops s.loop_).phase with
      | .dispatching _ [] =>
          -- `accept` returns an fd that is not open
          if s.listenning_ = true ∧ s.stage = .alive ∧
              ∀ c < s.made, s.Held c → (s.conns c).conn.channel_.fd_ ≠ sockfd then
            some (s.newConnection (some s.loop_) sockfd highWater mark)
          else none
      | _ => none
  | .handleEvent l =>
      match (s.loops l).phase with
      | .dispatching (c :: rest) [] =>
          let callbacks := (s.conns c).conn.channel_.handleEvent (s.Held c)
          some (s.setPhase l (.dispatching rest (callbacks.map fun k => (c, k))))
      | _ => none
  | .callback l read write =>
      match (s.loops l).phase with
      | .dispatching active ((c, k) :: rest) =>
          some ((s.setPhase l (.dispatching active rest)).runCallback (some l) c k read write)
      | _ => none
  | .swap l =>
      match (s.loops l).phase with
      | .dispatching [] [] => some (s.modifyLoop l fun loop =>
          { loop with pendingFunctors_ := [], phase := .calling loop.pendingFunctors_ [] })
      | _ => none
  | .functor l r =>
      match (s.loops l).phase with
      | .calling (f :: rest) done =>
          some ((s.setPhase l (.calling rest (done ++ [f]))).call (some l) r f)
      | _ => none
  | .finish l =>
      match (s.loops l).phase with
      | .calling [] _ => some (s.setPhase l .polling)
      | _ => none
  | .send t c data r =>
      if s.Alive c then
        if (s.conns c).conn.connected then some (s.runInLoop t c (.sendInLoop data) r) else some s
      else none
  | .sendFile t c file offset count r =>
      if s.Alive c then
        if (s.conns c).conn.connected then
          some (s.runInLoop t c (.sendFileInLoop file offset count) r)
        else some s
      else none
  | .shutdown t c =>
      if s.Alive c then
        if (s.conns c).conn.connected then
          some ((s.setConn c { (s.conns c).conn with state_ := .kDisconnecting }).runInLoop t c
            .shutdownInLoop (.sent 0))
        else some s
      else none
  | .store c =>
      if s.Alive c ∧ (s.conns c).conn.state_ ≠ .kConnecting then
        some (s.setConn c { (s.conns c).conn with state_ := .kDisconnecting })
      else none
  | .push c task =>
      if s.Alive c ∧ (s.conns c).conn.state_ ≠ .kConnecting ∧ task.isPublic = true then
        some (s.queueInLoop (s.conns c).loop_ (.run task c))
      else none
  | .keep c => if s.Alive c then some { s with user := c :: s.user } else none
  | .drop c => if c ∈ s.user then some { s with user := s.user.erase c } else none
  | .destroy conns =>
      if s.stage = .alive ∧ conns.Nodup ∧
          (∀ c ∈ conns, c < s.made ∧ s.connections_ (s.conns c).name_ = some c) ∧
          ∀ c < s.made, s.connections_ (s.conns c).name_ = some c → c ∈ conns then
        some (s.destroy (some s.loop_) conns)
      else none
  | .exit l =>
      match (s.loops l).phase with
      | .polling =>
          if s.stage = .joining ∧ l ≠ s.loop_ then
            some (s.modifyLoop l fun loop => { loop with pendingFunctors_ := [], exited := true })
          else none
      | _ => none
  | .destroyed =>
      if s.stage = .joining ∧ ∀ l ∈ s.loops_, (s.loops l).exited = true then
        -- `~Acceptor` takes its channel out of the poller
        some ({ s with stage := .destroyed }.record (some s.loop_) [.registers s.loop_])
      else none

/-- A step of a thread that is not stopped. -/
def step (s : TcpServer L β) (a : Label L β) : Option (TcpServer L β) :=
  if (a.thread s).any s.stopped then none else s.next a

/-- A newly constructed server; its loops run. -/
def init (loop_ : L) (loops_ : List L) (ipPort_ name_ : String) (writeComplete : Bool) :
    TcpServer L β where
  loop_ := loop_
  loops_ := loops_
  next_ := 0
  ipPort_ := ipPort_
  name_ := name_
  writeCompleteCallback_ := writeComplete
  started_ := false
  nextConnId_ := 1
  connections_ := fun _ => none
  listenning_ := false
  stage := .alive
  made := 0
  conns := fun _ => ⟨loop_, "", .init 0 false false 0, none⟩
  loops := fun _ => ⟨.empty, [], .polling, false⟩
  user := []
  trace := []

/-! ### What a step does -/

/-- A step of a thread that is not stopped: one case for each branch of `next`, and one for the
public calls that find the connection not connected. -/
inductive Does (s : TcpServer L β) : Label L β → TcpServer L β → Prop
  | start (t : Option L) (hs : s.stage = .alive) : s.Does (.start t) (s.start t)
  | poll {l : L} {events : List (ℤ × Events)} (hp : (s.loops l).phase = .polling)
      (he : ∀ e ∈ events, ((s.loops l).poller.epollfd_ e.1).isSome = true) :
      s.Does (.poll l events) (s.poll l events)
  | newConnection {sockfd : ℤ} {active : List ℕ} (highWater : Bool) (mark : ℕ)
      (hp : (s.loops s.loop_).phase = .dispatching active []) (hs : s.stage = .alive)
      (hfd : ∀ c < s.made, s.Held c → (s.conns c).conn.channel_.fd_ ≠ sockfd) :
      s.Does (.newConnection sockfd highWater mark)
        (s.newConnection (some s.loop_) sockfd highWater mark)
  | handleEvent {l : L} {c : ℕ} {rest : List ℕ}
      (hp : (s.loops l).phase = .dispatching (c :: rest) []) :
      s.Does (.handleEvent l) (s.setPhase l (.dispatching rest
        (((s.conns c).conn.channel_.handleEvent (s.Held c)).map fun k => (c, k))))
  | callback {l : L} {active : List ℕ} {c : ℕ} {k : Callback} {rest : List (ℕ × Callback)}
      (read : ReadResult β) (write : WriteResult)
      (hp : (s.loops l).phase = .dispatching active ((c, k) :: rest)) :
      s.Does (.callback l read write)
        ((s.setPhase l (.dispatching active rest)).runCallback (some l) c k read write)
  | swap {l : L} (hp : (s.loops l).phase = .dispatching [] []) :
      s.Does (.swap l) (s.modifyLoop l fun loop =>
        { loop with pendingFunctors_ := [], phase := .calling loop.pendingFunctors_ [] })
  | functor {l : L} {f : Functor β} {rest done : List (Functor β)} (r : WriteResult)
      (hp : (s.loops l).phase = .calling (f :: rest) done) :
      s.Does (.functor l r) ((s.setPhase l (.calling rest (done ++ [f]))).call (some l) r f)
  | finish {l : L} {done : List (Functor β)} (hp : (s.loops l).phase = .calling [] done) :
      s.Does (.finish l) (s.setPhase l .polling)
  | call {a : Label L β} {c : ℕ} {task : Task β} (r : WriteResult) (hc : s.Alive c)
      (hconn : (s.conns c).conn.state_ = .kConnected) (ht : task.isPublic = true) :
      s.Does a (s.runInLoop (a.thread s) c task r)
  | shutdown {t : Option L} {c : ℕ} (hc : s.Alive c)
      (hconn : (s.conns c).conn.state_ = .kConnected) :
      s.Does (.shutdown t c) ((s.setConn c { (s.conns c).conn with
        state_ := .kDisconnecting }).runInLoop t c .shutdownInLoop (.sent 0))
  | nothing {a : Label L β} : s.Does a s
  | store {c : ℕ} (hc : s.Alive c) (hs : (s.conns c).conn.state_ ≠ .kConnecting) :
      s.Does (.store c) (s.setConn c { (s.conns c).conn with state_ := .kDisconnecting })
  | push {c : ℕ} {task : Task β} (hc : s.Alive c) (hs : (s.conns c).conn.state_ ≠ .kConnecting)
      (ht : task.isPublic = true) :
      s.Does (.push c task) (s.queueInLoop (s.conns c).loop_ (.run task c))
  | user {a : Label L β} (user : List ℕ) : s.Does a { s with user := user }
  | destroy {conns : List ℕ} (hs : s.stage = .alive)
      (hconns : ∀ c ∈ conns, c < s.made ∧ s.connections_ (s.conns c).name_ = some c) :
      s.Does (.destroy conns) (s.destroy (some s.loop_) conns)
  | exit {l : L} (hp : (s.loops l).phase = .polling) (hs : s.stage = .joining) (hl : l ≠ s.loop_) :
      s.Does (.exit l)
        (s.modifyLoop l fun loop => { loop with pendingFunctors_ := [], exited := true })
  | destroyed (hs : s.stage = .joining) :
      s.Does .destroyed ({ s with stage := .destroyed }.record (some s.loop_) [.registers s.loop_])

/-- The public calls, as a whole or in parts, and the references that the user copies and drops. -/
def Label.isCall : Label L β → Bool
  | .send _ _ _ _ | .sendFile _ _ _ _ _ _ | .shutdown _ _ | .store _ | .push _ _ | .keep _
  | .drop _ => true
  | _ => false

variable {s s' : TcpServer L β} {a : Label L β}

/-! The steps of a loop, each with where the loop has to be for it. -/

theorem next_poll {l : L} {events : List (ℤ × Events)} (h : s.next (.poll l events) = some s') :
    (s.loops l).phase = .polling ∧ (events.map Prod.fst).Nodup ∧
      (∀ e ∈ events, ((s.loops l).poller.epollfd_ e.1).isSome = true) ∧ s.poll l events = s' := by
  simp only [next] at h
  split at h
  · next hp =>
    simp only [Option.ite_none_right_eq_some, Option.some.injEq] at h
    exact ⟨hp, h.1.1, h.1.2, h.2⟩
  · cases h

theorem next_newConnection {sockfd : ℤ} {highWater : Bool} {mark : ℕ}
    (h : s.next (.newConnection sockfd highWater mark) = some s') :
    (∃ active, (s.loops s.loop_).phase = .dispatching active []) ∧ s.stage = .alive ∧
      (∀ c < s.made, s.Held c → (s.conns c).conn.channel_.fd_ ≠ sockfd) ∧
      s.newConnection (some s.loop_) sockfd highWater mark = s' := by
  simp only [next] at h
  split at h
  · next active hp =>
    simp only [Option.ite_none_right_eq_some, Option.some.injEq] at h
    exact ⟨⟨active, hp⟩, h.1.2.1, h.1.2.2, h.2⟩
  · cases h

theorem next_handleEvent {l : L} (h : s.next (.handleEvent l) = some s') :
    ∃ c rest, (s.loops l).phase = .dispatching (c :: rest) [] ∧
      s.setPhase l (.dispatching rest
        (((s.conns c).conn.channel_.handleEvent (s.Held c)).map fun k => (c, k))) = s' := by
  simp only [next] at h
  split at h
  · next c rest hp => exact ⟨c, rest, hp, Option.some.inj h⟩
  · cases h

theorem next_callback {l : L} {read : ReadResult β} {write : WriteResult}
    (h : s.next (.callback l read write) = some s') :
    ∃ active c k rest, (s.loops l).phase = .dispatching active ((c, k) :: rest) ∧
      (s.setPhase l (.dispatching active rest)).runCallback (some l) c k read write = s' := by
  simp only [next] at h
  split at h
  · next active c k rest hp => exact ⟨active, c, k, rest, hp, Option.some.inj h⟩
  · cases h

theorem next_swap {l : L} (h : s.next (.swap l) = some s') :
    (s.loops l).phase = .dispatching [] [] ∧
      (s.modifyLoop l fun loop =>
        { loop with pendingFunctors_ := [], phase := .calling loop.pendingFunctors_ [] }) = s' := by
  simp only [next] at h
  split at h
  · next hp => exact ⟨hp, Option.some.inj h⟩
  · cases h

theorem next_functor {l : L} {r : WriteResult} (h : s.next (.functor l r) = some s') :
    ∃ f rest done, (s.loops l).phase = .calling (f :: rest) done ∧
      (s.setPhase l (.calling rest (done ++ [f]))).call (some l) r f = s' := by
  simp only [next] at h
  split at h
  · next f rest done hp => exact ⟨f, rest, done, hp, Option.some.inj h⟩
  · cases h

theorem next_finish {l : L} (h : s.next (.finish l) = some s') :
    ∃ done, (s.loops l).phase = .calling [] done ∧ s.setPhase l .polling = s' := by
  simp only [next] at h
  split at h
  · next done hp => exact ⟨done, hp, Option.some.inj h⟩
  · cases h

theorem next_exit {l : L} (h : s.next (.exit l) = some s') :
    (s.loops l).phase = .polling ∧ s.stage = .joining ∧ l ≠ s.loop_ ∧
      (s.modifyLoop l fun loop => { loop with pendingFunctors_ := [], exited := true }) = s' := by
  simp only [next] at h
  split at h
  · next hp =>
    simp only [Option.ite_none_right_eq_some, Option.some.injEq] at h
    exact ⟨hp, h.1.1, h.1.2, h.2⟩
  · cases h

omit [DecidableEq L] [Inhabited β] in
/-- A whole public call leads to `u`; where the connection is not connected, it does nothing. -/
theorem call_eq_some {u : TcpServer L β} {c : ℕ}
    (h : (if s.Alive c then if (s.conns c).conn.connected then some u else some s else none) =
      some s') :
    s.Alive c ∧ ((s.conns c).conn.connected = true ∧ s' = u ∨
      (s.conns c).conn.connected = false ∧ s' = s) := by
  rw [Option.ite_none_right_eq_some] at h
  obtain ⟨hc, h⟩ := h
  refine ⟨hc, ?_⟩
  split_ifs at h with hconn
  · exact Or.inl ⟨hconn, (Option.some.inj h).symm⟩
  · exact Or.inr ⟨Bool.eq_false_iff.2 hconn, (Option.some.inj h).symm⟩

theorem does_of_call (ha : a.isCall = true) (h : s.next a = some s') : s.Does a s' := by
  cases a with
  | send t c data r =>
    obtain ⟨hc, ⟨hconn, rfl⟩ | ⟨-, rfl⟩⟩ := call_eq_some h
    · exact .call r hc (by simpa [TcpConnection.connected] using hconn) rfl
    · exact .nothing
  | sendFile t c file offset count r =>
    obtain ⟨hc, ⟨hconn, rfl⟩ | ⟨-, rfl⟩⟩ := call_eq_some h
    · exact .call r hc (by simpa [TcpConnection.connected] using hconn) rfl
    · exact .nothing
  | shutdown t c =>
    obtain ⟨hc, ⟨hconn, rfl⟩ | ⟨-, rfl⟩⟩ := call_eq_some h
    · exact .shutdown hc (by simpa [TcpConnection.connected] using hconn)
    · exact .nothing
  | store c =>
    simp only [next, Option.ite_none_right_eq_some, Option.some.injEq] at h
    obtain ⟨⟨hc, hs⟩, rfl⟩ := h
    exact .store hc hs
  | push c task =>
    simp only [next, Option.ite_none_right_eq_some, Option.some.injEq] at h
    obtain ⟨⟨hc, hs, ht⟩, rfl⟩ := h
    exact .push hc hs ht
  | keep c | drop c =>
    simp only [next, Option.ite_none_right_eq_some, Option.some.injEq] at h
    obtain ⟨-, rfl⟩ := h
    exact .user _
  | _ => cases ha

/-- **The inversion lemma.** -/
theorem does_of_next (h : s.next a = some s') : s.Does a s' := by
  cases a with
  | start t =>
    simp only [next, Option.ite_none_right_eq_some, Option.some.injEq] at h
    obtain ⟨hs, rfl⟩ := h
    exact .start t hs
  | poll l events =>
    obtain ⟨hp, -, he, rfl⟩ := next_poll h
    exact .poll hp he
  | newConnection sockfd highWater mark =>
    obtain ⟨⟨active, hp⟩, hs, hfd, rfl⟩ := next_newConnection h
    exact .newConnection highWater mark hp hs hfd
  | handleEvent l =>
    obtain ⟨c, rest, hp, rfl⟩ := next_handleEvent h
    exact .handleEvent hp
  | callback l read write =>
    obtain ⟨active, c, k, rest, hp, rfl⟩ := next_callback h
    exact .callback read write hp
  | swap l =>
    obtain ⟨hp, rfl⟩ := next_swap h
    exact .swap hp
  | functor l r =>
    obtain ⟨f, rest, done, hp, rfl⟩ := next_functor h
    exact .functor r hp
  | finish l =>
    obtain ⟨done, hp, rfl⟩ := next_finish h
    exact .finish hp
  | send | sendFile | shutdown | store | push | keep | drop => exact does_of_call rfl h
  | destroy conns =>
    simp only [next, Option.ite_none_right_eq_some, Option.some.injEq] at h
    obtain ⟨⟨hs, -, hconns, -⟩, rfl⟩ := h
    exact .destroy hs hconns
  | exit l =>
    obtain ⟨hp, hs, hl, rfl⟩ := next_exit h
    exact .exit hp hs hl
  | destroyed =>
    simp only [next, Option.ite_none_right_eq_some, Option.some.injEq] at h
    obtain ⟨⟨hs, -⟩, rfl⟩ := h
    exact .destroyed hs

/-- A step of a loop is taken on a thread that is not stopped. -/
theorem step_eq_some : s.step a = some s' ↔
    ((a.thread s).any s.stopped = false ∧ s.next a = some s') := by
  unfold step
  cases (a.thread s).any s.stopped <;> simp

end TcpServer

end Muduo
