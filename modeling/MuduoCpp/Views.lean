import MuduoCpp.Lifetime
import MuduoCpp.Session

/-!
# What a session and a server show of a connection

`Session` is one connection on its loop, `TcpServer` has any number of connections on any number of
loops.  `View` is what both of them have of a connection.

* `works`: the functions of a connection that a step of the server runs;
* `view_perform`, `view_runTask`, `view_removeConnection`: what a function of a connection does to
  its view; those of another connection (`_of_ne`) do nothing to it.
-/

namespace Muduo

/-- A function of a connection, with what the kernel answers to its system call. -/
inductive Work (β : Type)
  | runTask (task : Task β) (r : WriteResult)
  | runCallback (k : Callback) (read : ReadResult β) (write : WriteResult)
  deriving DecidableEq, Repr

namespace Work

variable {β : Type}

/-- What the function does. -/
def run [Inhabited β] (c : TcpConnection β) : Work β → TcpConnection β × List (Effect β)
  | .runTask task r => c.runTask r task
  | .runCallback k read write => c.runCallback read write k

/-- What it takes of a payload. -/
def taken (c : TcpConnection β) : Work β → Option (Payload β)
  | .runTask task r => c.taken r task
  | .runCallback _ _ _ => none

/-- The kernel takes no more than it is offered. -/
def Offered (c : TcpConnection β) : Work β → Prop
  | .runTask task r => r.nwrote ≤ task.asks.length
  | .runCallback k _ write => k = .writeCallback_ → write.nwrote ≤ c.outputBuffer_.readableBytes

instance (c : TcpConnection β) : DecidablePred (Offered c)
  | .runTask task r => inferInstanceAs (Decidable (r.nwrote ≤ task.asks.length))
  | .runCallback k _ write => inferInstanceAs
      (Decidable (k = .writeCallback_ → write.nwrote ≤ c.outputBuffer_.readableBytes))

/-- A message is not read from a connection that the same mask closes. -/
def Calm (c : TcpConnection β) : Work β → Prop
  | .runCallback .readCallback_ (.data _) _ => Channel.closes c.channel_.revents_ = false
  | _ => True

instance (c : TcpConnection β) : DecidablePred (Calm c)
  | .runCallback .readCallback_ (.data _) _ =>
      inferInstanceAs (Decidable (Channel.closes c.channel_.revents_ = false))
  | .runTask _ _ | .runCallback .closeCallback_ _ _ | .runCallback .errorCallback_ _ _
  | .runCallback .writeCallback_ _ _ | .runCallback .readCallback_ .failed _ => isTrue trivial

/-- Only `connectDestroyed` removes the channel. -/
theorem remove_notMem_run [Inhabited β] {c : TcpConnection β} {w : Work β}
    (hw : ∀ r, w ≠ .runTask .connectDestroyed r) : .remove ∉ (w.run c).2 := by
  intro hmem
  have hsilent : (Effect.remove : Effect β).isSilent ≠ true := by simp [Effect.isSilent]
  cases w with
  | runTask task r =>
    cases task with
    | connectDestroyed => exact hw r rfl
    | sendInLoop data => exact hsilent (TcpConnection.silent_sendInLoop _ _ _ hmem)
    | sendFileInLoop file offset count =>
      exact hsilent (TcpConnection.silent_sendFileInLoop _ _ _ _ _ hmem).1
    | shutdownInLoop => exact hsilent (TcpConnection.silent_shutdownInLoop _ hmem)
    | connectEstablished | writeCompleteCallback_ | highWaterMarkCallback_ =>
      simp [run, TcpConnection.runTask, TcpConnection.connectEstablished] at hmem
  | runCallback k read write =>
    cases k with
    | closeCallback_ => simp [run, TcpConnection.runCallback, TcpConnection.handleClose] at hmem
    | errorCallback_ => cases hmem
    | readCallback_ =>
      rcases read with bytes | _
      · simp only [run, TcpConnection.runCallback, TcpConnection.handleRead] at hmem
        split_ifs at hmem <;> simp [TcpConnection.handleClose] at hmem
      · cases hmem
    | writeCallback_ => exact hsilent (TcpConnection.silent_handleWrite _ _ hmem)

end Work

/-- The effects of the functions that have run, each on the connection as it was then. -/
def effects {β : Type} [Inhabited β] (r : List (TcpConnection β × Work β)) : List (Effect β) :=
  r.flatMap fun e => (e.2.run e.1).2

/-- What these functions put on the output stream. -/
def takings {β : Type} (r : List (TcpConnection β × Work β)) : List (Payload β) :=
  r.filterMap fun e => e.2.taken e.1

theorem effects_snoc {β : Type} [Inhabited β] (r : List (TcpConnection β × Work β))
    (c : TcpConnection β) (w : Work β) : effects (r ++ [(c, w)]) = effects r ++ (w.run c).2 := by
  simp [effects]

theorem takings_snoc {β : Type} (r : List (TcpConnection β × Work β)) (c : TcpConnection β)
    (w : Work β) : takings (r ++ [(c, w)]) = takings r ++ (w.taken c).toList := by
  rw [takings, takings, List.filterMap_append]
  cases h : w.taken c <;> simp [h]

/-- What the two models have of a connection: the connection itself, how often its channel is in
`activeChannels_`, the callbacks that still have to run, its tasks. -/
structure View (β : Type) where
  conn : TcpConnection β
  active : ℕ
  running : List Callback
  pending : List (Task β)

namespace View

variable {β : Type}

/-- A function of the connection has run. -/
def perform (v : View β) (res : TcpConnection β × List (Effect β)) : View β :=
  { v with
    conn := { res.1 with channel_ := (res.2.foldl (Effect.register ()) (.empty, res.1.channel_)).2 }
    pending := v.pending ++ queued res.2 }

/-- A task is queued for the connection. -/
def queue (v : View β) (task : Task β) : View β := { v with pending := v.pending ++ [task] }

/-- `setState`. -/
def setState (v : View β) (state : StateE) : View β :=
  { v with conn := { v.conn with state_ := state } }

/-- The poller has reported `revents`. -/
def report (v : View β) (revents : Events) : View β :=
  { v with
    conn := { v.conn with channel_ := { v.conn.channel_ with revents_ := revents } }
    active := v.active + 1 }

end View

namespace Effect

variable {P Q β : Type}

/-- What the calls of the poller make of the channel does not depend on the poller. -/
theorem foldl_register_snd (ptr : P) (ptr' : Q) (es : List (Effect β)) {r : EPollPoller P × Channel}
    {q : EPollPoller Q × Channel} (h : r.2 = q.2) :
    (es.foldl (register ptr) r).2 = (es.foldl (register ptr') q).2 := by
  induction es generalizing r q with
  | nil => exact h
  | cons e es ih =>
    refine ih ?_
    cases e with
    | update =>
      unfold register EPollPoller.updateChannel
      rw [h]
      split_ifs <;> rfl
    | remove =>
      unfold register EPollPoller.removeChannel
      rw [h]
    | _ => exact h

end Effect

/-! ### Sessions -/

namespace Session

variable {τ β : Type}

/-- What a session shows. -/
def view (u : Session τ β) : View β where
  conn := u.conn
  active := u.active.toNat
  running := u.running
  pending := u.pending.map Prod.snd

theorem view_perform (u : Session τ β) (q : Option τ) (res : TcpConnection β × List (Effect β)) :
    (u.perform q res).view = u.view.perform res := by
  have hchannel := Effect.foldl_register_snd () () res.2
    (r := (u.poller, res.1.channel_)) (q := ((.empty : EPollPoller Unit), res.1.channel_)) rfl
  simp only [view, View.perform, perform, hchannel, List.map_append, List.map_map]
  congr 2
  exact List.map_id'' (fun _ => rfl) _

variable [Inhabited β]

theorem view_runTask (u : Session τ β) (q : Option τ) (task : Task β) (r : WriteResult) :
    (u.runTask q task r).view = u.view.perform (u.conn.runTask r task) :=
  u.view_perform q _

end Session

/-! ### Connections of a server -/

namespace TcpServer

variable {L β : Type}

/-- The task that a functor runs for the connection `c`. -/
def Functor.taskOf (c : ℕ) : Functor β → Option (Task β)
  | .run task d => if d = c then some task else none
  | .removeConnectionInLoop _ | .listen => none

/-- What a loop has of the connection `c`. -/
def Loop.view (loop : Loop β) (c : ℕ) (conn : TcpConnection β) : View β where
  conn := conn
  active := loop.phase.activeChannels_.count c
  running := loop.phase.running.filterMap fun e => if e.1 = c then some e.2 else none
  pending := loop.todo.filterMap (Functor.taskOf c)

/-- What the server shows of the connection `c`. -/
def view (s : TcpServer L β) (c : ℕ) : View β :=
  (s.loops (s.conns c).loop_).view c (s.conns c).conn

section Works

variable [DecidableEq L] [Inhabited β]

/-- The functions of the connection `c` that a step runs, each with the connection it runs on. -/
def works (c : ℕ) (s : TcpServer L β) : Label L β → List (TcpConnection β × Work β)
  | .newConnection sockfd highWater mark =>
      if c = s.made ∧ s.getNextLoop.1 = s.loop_ then
        [(.init sockfd s.writeCompleteCallback_ highWater mark,
          .runTask .connectEstablished (.sent 0))]
      else []
  | .callback l read write =>
      match (s.loops l).phase with
      | .dispatching _ ((d, k) :: _) =>
          if d = c then [((s.conns c).conn, .runCallback k read write)] else []
      | _ => []
  | .functor l r =>
      match (s.loops l).phase with
      | .calling (f :: _) _ =>
          (f.taskOf c).toList.map fun task => ((s.conns c).conn, .runTask task r)
      | _ => []
  | .send t d data r =>
      if d = c ∧ t = some (s.conns c).loop_ ∧ (s.conns c).conn.connected = true then
        [((s.conns c).conn, .runTask (.sendInLoop data) r)]
      else []
  | .sendFile t d file offset count r =>
      if d = c ∧ t = some (s.conns c).loop_ ∧ (s.conns c).conn.connected = true then
        [((s.conns c).conn, .runTask (.sendFileInLoop file offset count) r)]
      else []
  | .shutdown t d =>
      if d = c ∧ t = some (s.conns c).loop_ ∧ (s.conns c).conn.connected = true then
        [({ (s.conns c).conn with state_ := .kDisconnecting }, .runTask .shutdownInLoop (.sent 0))]
      else []
  | .destroy conns =>
      if c ∈ conns ∧ s.loop_ = (s.conns c).loop_ then
        [((s.conns c).conn, .runTask .connectDestroyed (.sent 0))]
      else []
  | _ => []

/-- The kernel takes no more of the connection `c` than it is offered. -/
def Offers (c : ℕ) (s : TcpServer L β) (a : Label L β) : Prop :=
  ∀ e ∈ s.works c a, e.2.Offered e.1

instance (c : ℕ) (s : TcpServer L β) : DecidablePred (Offers c s) := fun _ =>
  inferInstanceAs (Decidable (∀ e ∈ _, _))

end Works

/-! ### What the parts of a step do to the view -/

variable {s s' : TcpServer L β} {c d : ℕ} {l : L} {t : Option L}

section Views

variable [DecidableEq L]

/-- A change of a loop that shows nothing of it to `c`. -/
theorem view_modifyLoop {f : Loop β → Loop β}
    (hf : (s.conns c).loop_ = l →
      (f (s.loops l)).view c (s.conns c).conn = (s.loops l).view c (s.conns c).conn) :
    (s.modifyLoop l f).view c = s.view c := by
  show ((s.modifyLoop l f).loops (s.conns c).loop_).view c (s.conns c).conn = _
  rw [loops_modifyLoop]
  split_ifs with hl
  · rw [hf hl, view, hl]
  · rfl

theorem view_queueInLoop_of_none {f : Functor β} (hf : f.taskOf c = none) :
    (s.queueInLoop l f).view c = s.view c :=
  view_modifyLoop fun _ => by simp [Loop.view, Loop.todo, hf]

theorem view_queueInLoop (task : Task β) :
    (s.queueInLoop (s.conns c).loop_ (.run task c)).view c = (s.view c).queue task := by
  show ((s.queueInLoop (s.conns c).loop_ (.run task c)).loops (s.conns c).loop_).view c
    (s.conns c).conn = _
  rw [queueInLoop, loops_modifyLoop, if_pos rfl]
  simp [Loop.view, View.queue, view, Loop.todo, Functor.taskOf]

theorem taskOf_run_of_ne (hd : d ≠ c) (task : Task β) :
    (Functor.run task d : Functor β).taskOf c = none :=
  if_neg hd

omit [DecidableEq L] in
theorem view_congr (hconn : s'.conns c = s.conns c)
    (hloop : s'.loops (s.conns c).loop_ = s.loops (s.conns c).loop_) : s'.view c = s.view c := by
  rw [view, view, hconn, hloop]

theorem view_perform (res : TcpConnection β × List (Effect β)) :
    (s.perform t c res).view c = (s.view c).perform res := by
  have hchannel : (s.registration c res).2 =
      (res.2.foldl (Effect.register ()) ((.empty : EPollPoller Unit), res.1.channel_)).2 :=
    Effect.foldl_register_snd c () res.2 rfl
  have hconn : (s.perform t c res).conns c =
      { s.conns c with conn := { res.1 with channel_ := (s.registration c res).2 } } := by
    rw [conns_perform, Function.update_self]
  have hqueue : ((queued res.2).map fun task => Functor.run task c).filterMap (Functor.taskOf c) =
      queued res.2 := by
    rw [List.filterMap_map]
    simp [Function.comp_def, Functor.taskOf]
  rw [view, hconn, loops_perform, if_pos rfl]
  simp only [Loop.view, View.perform, view, Loop.todo, hchannel, List.filterMap_append, hqueue,
    List.append_assoc]

theorem view_perform_of_ne (hd : d ≠ c) (res : TcpConnection β × List (Effect β)) :
    (s.perform t d res).view c = s.view c := by
  have hconn : (s.perform t d res).conns c = s.conns c := by
    rw [conns_perform, Function.update_of_ne hd.symm]
  have hqueue : ((queued res.2).map fun task => Functor.run task d).filterMap (Functor.taskOf c) =
      [] := by
    rw [List.filterMap_map]
    simp [Function.comp_def, Functor.taskOf, hd]
  rw [view, hconn, loops_perform]
  split_ifs with hl
  · rw [view, hl]
    simp only [Loop.view, Loop.todo, List.filterMap_append, hqueue, List.append_nil]
  · rfl

omit [DecidableEq L] in
theorem view_markDestroyed : (s.markDestroyed t d).view c = s.view c := by
  by_cases hd : c = d
  · subst hd
    simp only [view, conns_markDestroyed, Function.update_self]
    rfl
  · refine view_congr ?_ rfl
    rw [conns_markDestroyed, Function.update_of_ne hd]

omit [DecidableEq L] in
theorem view_setState (state : StateE) :
    (s.setConn c { (s.conns c).conn with state_ := state }).view c = (s.view c).setState state := by
  simp only [view, setConn, Function.update_self]
  rfl

omit [DecidableEq L] in
theorem view_setConn_of_ne (hd : d ≠ c) (conn : TcpConnection β) :
    (s.setConn d conn).view c = s.view c := by
  refine view_congr ?_ rfl
  rw [conns_setConn, Function.update_of_ne hd.symm]

/-- `removeConnectionInLoop` up to its `queueInLoop`. -/
def eraseConnection (s : TcpServer L β) (t : Option L) (c : ℕ) : TcpServer L β :=
  { s with connections_ := Function.update s.connections_ (s.conns c).name_ none }.record t
    [.removes s.stage, .connections_]

theorem removeConnectionInLoop_eq : s.removeConnectionInLoop t c =
    (s.eraseConnection t c).queueInLoop (s.conns c).loop_ (.run .connectDestroyed c) := rfl

theorem view_removeConnectionInLoop :
    (s.removeConnectionInLoop t c).view c = (s.view c).queue .connectDestroyed := by
  rw [removeConnectionInLoop_eq]
  exact view_queueInLoop (s := s.eraseConnection t c) .connectDestroyed

theorem view_removeConnectionInLoop_of_ne (hd : d ≠ c) :
    (s.removeConnectionInLoop t d).view c = s.view c := by
  rw [removeConnectionInLoop_eq]
  exact view_queueInLoop_of_none (s := s.eraseConnection t d) (taskOf_run_of_ne hd _)

theorem removeConnection_of_base (ht : t = some s.loop_) : s.removeConnection t c =
    (s.record t [.removes s.stage]).removeConnectionInLoop t c := if_pos ht

theorem removeConnection_of_ne (ht : t ≠ some s.loop_) : s.removeConnection t c =
    (s.record t [.removes s.stage]).queueInLoop s.loop_ (.removeConnectionInLoop c) := if_neg ht

theorem view_removeConnection :
    (s.removeConnection t c).view c =
      if t = some s.loop_ then (s.view c).queue .connectDestroyed else s.view c := by
  by_cases ht : t = some s.loop_
  · rw [if_pos ht, removeConnection_of_base ht]
    exact view_removeConnectionInLoop (s := s.record t [.removes s.stage])
  · rw [if_neg ht, removeConnection_of_ne ht]
    exact view_queueInLoop_of_none (s := s.record t [.removes s.stage]) rfl

theorem view_removeConnection_of_ne (hd : d ≠ c) :
    (s.removeConnection t d).view c = s.view c := by
  by_cases ht : t = some s.loop_
  · rw [removeConnection_of_base ht]
    exact view_removeConnectionInLoop_of_ne (s := s.record t [.removes s.stage]) hd
  · rw [removeConnection_of_ne ht]
    exact view_queueInLoop_of_none (s := s.record t [.removes s.stage]) rfl

variable [Inhabited β]

theorem view_runTask (task : Task β) (r : WriteResult) :
    (s.runTask t c task r).view c = (s.view c).perform ((s.conns c).conn.runTask r task) := by
  unfold runTask
  cases task with
  | connectDestroyed => exact view_markDestroyed.trans (view_perform _)
  | _ => exact view_perform _

theorem view_runTask_of_ne (hd : d ≠ c) (task : Task β) (r : WriteResult) :
    (s.runTask t d task r).view c = s.view c := by
  unfold runTask
  cases task with
  | connectDestroyed => exact view_markDestroyed.trans (view_perform_of_ne hd _)
  | _ => exact view_perform_of_ne hd _

theorem view_runInLoop_of_ne (hd : d ≠ c) (task : Task β) (r : WriteResult) :
    (s.runInLoop t d task r).view c = s.view c := by
  unfold runInLoop
  split_ifs
  · exact view_runTask_of_ne hd task r
  · exact view_queueInLoop_of_none (taskOf_run_of_ne hd task)

end Views
end TcpServer

end Muduo
