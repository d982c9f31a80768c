import MuduoCpp.OutputStream

/-!
# `shutdown()` after `send()`

A thread that calls `send(p)` and then `shutdown()` has queued `p` before the half-close, or has
written it at once.  Three places issue `shutdown(SHUT_WR)`: the task `shutdownInLoop`, the same
function called at once on the loop's thread, and `handleWrite` when it empties `outputBuffer_` in
state `kDisconnecting`.  The first two come after `p` in the queue.  The third does not look at the
queue: `state_` is changed at once, while `p` may still wait there.

`fin_after_payload_iff`: in a run in which one thread calls `shutdown()`, every half-close comes
after all the bytes which that thread has sent, exactly when no such `handleWrite` runs while bytes
of that thread are queued.
-/

namespace Muduo

variable {τ β : Type} {p : Option τ} [DecidableEq τ]

/-- The bytes of a `send` in a payload. -/
def Payload.sendBytes : Payload β → List β
  | .send data => data
  | .file _ => []

/-- The bytes that the calls of `send` by `q` have put into a record. -/
def sentBy (q : Option τ) (l : List (From τ (Payload β))) : List β :=
  l.flatMap fun e => if e.1 = q then e.2.sendBytes else []

/-- The bytes that wait in tasks queued by `q`. -/
def queuedBy (q : Option τ) (l : List (From τ (Task β))) : List β :=
  l.flatMap fun e => if e.1 = q then e.2.sendBytes else []

@[simp] theorem sentBy_append (q : Option τ) (l m : List (From τ (Payload β))) :
    sentBy q (l ++ m) = sentBy q l ++ sentBy q m := List.flatMap_append

@[simp] theorem queuedBy_append (q : Option τ) (l m : List (From τ (Task β))) :
    queuedBy q (l ++ m) = queuedBy q l ++ queuedBy q m := List.flatMap_append

theorem queuedBy_eq_nil {q : Option τ} {l : List (From τ (Task β))} :
    queuedBy q l = [] ↔ ∀ e ∈ l, e.1 = q → e.2.sendBytes = [] := by
  simp only [queuedBy, List.flatMap_eq_nil_iff]
  refine forall₂_congr fun e _ => ?_
  split_ifs with h <;> simp [h]

namespace Session

/-- The bytes that `q` is about to queue. -/
def heldBy (s : Session τ β) : Option τ → List β
  | none => []
  | some t => (s.caller t).sendBytes

/-- A write has failed with `EPIPE` or `ECONNRESET`, or `handleClose` has run. -/
def Excused (s : Session τ β) : Prop :=
  (∃ e ∈ s.log, e.isFault = true) ∨ .closeCallback_ ∈ s.log

/-- From `s` to `s'` a `shutdown(SHUT_WR)` was issued. -/
def Fin (s s' : Session τ β) : Prop := ∃ es, s'.log = s.log ++ es ∧ .shutdownWrite ∈ es

/-- Only `q` calls `shutdown()`, and `state_` is not changed between its test and its store. -/
def ShutsDown (q : Option τ) (s : Session τ β) : Label τ β → Prop
  | .shutdown => q = none
  | .shutdownTest t => q = some t
  | .shutdownStore t => q = some t ∧ s.conn.state_ = .kConnected
  | _ => True

instance (q : Option τ) (s : Session τ β) : DecidablePred (ShutsDown q s)
  | .shutdown => inferInstanceAs (Decidable (q = none))
  | .shutdownTest t => inferInstanceAs (Decidable (q = some t))
  | .shutdownStore t => inferInstanceAs (Decidable (q = some t ∧ s.conn.state_ = .kConnected))
  | .poll _ | .handleEvent | .closeCallback | .errorCallback | .readCallback _ | .writeCallback _
  | .task _ | .send _ _ | .sendFile _ _ _ _ | .retrieve _ | .queueDestroyed | .connectDestroyed
  | .sendTest _ _ | .sendFileTest _ _ _ _ | .push _ => isTrue trivial

/-- `handleWrite` does not half-close the connection while bytes of `q` are queued. -/
def NotOvertaken (q : Option τ) (s : Session τ β) : Label τ β → Prop
  | .writeCallback r => s.conn.drains r = true → s.conn.state_ = .kDisconnecting →
      s.Excused ∨ queuedBy q s.pending = []
  | _ => True

instance [DecidableEq β] (s : Session τ β) : Decidable s.Excused :=
  inferInstanceAs (Decidable (_ ∨ _))

instance [DecidableEq β] (q : Option τ) (s : Session τ β) : DecidablePred (NotOvertaken q s)
  | .writeCallback r => inferInstanceAs (Decidable (s.conn.drains r = true →
      s.conn.state_ = .kDisconnecting → s.Excused ∨ queuedBy q s.pending = []))
  | .poll _ | .handleEvent | .closeCallback | .errorCallback | .readCallback _ | .task _
  | .send _ _ | .sendFile _ _ _ _ | .shutdown | .retrieve _ | .queueDestroyed | .connectDestroyed
  | .sendTest _ _ | .sendFileTest _ _ _ _ | .shutdownTest _ | .shutdownStore _ | .push _ =>
      isTrue trivial

/-! ### The order of the queue -/

/-- While nothing excuses it: what `q` has sent was given to the stream, or is queued, or is about
to be queued, in this order; and it is queued before a half-close. -/
structure InOrder (q : Option τ) (s : Session τ β) : Prop where
  armed : s.conn.state_ ≠ .kDisconnected → s.conn.Armed
  own : ∀ e ∈ s.pending, e.1 = none → e.2.sendBytes = []
  order : s.pending.Pairwise fun a b => a.2 = .shutdownInLoop → b.1 = q → b.2.sendBytes = []
  quiet : s.conn.state_ ≠ .kDisconnecting →
    (∀ e ∈ s.pending, e.2 ≠ .shutdownInLoop) ∧ ∀ t, (s.caller t).task ≠ some .shutdownInLoop
  held : s.conn.state_ = .kDisconnecting → s.heldBy q = []
  account : s.conn.state_ ≠ .kDisconnected →
    sentBy q s.accepted = sentBy q s.given ++ queuedBy q s.pending ++ s.heldBy q

variable {q : Option τ} {s : Session τ β}

/-- A function of the connection that neither enters nor leaves `kDisconnecting`. -/
theorem inOrder_perform (h : s.InOrder q) {res : TcpConnection β × List (Effect β)}
    (hing : res.1.state_ = .kDisconnecting ↔ s.conn.state_ = .kDisconnecting)
    (hdown : s.conn.state_ = .kDisconnected → res.1.state_ = .kDisconnected)
    (harmed : res.1.state_ ≠ .kDisconnected → res.1.Armed)
    (hq : TcpConnection.QueuesOwn res.2) : (s.perform p res).InOrder q := by
  have hown : ∀ e ∈ (queued res.2).map fun task => (p, task),
      e.2.sendBytes = [] ∧ e.2 ≠ .shutdownInLoop := by
    intro e he
    obtain ⟨task, htask, rfl⟩ := List.mem_map.1 he
    exact Task.sendBytes_of_isOwn (hq task htask)
  obtain ⟨-, h2, h3, h4, h5, h6⟩ := h
  constructor
  · intro hne
    have := harmed hne
    unfold TcpConnection.Armed at this ⊢
    rwa [perform_isWriting, perform_output]
  · intro e he hn
    rcases List.mem_append.1 he with he | he
    · exact h2 e he hn
    · exact (hown e he).1
  · refine List.pairwise_append.2 ⟨h3, ?_, fun a _ b hb _ _ => (hown b hb).1⟩
    exact List.pairwise_of_forall_mem_list fun a _ b hb _ _ => (hown b hb).1
  · intro hne
    obtain ⟨hp, hc⟩ := h4 (mt hing.2 hne)
    refine ⟨fun e he => ?_, hc⟩
    rcases List.mem_append.1 he with he | he
    · exact hp e he
    · exact (hown e he).2
  · exact fun hd => h5 (hing.1 hd)
  · intro hne
    have hnil : queuedBy q ((queued res.2).map fun task => (p, task)) = [] :=
      queuedBy_eq_nil.2 fun e he _ => (hown e he).1
    rw [perform_pending, queuedBy_append, hnil, List.append_nil]
    exact h6 (mt hdown hne)

/-- The next task leaves the queue, and what is taken of it is recorded. -/
theorem inOrder_pop (h : s.InOrder q) {e : From τ (Task β)} {rest : List (From τ (Task β))}
    (hp : s.pending = e :: rest) {l : List (From τ (Payload β))}
    (hl : s.conn.state_ ≠ .kDisconnected → sentBy q l = queuedBy q [e]) :
    ({ s with pending := rest, given := s.given ++ l } : Session τ β).InOrder q := by
  obtain ⟨h1, h2, h3, h4, h5, h6⟩ := h
  rw [hp] at h2 h3 h4
  refine ⟨h1, fun d hd => h2 d (List.mem_cons_of_mem _ hd), (List.pairwise_cons.1 h3).2, ?_, h5, ?_⟩
  · exact fun hne => ⟨fun d hd => (h4 hne).1 d (List.mem_cons_of_mem _ hd), (h4 hne).2⟩
  · intro hne
    have hcons : queuedBy q (e :: rest) = queuedBy q [e] ++ queuedBy q rest :=
      queuedBy_append q [e] rest
    have hacc := h6 hne
    rw [hp, hcons] at hacc
    show sentBy q s.accepted = sentBy q (s.given ++ l) ++ queuedBy q rest ++ s.heldBy q
    rw [hacc, sentBy_append, hl hne]
    simp only [List.append_assoc]

/-- What is sent on the loop's thread is asked for and taken in one step. -/
theorem inOrder_direct (h : s.InOrder q) {l m : List (From τ (Payload β))}
    (hq : q = none ∨ sentBy q l = []) (hlm : sentBy q l = sentBy q m) :
    ({ s with accepted := s.accepted ++ l, given := s.given ++ m } : Session τ β).InOrder q := by
  obtain ⟨h1, h2, h3, h4, h5, h6⟩ := h
  refine ⟨h1, h2, h3, h4, h5, fun hne => ?_⟩
  show sentBy q (s.accepted ++ l) = sentBy q (s.given ++ m) ++ queuedBy q s.pending ++ s.heldBy q
  rw [sentBy_append, sentBy_append, h6 hne, ← hlm]
  rcases hq with rfl | hnil
  · -- the loop's thread queues nothing that it sends
    have hnil : queuedBy none s.pending = [] := queuedBy_eq_nil.2 h2
    simp [hnil, heldBy]
  · simp [hnil]

theorem heldBy_setCaller (t : τ) (c : Caller β) :
    (s.setCaller t c).heldBy q = if q = some t then c.sendBytes else s.heldBy q := by
  rcases q with _ | u
  · rfl
  · by_cases hu : u = t
    · subst hu
      simp [heldBy, setCaller]
    · simp [heldBy, setCaller, hu]

theorem task_setCaller {t : τ} {c : Caller β} (hc : c.task ≠ some .shutdownInLoop)
    (h : ∀ u, (s.caller u).task ≠ some .shutdownInLoop) (u : τ) :
    ((s.setCaller t c).caller u).task ≠ some .shutdownInLoop := by
  by_cases hu : u = t
  · subst hu
    simpa [setCaller] using hc
  · simpa [setCaller, Function.update_of_ne hu] using h u

/-- A thread moves on without a change of what it is about to queue. -/
theorem inOrder_setCaller (h : s.InOrder q) {t : τ} {c : Caller β}
    (hheld : c.sendBytes = (s.caller t).sendBytes) (hc : c.task ≠ some .shutdownInLoop) :
    (s.setCaller t c).InOrder q := by
  have hby : (s.setCaller t c).heldBy q = s.heldBy q := by
    rw [heldBy_setCaller, hheld]
    split_ifs with hq
    · rw [hq]
      rfl
    · rfl
  obtain ⟨h1, h2, h3, h4, h5, h6⟩ := h
  refine ⟨h1, h2, h3, fun hne => ⟨(h4 hne).1, task_setCaller hc (h4 hne).2⟩, ?_, ?_⟩
  · rwa [hby]
  · rwa [hby]

/-- What another thread is about to queue. -/
theorem inOrder_accept (h : s.InOrder q) {t : τ} {p : Payload β} {c : Caller β}
    (hs : s.conn.state_ = .kConnected) (hidle : (s.caller t).sendBytes = [])
    (hp : c.sendBytes = p.sendBytes) (hc : c.task ≠ some .shutdownInLoop) :
    ((s.accept (some t) p).setCaller t c).InOrder q := by
  obtain ⟨h1, h2, h3, h4, h5, h6⟩ := h
  refine ⟨h1, h2, h3, fun hne => ⟨(h4 hne).1, task_setCaller hc (h4 hne).2⟩, ?_, fun hne => ?_⟩
  · intro hd
    have : s.conn.state_ = .kDisconnecting := hd
    rw [hs] at this
    cases this
  · show sentBy q (s.accepted ++ [(some t, p)]) = sentBy q s.given ++ queuedBy q s.pending ++ _
    rw [sentBy_append, h6 hne, heldBy_setCaller]
    by_cases hq : q = some t
    · subst hq
      simp [heldBy, hidle, hp, sentBy]
    · simp [hq, Ne.symm hq, sentBy, heldBy, accept]

/-- The store of `shutdown()`. -/
theorem inOrder_store (h : s.InOrder q) {t : τ} (hq : q = some t) (hs : s.conn.state_ = .kConnected)
    (hloaded : (s.caller t).isLoaded = true) :
    ((s.setState .kDisconnecting).setCaller t .stored).InOrder q := by
  subst hq
  obtain ⟨h1, h2, h3, -, -, h6⟩ := h
  have hheld : s.heldBy (some t) = [] := by
    cases hc : s.caller t <;> simp_all [Caller.isLoaded, heldBy, Caller.sendBytes]
  have hnew : ((s.setState .kDisconnecting).setCaller t .stored).heldBy (some t) = [] := by
    rw [heldBy_setCaller, if_pos rfl]
    rfl
  refine ⟨fun _ => h1 (by simp [hs]), h2, h3, fun hne => absurd rfl hne, fun _ => hnew, fun _ => ?_⟩
  rw [hnew, ← hheld]
  exact h6 (by simp [hs])

/-- A thread queues its task: before it no half-close is queued, if the task has bytes of `q`. -/
theorem inOrder_push (h : s.InOrder q) {t : τ} {task : Task β}
    (ht : (s.caller t).task = some task) :
    ({ s.setCaller t .idle with pending := s.pending ++ [(some t, task)] } : Session τ β).InOrder
      q := by
  have hbytes := Caller.sendBytes_of_task ht
  obtain ⟨h1, h2, h3, h4, h5, h6⟩ := h
  -- the caller is about to half-close, so `state_` was changed
  have hing : task = .shutdownInLoop → s.conn.state_ = .kDisconnecting := by
    rintro rfl
    by_contra hne
    exact (h4 hne).2 t ht
  refine ⟨h1, ?_, ?_, fun hne => ⟨?_, ?_⟩, fun hd => ?_, fun hne => ?_⟩
  · simpa [or_imp, forall_and] using h2
  · refine List.pairwise_append.2 ⟨h3, by simp, fun a ha b hb hfin hq => ?_⟩
    obtain rfl := List.mem_singleton.1 hb
    have hd : s.conn.state_ = .kDisconnecting := by
      by_contra hne
      exact (h4 hne).1 a ha hfin
    have := h5 hd
    rw [← hq] at this
    exact hbytes ▸ this
  · intro e he
    rcases List.mem_append.1 he with he | he
    · exact (h4 hne).1 e he
    · obtain rfl := List.mem_singleton.1 he
      exact fun hfin => hne (hing hfin)
  · exact task_setCaller (by simp [Caller.task]) (h4 hne).2
  · show (s.setCaller t .idle).heldBy q = []
    rw [heldBy_setCaller, h5 hd]
    simp [Caller.sendBytes]
  · show sentBy q s.accepted =
      sentBy q s.given ++ queuedBy q (s.pending ++ [(some t, task)]) ++
        (s.setCaller t .idle).heldBy q
    rw [h6 hne, heldBy_setCaller, queuedBy_append]
    by_cases hq : q = some t
    · subst hq
      have hheld : s.heldBy (some t) = task.sendBytes := hbytes
      simp [hheld, queuedBy, Caller.sendBytes]
    · simp [hq, Ne.symm hq, queuedBy]

variable [Inhabited β]

omit [Inhabited β] in
theorem inOrder_callback (h : s.InOrder q) {res : TcpConnection β × List (Effect β)}
    (hstate : res.1.state_ = s.conn.state_)
    (harmed : s.conn.state_ ≠ .kDisconnected → res.1.Armed)
    (hq : TcpConnection.QueuesOwn res.2) : (s.callback res).InOrder q := by
  have h' : ({ s with running := s.running.tail } : Session τ β).InOrder q :=
    ⟨h.1, h.2, h.3, h.4, h.5, h.6⟩
  exact inOrder_perform h' (by rw [hstate]) (fun hd => hstate.trans hd)
    (fun hne => harmed (hstate ▸ hne)) hq

/-- A task that has left the queue runs. -/
theorem inOrder_runTask (h : s.InOrder q) {task : Task β} (hne : task ≠ .connectEstablished)
    (r : WriteResult) : (s.perform p (s.conn.runTask r task)).InOrder q := by
  obtain ⟨hing, hdown⟩ := TcpConnection.state_runTask s.conn r hne
  refine inOrder_perform h hing hdown (fun hd => ?_) (TcpConnection.queuesOwn_runTask _ _ _)
  exact TcpConnection.armed_runTask (h.armed (mt hdown hd)) hd

omit [Inhabited β] in
/-- Of a task that does not give up, what is taken is what was queued. -/
theorem sentBy_taken {c : TcpConnection β} {r : WriteResult} {task : Task β}
    (h : ∀ data, task = .sendInLoop data → c.givesUp r = false) :
    sentBy q ((c.taken r task).toList.map fun x => (p, x)) = queuedBy q [(p, task)] := by
  cases task with
  | sendInLoop data =>
    simp [TcpConnection.taken, h data rfl, sentBy, queuedBy, Payload.sendBytes, Task.sendBytes]
  | sendFileInLoop file offset count =>
    cases hs : c.sendsFile <;>
      simp [TcpConnection.taken, hs, sentBy, queuedBy, Payload.sendBytes, Task.sendBytes]
  | connectEstablished | connectDestroyed | shutdownInLoop | writeCompleteCallback_ =>
    simp [TcpConnection.taken, sentBy, queuedBy, Task.sendBytes]
  | highWaterMarkCallback_ mark => simp [TcpConnection.taken, sentBy, queuedBy, Task.sendBytes]

omit [Inhabited β] [DecidableEq τ] in
theorem excused_perform {u : Session τ β} {res : TcpConnection β × List (Effect β)}
    (h : (∃ e ∈ res.2, e.isFault = true) ∨ .closeCallback_ ∈ res.2) :
    (u.perform p res).Excused := by
  rcases h with ⟨e, he, hf⟩ | h
  · exact Or.inl ⟨e, List.mem_append_right _ he, hf⟩
  · exact Or.inr (List.mem_append_right _ h)

/-- The next task of the queue, `connectEstablished` included. -/
theorem inOrder_task (hest : s.Fresh ∨ s.Ran) (h : s.InOrder q) {e : From τ (Task β)}
    {rest : List (From τ (Task β))} (hp : s.pending = e :: rest) {r : WriteResult}
    (hex : ¬ (({ s with pending := rest }).runTask e.1 e.2 r).Excused) :
    (({ s with pending := rest }).runTask e.1 e.2 r).InOrder q := by
  have hgives : s.conn.state_ ≠ .kDisconnected →
      ∀ data, e.2 = .sendInLoop data → s.conn.givesUp r = false := by
    intro hd data he
    by_contra hg
    rw [Bool.not_eq_false] at hg
    have hfault := TcpConnection.fault_of_givesUp hd hg data
    refine hex (excused_perform (p := e.1) (Or.inl ?_))
    rwa [he]
  have hpop := inOrder_pop h hp fun hd => sentBy_taken (p := e.1) (hgives hd)
  by_cases he : e.2 = .connectEstablished
  · have hfresh : s.Fresh := hest.resolve_right fun hran => hran e (by simp [hp]) he
    have hst := hfresh.state
    rw [he] at hpop ⊢
    refine inOrder_perform hpop ?_ ?_ ?_ (TcpConnection.queuesOwn_runTask _ _ _)
    · simp [TcpConnection.runTask, TcpConnection.connectEstablished, hst]
    · simp [hst]
    · exact fun hd => TcpConnection.armed_runTask (h.armed (by simp [hst])) hd
  · exact inOrder_runTask hpop he r

/-- A `send` on the loop's thread. -/
theorem inOrder_send (h : s.InOrder q) (hs : s.conn.state_ = .kConnected) {data : List β}
    {r : WriteResult}
    (hex : ¬ ((s.accept none (.send data)).runTask none (.sendInLoop data) r).Excused) :
    ((s.accept none (.send data)).runTask none (.sendInLoop data) r).InOrder q := by
  have hg : s.conn.givesUp r = false := by
    by_contra hg
    rw [Bool.not_eq_false] at hg
    exact hex (excused_perform (p := none)
      (Or.inl (TcpConnection.fault_of_givesUp (by simp [hs]) hg data)))
  have htaken : s.conn.taken r (.sendInLoop data) = some (.send data) := by
    simp [TcpConnection.taken, hg]
  have hd := inOrder_direct (l := [(none, .send data)]) (m := [(none, .send data)]) h
    (by cases q <;> simp [sentBy]) rfl
  have hrun :=
    inOrder_runTask (p := none) hd (show Task.sendInLoop data ≠ .connectEstablished by simp) r
  simp only [runTask, accept, htaken]
  exact hrun

/-- A file is none of the bytes that `q` sends. -/
theorem inOrder_sendFile (h : s.InOrder q) (file : List β) (offset count : ℕ) (r : WriteResult) :
    ((s.accept none (.file ((file.drop offset).take count))).runTask none
      (.sendFileInLoop file offset count) r).InOrder q := by
  have hfile : ∀ p : Payload β, p.sendBytes = [] → sentBy q [((none : Option τ), p)] = [] :=
    fun p hp => by simp [sentBy, hp]
  have htaken : sentBy q ((s.conn.taken r (.sendFileInLoop file offset count)).toList.map
      fun p => ((none : Option τ), p)) = [] := by
    rw [sentBy_taken (by simp)]
    simp [queuedBy, Task.sendBytes]
  have hd := inOrder_direct (l := [(none, .file ((file.drop offset).take count))])
    (m := (s.conn.taken r (.sendFileInLoop file offset count)).toList.map
      fun p => ((none : Option τ), p)) h (Or.inr (hfile _ rfl)) (by rw [hfile _ rfl, htaken])
  exact inOrder_runTask hd
    (show Task.sendFileInLoop file offset count ≠ .connectEstablished by simp) r

omit [Inhabited β] in
/-- The store of a `shutdown()` on the loop's thread. -/
theorem inOrder_setState (h : s.InOrder none) (hs : s.conn.state_ = .kConnected) :
    (s.setState .kDisconnecting).InOrder none := by
  obtain ⟨h1, h2, h3, -, -, h6⟩ := h
  exact ⟨fun _ => h1 (by simp [hs]), h2, h3, fun hne => absurd rfl hne, fun _ => rfl,
    fun _ => h6 (by simp [hs])⟩

theorem inOrder_queueDestroyed (h : s.InOrder q) : (s.after .queueDestroyed).InOrder q := by
  obtain ⟨h1, h2, h3, h4, h5, h6⟩ := h
  refine ⟨h1, ?_, ?_, fun hne => ⟨?_, (h4 hne).2⟩, h5, fun hne => ?_⟩
  · simpa [after, or_imp, forall_and, Task.sendBytes] using h2
  · simpa [after, List.pairwise_append, Task.sendBytes] using h3
  · simpa [after, or_imp, forall_and] using (h4 hne).1
  · simpa [after, queuedBy, Task.sendBytes, heldBy] using h6 hne

theorem inOrder_after {l : Label τ β} (hest : s.Fresh ∨ s.Ran) (h : s.InOrder q)
    (hl : ShutsDown q s l) (hen : s.enabled l) (hex : ¬ (s.after l).Excused) :
    (s.after l).InOrder q := by
  cases l with
  | poll | handleEvent | retrieve => exact ⟨h.1, h.2, h.3, h.4, h.5, h.6⟩
  | closeCallback =>
    exact absurd (excused_perform (p := none) (Or.inr (by simp [TcpConnection.handleClose]))) hex
  | errorCallback => exact inOrder_callback h rfl h.armed (TcpConnection.queuesOwn_handleError _)
  | readCallback r =>
    rcases r with bytes | _
    · by_cases hb : 0 < bytes.length
      · simp only [after, s.conn.handleRead_of_pos hb]
        exact inOrder_callback h rfl h.armed
          (TcpConnection.queuesOwn_of_forall (by simp [Effect.queued]))
      · refine absurd (excused_perform (p := none) (Or.inr ?_)) hex
        simp [s.conn.handleRead_of_not_pos hb, TcpConnection.handleClose]
    · exact inOrder_callback h rfl h.armed (TcpConnection.queuesOwn_handleError _)
  | writeCallback r =>
    exact inOrder_callback h (TcpConnection.state_handleWrite _ _)
      (fun hd => TcpConnection.armed_handleWrite (h.armed hd) r)
      (TcpConnection.queuesOwn_handleWrite _ _)
  | task r =>
    cases hp : s.pending with
    | nil => simpa [after, hp] using h
    | cons e rest =>
      simp only [after, hp] at hex ⊢
      exact inOrder_task hest h hp hex
  | send data r =>
    simp only [after] at hex ⊢
    split_ifs at hex ⊢ with hc
    · exact inOrder_send h (by simpa [TcpConnection.connected] using hc) hex
    · exact h
  | sendFile file offset count r =>
    simp only [after]
    split_ifs
    · exact inOrder_sendFile h file offset count r
    · exact h
  | shutdown =>
    obtain rfl : q = none := hl
    simp only [after]
    split_ifs with hc
    · rw [runTask_of_taken rfl]
      exact inOrder_runTask (inOrder_setState h (by simpa [TcpConnection.connected] using hc))
        (by simp) (.sent 0)
    · exact h
  | queueDestroyed => exact inOrder_queueDestroyed h
  | connectDestroyed =>
    simp only [after]
    rw [runTask_of_taken rfl]
    exact inOrder_runTask h (by simp) (.sent 0)
  | sendTest t data | sendFileTest t file offset count =>
    simp only [after]
    split_ifs with hc
    · exact inOrder_accept h (by simpa [TcpConnection.connected] using hc)
        (Caller.sendBytes_of_isIdle hen) rfl (by simp [Caller.task])
    · exact h
  | shutdownTest t =>
    simp only [after]
    split_ifs
    · exact inOrder_setCaller h (Caller.sendBytes_of_isIdle hen).symm (by simp [Caller.task])
    · exact h
  | shutdownStore t => exact inOrder_store h hl.1 hl.2 hen
  | push t =>
    obtain ⟨task, ht⟩ := Option.isSome_iff_exists.1 (show (s.caller t).task.isSome = true from hen)
    simp only [after, ht, Option.toList_some, List.map_cons, List.map_nil]
    exact inOrder_push h ht

theorem excused_after (h : s.Excused) (l : Label τ β) : (s.after l).Excused := by
  obtain ⟨es, hes⟩ := s.log_after l
  rcases h with ⟨e, he, hf⟩ | h
  · exact Or.inl ⟨e, by rw [hes]; exact List.mem_append_left _ he, hf⟩
  · exact Or.inr (by rw [hes]; exact List.mem_append_left _ h)

/-- What holds along a run in which only `q` shuts down. -/
structure Ordered (q : Option τ) (s : Session τ β) : Prop where
  established : s.Fresh ∨ s.Ran
  streams : s.Streams
  inOrder : s.Excused ∨ s.InOrder q

theorem ordered_after {l : Label τ β} (h : s.Ordered q) (hl : ShutsDown q s l) (hen : s.enabled l) :
    (s.after l).Ordered q := by
  obtain ⟨hest, hstr, hord⟩ := h
  refine ⟨established_after hest hen, streams_after hstr l, ?_⟩
  rcases hord with hex | hord
  · exact Or.inl (excused_after hex l)
  · by_cases hex : (s.after l).Excused
    · exact Or.inl hex
    · exact Or.inr (inOrder_after hest hord hl hen hex)

theorem ordered_init (sockfd : ℤ) (writeComplete highWater : Bool) (mark : ℕ) :
    (init sockfd writeComplete highWater mark : Session τ β).Ordered q := by
  refine ⟨Or.inl (fresh_init _ _ _ _), streams_init _ _ _ _, Or.inr ?_⟩
  constructor
  · intro
    have hw : (Channel.ofFd sockfd).isWriting = false := Mask.has_zero
    simp [TcpConnection.Armed, init, TcpConnection.init, hw]
  · simp [init, Task.sendBytes]
  · simp [init]
  · simp [init, Caller.task]
  · simp [init, TcpConnection.init]
  · rcases q with _ | t <;>
      simp [init, sentBy, queuedBy, heldBy, Task.sendBytes, Caller.sendBytes]

/-! ### The three places of the half-close -/

/-- The half-closes of this step are excused, or come after all that `q` has sent. -/
def FinOk (q : Option τ) (s : Session τ β) (l : Label τ β) : Prop :=
  ∀ s', step s l = some s' → Fin s s' →
    s.Excused ∨ (wire s'.log = stream s'.given ∧ sentBy q s'.given = sentBy q s'.accepted)

omit [DecidableEq τ] [Inhabited β] in
theorem fin_iff {s s' : Session τ β} {es : List (Effect β)} (h : s'.log = s.log ++ es) :
    Fin s s' ↔ .shutdownWrite ∈ es := by
  constructor
  · rintro ⟨fs, hfs, hfin⟩
    rwa [← List.append_cancel_left (hfs.symm.trans h)]
  · exact fun hfin => ⟨es, h, hfin⟩

/-- Where a half-close comes from. -/
theorem fin_cases {l : Label τ β} (hfin : Fin s (s.after l)) :
    (∃ r, l = .writeCallback r ∧ s.conn.drains r = true ∧ s.conn.state_ = .kDisconnecting) ∨
    (l = .shutdown ∧ s.conn.connected = true ∧ s.conn.channel_.isWriting = false) ∨
    ∃ r e rest, l = .task r ∧ s.pending = e :: rest ∧ e.2 = .shutdownInLoop ∧
      s.conn.channel_.isWriting = false := by
  have hnone : ∀ {s' : Session τ β}, Fin s s' → s'.log = s.log → False := by
    intro s' hf hlog
    have hnil : s'.log = s.log ++ [] := by rw [hlog, List.append_nil]
    cases (fin_iff hnil).1 hf
  cases l with
  | closeCallback =>
    have := (fin_iff rfl).1 hfin
    simp [TcpConnection.handleClose] at this
  | errorCallback =>
    have := (fin_iff rfl).1 hfin
    simp [TcpConnection.handleError] at this
  | readCallback r => exact absurd ((fin_iff rfl).1 hfin) (TcpConnection.fin_handleRead _ _)
  | writeCallback r =>
    exact Or.inl ⟨r, rfl, (TcpConnection.fin_handleWrite _ _).1 ((fin_iff rfl).1 hfin)⟩
  | task r =>
    simp only [after] at hfin
    cases hp : s.pending with
    | nil =>
      rw [hp] at hfin
      exact (hnone hfin rfl).elim
    | cons e rest =>
      rw [hp] at hfin
      have h := (TcpConnection.fin_runTask _ _ _).1 ((fin_iff rfl).1 hfin)
      exact Or.inr (Or.inr ⟨r, e, rest, rfl, rfl, h.1, h.2⟩)
  | send data r | sendFile file offset count r =>
    simp only [after] at hfin
    split_ifs at hfin
    · have := (TcpConnection.fin_runTask _ _ _).1 ((fin_iff rfl).1 hfin)
      simp at this
    · exact (hnone hfin rfl).elim
  | shutdown =>
    simp only [after] at hfin
    split_ifs at hfin with hc
    · have := (TcpConnection.fin_runTask _ _ _).1 ((fin_iff rfl).1 hfin)
      exact Or.inr (Or.inl ⟨rfl, hc, this.2⟩)
    · exact (hnone hfin rfl).elim
  | connectDestroyed =>
    have := (TcpConnection.fin_runTask _ _ _).1 ((fin_iff rfl).1 hfin)
    simp at this
  | sendTest t data | sendFileTest t file offset count | shutdownTest t =>
    simp only [after] at hfin
    split_ifs at hfin <;> exact (hnone hfin rfl).elim
  | poll | handleEvent | retrieve | queueDestroyed | shutdownStore | push =>
    exact (hnone hfin rfl).elim

omit [Inhabited β] in
/-- At a half-close all that `q` has sent is given to the stream, exactly when none of it is
queued. -/
theorem sentBy_given_iff (h : s.InOrder q) (hd : s.conn.state_ ≠ .kDisconnected)
    (hheld : s.heldBy q = []) :
    sentBy q s.given = sentBy q s.accepted ↔ queuedBy q s.pending = [] := by
  rw [h.account hd, hheld, List.append_nil]
  constructor
  · exact fun he => List.self_eq_append_right.1 he
  · intro hnil
    rw [hnil, List.append_nil]

theorem finOk_iff {l : Label τ β} (h : s.Ordered q) (hl : ShutsDown q s l) (hen : s.enabled l) :
    FinOk q s l ↔ NotOvertaken q s l := by
  have hstr := (ordered_after h hl hen).streams
  have hstep : step s l = some (s.after l) := Lts.guarded_eq_some.2 ⟨hen, rfl⟩
  have hok : FinOk q s l ↔ (Fin s (s.after l) → s.Excused ∨
      (wire (s.after l).log = stream (s.after l).given ∧
        sentBy q (s.after l).given = sentBy q (s.after l).accepted)) := by
    simp [FinOk, hstep]
  rw [hok]
  rcases h.inOrder with hex | hord
  · refine iff_of_true (fun _ => Or.inl hex) ?_
    cases l <;> first | trivial | exact fun _ _ => Or.inl hex
  -- the buffer is empty after the half-close, so the kernel has all that was given
  have hwire : (s.after l).conn.outputBuffer_.content = [] →
      wire (s.after l).log = stream (s.after l).given := fun hnil => by
    have := hstr
    rwa [Streams, hnil, List.append_nil] at this
  have hempty : s.conn.state_ ≠ .kDisconnected → s.conn.channel_.isWriting = false →
      s.conn.outputBuffer_.content = [] := by
    intro hd hw
    by_contra hne
    rw [(hord.armed hd).2 hne] at hw
    cases hw
  constructor
  · intro hfin
    cases l with
    | writeCallback r =>
      intro hdr hdis
      have hd : s.conn.state_ ≠ .kDisconnected := by simp [hdis]
      have hshut := (TcpConnection.fin_handleWrite s.conn r).2 ⟨hdr, hdis⟩
      rcases hfin ((fin_iff rfl).2 hshut) with hex | hs
      · exact Or.inl hex
      · exact Or.inr ((sentBy_given_iff hord hd (hord.held hdis)).1 hs.2)
    | _ => trivial
  · intro hnot hfin
    rcases fin_cases hfin with ⟨r, rfl, hdr, hdis⟩ | ⟨rfl, hc, hw⟩ | ⟨r, e, rest, rfl, hp, he, hw⟩
    · have hd : s.conn.state_ ≠ .kDisconnected := by simp [hdis]
      rcases hnot hdr hdis with hex | hnil
      · exact Or.inl hex
      · exact Or.inr ⟨hwire (TcpConnection.content_of_drains hdr),
          (sentBy_given_iff hord hd (hord.held hdis)).2 hnil⟩
    · -- the loop's thread itself: it queues nothing that it sends
      obtain rfl : q = none := hl
      have hstate : s.conn.state_ = .kConnected := by simpa [TcpConnection.connected] using hc
      have hd : s.conn.state_ ≠ .kDisconnected := by simp [hstate]
      have hafter : s.after .shutdown = (s.setState .kDisconnecting).perform none
          ((s.setState .kDisconnecting).conn.runTask (.sent 0) .shutdownInLoop) := by
        simp only [after, hc, if_true]
        exact runTask_of_taken rfl
      refine Or.inr ⟨hwire ?_, ?_⟩
      · rw [hafter]
        exact hempty hd hw
      · rw [hafter]
        exact (sentBy_given_iff hord hd rfl).2 (queuedBy_eq_nil.2 hord.own)
    · -- the task: what the thread has sent stood before it in the queue
      have hdis : s.conn.state_ = .kDisconnecting := by
        by_contra hne
        exact (hord.quiet hne).1 e (by simp [hp]) he
      have hd : s.conn.state_ ≠ .kDisconnected := by simp [hdis]
      have hafter : s.after (.task r) = ({ s with pending := rest } : Session τ β).perform e.1
          (s.conn.runTask r .shutdownInLoop) := by
        simp only [after, hp, he]
        exact runTask_of_taken rfl
      have hnil : queuedBy q s.pending = [] := by
        have horder := hord.order
        rw [hp] at horder ⊢
        refine queuedBy_eq_nil.2 fun d hdm hq => ?_
        rcases List.mem_cons.1 hdm with rfl | hdm
        · rw [he]
          rfl
        · exact (List.pairwise_cons.1 horder).1 d hdm he hq
      refine Or.inr ⟨hwire ?_, ?_⟩
      · rw [hafter]
        exact hempty hd hw
      · rw [hafter]
        exact (sentBy_given_iff hord hd (hord.held hdis)).2 hnil

/-- In a run in which only `q` shuts down, every half-close comes after all that `q` has sent, if
and only if `handleWrite` never issues one while bytes of `q` are queued. -/
theorem fin_after_payload_iff {sockfd : ℤ} {writeComplete highWater : Bool} {mark : ℕ}
    {ls : List (Label τ β)} {s : Session τ β}
    (hq : Lts.Along step (ShutsDown q) (init sockfd writeComplete highWater mark) ls)
    (h : Lts.exec step (init sockfd writeComplete highWater mark) ls = some s) :
    Lts.Along step (FinOk q) (init sockfd writeComplete highWater mark) ls ↔
      Lts.Along step (NotOvertaken q) (init sockfd writeComplete highWater mark) ls :=
  Lts.guarded_along_iff (fun _ _ hs hl _ => ordered_after hs hl) (fun _ _ => finOk_iff)
    (ordered_init _ _ _ _) hq h

/-- A byte of the loop's thread waits for `EPOLLOUT`; another thread sends a byte and shuts down. -/
private def overtakenRun : List (Label Unit ℕ) :=
  [.task (.sent 0), .send [1] (.failed .EWOULDBLOCK), .sendTest () [2], .push (), .shutdownTest (),
    .shutdownStore (), .push (), .poll EPOLLOUT, .handleEvent]

/-- `handleWrite` drains the first byte and closes; the second has not reached the kernel. -/
theorem payload_overtaken :
    ∃ s s' : Session Unit ℕ, Lts.exec step (init 5 false false 100) overtakenRun = some s ∧
      step s (.writeCallback (.sent 1)) = some s' ∧ Fin s s' ∧ ¬ s.Excused ∧
      wire s'.log = [1] ∧ sentBy (some ()) s'.accepted = [2] ∧
      s'.pending = [(some (), .sendInLoop [2]), (some (), .shutdownInLoop)] := by
  have hrun : (Lts.exec step (init 5 false false 100) overtakenRun).any (fun s =>
      (step s (.writeCallback (.sent 1))).any fun s' =>
        s.log == [.update, .connectionCallback_ true, .writeError .EWOULDBLOCK, .update] &&
        s'.log == s.log ++ [.write [1], .update, .shutdownWrite] &&
        sentBy (some ()) s'.accepted == [2] &&
        s'.pending == [(some (), .sendInLoop [2]), (some (), .shutdownInLoop)]) = true := by
    decide +kernel
  obtain ⟨s, hs, hp⟩ := Lts.exec_of_any hrun
  obtain ⟨s', hs', hp⟩ := Option.any_eq_true _ _ |>.1 hp
  simp only [Bool.and_eq_true, beq_iff_eq] at hp
  obtain ⟨⟨⟨hlog, hlog'⟩, hsent⟩, hpend⟩ := hp
  refine ⟨s, s', hs, hs', ⟨_, hlog', by simp⟩, ?_, ?_, hsent, hpend⟩
  · simp [Excused, hlog, Effect.isFault]
  · rw [hlog', hlog]
    rfl

/-- The same calls, when the other byte has reached `outputBuffer_` before. -/
private def gracefulRun : List (Label Unit ℕ) :=
  [.task (.sent 0), .send [1] (.failed .EWOULDBLOCK), .sendTest () [2], .push (), .task (.sent 0),
    .shutdownTest (), .shutdownStore (), .push (), .poll EPOLLOUT, .handleEvent,
    .writeCallback (.sent 2), .task (.sent 0)]

theorem fin_after_payload_iff_graceful :
    ∃ s : Session Unit ℕ, Lts.exec step (init 5 false false 100) gracefulRun = some s ∧
      wire s.log = [1, 2] ∧
      Lts.Along step (FinOk (some ())) (init 5 false false 100) gracefulRun := by
  have hrun : (Lts.exec step (init 5 false false 100) gracefulRun).any (fun s =>
      wire s.log == [1, 2]) = true := by decide +kernel
  have hq : Lts.Along step (ShutsDown (some ())) (init 5 false false 100 : Session Unit ℕ)
      gracefulRun := by decide +kernel
  have hnot : Lts.Along step (NotOvertaken (some ())) (init 5 false false 100 : Session Unit ℕ)
      gracefulRun := by decide +kernel
  obtain ⟨s, hs, hp⟩ := Lts.exec_of_any hrun
  exact ⟨s, hs, beq_iff_eq.1 hp, (fin_after_payload_iff hq hs).2 hnot⟩

end Session

end Muduo
