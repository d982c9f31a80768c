import Mathlib.Algebra.Order.Group.Multiset
import MuduoCpp.Interest
import MuduoCpp.SendFile

/-!
# `shutdown()` after `sendFile()`

What `sendfile` has not sent yet is in a task that queues itself again.  `shutdownInLoop` does not
see it, and `sendFileInLoop` returns in state `kDisconnecting`, where `sendInLoop` still sends.

`file_before_fin`: as long as `shutdown()` finds nothing left of the files of a thread, every
half-close comes after all their bytes, and none of them is given up.  Once the queue has nothing
left of these files, that is also the only way in which all their bytes were sent.
-/

namespace Muduo

variable {τ β : Type} {p q : Option τ} [DecidableEq τ]

/-- The bytes of a file in a payload. -/
def Payload.fileBytes : Payload β → List β
  | .send _ => []
  | .file data => data

/-- The bytes of a file that the thread is about to queue. -/
def Caller.fileBytes : Caller β → List β
  | .sendingFile file offset count => (file.drop offset).take count
  | _ => []

omit [DecidableEq τ] in
theorem Caller.fileBytes_of_task {c : Caller β} {task : Task β} (h : c.task = some task) :
    c.fileBytes = task.fileBytes := by
  cases c <;> simp_all [Caller.task, Caller.fileBytes] <;> subst h <;> rfl

/-- The bytes of the files in the calls of `q`. -/
def filesBy (q : Option τ) (l : List (From τ (Payload β))) : Multiset β :=
  l.flatMap fun e => if e.1 = q then e.2.fileBytes else []

/-- The bytes of the files of `q` that wait in tasks. -/
def filesQueued (q : Option τ) (l : List (From τ (Task β))) : Multiset β :=
  l.flatMap fun e => if e.1 = q then e.2.fileBytes else []

@[simp] theorem filesBy_append (l m : List (From τ (Payload β))) :
    filesBy q (l ++ m) = filesBy q l + filesBy q m := by
  rw [filesBy, List.flatMap_append, ← Multiset.coe_add]
  rfl

@[simp] theorem filesQueued_append (l m : List (From τ (Task β))) :
    filesQueued q (l ++ m) = filesQueued q l + filesQueued q m := by
  rw [filesQueued, List.flatMap_append, ← Multiset.coe_add]
  rfl

theorem filesBy_singleton (x : Payload β) :
    filesBy q [(p, x)] = if p = q then (x.fileBytes : Multiset β) else 0 := by
  by_cases h : p = q <;> simp [filesBy, h]

theorem filesQueued_singleton (task : Task β) :
    filesQueued q [(p, task)] = if p = q then (task.fileBytes : Multiset β) else 0 := by
  by_cases h : p = q <;> simp [filesQueued, h]

theorem filesQueued_map (l : List (Task β)) :
    filesQueued q (l.map fun task => (p, task)) =
      if p = q then (filesOf l : Multiset β) else 0 := by
  by_cases h : p = q <;> simp [filesQueued, filesOf, List.flatMap_map, h]

/-- Functions that queue no file. -/
theorem filesQueued_of_noFile {es : List (Effect β)} (h : TcpConnection.NoFile es) :
    filesQueued q ((queued es).map fun task => (p, task)) = 0 := by
  rw [filesQueued_map, filesOf_eq_nil h]
  split_ifs <;> rfl

omit [DecidableEq τ] in
theorem fileBytes_of_taken {c : TcpConnection β} {r : WriteResult} {task : Task β} {x : Payload β}
    (h : c.taken r task = some x) : x.fileBytes = if task.isFile then x.bytes else [] := by
  cases task with
  | sendInLoop data | sendFileInLoop file offset count =>
    simp only [TcpConnection.taken] at h
    split_ifs at h
    obtain rfl := Option.some.inj h
    rfl
  | _ => cases h

/-- What a task of `p` sends and queues again of the files of `q` is what it had, unless it gives
the file up. -/
theorem files_runTask [Inhabited β] {c : TcpConnection β} {r : WriteResult} {task : Task β}
    (hleft : c.state_ = .kDisconnecting → p = q → task.fileBytes = [])
    (hfault : task.isFile = true → c.state_ ≠ .kDisconnecting → c.isIdle = true →
      r.isFault = false) :
    filesBy q ((c.taken r task).toList.map fun x => (p, x)) +
        filesQueued q ((queued (c.runTask r task).2).map fun t => (p, t)) =
      filesQueued q [(p, task)] := by
  have htaken : filesBy q ((c.taken r task).toList.map fun x => (p, x)) =
      if p = q ∧ task.isFile = true then (TcpConnection.takenBytes (c.taken r task) : Multiset β)
      else 0 := by
    cases ht : c.taken r task with
    | none => simp [filesBy, TcpConnection.takenBytes]
    | some x =>
      show filesBy q [(p, x)] = _
      rw [filesBy_singleton, fileBytes_of_taken ht]
      cases task.isFile <;> simp [TcpConnection.takenBytes]
  rw [htaken, filesQueued_singleton]
  cases hfile : task.isFile with
  | false =>
    rw [filesQueued_of_noFile (TcpConnection.noFile_runTask c r hfile),
      Task.fileBytes_of_isFile hfile]
    simp
  | true =>
    rw [filesQueued_map]
    by_cases hpq : p = q
    · cases task with
      | sendFileInLoop file offset count =>
        simp only [hpq, if_true, and_self, Multiset.coe_add, Multiset.coe_eq_coe]
        by_cases hs : c.state_ = .kDisconnecting
        · rw [TcpConnection.runTask, TcpConnection.sendFileInLoop_of_disconnecting hs, hleft hs hpq]
          simp [TcpConnection.taken, TcpConnection.sendsFile, hs, filesOf, queued,
            TcpConnection.takenBytes]
        · exact List.Perm.of_eq (c.sendFileInLoop_files file offset count hs (hfault hfile hs))
      | _ => cases hfile
    · simp [hpq]

namespace Session

/-- The bytes of a file that `q` is about to queue. -/
def filesHeld (s : Session τ β) : Option τ → Multiset β
  | none => 0
  | some t => (s.caller t).fileBytes

/-- `shutdown()` has changed `state_`, or half-closed. -/
def Stored (s : Session τ β) : Prop :=
  s.conn.state_ = .kDisconnecting ∨ s.ShutdownPending ∨ .shutdownWrite ∈ s.log

/-- The step stores `kDisconnecting`. -/
def Stores (s : Session τ β) : Label τ β → Prop
  | .shutdown => s.conn.connected = true
  | .shutdownStore _ => True
  | _ => False

instance (s : Session τ β) : DecidablePred s.Stores
  | .shutdown => inferInstanceAs (Decidable (_ = _))
  | .shutdownStore _ => isTrue trivial
  | .poll _ | .handleEvent | .closeCallback | .errorCallback | .readCallback _ | .writeCallback _
  | .task _ | .send _ _ | .sendFile _ _ _ _ | .retrieve _ | .queueDestroyed | .connectDestroyed
  | .sendTest _ _ | .sendFileTest _ _ _ _ | .shutdownTest _ | .push _ => isFalse id

/-- `shutdown()` finds nothing left of the files of `q`. -/
def FileDone (q : Option τ) (s : Session τ β) (l : Label τ β) : Prop :=
  s.Stores l → filesQueued q s.pending = 0 ∧ s.filesHeld q = 0

instance [DecidableEq β] (q : Option τ) (s : Session τ β) : DecidablePred (FileDone q s) := fun l =>
  inferInstanceAs (Decidable (s.Stores l → _))

/-- A file of `q` is given up because of the state. -/
def GivesUpFile (q : Option τ) (s : Session τ β) : Label τ β → Prop
  | .task _ => s.conn.state_ = .kDisconnecting ∧
      ∃ task rest, s.pending = (q, task) :: rest ∧ task.fileBytes ≠ []
  | _ => False

/-- Every half-close comes after all bytes of the files of `q`, and none of these is given up,
unless the run is excused. -/
def FileFirst [Inhabited β] (q : Option τ) (s : Session τ β) (l : Label τ β) : Prop :=
  ∀ s', step s l = some s' → s'.Excused ∨
    ((Fin s s' → filesBy q s'.given = filesBy q s'.accepted) ∧ ¬ GivesUpFile q s l)

/-- Nothing of the files of `q` is lost, and nothing is left of them when `shutdown()` has been
called. -/
structure FileKept (q : Option τ) (s : Session τ β) : Prop where
  kept : filesBy q s.given + filesQueued q s.pending + s.filesHeld q = filesBy q s.accepted
  stored : s.Stored → s.conn.state_ ≠ .kConnected ∧ filesQueued q s.pending = 0 ∧ s.filesHeld q = 0

variable [Inhabited β] {s s' : Session τ β} {l : Label τ β}

/-! ### Who calls `shutdown()` -/

omit [DecidableEq τ] [Inhabited β] in
theorem not_stored_of_fresh (h : s.Fresh) : ¬ s.Stored := by
  rintro (hs | (⟨e, he, hfin⟩ | ⟨t, ht⟩) | hlog)
  · rw [h.state] at hs
    cases hs
  · obtain ⟨q, rest, hp, hrest⟩ := h.pending
    rw [hp] at he
    rcases List.mem_cons.1 he with rfl | he
    · cases hfin
    · rw [hrest e he] at hfin
      cases hfin
  · rw [h.caller t] at ht
    cases ht
  · cases h.log _ hlog

theorem state_of_after (h : (s.after l).conn.state_ = .kDisconnecting) :
    s.conn.state_ = .kDisconnecting ∨ s.Stores l := by
  have hconn :
      ∀ {u : Session τ β}, (s.after l).core = u.core → u.conn.state_ = .kDisconnecting := by
    intro u hcore
    simp only [core, Prod.mk.injEq] at hcore
    rw [← hcore.1, h]
  cases s.does_after l with
  | nothing revents input hcore =>
    simp only [core, Prod.mk.injEq] at hcore
    rw [hcore.1] at h
    exact Or.inl h
  | store t hcore => exact Or.inr trivial
  | shutdown hs hcore => exact Or.inr (by simp [Stores, TcpConnection.connected, hs])
  | callback k read write hcore =>
    have hk : (s.conn.runCallback read write k).1.state_ = .kDisconnecting := hconn hcore
    rcases TcpConnection.state_runCallback s.conn read write k with ⟨-, hs⟩ | ⟨-, hs⟩
    · rw [hs] at hk
      cases hk
    · exact Or.inl (hs.symm.trans hk)
  | task task r _ hcore =>
    have hk : (s.conn.runTask r task).1.state_ = .kDisconnecting := hconn hcore
    by_cases he : task = .connectEstablished
    · subst he
      cases hk
    · exact Or.inl ((TcpConnection.state_runTask s.conn r he).1.1 hk)

omit [DecidableEq τ] [Inhabited β] in
/-- A function of the connection queues no `shutdownInLoop`. -/
theorem shutdownPending_of_perform {u : Session τ β} {res : TcpConnection β × List (Effect β)}
    (hq : TcpConnection.QueuesOwn res.2) (h : (u.perform p res).ShutdownPending) :
    u.ShutdownPending := by
  refine h.imp_left fun ⟨e, he, hfin⟩ => ?_
  rcases List.mem_append.1 he with he | he
  · exact ⟨e, he, hfin⟩
  · obtain ⟨task, htask, rfl⟩ := List.mem_map.1 he
    exact absurd hfin (Task.sendBytes_of_isOwn (hq task htask)).2

omit [Inhabited β] in
/-- A thread that is about to queue something else. -/
theorem shutdownPending_of_setCaller {t : τ} {c : Caller β} (hc : c.task ≠ some .shutdownInLoop)
    (h : (s.setCaller t c).ShutdownPending) : s.ShutdownPending := by
  refine h.imp_right fun ⟨u, hu⟩ => ?_
  by_cases hut : u = t
  · subst hut
    exact absurd (by simpa [setCaller] using hu) hc
  · exact ⟨u, by simpa [setCaller, Function.update_of_ne hut] using hu⟩

theorem shutdownPending_of_after (h : (s.after l).ShutdownPending) :
    s.ShutdownPending ∨ s.Stores l := by
  cases l with
  | closeCallback =>
    exact Or.inl (shutdownPending_of_perform (TcpConnection.queuesOwn_handleClose _) h)
  | errorCallback =>
    exact Or.inl (shutdownPending_of_perform (TcpConnection.queuesOwn_handleError _) h)
  | readCallback r =>
    exact Or.inl (shutdownPending_of_perform (TcpConnection.queuesOwn_handleRead _ _) h)
  | writeCallback r =>
    exact Or.inl (shutdownPending_of_perform (TcpConnection.queuesOwn_handleWrite _ _) h)
  | task r =>
    left
    cases hp : s.pending with
    | nil => simpa [after, hp] using h
    | cons e rest =>
      rw [after_task hp] at h
      have hrest : ({ s with pending := rest } : Session τ β).ShutdownPending :=
        shutdownPending_of_perform (TcpConnection.queuesOwn_runTask _ _ _) h
      refine hrest.imp_left ?_
      rintro ⟨d, hd, hfin⟩
      rw [hp]
      exact ⟨d, List.mem_cons_of_mem _ hd, hfin⟩
  | send data r | sendFile file offset count r =>
    left
    simp only [after] at h
    split_ifs at h
    · exact shutdownPending_of_perform (u := s.accept none _)
        (TcpConnection.queuesOwn_runTask _ _ _) h
    · exact h
  | shutdown =>
    by_cases hc : s.conn.connected = true
    · exact Or.inr hc
    · simp only [after, hc] at h
      exact Or.inl h
  | connectDestroyed =>
    exact Or.inl (shutdownPending_of_perform (TcpConnection.queuesOwn_runTask _ _ _) h)
  | queueDestroyed =>
    refine Or.inl (h.imp_left ?_)
    rintro ⟨e, he, hfin⟩
    rcases List.mem_append.1 he with he | he
    · exact ⟨e, he, hfin⟩
    · rw [List.mem_singleton.1 he] at hfin
      cases hfin
  | shutdownStore t => exact Or.inr trivial
  | push t =>
    left
    rcases h with ⟨e, he, hfin⟩ | ⟨u, hu⟩
    · rcases List.mem_append.1 he with he | he
      · exact Or.inl ⟨e, he, hfin⟩
      · obtain ⟨task, htask, rfl⟩ := List.mem_map.1 he
        exact Or.inr ⟨t, (Option.mem_toList.1 htask).trans (congrArg some hfin)⟩
    · exact shutdownPending_of_setCaller (by simp [Caller.task]) (Or.inr ⟨u, hu⟩)
  | sendTest t data | sendFileTest t file offset count | shutdownTest t =>
    left
    simp only [after] at h
    split_ifs at h
    · exact shutdownPending_of_setCaller (by simp [Caller.task]) h
    · exact h
  | poll | handleEvent | retrieve => exact Or.inl h

theorem stored_of_after (h : (s.after l).Stored) : s.Stored ∨ s.Stores l := by
  rcases h with h | h | h
  · exact (state_of_after h).imp_left Or.inl
  · exact (shutdownPending_of_after h).imp_left fun h => Or.inr (Or.inl h)
  · obtain ⟨es, hes⟩ := s.log_after l
    rw [hes] at h
    rcases List.mem_append.1 h with h | h
    · exact Or.inl (Or.inr (Or.inr h))
    · rcases fin_cases ((fin_iff hes).2 h) with ⟨r, -, -, hs⟩ | ⟨rfl, hc, -⟩ |
        ⟨r, e, rest, -, hp, he, -⟩
      · exact Or.inl (Or.inl hs)
      · exact Or.inr hc
      · exact Or.inl (Or.inr (Or.inl (Or.inl ⟨e, by simp [hp], he⟩)))

/-! ### The bytes of the files -/

/-- From `s` to `s'` the bytes `a` are asked for and the bytes `g` are sent; nothing is lost. -/
structure FilesMove (q : Option τ) (s s' : Session τ β) (g a : Multiset β) : Prop where
  given : filesBy q s'.given = filesBy q s.given + g
  accepted : filesBy q s'.accepted = filesBy q s.accepted + a
  left : g + (filesQueued q s'.pending + s'.filesHeld q) =
    filesQueued q s.pending + s.filesHeld q + a

omit [Inhabited β] in
theorem filesHeld_update {t : τ} {c : Caller β} (h : s'.caller = Function.update s.caller t c) :
    s'.filesHeld q = if q = some t then (c.fileBytes : Multiset β) else s.filesHeld q := by
  rcases q with _ | u
  · rfl
  · by_cases hu : u = t
    · subst hu
      simp [filesHeld, h]
    · simp [filesHeld, h, hu]

omit [Inhabited β] in
/-- A thread goes on with the file it is about to queue, or with none. -/
theorem filesHeld_update_same {t : τ} {c : Caller β} (h : s'.caller = Function.update s.caller t c)
    (hc : c.fileBytes = (s.caller t).fileBytes) : s'.filesHeld q = s.filesHeld q := by
  rw [filesHeld_update h, hc]
  split_ifs with hq
  · rw [hq]
    rfl
  · rfl

omit [DecidableEq τ] [Inhabited β] in
theorem fileBytes_of_isIdle {c : Caller β} (h : c.isIdle = true) : c.fileBytes = [] := by
  cases c <;> simp_all [Caller.isIdle, Caller.fileBytes]

omit [Inhabited β] in
theorem filesMove_idle (hg : s'.given = s.given) (ha : s'.accepted = s.accepted)
    (hp : s'.pending = s.pending) (hc : s'.filesHeld q = s.filesHeld q) : FilesMove q s s' 0 0 :=
  ⟨by simp [hg], by simp [ha], by simp [hp, hc]⟩

omit [Inhabited β] in
/-- A function that queues no file. -/
theorem filesMove_noFile {es : List (Effect β)} (hg : s'.given = s.given)
    (ha : s'.accepted = s.accepted)
    (hp : s'.pending = s.pending ++ (queued es).map fun task => (p, task))
    (hc : s'.caller = s.caller) (h : TcpConnection.NoFile es) : FilesMove q s s' 0 0 := by
  have hheld : s'.filesHeld q = s.filesHeld q := by
    cases q <;> simp [filesHeld, hc]
  refine ⟨by simp [hg], by simp [ha], ?_⟩
  rw [hheld, hp, filesQueued_append, filesQueued_of_noFile h]
  simp

/-- A task that `u` has taken from the queue, or a call on the loop's thread. -/
theorem filesMove_runTask {u : Session τ β} {task : Task β} {r : WriteResult} {a : Multiset β}
    (hg : u.given = s.given) (ha : filesBy q u.accepted = filesBy q s.accepted + a)
    (hc : u.caller = s.caller)
    (hp : filesQueued q u.pending + filesQueued q [(p, task)] = filesQueued q s.pending + a)
    (hleft : u.conn.state_ = .kDisconnecting → p = q → task.fileBytes = [])
    (hfault : task.isFile = true → u.conn.state_ ≠ .kDisconnecting → u.conn.isIdle = true →
      r.isFault = false) :
    ∃ g, FilesMove q s (u.runTask p task r) g a := by
  have hrun := files_runTask (q := q) hleft hfault
  have hheld : (u.runTask p task r).filesHeld q = s.filesHeld q := by
    cases q <;> simp [filesHeld, runTask, hc]
  refine ⟨filesBy q ((u.conn.taken r task).toList.map fun x => (p, x)), ?_, ha, ?_⟩
  · rw [← hg]
    exact filesBy_append _ _
  · rw [hheld]
    show _ + (filesQueued q
      (u.pending ++ (queued (u.conn.runTask r task).2).map fun t => (p, t)) + _) = _
    rw [filesQueued_append, add_right_comm (filesQueued q s.pending), ← hp, ← hrun]
    abel

omit [DecidableEq τ] in
/-- A `sendfile` that fails for good excuses the run. -/
theorem isFault_of_file {u : Session τ β} {task : Task β} {r : WriteResult}
    (hex : ¬ (u.runTask p task r).Excused) (hfile : task.isFile = true)
    (hs : u.conn.state_ ≠ .kDisconnecting) (hi : u.conn.isIdle = true) : r.isFault = false := by
  by_contra hr
  rw [Bool.not_eq_false] at hr
  cases task with
  | sendFileInLoop file offset count =>
    refine hex (Or.inl ⟨.ofWrite r ((file.drop offset).take count), List.mem_append_right _ ?_, ?_⟩)
    · simp [TcpConnection.runTask, TcpConnection.sendFileInLoop, hs, hi]
    · rw [Effect.isFault_ofWrite, hr]
  | _ => cases hfile

/-- The next task of the queue: after `shutdown()` nothing is left, so nothing is given up. -/
theorem filesMove_task (h : s.FileKept q) {e : From τ (Task β)} {rest : List (From τ (Task β))}
    (hp : s.pending = e :: rest) {r : WriteResult}
    (hex : ¬ (({ s with pending := rest } : Session τ β).runTask e.1 e.2 r).Excused) :
    ∃ g, FilesMove q s (({ s with pending := rest } : Session τ β).runTask e.1 e.2 r) g 0 := by
  have hsplit : filesQueued q s.pending = filesQueued q rest + filesQueued q [(e.1, e.2)] := by
    rw [hp, ← List.singleton_append, filesQueued_append, add_comm]
  refine filesMove_runTask rfl (add_zero _).symm rfl (by rw [add_zero, hsplit]) (fun hs hq => ?_)
    (isFault_of_file hex)
  have hnil := (h.stored (Or.inl hs)).2.1
  rw [hsplit, add_eq_zero, filesQueued_singleton, if_pos hq] at hnil
  exact Multiset.coe_eq_zero _ |>.1 hnil.2

theorem filesMove_send (s : Session τ β) (data : List β) (r : WriteResult) :
    ∃ g, FilesMove q s ((s.accept none (.send data)).runTask none (.sendInLoop data) r) g 0 := by
  have hnil : (Task.sendInLoop data).fileBytes = [] := rfl
  have hfile : (Task.sendInLoop data).isFile = true → False := Bool.false_ne_true
  refine filesMove_runTask rfl ?_ rfl ?_ (fun _ _ => hnil) fun hf => (hfile hf).elim
  · simp [accept, filesBy_singleton, Payload.fileBytes]
  · simp [accept, filesQueued_singleton, hnil]

theorem filesMove_sendFile (hs : s.conn.state_ = .kConnected) {file : List β} {offset count : ℕ}
    {r : WriteResult}
    (hex : ¬ ((s.accept none (.file ((file.drop offset).take count))).runTask none
      (.sendFileInLoop file offset count) r).Excused) :
    ∃ g, FilesMove q s ((s.accept none (.file ((file.drop offset).take count))).runTask none
      (.sendFileInLoop file offset count) r) g
        (filesQueued q [(none, .sendFileInLoop file offset count)]) := by
  refine filesMove_runTask rfl ?_ rfl rfl (fun hd => ?_) (isFault_of_file hex)
  · simp [accept, filesBy_singleton, filesQueued_singleton, Payload.fileBytes, Task.fileBytes]
  · exact absurd (hs.symm.trans hd) (by simp)

omit [Inhabited β] in
/-- What another thread is about to queue. -/
theorem filesMove_accept {t : τ} {p : Payload β} {c : Caller β}
    (hidle : (s.caller t).fileBytes = [])
    (hc : c.fileBytes = p.fileBytes) :
    FilesMove q s ((s.accept (some t) p).setCaller t c) 0 (filesBy q [(some t, p)]) := by
  refine ⟨(add_zero _).symm, filesBy_append _ _, ?_⟩
  rw [filesHeld_update (s := s) rfl, hc, filesBy_singleton]
  by_cases hq : q = some t
  · subst hq
    simp [filesHeld, hidle, setCaller, accept]
  · simp [hq, Ne.symm hq, setCaller, accept]

theorem filesMove_push {t : τ} {task : Task β} (ht : (s.caller t).task = some task) :
    FilesMove q s (s.after (.push t)) 0 0 := by
  have hbytes := Caller.fileBytes_of_task ht
  refine ⟨(add_zero _).symm, (add_zero _).symm, ?_⟩
  rw [filesHeld_update (s := s) rfl]
  by_cases hq : q = some t
  · subst hq
    rw [filesHeld, hbytes]
    simp [after, ht, filesQueued_singleton, Caller.fileBytes]
  · simp [after, ht, filesQueued_singleton, hq, Ne.symm hq]

theorem files_after (h : s.FileKept q) (hen : s.enabled l) (hex : ¬ (s.after l).Excused) :
    ∃ g a, FilesMove q s (s.after l) g a ∧ (s.conn.state_ ≠ .kConnected ∨ s.Stores l → a = 0) := by
  have hquiet : ∀ {s' : Session τ β} {g : Multiset β}, FilesMove q s s' g 0 →
      ∃ g a, FilesMove q s s' g a ∧ (s.conn.state_ ≠ .kConnected ∨ s.Stores l → a = 0) :=
    fun hm => ⟨_, 0, hm, fun _ => rfl⟩
  have hself : ∃ g a, FilesMove q s s g a ∧ (s.conn.state_ ≠ .kConnected ∨ s.Stores l → a = 0) :=
    hquiet (filesMove_idle rfl rfl rfl rfl)
  have hconn : s.conn.connected = true → s.conn.state_ = .kConnected := by
    simp [TcpConnection.connected]
  cases l with
  | poll | handleEvent | retrieve => exact hquiet (filesMove_idle rfl rfl rfl (by cases q <;> rfl))
  | closeCallback | errorCallback => exact hquiet (filesMove_noFile rfl rfl rfl rfl rfl)
  | readCallback r =>
    exact hquiet (filesMove_noFile rfl rfl rfl rfl (TcpConnection.noFile_handleRead s.conn r))
  | writeCallback r =>
    exact hquiet (filesMove_noFile rfl rfl rfl rfl (TcpConnection.noFile_handleWrite s.conn r))
  | task r =>
    obtain ⟨e, rest, hp⟩ := exists_pending hen.2.2
    rw [after_task hp] at hex ⊢
    obtain ⟨g, hm⟩ := filesMove_task h hp hex
    exact hquiet hm
  | send data r =>
    simp only [after]
    split_ifs
    · obtain ⟨g, hm⟩ := filesMove_send (q := q) s data r
      exact hquiet hm
    · exact hself
  | sendFile file offset count r =>
    simp only [after] at hex ⊢
    split_ifs at hex ⊢ with hc
    · obtain ⟨g, hm⟩ := filesMove_sendFile (q := q) (hconn hc) hex
      refine ⟨g, _, hm, ?_⟩
      rintro (hne | hst)
      · exact absurd (hconn hc) hne
      · exact hst.elim
    · exact hself
  | shutdown =>
    simp only [after]
    split_ifs
    · rw [runTask_of_taken rfl]
      exact hquiet (filesMove_noFile rfl rfl rfl rfl (TcpConnection.noFile_shutdownInLoop s.conn))
    · exact hself
  | queueDestroyed =>
    refine hquiet (g := 0) ⟨(add_zero _).symm, (add_zero _).symm, ?_⟩
    have hheld : (s.after .queueDestroyed).filesHeld q = s.filesHeld q := by cases q <;> rfl
    rw [hheld]
    simp [after, filesQueued_singleton, Task.fileBytes]
  | connectDestroyed =>
    simp only [after]
    rw [runTask_of_taken rfl]
    exact hquiet (filesMove_noFile rfl rfl rfl rfl
      (TcpConnection.noFile_runTask s.conn (.sent 0) rfl))
  | sendTest t data =>
    have hidle := fileBytes_of_isIdle hen
    simp only [after]
    split_ifs
    · have hm := filesMove_accept (q := q) (p := .send data) (c := .sending data) hidle rfl
      rw [filesBy_singleton] at hm
      refine hquiet (g := 0) ?_
      simpa [Payload.fileBytes] using hm
    · exact hself
  | sendFileTest t file offset count =>
    have hidle := fileBytes_of_isIdle hen
    simp only [after]
    split_ifs with hc
    · refine ⟨0, _, filesMove_accept (c := .sendingFile file offset count) hidle rfl, ?_⟩
      rintro (hne | hst)
      · exact absurd (hconn hc) hne
      · exact hst.elim
    · exact hself
  | shutdownTest t =>
    simp only [after]
    split_ifs
    · exact hquiet (filesMove_idle rfl rfl rfl
        (filesHeld_update_same rfl (fileBytes_of_isIdle hen).symm))
    · exact hself
  | shutdownStore t =>
    have hloaded : (s.caller t).fileBytes = [] := by
      have : (s.caller t).isLoaded = true := hen
      cases hc : s.caller t <;> simp_all [Caller.isLoaded, Caller.fileBytes]
    exact hquiet (filesMove_idle rfl rfl rfl (filesHeld_update_same rfl hloaded.symm))
  | push t =>
    obtain ⟨task, ht⟩ := Option.isSome_iff_exists.1 (show (s.caller t).task.isSome = true from hen)
    exact hquiet (filesMove_push ht)

/-! ### Along a run -/

theorem not_connected_after (hran : s.Ran) (hs : s.conn.state_ ≠ .kConnected) :
    (s.after l).conn.state_ ≠ .kConnected := by
  have hconn : ∀ {u : Session τ β}, (s.after l).core = u.core → u.conn.state_ ≠ .kConnected →
      (s.after l).conn.state_ ≠ .kConnected := by
    intro u hcore hu
    simp only [core, Prod.mk.injEq] at hcore
    rwa [hcore.1]
  cases s.does_after l with
  | nothing revents input hcore =>
    simp only [core, Prod.mk.injEq] at hcore
    rwa [hcore.1]
  | store t hcore => exact hconn hcore (by simp [setState])
  | shutdown hc hcore => exact absurd hc hs
  | callback k read write hcore =>
    refine hconn hcore ?_
    rcases TcpConnection.state_runCallback s.conn read write k with ⟨-, hk⟩ | ⟨-, hk⟩
    · simp [hk]
    · simpa [hk] using hs
  | task task r hne hcore =>
    refine hconn hcore ?_
    by_cases hdes : task = .connectDestroyed
    · subst hdes
      simp [TcpConnection.runTask, TcpConnection.connectDestroyed, hs]
    · simpa [TcpConnection.state_runTask_of_ne _ _ (hne hran) hdes] using hs

theorem state_of_stores (h : s.Stores l) : (s.after l).conn.state_ = .kDisconnecting := by
  cases l with
  | shutdown =>
    have hc : s.conn.connected = true := h
    simp only [after, hc, if_true]
    rfl
  | shutdownStore t => rfl
  | _ => exact h.elim

theorem fileKept_after (hest : s.Fresh ∨ s.Ran) (h : s.FileKept q) (hl : FileDone q s l)
    (hen : s.enabled l) (hex : ¬ (s.after l).Excused) : (s.after l).FileKept q := by
  obtain ⟨g, a, hm, ha⟩ := files_after h hen hex
  refine ⟨?_, fun hst => ?_⟩
  · calc filesBy q (s.after l).given + filesQueued q (s.after l).pending + (s.after l).filesHeld q
        = filesBy q s.given +
            (g + (filesQueued q (s.after l).pending + (s.after l).filesHeld q)) := by
          rw [hm.given]
          abel
      _ = filesBy q s.given + filesQueued q s.pending + s.filesHeld q + a := by
          rw [hm.left]
          abel
      _ = filesBy q (s.after l).accepted := by rw [h.kept, hm.accepted]
  · have hnothing : filesQueued q s.pending = 0 → s.filesHeld q = 0 → a = 0 →
        filesQueued q (s.after l).pending = 0 ∧ (s.after l).filesHeld q = 0 := by
      intro hq hh ha
      have hleft := hm.left
      rw [hq, hh, ha, add_zero, add_zero] at hleft
      exact add_eq_zero.1 (add_eq_zero.1 hleft).2
    rcases stored_of_after hst with hs | hs
    · obtain ⟨hne, hq, hh⟩ := h.stored hs
      have hran := hest.resolve_left fun hf => not_stored_of_fresh hf hs
      exact ⟨not_connected_after hran hne, hnothing hq hh (ha (Or.inl hne))⟩
    · obtain ⟨hq, hh⟩ := hl hs
      exact ⟨by simp [state_of_stores hs], hnothing hq hh (ha (Or.inr hs))⟩

theorem fileFirst_of_kept (hest : s.Fresh ∨ s.Ran) (h : s.FileKept q) (hl : FileDone q s l)
    (hen : s.enabled l) : FileFirst q s l := by
  intro s' hstep
  obtain ⟨-, rfl⟩ := Lts.guarded_eq_some.1 hstep
  by_cases hex : (s.after l).Excused
  · exact Or.inl hex
  · refine Or.inr ⟨fun ⟨es, hes, hfin⟩ => ?_, fun hgive => ?_⟩
    · have hkept := fileKept_after hest h hl hen hex
      obtain ⟨-, hq, hh⟩ := hkept.stored (Or.inr (Or.inr (by simp [hes, hfin])))
      have := hkept.kept
      rwa [hq, hh, add_zero, add_zero] at this
    · cases l with
      | task r =>
        obtain ⟨hs, task, rest, hp, hne⟩ := hgive
        have hq := (h.stored (Or.inl hs)).2.1
        rw [hp, ← List.singleton_append, filesQueued_append, add_eq_zero, filesQueued_singleton,
          if_pos rfl, Multiset.coe_eq_zero] at hq
        exact hne hq.1
      | _ => exact hgive

/-- A file of `q` was given up. -/
def FileLost (q : Option τ) (s : Session τ β) : Prop :=
  s.conn.state_ = .kDisconnecting ∧ filesBy q s.given ≠ filesBy q s.accepted

/-- In state `kDisconnecting` nothing is asked for, and no file is sent. -/
theorem records_of_disconnecting (hs : s.conn.state_ = .kDisconnecting) :
    filesBy q (s.after l).given = filesBy q s.given ∧ (s.after l).accepted = s.accepted := by
  have hnot : s.conn.connected = false := by simp [TcpConnection.connected, hs]
  cases l with
  | task r =>
    cases hp : s.pending with
    | nil => simp [after, hp]
    | cons e rest =>
      rw [after_task hp]
      refine ⟨?_, rfl⟩
      show filesBy q (s.given ++ (s.conn.taken r e.2).toList.map fun x => (e.1, x)) = _
      cases ht : s.conn.taken r e.2 with
      | none => simp
      | some x =>
        have hfile : e.2.isFile = false := by
          cases he : e.2 <;> simp_all [Task.isFile, TcpConnection.taken, TcpConnection.sendsFile]
        simp [filesBy_singleton, fileBytes_of_taken ht, hfile]
  | send | sendFile | shutdown | sendTest | sendFileTest | shutdownTest => simp [after, hnot]
  | connectDestroyed =>
    simp only [after]
    rw [runTask_of_taken rfl]
    exact ⟨rfl, rfl⟩
  | _ => exact ⟨rfl, rfl⟩

/-- A half-closed connection stays so until it is closed. -/
theorem disconnecting_after (hran : s.Ran) (hs : s.conn.state_ = .kDisconnecting)
    (hex : ¬ (s.after l).Excused) : (s.after l).conn.state_ = .kDisconnecting := by
  cases s.does_after l with
  | nothing revents input hcore =>
    simp only [core, Prod.mk.injEq] at hcore
    rw [hcore.1, hs]
  | store t hcore => rfl
  | shutdown hc hcore =>
    rw [hs] at hc
    cases hc
  | callback k read write hcore =>
    simp only [core, Prod.mk.injEq] at hcore
    obtain ⟨hconn, -, hlog⟩ := hcore
    rcases TcpConnection.state_runCallback s.conn read write k with ⟨hclose, -⟩ | ⟨-, hk⟩
    · refine absurd (Or.inr ?_) hex
      obtain ⟨e, he, hcl⟩ := List.any_eq_true.1 hclose
      rw [hlog, perform_log]
      cases e <;> first | exact List.mem_append_right _ he | cases hcl
    · rw [hconn, perform_state, hk, hs]
  | task task r hne hcore =>
    simp only [core, Prod.mk.injEq] at hcore
    rw [hcore.1, perform_state]
    exact (TcpConnection.state_runTask s.conn r (hne hran)).1.2 hs

theorem fileLost_after (hran : s.Ran) (h : s.FileLost q) (hex : ¬ (s.after l).Excused) :
    (s.after l).FileLost q := by
  obtain ⟨hs, hlost⟩ := h
  obtain ⟨hg, ha⟩ := records_of_disconnecting (q := q) (l := l) hs
  exact ⟨disconnecting_after hran hs hex, by rwa [hg, ha]⟩

/-- `shutdown()` finds something left of a file: it is lost. -/
theorem fileLost_of_stores (h : s.FileKept q) (hen : s.enabled l) (hl : ¬ FileDone q s l)
    (hex : ¬ (s.after l).Excused) : (s.after l).FileLost q := by
  obtain ⟨hst, hleft⟩ := Classical.not_imp.1 hl
  refine ⟨state_of_stores hst, fun heq => hleft ?_⟩
  have hrecords : (s.after l).given = s.given ∧ (s.after l).accepted = s.accepted := by
    cases l with
    | shutdown =>
      have hc : s.conn.connected = true := hst
      simp only [after, hc, if_true]
      rw [runTask_of_taken rfl]
      exact ⟨rfl, rfl⟩
    | shutdownStore t => exact ⟨rfl, rfl⟩
    | _ => exact hst.elim
  rw [hrecords.1, hrecords.2, ← h.kept, add_assoc] at heq
  exact add_eq_zero.1 (left_eq_add.1 heq)

theorem excused_exec {ls : List (Label τ β)} {t : Session τ β} (h : s.Excused)
    (hrun : Lts.exec step s ls = some t) : t.Excused :=
  Lts.guarded_inv' (fun _ l hs _ => excused_after hs l) h hrun

/-- Once a file is lost it stays so, unless the run is excused. -/
theorem fileLost_exec {ls : List (Label τ β)} {t : Session τ β} (hran : s.Ran)
    (h : s.Excused ∨ s.FileLost q) (hrun : Lts.exec step s ls = some t) :
    t.Excused ∨ t.FileLost q := by
  refine (Lts.guarded_inv' (I := fun s => s.Ran ∧ (s.Excused ∨ s.FileLost q))
    (fun s l hs _ => ⟨ran_after hs.1 l, ?_⟩) ⟨hran, h⟩ hrun).2
  by_cases hex : (s.after l).Excused
  · exact Or.inl hex
  · rcases hs.2 with hs' | hs'
    · exact absurd (excused_after hs' l) hex
    · exact Or.inr (fileLost_after hs.1 hs' hex)

/-- In a run that is not excused and has nothing left to send of the files of `q`, all their bytes
were sent if and only if `shutdown()` found nothing left of them. -/
theorem given_iff_fileDone {ls : List (Label τ β)} {t : Session τ β} (hest : s.Fresh ∨ s.Ran)
    (h : s.FileKept q) (hrun : Lts.exec step s ls = some t) (hex : ¬ t.Excused)
    (hq : filesQueued q t.pending = 0) (hh : t.filesHeld q = 0) :
    filesBy q t.given = filesBy q t.accepted ↔ Lts.Along step (FileDone q) s ls := by
  induction ls generalizing s with
  | nil =>
    cases hrun
    have hkept := h.kept
    rw [hq, hh, add_zero, add_zero] at hkept
    exact iff_of_true hkept trivial
  | cons l ls ih =>
    obtain ⟨u, hu, hut⟩ := Lts.exec_cons_iff.1 hrun
    obtain ⟨hen, rfl⟩ := Lts.guarded_eq_some.1 hu
    by_cases hex' : (s.after l).Excused
    · exact absurd (excused_exec hex' hut) hex
    by_cases hl : FileDone q s l
    · rw [ih (established_after hest hen) (fileKept_after hest h hl hen hex') hut, Lts.along_cons]
      refine ⟨fun htail => ⟨hl, fun v hv => ?_⟩, fun hcons => hcons.2 _ hu⟩
      obtain ⟨-, rfl⟩ := Lts.guarded_eq_some.1 hv
      exact htail
    · refine iff_of_false (fun heq => ?_) fun hcons => hl hcons.1
      have hlost := fileLost_of_stores h hen hl hex'
      have hran : (s.after l).Ran := (established_after hest hen).resolve_left fun hf => by
        have := hf.state
        rw [hlost.1] at this
        cases this
      exact ((fileLost_exec hran (Or.inr hlost) hut).resolve_left hex).2 heq

theorem fileKept_init (sockfd : ℤ) (writeComplete highWater : Bool) (mark : ℕ) :
    (init sockfd writeComplete highWater mark : Session τ β).FileKept q := by
  refine ⟨?_, fun hst => absurd hst (not_stored_of_fresh (fresh_init _ _ _ _))⟩
  cases q <;> simp [init, filesBy, filesQueued, filesHeld, Task.fileBytes, Caller.fileBytes]

/-- As long as `shutdown()` finds nothing left of the files of `q`, every half-close comes after all
their bytes and none of them is given up.  If in the end nothing is left to send of them, all their
bytes were sent if and only if that was so. -/
theorem file_before_fin {sockfd : ℤ} {writeComplete highWater : Bool} {mark : ℕ}
    {ls : List (Label τ β)} {s : Session τ β}
    (h : Lts.exec step (init sockfd writeComplete highWater mark) ls = some s) :
    (Lts.Along step (FileDone q) (init sockfd writeComplete highWater mark) ls →
      Lts.Along step (FileFirst q) (init sockfd writeComplete highWater mark) ls) ∧
    (¬ s.Excused → filesQueued q s.pending = 0 → s.filesHeld q = 0 →
      (filesBy q s.given = filesBy q s.accepted ↔
        Lts.Along step (FileDone q) (init sockfd writeComplete highWater mark) ls)) := by
  have hinit : (init sockfd writeComplete highWater mark : Session τ β).FileKept q :=
    fileKept_init _ _ _ _
  refine ⟨fun hls => ?_, given_iff_fileDone (Or.inl (fresh_init _ _ _ _)) hinit h⟩
  refine (Lts.guarded_along_iff (I := fun s => (s.Fresh ∨ s.Ran) ∧ (s.Excused ∨ s.FileKept q))
    (fun s l hs hl _ hen => ⟨established_after hs.1 hen, ?_⟩) (fun s l hs hl hen => ?_)
    ⟨Or.inl (fresh_init _ _ _ _), Or.inr hinit⟩ hls h).2 hls
  · by_cases hex : (s.after l).Excused
    · exact Or.inl hex
    · rcases hs.2 with hs' | hs'
      · exact Or.inl (excused_after hs' l)
      · exact Or.inr (fileKept_after hs.1 hs' hl hen hex)
  · refine iff_of_true ?_ hl
    rcases hs.2 with hs' | hs'
    · intro s' hstep
      obtain ⟨-, rfl⟩ := Lts.guarded_eq_some.1 hstep
      exact Or.inl (excused_after hs' l)
    · exact fileFirst_of_kept hs.1 hs' hl hen

/-- `sendFile` of three bytes, then `shutdown()`, whose store comes before the task. -/
private def fileCutRun : List (Label Unit ℕ) :=
  [.task (.sent 0), .sendFileTest () [1, 2, 3] 0 3, .push (), .shutdownTest (), .shutdownStore (),
    .push ()]

/-- The file is given up without a byte, and the half-close follows. -/
theorem file_cut_off :
    ∃ s u s' : Session Unit ℕ, Lts.exec step (init 5 false false 100) fileCutRun = some s ∧
      GivesUpFile (some ()) s (.task (.sent 3)) ∧ step s (.task (.sent 3)) = some u ∧
      step u (.task (.sent 0)) = some s' ∧ Fin u s' ∧ ¬ s'.Excused ∧ s'.pending = [] ∧
      filesBy (some ()) s'.given = 0 ∧ filesBy (some ()) s'.accepted = {1, 2, 3} := by
  have hrun : (Lts.exec step (init 5 false false 100) fileCutRun).any (fun s =>
      (step s (.task (.sent 3))).any fun u => (step u (.task (.sent 0))).any fun s' =>
        s.conn.state_ == .kDisconnecting &&
        s.pending == [(some (), .sendFileInLoop [1, 2, 3] 0 3), (some (), .shutdownInLoop)] &&
        u.log == [.update, .connectionCallback_ true] && s'.log == u.log ++ [.shutdownWrite] &&
        s'.pending == [] && s'.given == [] &&
          s'.accepted == [(some (), .file [1, 2, 3])]) = true := by
    decide +kernel
  obtain ⟨s, hs, hp⟩ := Lts.exec_of_any hrun
  obtain ⟨u, hu, hp⟩ := Option.any_eq_true _ _ |>.1 hp
  obtain ⟨s', hs', hp⟩ := Option.any_eq_true _ _ |>.1 hp
  simp only [Bool.and_eq_true, beq_iff_eq] at hp
  obtain ⟨⟨⟨⟨⟨⟨hstate, hpend⟩, hlog⟩, hlog'⟩, hnil⟩, hgiven⟩, haccepted⟩ := hp
  refine ⟨s, u, s', hs, ⟨hstate, _, _, hpend, by simp [Task.fileBytes]⟩, hu, hs',
    ⟨_, hlog', by simp⟩, ?_, hnil, ?_, ?_⟩
  · simp [Excused, hlog', hlog, Effect.isFault]
  · rw [hgiven]
    rfl
  · rw [haccepted]
    rfl

/-- The same calls, when the file has been sent before. -/
private def fileSentRun : List (Label Unit ℕ) :=
  [.task (.sent 0), .sendFileTest () [1, 2, 3] 0 3, .push (), .task (.sent 2),
    .task (.failed .EWOULDBLOCK), .task (.sent 1), .shutdownTest (), .shutdownStore (), .push (),
    .task (.sent 0)]

theorem file_before_fin_sent :
    ∃ s : Session Unit ℕ, Lts.exec step (init 5 false false 100) fileSentRun = some s ∧
      .shutdownWrite ∈ s.log ∧ filesBy (some ()) s.accepted = {1, 2, 3} ∧
      filesBy (some ()) s.given = filesBy (some ()) s.accepted ∧
      Lts.Along step (FileFirst (some ())) (init 5 false false 100) fileSentRun := by
  have hrun : (Lts.exec step (init 5 false false 100) fileSentRun).any (fun s =>
      wire s.log == [1, 2, 3] && s.log.contains .shutdownWrite && !s.log.any Effect.isFault &&
        !s.log.contains .closeCallback_ && s.pending == [] && (s.caller ()).isIdle &&
          s.accepted == [(some (), .file [1, 2, 3])]) =
      true := by decide +kernel
  have hls : Lts.Along step (FileDone (some ())) (init 5 false false 100 : Session Unit ℕ)
      fileSentRun := by decide +kernel
  obtain ⟨s, hs, hp⟩ := Lts.exec_of_any hrun
  simp only [Bool.and_eq_true, beq_iff_eq, Bool.not_eq_true', List.contains_eq_mem,
    decide_eq_true_eq, decide_eq_false_iff_not, List.any_eq_false] at hp
  obtain ⟨⟨⟨⟨⟨⟨-, hfin⟩, hfault⟩, hclose⟩, hnil⟩, hidle⟩, haccepted⟩ := hp
  obtain ⟨hfirst, hiff⟩ := file_before_fin (q := some ()) hs
  refine ⟨s, hs, hfin, by rw [haccepted]; rfl, (hiff ?_ ?_ ?_).2 hls, hfirst hls⟩
  · rintro (⟨e, he, hf⟩ | hc)
    · exact hfault e he hf
    · exact hclose hc
  · rw [hnil]
    rfl
  · show ((s.caller ()).fileBytes : Multiset ℕ) = 0
    rw [fileBytes_of_isIdle hidle]
    rfl

end Session

end Muduo
