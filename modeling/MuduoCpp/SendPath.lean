import MuduoCpp.Lib.Blocks
import MuduoCpp.Session
import Mathlib.Logic.Equiv.Basic

/-!
# `TcpConnection::send`: what reaches `sendInLoop`

On the loop's thread `send` passes a pointer and a length to `sendInLoop`.  On another thread it
queues a closure that owns the bytes: the vector of the caller's `Buffer`, swapped out for a new
one, or a `std::string` made of the argument.  The model has a heap of blocks, so that a closure, a
buffer and a string own a block each, and the caller may write to its own blocks while the closure
waits.

* `Memory`: the heap, the buffers (`ι`) and the strings and arrays (`κ`) of the caller;
* `Memory.send`, `Memory.op`: what a caller does to them;
* `SendPath`: the memory, the queue and what was passed to `sendInLoop` by tasks and by direct
  calls;
* `Memory.Apart`: distinct objects and closures own distinct blocks, and the indices of each buffer
  are in order;
* `todo_after`: of all steps only an off-loop `send` changes what is and will be passed;
* `send_paths_agree`: its task passes what a call on the loop's thread would have passed.
-/

namespace Muduo

open Segment Blocks

variable {ι κ β : Type}

/-! ### The memory of the caller -/

/-- `data` is the block that an object owns: the vector of a buffer, the characters of a string. -/
structure Memory (ι κ β : Type) where
  heap : ℕ → List β
  next : ℕ
  data : ι ⊕ κ → ℕ
  readerIndex_ : ι → ℕ
  writerIndex_ : ι → ℕ

/-- The closure of a queued task: `[self, buf = std::move(tempBuf)]` or
`[self, msg = std::string(…)]`. -/
inductive SendTask
  | buffer (data readerIndex_ writerIndex_ : ℕ)
  | string (data : ℕ)
  deriving DecidableEq, Repr

namespace SendTask

/-- The block that the closure owns. -/
def data : SendTask → ℕ
  | .buffer data _ _ | .string data => data

/-- What the task passes to `sendInLoop`: `buf.peek(), buf.readableBytes()` or
`msg.data(), msg.size()`. -/
def args (heap : ℕ → List β) : SendTask → List β
  | .buffer data readerIndex_ writerIndex_ =>
      (⟨heap data, readerIndex_, writerIndex_⟩ : Buffer β).content
  | .string data => heap data

theorem args_congr {heap heap' : ℕ → List β} {task : SendTask}
    (h : heap' task.data = heap task.data) : task.args heap' = task.args heap := by
  cases task with
  | buffer data r w =>
    simp only [SendTask.data] at h
    simp only [args, h]
  | string data => exact h

end SendTask

/-- What `send` is called with.  A view, a C string and a pointer look into a block of the
caller. -/
inductive SendArg (ι κ : Type)
  /-- `send(Buffer*)`. -/
  | buffer (i : ι)
  /-- `send(StringLike&&)` with an lvalue string, or with `std::move` of one. -/
  | string (k : κ) (rvalue : Bool)
  /-- `send(StringLike&&)` with a `std::string_view`. -/
  | view (o : ι ⊕ κ) (start len : ℕ)
  /-- `send(StringLike&&)` with a `const char*`. -/
  | literal (o : ι ⊕ κ) (start : ℕ)
  /-- `send(const void*, size_t)`. -/
  | pointer (o : ι ⊕ κ) (start len : ℕ)
  deriving DecidableEq, Repr

/-- What a caller does to its own objects: a buffer gets any bytes and indices in its vector or in a
new one, a string likewise, and two of them are swapped. -/
inductive CallerOp (ι κ β : Type)
  | write (i : ι) (b : OkBuffer β)
  | renew (i : ι) (b : OkBuffer β)
  | assign (k : κ) (bytes : List β)
  | reassign (k : κ) (bytes : List β)
  | swapBuffers (i j : ι)
  | swapStrings (k l : κ)

namespace Memory

/-- The buffer that an object is at present. -/
def bufferAt (m : Memory ι κ β) (i : ι) : Buffer β :=
  ⟨m.heap (m.data (.inl i)), m.readerIndex_ i, m.writerIndex_ i⟩

/-- The string that an object is at present. -/
def stringAt (m : Memory ι κ β) (k : κ) : List β := m.heap (m.data (.inr k))

/-- The bytes `[p, p + len)` for `p` in the block of `o`. -/
def bytesAt (m : Memory ι κ β) (o : ι ⊕ κ) (start len : ℕ) : List β :=
  seg (m.heap (m.data o)) start len

/-- `std::strlen`. -/
def strlen [Inhabited β] [DecidableEq β] (m : Memory ι κ β) (o : ι ⊕ κ) (start : ℕ) : ℕ :=
  (((m.heap (m.data o)).drop start).takeWhile (· ≠ default)).length

/-- The bytes of the argument at the moment of the call, as `std::string_view sv(message)` or
`peek()` with `readableBytes()` give them. -/
def held [Inhabited β] [DecidableEq β] (m : Memory ι κ β) : SendArg ι κ → List β
  | .buffer i => (m.bufferAt i).content
  | .string k _ => m.stringAt k
  | .view o start len | .pointer o start len => m.bytesAt o start len
  | .literal o start => m.bytesAt o start (m.strlen o start)

/-- A view, a C string and a pointer stay inside the block. -/
def valid [Inhabited β] [DecidableEq β] (m : Memory ι κ β) : SendArg ι κ → Prop
  | .buffer _ | .string _ _ => True
  | .view o start len | .pointer o start len => start + len ≤ (m.heap (m.data o)).length
  | .literal o start => default ∈ (m.heap (m.data o)).drop start

instance [Inhabited β] [DecidableEq β] (m : Memory ι κ β) : DecidablePred m.valid := fun a => by
  cases a <;> unfold valid <;> infer_instance

variable [DecidableEq ι] [DecidableEq κ]

/-- Bytes are written to the block of an object. -/
def setBlock (m : Memory ι κ β) (o : ι ⊕ κ) (bytes : List β) : Memory ι κ β :=
  { m with heap := Function.update m.heap (m.data o) bytes }

/-- The object leaves its block for a new one. -/
def newBlock (m : Memory ι κ β) (o : ι ⊕ κ) (bytes : List β) : Memory ι κ β :=
  { m with
    heap := Function.update m.heap m.next bytes
    next := m.next + 1
    data := Function.update m.data o m.next }

/-- The indices of a buffer are set. -/
def setIndices (m : Memory ι κ β) (i : ι) (b : Buffer β) : Memory ι κ β :=
  { m with
    readerIndex_ := Function.update m.readerIndex_ i b.readerIndex_
    writerIndex_ := Function.update m.writerIndex_ i b.writerIndex_ }

/-- What the caller does to its own objects. -/
def op (m : Memory ι κ β) : CallerOp ι κ β → Memory ι κ β
  | .write i b => (m.setBlock (.inl i) b.1.buffer_).setIndices i b.1
  | .renew i b => (m.newBlock (.inl i) b.1.buffer_).setIndices i b.1
  | .assign k bytes => m.setBlock (.inr k) bytes
  | .reassign k bytes => m.newBlock (.inr k) bytes
  | .swapBuffers i j =>
      { m with
        data := fun o => m.data (Equiv.swap (.inl i) (.inl j) o)
        readerIndex_ := fun x => m.readerIndex_ (Equiv.swap i j x)
        writerIndex_ := fun x => m.writerIndex_ (Equiv.swap i j x) }
  | .swapStrings k l => { m with data := fun o => m.data (Equiv.swap (.inr k) (.inr l) o) }

/-- A new block that no object of the caller owns. -/
def alloc (m : Memory ι κ β) (bytes : List β) : Memory ι κ β :=
  { m with heap := Function.update m.heap m.next bytes, next := m.next + 1 }

/-- Distinct objects and the closures that own the blocks `lent` are apart, and the indices of every
buffer are in order. -/
structure Apart (m : Memory ι κ β) (lent : List ℕ) : Prop where
  separate : Separate m.data lent m.next
  inv : ∀ i, (m.bufferAt i).Inv

variable {m : Memory ι κ β} {lent : List ℕ} {p : ℕ}

/-! ### What the caller does to its objects -/

omit [DecidableEq κ] in
theorem bufferAt_setIndices_self {i : ι} {b : Buffer β} (h : m.heap (m.data (.inl i)) = b.buffer_) :
    (m.setIndices i b).bufferAt i = b := by
  simp only [bufferAt, setIndices, Function.update_self, h]

omit [DecidableEq κ] in
theorem bufferAt_setIndices_of_ne {i j : ι} {b : Buffer β} (hj : j ≠ i) :
    (m.setIndices i b).bufferAt j = m.bufferAt j := by
  simp only [bufferAt, setIndices, Function.update_of_ne hj]

omit [DecidableEq ι] [DecidableEq κ] in
theorem bufferAt_setBlock {o : ι ⊕ κ} {bytes : List β} {j : ι} (h : m.Apart lent)
    (hj : .inl j ≠ o) : (m.setBlock o bytes).bufferAt j = m.bufferAt j := by
  simp only [bufferAt, setBlock, h.separate.own_of_write hj]

theorem bufferAt_newBlock {o : ι ⊕ κ} {bytes : List β} {j : ι} (h : m.Apart lent)
    (hj : .inl j ≠ o) : (m.newBlock o bytes).bufferAt j = m.bufferAt j := by
  simp only [bufferAt, newBlock, Function.update_of_ne hj, h.separate.own_of_fresh]

theorem bufferAt_renew {i : ι} {b : OkBuffer β} : (m.op (.renew i b)).bufferAt i = b.1 := by
  apply bufferAt_setIndices_self
  simp only [newBlock, Function.update_self]

omit [DecidableEq κ] in
/-- A buffer that got the bytes and the indices of another one. -/
theorem inv_setIndices {i : ι} {b : Buffer β} (hb : b.Inv)
    (hi : m.heap (m.data (.inl i)) = b.buffer_) (hne : ∀ j, j ≠ i → (m.bufferAt j).Inv) (j : ι) :
    ((m.setIndices i b).bufferAt j).Inv := by
  by_cases hj : j = i
  · rw [hj, bufferAt_setIndices_self hi]
    exact hb
  · rw [bufferAt_setIndices_of_ne hj]
    exact hne j hj

theorem bufferAt_swapBuffers (i j x : ι) :
    (m.op (.swapBuffers i j)).bufferAt x = m.bufferAt (Equiv.swap i j x) := by
  simp only [bufferAt, op, Sum.inl_injective.swap_apply]

theorem bufferAt_swapStrings (k l : κ) (x : ι) :
    (m.op (.swapStrings k l)).bufferAt x = m.bufferAt x := by
  simp only [bufferAt, op, Equiv.swap_apply_of_ne_of_ne Sum.inl_ne_inr Sum.inl_ne_inr]

/-- The objects and the closures stay apart. -/
theorem Apart.op (h : m.Apart lent) (o : CallerOp ι κ β) : (m.op o).Apart lent := by
  cases o with
  | write i b =>
    refine ⟨h.separate, inv_setIndices b.2 ?_ fun j hj => ?_⟩
    · simp only [setBlock, Function.update_self]
    · rw [bufferAt_setBlock h (Sum.inl_injective.ne hj)]
      exact h.inv j
  | renew i b =>
    refine ⟨h.separate.renew _, inv_setIndices b.2 ?_ fun j hj => ?_⟩
    · simp only [newBlock, Function.update_self]
    · rw [bufferAt_newBlock h (Sum.inl_injective.ne hj)]
      exact h.inv j
  | assign k bytes =>
    refine ⟨h.separate, fun j => ?_⟩
    rw [Memory.op, bufferAt_setBlock h Sum.inl_ne_inr]
    exact h.inv j
  | reassign k bytes =>
    refine ⟨h.separate.renew _, fun j => ?_⟩
    rw [Memory.op, bufferAt_newBlock h Sum.inl_ne_inr]
    exact h.inv j
  | swapBuffers i j =>
    refine ⟨h.separate.permute (Equiv.swap _ _).injective, fun x => ?_⟩
    rw [bufferAt_swapBuffers]
    exact h.inv _
  | swapStrings k l =>
    refine ⟨h.separate.permute (Equiv.swap _ _).injective, fun x => ?_⟩
    rw [bufferAt_swapStrings]
    exact h.inv x

/-- A closure does not see what the caller does. -/
theorem Apart.heap_op (h : m.Apart lent) (hp : p ∈ lent) (o : CallerOp ι κ β) :
    (m.op o).heap p = m.heap p := by
  cases o with
  | write i b => exact h.separate.lent_of_write _ hp
  | renew i b => exact h.separate.lent_of_fresh hp
  | assign k bytes => exact h.separate.lent_of_write _ hp
  | reassign k bytes => exact h.separate.lent_of_fresh hp
  | swapBuffers i j => rfl
  | swapStrings k l => rfl

/-! ### What `send` does to the objects -/

/-- On the loop's thread only `send(Buffer*)` changes its argument: `buf->retrieveAll()`. -/
def consume (m : Memory ι κ β) : SendArg ι κ → Memory ι κ β
  | .buffer i => m.setIndices i (m.bufferAt i).retrieveAll
  | _ => m

omit [DecidableEq κ] in
theorem Apart.consume (h : m.Apart lent) (arg : SendArg ι κ) : (m.consume arg).Apart lent := by
  cases arg with
  | buffer i =>
    exact ⟨h.separate, inv_setIndices (Buffer.inv_retrieveAll (h.inv i)) rfl fun j _ => h.inv j⟩
  | string k rvalue => exact h
  | view o start len => exact h
  | literal o start => exact h
  | pointer o start len => exact h

omit [DecidableEq ι] [DecidableEq κ] in
theorem Apart.alloc (h : m.Apart lent) (bytes : List β) :
    (m.alloc bytes).Apart (lent ++ [m.next]) := by
  refine ⟨h.separate.lend, fun i => ?_⟩
  have hi : (m.alloc bytes).bufferAt i = m.bufferAt i := by
    simp only [bufferAt, Memory.alloc, h.separate.own_of_fresh]
  rw [hi]
  exact h.inv i

variable [Inhabited β] [DecidableEq β]

/-- On another thread the closure is made.  `tempBuf.swap(*buf)` leaves the caller a new buffer and
takes the vector of the old one; a string given as an rvalue is moved from, which leaves it empty;
anything else is copied. -/
def capture (m : Memory ι κ β) : SendArg ι κ → Memory ι κ β × SendTask
  | .buffer i =>
      (m.op (.renew i .empty), .buffer (m.data (.inl i)) (m.readerIndex_ i) (m.writerIndex_ i))
  | .string k true => (m.op (.reassign k []), .string (m.data (.inr k)))
  | arg => (m.alloc (m.held arg), .string m.next)

/-- The block of the closure is its own. -/
theorem Apart.capture (h : m.Apart lent) (arg : SendArg ι κ) :
    (m.capture arg).1.Apart (lent ++ [(m.capture arg).2.data]) := by
  cases arg with
  | buffer i => exact ⟨h.separate.give _, (h.op (.renew i .empty)).inv⟩
  | string k rvalue =>
    cases rvalue with
    | true => exact ⟨h.separate.give _, (h.op (.reassign k [])).inv⟩
    | false => exact h.alloc _
  | view o start len => exact h.alloc _
  | literal o start => exact h.alloc _
  | pointer o start len => exact h.alloc _

/-- Making a closure does not disturb the others. -/
theorem Apart.heap_capture (h : m.Apart lent) (hp : p ∈ lent) (arg : SendArg ι κ) :
    (m.capture arg).1.heap p = m.heap p := by
  have hfresh : ∀ bytes, Function.update m.heap m.next bytes p = m.heap p := fun _ =>
    h.separate.lent_of_fresh hp
  cases arg with
  | buffer i => exact hfresh _
  | string k rvalue => cases rvalue <;> exact hfresh _
  | view o start len => exact hfresh _
  | literal o start => exact hfresh _
  | pointer o start len => exact hfresh _

/-- The closure owns the bytes of the argument. -/
theorem Apart.args_capture (h : m.Apart lent) (arg : SendArg ι κ) :
    (m.capture arg).2.args (m.capture arg).1.heap = m.held arg := by
  have hfresh : ∀ bytes o, Function.update m.heap m.next bytes (m.data o) = m.heap (m.data o) :=
    fun _ => h.separate.own_of_fresh
  have hcopy : ∀ bytes : List β, (m.alloc bytes).heap m.next = bytes := fun _ =>
    Function.update_self _ _ _
  cases arg with
  | buffer i => exact SendTask.args_congr (hfresh _ (.inl i))
  | string k rvalue =>
    cases rvalue with
    | true => exact hfresh _ (.inr k)
    | false => exact hcopy _
  | view o start len => exact hcopy _
  | literal o start => exact hcopy _
  | pointer o start len => exact hcopy _

end Memory

/-! ### The queue -/

/-- The memory of the callers and one connection on its loop. -/
structure SendPath (ι κ β : Type) where
  state_ : StateE
  memory : Memory ι κ β
  pendingFunctors_ : List SendTask
  /-- What the tasks that ran passed to `sendInLoop`. -/
  passed : List (List β)
  /-- What `send` passed to `sendInLoop` on the loop's thread. -/
  direct : List (List β)

namespace SendPath

/-- A `send`, a task of the loop, or what happens between them. -/
inductive Label (ι κ β : Type)
  | send (inLoop : Bool) (arg : SendArg ι κ)
  /-- The loop runs the next task. -/
  | task
  | caller (o : CallerOp ι κ β)
  /-- Some other function of the connection. -/
  | setState (state : StateE)

variable [DecidableEq ι] [DecidableEq κ] [Inhabited β] [DecidableEq β]

/-- `send(Buffer*)` and `send(StringLike&&)`; `send(const void*, size_t)` is the latter with a
view. -/
def send (s : SendPath ι κ β) (inLoop : Bool) (arg : SendArg ι κ) : SendPath ι κ β :=
  if s.state_ = .kConnected then
    if inLoop then
      { s with direct := s.direct ++ [s.memory.held arg], memory := s.memory.consume arg }
    else
      { s with
        memory := (s.memory.capture arg).1
        pendingFunctors_ := s.pendingFunctors_ ++ [(s.memory.capture arg).2] }
  else s

/-- An argument of `send` is valid; a task runs when there is one. -/
def enabled (s : SendPath ι κ β) : Label ι κ β → Prop
  | .send _ arg => s.memory.valid arg
  | .task => s.pendingFunctors_ ≠ []
  | .caller _ | .setState _ => True

instance (s : SendPath ι κ β) : DecidablePred s.enabled := fun l => by
  cases l <;> unfold enabled <;> infer_instance

/-- What a step does. -/
def after (s : SendPath ι κ β) : Label ι κ β → SendPath ι κ β
  | .send inLoop arg => s.send inLoop arg
  | .task =>
      match s.pendingFunctors_ with
      | [] => s
      | task :: rest =>
          { s with
            pendingFunctors_ := rest
            passed := s.passed ++ [task.args s.memory.heap] }
  | .caller o => { s with memory := s.memory.op o }
  | .setState state => { s with state_ := state }

/-- One step. -/
def step (s : SendPath ι κ β) (l : Label ι κ β) : Option (SendPath ι κ β) :=
  Lts.guarded enabled after s l

/-- The objects of the callers and the closures in the queue are apart. -/
def Apart (s : SendPath ι κ β) : Prop := s.memory.Apart (s.pendingFunctors_.map SendTask.data)

/-- What the tasks in the queue are going to pass, by the heap as it is. -/
def queued (s : SendPath ι κ β) : List (List β) :=
  s.pendingFunctors_.map (SendTask.args s.memory.heap)

/-- What the tasks passed and what they are going to pass. -/
def todo (s : SendPath ι κ β) : List (List β) := s.passed ++ s.queued

/-- What a step adds to `todo`. -/
def adds (s : SendPath ι κ β) : Label ι κ β → List (List β)
  | .send false arg => if s.state_ = .kConnected then [s.memory.held arg] else []
  | _ => []

variable {s t : SendPath ι κ β} {l : Label ι κ β} {ls : List (Label ι κ β)} {arg : SendArg ι κ}
  {inLoop : Bool}

theorem send_of_ne (h : s.state_ ≠ .kConnected) : s.send inLoop arg = s := if_neg h

theorem send_direct (h : s.state_ = .kConnected) : s.send true arg =
    { s with direct := s.direct ++ [s.memory.held arg], memory := s.memory.consume arg } := by
  rw [send, if_pos h, if_pos rfl]

theorem send_queued (h : s.state_ = .kConnected) : s.send false arg =
    { s with
      memory := (s.memory.capture arg).1
      pendingFunctors_ := s.pendingFunctors_ ++ [(s.memory.capture arg).2] } := by
  rw [send, if_pos h, if_neg Bool.false_ne_true]

omit [DecidableEq ι] [DecidableEq κ] [Inhabited β] [DecidableEq β] in
/-- A memory in which the queued closures look as before. -/
theorem queued_congr {m : Memory ι κ β}
    (h : ∀ p ∈ s.pendingFunctors_.map SendTask.data, m.heap p = s.memory.heap p) :
    s.pendingFunctors_.map (SendTask.args m.heap) = s.queued := by
  apply List.map_congr_left
  intro task htask
  exact SendTask.args_congr (h _ (List.mem_map_of_mem htask))

theorem Apart.send (h : s.Apart) : (s.send inLoop arg).Apart := by
  by_cases hc : s.state_ = .kConnected
  · cases inLoop with
    | true =>
      rw [send_direct hc]
      exact Memory.Apart.consume h arg
    | false =>
      rw [send_queued hc]
      have := Memory.Apart.capture h arg
      rwa [Apart, List.map_append]
  · rwa [send_of_ne hc]

theorem Apart.after (h : s.Apart) (l : Label ι κ β) : (s.after l).Apart := by
  cases l with
  | send inLoop arg => exact h.send
  | task =>
    cases hp : s.pendingFunctors_ with
    | nil =>
      simp only [SendPath.after, hp]
      exact h
    | cons task rest =>
      simp only [SendPath.after, hp]
      have h' : s.memory.Apart (task.data :: rest.map SendTask.data) := by
        rwa [Apart, hp, List.map_cons] at h
      exact ⟨h'.separate.drop, h'.inv⟩
  | caller o => exact Memory.Apart.op h o
  | setState state => exact h

/-- Of all steps only a `send` off the loop changes what is or will be passed, and it adds the bytes
that its argument has at the moment of the call. -/
theorem todo_after (h : s.Apart) (l : Label ι κ β) : (s.after l).todo = s.todo ++ s.adds l := by
  cases l with
  | send inLoop arg =>
    by_cases hc : s.state_ = .kConnected
    · cases inLoop with
      | true =>
        have hheap : (s.memory.consume arg).heap = s.memory.heap := by cases arg <;> rfl
        simp only [SendPath.after, send_direct hc, todo, queued, hheap, adds, List.append_nil]
      | false =>
        have hold := queued_congr fun p hp => Memory.Apart.heap_capture h hp arg
        simp only [SendPath.after, send_queued hc, todo, adds, if_pos hc, queued, List.map_append,
          List.map_cons, List.map_nil, Memory.Apart.args_capture h, List.append_assoc]
        rw [hold, queued]
    · have hadds : s.adds (.send inLoop arg) = [] := by
        cases inLoop with
        | true => rfl
        | false => exact if_neg hc
      rw [hadds, List.append_nil, SendPath.after, send_of_ne hc]
  | task =>
    cases hp : s.pendingFunctors_ with
    | nil => simp only [SendPath.after, hp, adds, List.append_nil]
    | cons task rest =>
      simp only [SendPath.after, hp, todo, queued, adds, List.map_cons, List.append_nil,
        List.append_assoc, List.singleton_append]
  | caller o =>
    have hold := queued_congr fun p hp => Memory.Apart.heap_op h hp o
    simp only [SendPath.after, todo, queued, adds, List.append_nil]
    rw [hold, queued]
  | setState state => exact (List.append_nil _).symm

/-- Along a run `todo` only grows. -/
theorem todo_prefix (h : s.Apart) (hrun : Lts.exec step s ls = some t) : s.todo <+: t.todo := by
  have hinv : t.Apart ∧ s.todo <+: t.todo := by
    refine Lts.exec_inv' (I := fun u => u.Apart ∧ s.todo <+: u.todo) ?_ ⟨h, List.prefix_rfl⟩ hrun
    intro u l v hu hstep
    obtain ⟨-, rfl⟩ := Lts.guarded_eq_some.1 hstep
    refine ⟨hu.1.after l, hu.2.trans ?_⟩
    rw [todo_after hu.1]
    exact List.prefix_append _ _
  exact hinv.2

/-- The queue of `Session`, where a task holds the bytes themselves. -/
def tasks (s : SendPath ι κ β) : List (Task β) := s.queued.map .sendInLoop

/-- An off-loop `send` queues what the thread of `Session` queues that sends the bytes of the
argument. -/
theorem tasks_send (h : s.Apart) (hc : s.state_ = .kConnected) :
    (s.send false arg).tasks =
      s.tasks ++ (Caller.sending (s.memory.held arg)).task.toList := by
  have hpassed : (s.send false arg).passed = s.passed := by rw [send_queued hc]
  have htodo : (s.send false arg).todo = s.todo ++ s.adds (.send false arg) :=
    todo_after h (.send false arg)
  have hqueued : (s.send false arg).queued = s.queued ++ [s.memory.held arg] := by
    rw [todo, todo, adds, if_pos hc, hpassed, List.append_assoc] at htodo
    exact List.append_cancel_left htodo
  rw [tasks, hqueued, List.map_append]
  rfl

omit [DecidableEq ι] [DecidableEq κ] [Inhabited β] [DecidableEq β] in
theorem passed_of_todo {n : ℕ} (hn : n < t.passed.length) : t.passed[n]? = t.todo[n]? := by
  rw [todo, List.getElem?_append_left hn]

/-- After `send(Buffer*)` the caller has an empty buffer, its own one or the one that was swapped
in. -/
theorem bufferAt_send (hc : s.state_ = .kConnected) (i : ι) :
    ((s.send inLoop (.buffer i)).memory.bufferAt i).content = [] := by
  cases inLoop with
  | true =>
    rw [send_direct hc]
    have hb : (s.memory.consume (.buffer i)).bufferAt i = (s.memory.bufferAt i).retrieveAll :=
      Memory.bufferAt_setIndices_self rfl
    rw [hb, Buffer.content_retrieveAll]
  | false =>
    rw [send_queued hc]
    have hb : (s.memory.capture (.buffer i)).1.bufferAt i = (OkBuffer.empty : OkBuffer β).1 :=
      Memory.bufferAt_renew
    rw [hb]
    exact OkBuffer.content_empty

/-! ### Both paths pass the same bytes -/

/-- A connection in any state, no task in its queue, and the objects of the callers. -/
def init (state : StateE) (m : {m : Memory ι κ β // m.Apart []}) : SendPath ι κ β where
  state_ := state
  memory := m.1
  pendingFunctors_ := []
  passed := []
  direct := []

theorem apart_of_exec {state : StateE} {m : {m : Memory ι κ β // m.Apart []}}
    (hrun : Lts.exec step (init state m) ls = some s) : s.Apart := by
  have hinit : (init state m).Apart := m.2
  refine Lts.exec_inv' ?_ hinit hrun
  intro u l v hu hstep
  obtain ⟨-, rfl⟩ := Lts.guarded_eq_some.1 hstep
  exact hu.after l

/-- The task of an off-loop `send` passes the bytes that the argument had when `send` was called,
whatever is done until it runs: those that `send` passes at once on the loop's thread.  Either way
the buffer of a `send(Buffer*)` is empty and in order afterwards, and unless the connection is
`kConnected` nothing happens. -/
theorem send_paths_agree {state : StateE} {m : {m : Memory ι κ β // m.Apart []}}
    (hrun : Lts.exec step (init state m) ls = some s) (arg : SendArg ι κ) :
    (s.state_ = .kConnected →
      (s.send true arg).direct = s.direct ++ [s.memory.held arg] ∧
      ∀ ls' t, Lts.exec step s (.send false arg :: ls') = some t →
        s.passed.length + s.pendingFunctors_.length < t.passed.length →
        t.passed[s.passed.length + s.pendingFunctors_.length]? = some (s.memory.held arg)) ∧
    (s.state_ = .kConnected → ∀ i inLoop, arg = .buffer i →
      ((s.send inLoop arg).memory.bufferAt i).content = [] ∧
      ((s.send inLoop arg).memory.bufferAt i).Inv) ∧
    (s.state_ ≠ .kConnected → ∀ inLoop, s.send inLoop arg = s) := by
  have hs := apart_of_exec hrun
  refine ⟨fun hc => ⟨?_, ?_⟩, ?_, fun hc _ => send_of_ne hc⟩
  · rw [send_direct hc]
  · intro ls' t hexec hlen
    obtain ⟨-, hut⟩ := Lts.guarded_exec_cons.1 hexec
    have hlast : (s.after (.send false arg)).todo = s.todo ++ [s.memory.held arg] := by
      rw [todo_after hs, adds, if_pos hc]
    have hsize : s.todo.length = s.passed.length + s.pendingFunctors_.length := by
      rw [todo, queued, List.length_append, List.length_map]
    -- the bytes stand right behind all that was to be passed before the call
    obtain ⟨rest, hrest⟩ := todo_prefix (hs.after (.send false arg)) hut
    rw [passed_of_todo hlen, ← hrest, hlast, List.append_assoc, ← hsize,
      List.getElem?_append_right le_rfl, Nat.sub_self]
    rfl
  · rintro hc i inLoop rfl
    exact ⟨bufferAt_send hc i, hs.send.inv i⟩

/-- A buffer with the bytes `1, 2, 3` and a string with a zero byte in it. -/
def twoObjects : {m : Memory Unit Unit ℕ // m.Apart []} where
  val :=
    { heap := fun p => if p = 0 then [0, 0, 0, 0, 0, 0, 0, 0, 1, 2, 3] else [7, 0, 7]
      next := 2
      data := Sum.elim (fun _ => 0) fun _ => 1
      readerIndex_ := fun _ => 8
      writerIndex_ := fun _ => 11 }
  property := by
    refine ⟨⟨by decide, by decide, by decide, by decide⟩, ?_⟩
    rintro ⟨⟩
    constructor <;> decide

/-- The string goes first, by a move, then the buffer; the caller fills both again before the tasks
run. -/
theorem send_paths_agree_refilled :
    ∃ s, Lts.exec step (init .kConnected twoObjects) [.send false (.string () true)] = some s ∧
      ∃ t, Lts.exec step s
        [.send false (.buffer ()), .caller (.write () (OkBuffer.empty.append [9])),
        .caller (.assign () [9]), .task, .task] = some t ∧ t.passed[1]? = some [1, 2, 3] := by
  have hany : (Lts.exec step (init .kConnected twoObjects) [.send false (.string () true)]).any
      (fun s => (Lts.exec step s [.send false (.buffer ()),
        .caller (.write () (OkBuffer.empty.append [9])), .caller (.assign () [9]), .task,
        .task]).any
        fun t => decide (s.state_ = .kConnected ∧
          s.passed.length + s.pendingFunctors_.length = 1 ∧
          s.memory.held (.buffer ()) = [1, 2, 3] ∧ 1 < t.passed.length)) = true := by
    decide +kernel
  obtain ⟨s, hs, hp⟩ := Lts.exec_of_any hany
  obtain ⟨t, ht, hprop⟩ := Lts.exec_of_any hp
  obtain ⟨hc, hn, hheld, hlen⟩ := of_decide_eq_true hprop
  refine ⟨s, hs, t, ht, ?_⟩
  have htask := ((send_paths_agree hs (.buffer ())).1 hc).2 _ t ht (hn ▸ hlen)
  rwa [hn, hheld] at htask

end SendPath

end Muduo
