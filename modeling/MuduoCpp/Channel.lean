import MuduoCpp.Lib.Mask

/-!
# `include/Channel.h`, `src/Channel.cc`

A channel is an fd with the events its owner is interested in (`events_`), the events the poller
reported (`revents_`), and the poller's bookkeeping (`index_`).  The callbacks themselves belong
to the owner; `handleEventWithGuard` says which of them run for a mask, and in which order.
-/

namespace Muduo

open Mask

/-- An epoll event mask (`int events_`, `uint32_t epoll_event::events`). -/
abbrev Events := BitVec 32

/-- `EPOLLIN` of `<sys/epoll.h>`: there is something to read. -/
def EPOLLIN : Events := 0x001#32

/-- There is urgent data to read. -/
def EPOLLPRI : Events := 0x002#32

/-- There is room to write. -/
def EPOLLOUT : Events := 0x004#32

/-- An error at the fd; it is reported unasked. -/
def EPOLLERR : Events := 0x008#32

/-- A hang-up of the peer; it is reported unasked. -/
def EPOLLHUP : Events := 0x010#32

/-- The three values of `index_` (`-1`, `1`, `2`), named in `EPollPoller.cc`. -/
inductive Index
  | kNew
  | kAdded
  | kDeleted
  deriving DecidableEq, Repr

/-- The four callbacks of a channel. -/
inductive Callback
  | closeCallback_
  | errorCallback_
  | readCallback_
  | writeCallback_
  deriving DecidableEq, Repr

/-- The place of a callback in the order of the four tests. -/
def Callback.rank : Callback → ℕ
  | .closeCallback_ => 0
  | .errorCallback_ => 1
  | .readCallback_ => 2
  | .writeCallback_ => 3

/-- `Channel`, without its loop and its callbacks. -/
structure Channel where
  fd_ : ℤ
  events_ : Events
  revents_ : Events
  index_ : Index
  tied_ : Bool
  deriving DecidableEq, Repr

namespace Channel

/-- `Channel::kNoneEvent`. -/
def kNoneEvent : Events := 0

/-- `Channel::kReadEvent`. -/
def kReadEvent : Events := EPOLLIN ||| EPOLLPRI

/-- `Channel::kWriteEvent`. -/
def kWriteEvent : Events := EPOLLOUT

/-- The constructor. -/
def ofFd (fd : ℤ) : Channel where
  fd_ := fd
  events_ := 0
  revents_ := 0
  index_ := .kNew
  tied_ := false

/-! The setters below change `events_` only; the call of `update()` that ends each of them is made
by the caller, who knows the poller. -/

/-- Asks for reads. -/
def enableReading (c : Channel) : Channel := { c with events_ := c.events_ ||| kReadEvent }

/-- Asks for reads no more. -/
def disableReading (c : Channel) : Channel := { c with events_ := c.events_ &&& ~~~kReadEvent }

/-- Asks for writes. -/
def enableWriting (c : Channel) : Channel := { c with events_ := c.events_ ||| kWriteEvent }

/-- Asks for writes no more. -/
def disableWriting (c : Channel) : Channel := { c with events_ := c.events_ &&& ~~~kWriteEvent }

/-- Asks for nothing. -/
def disableAll (c : Channel) : Channel := { c with events_ := kNoneEvent }

/-- Nothing is asked for. -/
def isNoneEvent (c : Channel) : Bool := c.events_ == kNoneEvent

/-- Writes are asked for: one bit of `kWriteEvent` is enough. -/
def isWriting (c : Channel) : Bool := has c.events_ kWriteEvent

/-- Reads are asked for: one bit of `kReadEvent` is enough. -/
def isReading (c : Channel) : Bool := has c.events_ kReadEvent

/-- The callbacks that run for the reported mask.  The four tests are made one after the other and
none of them ends the function; `revents_` is only written by the poller, so a callback cannot
change the tests that follow it. -/
def handleEventWithGuard (revents_ : Events) : List Callback :=
  (if has revents_ EPOLLHUP && !has revents_ EPOLLIN then [.closeCallback_] else []) ++
  (if has revents_ EPOLLERR then [.errorCallback_] else []) ++
  (if has revents_ (EPOLLIN ||| EPOLLPRI) then [.readCallback_] else []) ++
  (if has revents_ EPOLLOUT then [.writeCallback_] else [])

/-- `alive`: `tie_.lock()` gives a pointer. -/
def handleEvent (c : Channel) (alive : Bool) : List Callback :=
  if c.tied_ then if alive then handleEventWithGuard c.revents_ else []
  else handleEventWithGuard c.revents_

/-! ### Interest after each setter -/

variable (c : Channel)

theorem isNoneEvent_iff : c.isNoneEvent = true ↔ c.events_ = 0 := by
  simp [isNoneEvent, kNoneEvent]

@[simp] theorem isWriting_enableWriting : c.enableWriting.isWriting = true :=
  has_set (by decide)

@[simp] theorem isWriting_disableWriting : c.disableWriting.isWriting = false := has_clear

@[simp] theorem isWriting_disableAll : c.disableAll.isWriting = false := has_zero

@[simp] theorem isWriting_enableReading : c.enableReading.isWriting = c.isWriting :=
  has_set_disjoint (by decide)

@[simp] theorem isReading_enableReading : c.enableReading.isReading = true :=
  has_set (by decide)

@[simp] theorem isReading_enableWriting : c.enableWriting.isReading = c.isReading :=
  has_set_disjoint (by decide)

@[simp] theorem isReading_disableWriting : c.disableWriting.isReading = c.isReading :=
  has_clear_disjoint (by decide)

@[simp] theorem isReading_disableAll : c.disableAll.isReading = false := has_zero

theorem events_ne_zero_of_isReading {c : Channel} (h : c.isReading = true) : c.events_ ≠ 0 :=
  ne_zero_of_has h

/-! ### Which callbacks a mask can run -/

/-- `closeCallback_` runs for `m`. -/
def closes (m : Events) : Bool := has m EPOLLHUP && !has m EPOLLIN

theorem closeCallback_mem_iff {m : Events} :
    .closeCallback_ ∈ handleEventWithGuard m ↔ closes m = true := by
  unfold handleEventWithGuard closes
  split_ifs with h <;> simp [h]

theorem pairwise_rank (m : Events) :
    (handleEventWithGuard m).Pairwise fun x y => x.rank < y.rank := by
  unfold handleEventWithGuard
  split_ifs <;> simp [Callback.rank]

/-- The callbacks that follow `x` are those tested for after it. -/
theorem rank_lt_of_suffix {x y : Callback} {rest : List Callback} {m : Events}
    (h : x :: rest <:+ handleEventWithGuard m) (hy : y ∈ rest) : x.rank < y.rank :=
  (List.pairwise_cons.1 ((pairwise_rank m).sublist h.sublist)).1 y hy

end Channel

end Muduo
