import MuduoCpp.Lib.Run
import MuduoCpp.Buffer

/-!
# Runs of calls on one buffer

`readFd` in full (its two iovecs, `extrabuf`, the returned value and `*saveErrno`), and a buffer
under any sequence of calls.

* `readFdIovec_appends`: whatever `readv` delivers ends up behind the old content;
* `size_bounded`: a buffer whose unread data stays bounded stays bounded itself;
* `retrieveAsString_exact_iff`: the string that is returned is what is taken off exactly when there
  is as much to take.
-/

namespace Muduo

open Segment

/-! ### `readv` -/

/-- What `::readv` answers: the bytes it delivered, or an error. -/
inductive Readv (β : Type)
  | bytes (got : List β)
  | error (errno : ℕ)

namespace Readv

variable {β : Type}

/-- The returned value. -/
def n : Readv β → ℤ
  | .bytes got => got.length
  | .error _ => -1

/-- The bytes that `readv` delivered. -/
def got : Readv β → List β
  | .bytes got => got
  | .error _ => []

/-- The answers of a stream that holds the bytes `pending` and, if `fin`, has ended behind them: at
most what there is, and nothing at all only if no space is offered or the stream has ended. -/
def Answers (space : ℕ) (pending : List β) (fin : Bool) : Readv β → Prop
  | .bytes got => got <+: pending ∧ (got = [] → space = 0 ∨ (pending = [] ∧ fin = true))
  | .error _ => True

end Readv

namespace Buffer

variable {β : Type}

/-- The `iov_len` of the `iovcnt` areas that `readFd` offers. -/
def vec (b : Buffer β) : List ℕ :=
  if b.writableBytes < extrabufSize then [b.writableBytes, extrabufSize] else [b.writableBytes]

/-- The buffer after `readFd`, the returned value and `*saveErrno`. -/
structure ReadFd (β : Type) where
  buffer : Buffer β
  n : ℤ
  saveErrno : ℕ

/-- `readFd` with all that it reads and writes; `n` is not negative where it is compared with
`writable`, so that the conversion to `size_t` keeps it. -/
def readFdIovec [Inhabited β] (b : Buffer β) (extrabuf : List β) (saveErrno : ℕ) :
    Readv β → ReadFd β
  | .error errno => ⟨b, -1, errno⟩
  | .bytes got =>
      let writable := b.writableBytes
      let areas := scatter b.vec got
      let b := { b with buffer_ := blit b.buffer_ b.writerIndex_ (areas.getD 0 []) }
      let extrabuf := blit extrabuf 0 (areas.getD 1 [])
      if got.length ≤ writable then
        ⟨{ b with writerIndex_ := b.writerIndex_ + got.length }, got.length, saveErrno⟩
      else
        ⟨{ b with writerIndex_ := b.buffer_.length : Buffer β }.append
          (extrabuf.take (got.length - writable)), got.length, saveErrno⟩

variable {b : Buffer β}

theorem sum_vec : b.vec.sum = b.readSpace := by
  unfold vec readSpace
  split_ifs <;> simp

/-- The space offered is never smaller than `extrabuf`. -/
theorem extrabufSize_le_readSpace : extrabufSize ≤ b.readSpace := by
  unfold readSpace
  split_ifs <;> omega

theorem vec_of_lt_length {got : List β} (hgot : got.length ≤ b.readSpace)
    (hlt : b.writableBytes < got.length) : b.vec = [b.writableBytes, extrabufSize] := by
  unfold readSpace at hgot
  split_ifs at hgot with hsmall
  · exact if_pos hsmall
  · omega

variable [Inhabited β]

/-- What is scattered over the two areas is put together again: nothing of what `extrabuf` held
before gets into the buffer. -/
theorem readFdIovec_bytes (h : b.Inv) {extrabuf got : List β} {saveErrno : ℕ}
    (hgot : got.length ≤ b.readSpace) :
    b.readFdIovec extrabuf saveErrno (.bytes got) = ⟨b.readFd got, got.length, saveErrno⟩ := by
  have hw := h.writer_le
  unfold readFdIovec readFd
  simp only
  split_ifs with hle
  · -- everything lies in the first area, whether or not there is a second one
    have harea : (scatter b.vec got).getD 0 [] = got := by
      unfold vec
      split_ifs <;> simp [scatter, List.take_of_length_le hle]
    rw [harea]
  · have hlt : b.writableBytes < got.length := Nat.lt_of_not_le hle
    have hvec := vec_of_lt_length hgot hlt
    have hsum : got.length ≤ b.writableBytes + extrabufSize := by
      simpa [← sum_vec, hvec] using hgot
    have hfill : (blit b.buffer_ b.writerIndex_ (got.take b.writableBytes)).length =
        b.buffer_.length := by
      have := fill_to_end h (Nat.le_of_not_le hle)
      rw [length_blit (by omega)]
    have hrest : (got.drop b.writableBytes).take extrabufSize = got.drop b.writableBytes := by
      rw [List.take_of_length_le]
      rw [List.length_drop]
      omega
    have hextra' : (blit extrabuf 0 (got.drop b.writableBytes)).take
        (got.length - b.writableBytes) = got.drop b.writableBytes := by
      have hseg : seg (blit extrabuf 0 (got.drop b.writableBytes)) 0
          (got.drop b.writableBytes).length = got.drop b.writableBytes :=
        seg_blit_self (Nat.zero_le _)
      simpa [seg] using hseg
    rw [hvec]
    simp only [scatter, List.getD_cons_zero, List.getD_cons_succ, hfill, hrest, hextra']

@[simp] theorem readFd_nil : b.readFd [] = b := by
  simp [readFd, blit_nil]

end Buffer

namespace Buffer

variable {β : Type}

/-- One call of a member function. -/
inductive Call (β : Type)
  | append (data : List β)
  | ensureWritableBytes (len : ℕ)
  | readFd (r : Readv β)
  | retrieve (len : ℕ)
  | retrieveAll
  | retrieveAsString (len : ℕ)
  | retrieveAllAsString

variable [Inhabited β]

/-- The buffer after the call. -/
def call (b : Buffer β) : Call β → Buffer β
  | .append data => b.append data
  | .ensureWritableBytes len => b.ensureWritableBytes len
  | .readFd r => b.readFd r.got
  | .retrieve len => b.retrieve len
  | .retrieveAll => b.retrieveAll
  | .retrieveAsString len => (b.retrieveAsString len).2
  | .retrieveAllAsString => b.retrieveAllAsString.2

/-- A call is always possible. -/
def step (b : Buffer β) (c : Call β) : Option (Buffer β) := some (b.call c)

variable {b : Buffer β}

theorem inv_call (h : b.Inv) (c : Call β) : (b.call c).Inv := by
  cases c with
  | append data => exact inv_append h data
  | ensureWritableBytes len => exact inv_ensureWritableBytes h len
  | readFd r => exact inv_readFd h r.got
  | retrieve len => exact inv_retrieve h len
  | retrieveAll => exact inv_retrieveAll h
  | retrieveAsString len => exact inv_retrieve h len
  | retrieveAllAsString => exact inv_retrieve h _

/-- What the requests for space amount to: `readFd` makes one for what did not fit into the
writable area, with the vector filled up. -/
def Within (M : ℕ) (b : Buffer β) : Call β → Prop
  | .append data => b.readableBytes + data.length ≤ M
  | .ensureWritableBytes len => b.readableBytes + len ≤ M
  | .readFd r => b.writableBytes < r.got.length → b.readableBytes + r.got.length ≤ M
  | _ => True

instance (M : ℕ) (b : Buffer β) : DecidablePred (Within M b)
  | .append data => inferInstanceAs (Decidable (b.readableBytes + data.length ≤ M))
  | .ensureWritableBytes len => inferInstanceAs (Decidable (b.readableBytes + len ≤ M))
  | .readFd r => inferInstanceAs
      (Decidable (b.writableBytes < r.got.length → b.readableBytes + r.got.length ≤ M))
  | .retrieve _ | .retrieveAll | .retrieveAsString _ | .retrieveAllAsString => isTrue trivial

/-- The growing branch is only taken when the consumed prefix is shorter than the request; the other
branch leaves the vector as large as it was. -/
theorem size_ensureWritableBytes (h : b.Inv) {len M : ℕ} (hM : b.readableBytes + len ≤ M) :
    (b.ensureWritableBytes len).buffer_.length ≤ max b.buffer_.length (2 * M + 8) := by
  unfold ensureWritableBytes
  split_ifs with hlt
  · unfold makeSpace
    split_ifs with hgrow
    · have hr := h.reader_le
      unfold writableBytes at hlt
      unfold prependableBytes kCheapPrepend at hgrow
      unfold readableBytes at hM
      show (resize b.buffer_ (b.writerIndex_ + len)).length ≤ _
      rw [resize_of_le (by omega), List.length_append, List.length_replicate]
      omega
    · show (copyForward _ _ _ _).length ≤ _
      rw [h.copy_content, h.length_copy_content]
      exact le_max_left _ _
  · exact le_max_left _ _

theorem length_append (h : b.Inv) (data : List β) :
    (b.append data).buffer_.length = (b.ensureWritableBytes data.length).buffer_.length := by
  have hroom := le_writableBytes_ensureWritableBytes h data.length
  have hw := (inv_ensureWritableBytes h data.length).writer_le
  unfold writableBytes at hroom
  exact length_blit (by omega)

theorem size_append (h : b.Inv) {data : List β} {M : ℕ}
    (hM : b.readableBytes + data.length ≤ M) :
    (b.append data).buffer_.length ≤ max b.buffer_.length (2 * M + 8) := by
  rw [length_append h]
  exact size_ensureWritableBytes h hM

theorem size_readFd (h : b.Inv) {got : List β} {M : ℕ}
    (hM : b.writableBytes < got.length → b.readableBytes + got.length ≤ M) :
    (b.readFd got).buffer_.length ≤ max b.buffer_.length (2 * M + 8) := by
  have hr := h.reader_le
  have hw := h.writer_le
  unfold readFd
  simp only
  split_ifs with hle
  · show (blit _ _ _).length ≤ _
    unfold writableBytes at hle
    rw [length_blit (by omega)]
    exact le_max_left _ _
  · have hlt := Nat.lt_of_not_le hle
    have hfill := fill_to_end h (Nat.le_of_not_le hle)
    have hM := hM hlt
    unfold readableBytes at hM
    -- the append finds the vector full: what is readable and what it asks for add up to the same
    have hreq : b.buffer_.length - b.readerIndex_ + (got.drop b.writableBytes).length ≤ M := by
      rw [List.length_drop]
      unfold writableBytes at hlt ⊢
      omega
    rw [hfill] at hreq
    have happend := size_append (inv_fill h (List.length_take_le b.writableBytes got)) hreq
    rw [show (blit b.buffer_ b.writerIndex_ (got.take b.writableBytes)).length =
      b.buffer_.length from length_blit (by omega)] at happend
    rw [← hfill] at happend
    exact happend

theorem size_call (h : b.Inv) {c : Call β} {M : ℕ} (hc : Within M b c) :
    (b.call c).buffer_.length ≤ max b.buffer_.length (2 * M + 8) := by
  have hretrieve : ∀ len, (b.retrieve len).buffer_.length ≤ max b.buffer_.length (2 * M + 8) := by
    intro len
    unfold retrieve
    split_ifs <;> exact le_max_left _ _
  cases c with
  | append data => exact size_append h hc
  | ensureWritableBytes len => exact size_ensureWritableBytes h hc
  | readFd r => exact size_readFd h hc
  | retrieve len => exact hretrieve len
  | retrieveAll => exact le_max_left _ _
  | retrieveAsString len => exact hretrieve len
  | retrieveAllAsString => exact hretrieve _

theorem inv_run {calls : List (Call β)} {b' : Buffer β} (h : b.Inv)
    (hrun : Lts.exec step b calls = some b') : b'.Inv :=
  Lts.exec_inv' (I := Inv) (fun b c b' h hb => by cases hb; exact inv_call h c) h hrun

end Buffer

variable {β : Type} [Inhabited β]

/-- **Bounded growth.**  While what is readable and what is asked for stay within `M` together, the
vector stays within twice as much and `kCheapPrepend`, whatever is done in between. -/
theorem size_bounded (b : OkBuffer β) {M : ℕ} {calls : List (Buffer.Call β)} {b' : Buffer β}
    (hM : Lts.Along Buffer.step (Buffer.Within M) b.1 calls)
    (hrun : Lts.exec Buffer.step b.1 calls = some b') :
    b'.buffer_.length ≤ max b.1.buffer_.length (2 * M + 8) := by
  have hinv := Lts.exec_inv
    (I := fun c : Buffer β => c.Inv ∧ c.buffer_.length ≤ max b.1.buffer_.length (2 * M + 8))
    (fun c l c' hc hl hstep => ?_) ⟨b.2, le_max_left _ _⟩ hM hrun
  · exact hinv.2
  · cases hstep
    refine ⟨Buffer.inv_call hc.1 l, (Buffer.size_call hc.1 hl).trans ?_⟩
    exact max_le hc.2 (le_max_right _ _)

/-- Bytes in and out, with at most three of them unread. -/
private def echoCalls : List (Buffer.Call ℕ) :=
  [.append [1, 2], .retrieve 1, .append [3, 4], .retrieveAsString 2, .readFd (.bytes [5]),
    .retrieve 1, .ensureWritableBytes 2]

theorem size_bounded_echo :
    ∃ b : Buffer ℕ, Lts.exec Buffer.step (Buffer.ofSize 0) echoCalls = some b ∧
      b.buffer_.length ≤ max 8 (2 * 3 + 8) := by
  have hM : Lts.Along Buffer.step (Buffer.Within 3) (Buffer.ofSize 0) echoCalls := by decide
  exact ⟨_, rfl, size_bounded ⟨Buffer.ofSize 0, Buffer.inv_ofSize 0⟩ hM rfl⟩

/-! ### The string and what is taken off -/

omit [Inhabited β] in
/-- The string is cut out before `retrieve` looks at the length: it is what is taken off, and lies
inside the vector, exactly when that much is readable. -/
theorem retrieveAsString_exact_iff (b : OkBuffer β) (len : ℕ) :
    (b.1.readerIndex_ + len ≤ b.1.buffer_.length ∧
      (b.1.retrieveAsString len).1 = b.content.take len ∧
      b.content = (b.1.retrieveAsString len).1 ++ (b.1.retrieveAsString len).2.content) ↔
    len ≤ b.readableBytes := by
  have hr := b.2.reader_le
  have hw := b.2.writer_le
  constructor
  · rintro ⟨hinside, htake, -⟩
    have hlen := congrArg List.length htake
    rw [show (b.1.retrieveAsString len).1 = seg b.1.buffer_ b.1.readerIndex_ len from rfl,
      length_seg hinside, List.length_take, ← b.readableBytes_eq] at hlen
    omega
  · intro hle
    have hfst := Buffer.retrieveAsString_fst hle
    refine ⟨?_, hfst, ?_⟩
    · unfold OkBuffer.readableBytes Buffer.readableBytes at hle
      omega
    · rw [hfst]
      show b.content = b.content.take len ++ (b.1.retrieve len).content
      rw [Buffer.content_retrieve b.2]
      exact (List.take_append_drop len b.content).symm

/-- An earlier message shows through behind the one byte that is readable, and a longer request
reaches over the end of the vector. -/
theorem retrieveAsString_stale :
    ∃ b : Buffer ℕ, Lts.exec Buffer.step (Buffer.ofSize 4)
        [.append [1, 2, 3, 4], .retrieveAll, .append [5]] = some b ∧
      b.content = [5] ∧ (b.retrieveAsString 3).1 = [5, 2, 3] ∧
      (b.retrieveAsString 3).2.content = [] ∧ b.buffer_.length < b.readerIndex_ + 5 :=
  ⟨_, rfl, rfl, rfl, rfl, by decide⟩

end Muduo
