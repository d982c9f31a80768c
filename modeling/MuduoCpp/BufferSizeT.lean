import MuduoCpp.Buffer

/-!
# `Buffer` over `size_t`

The member functions of `MuduoCpp.Buffer` once more, with `size_t` addition and subtraction modulo
`2^64` and with a vector whose constructor and `resize` throw `std::length_error` above
`max_size()` (`none` here; a throwing call leaves the vector as it was).

`SizeT.makeSpace_eq`, `SizeT.ensureWritableBytes_eq` and `SizeT.append_eq` say when the two
readings agree: the indices are in order and no addition of the call wraps.
-/

namespace Muduo

open Segment

/-- The number of `size_t` values, `2^64`. -/
def sizeModulus : ℕ := 18446744073709551616

/-- `std::vector<char>::max_size()`, `2^63 - 1`. -/
def maxSize : ℕ := 9223372036854775807

namespace SizeT

/-- `a + b` in `size_t`. -/
def add (a b : ℕ) : ℕ := (a + b) % sizeModulus

/-- `a - b` in `size_t`. -/
def sub (a b : ℕ) : ℕ := (a + (sizeModulus - b)) % sizeModulus

theorem add_eq {a b : ℕ} (h : a + b < sizeModulus) : add a b = a + b := Nat.mod_eq_of_lt h

theorem sub_eq {a b : ℕ} (hle : b ≤ a) (ha : a < sizeModulus) : sub a b = a - b := by
  rw [sub, show a + (sizeModulus - b) = a - b + sizeModulus by omega, Nat.add_mod_right,
    Nat.mod_eq_of_lt (by omega)]

variable {β : Type}

/-- The constructor. -/
def make [Inhabited β] (initalSize : ℕ) : Option (Buffer β) :=
  let n := add kCheapPrepend initalSize
  if n ≤ maxSize then some ⟨List.replicate n default, kCheapPrepend, kCheapPrepend⟩ else none

/-- `readableBytes`, modulo `2^64`. -/
def readableBytes (b : Buffer β) : ℕ := sub b.writerIndex_ b.readerIndex_

/-- `writableBytes`, modulo `2^64`. -/
def writableBytes (b : Buffer β) : ℕ := sub b.buffer_.length b.writerIndex_

/-- `retrieve`; the sum is one of `size_t`. -/
def retrieve (b : Buffer β) (len : ℕ) : Buffer β :=
  if len < readableBytes b then { b with readerIndex_ := add b.readerIndex_ len }
  else b.retrieveAll

/-- `retrieveAsString`. -/
def retrieveAsString (b : Buffer β) (len : ℕ) : List β × Buffer β :=
  (seg b.buffer_ b.readerIndex_ len, retrieve b len)

/-- `retrieveAllAsString`. -/
def retrieveAllAsString (b : Buffer β) : List β × Buffer β := retrieveAsString b (readableBytes b)

/-- `makeSpace`: both sums of its test wrap; `none` when `resize` throws. -/
def makeSpace [Inhabited β] (b : Buffer β) (len : ℕ) : Option (Buffer β) :=
  if add (writableBytes b) b.prependableBytes < add len kCheapPrepend then
    let n := add b.writerIndex_ len
    if n ≤ maxSize then some { b with buffer_ := resize b.buffer_ n } else none
  else
    let readable := readableBytes b
    some
      { buffer_ := copyForward b.buffer_ b.readerIndex_ kCheapPrepend readable
        readerIndex_ := kCheapPrepend
        writerIndex_ := add kCheapPrepend readable }

/-- `ensureWritableBytes`; `none` when `makeSpace` throws. -/
def ensureWritableBytes [Inhabited β] (b : Buffer β) (len : ℕ) : Option (Buffer β) :=
  if writableBytes b < len then makeSpace b len else some b

/-- `append`; `none` when there is no room to be had. -/
def append [Inhabited β] (b : Buffer β) (data : List β) : Option (Buffer β) :=
  (ensureWritableBytes b data.length).map fun b =>
    { b with
      buffer_ := blit b.buffer_ b.writerIndex_ data
      writerIndex_ := add b.writerIndex_ data.length }

/-- The indices are in order and the vector is one that can exist. -/
structure Ok (b : Buffer β) : Prop where
  inv : b.Inv
  size_le : b.buffer_.length ≤ maxSize

/-- No `size_t` addition of a request for `len` more bytes wraps. -/
def NoWrap (b : Buffer β) (len : ℕ) : Prop :=
  b.writerIndex_ + len < sizeModulus ∧ len + kCheapPrepend < sizeModulus

instance (b : Buffer β) (len : ℕ) : Decidable (NoWrap b len) := inferInstanceAs (Decidable (_ ∧ _))

variable {b b' : Buffer β} {len : ℕ}

/-- The indices of a buffer that can exist are far below `2^64`. -/
theorem Ok.bounds (h : Ok b) : kCheapPrepend ≤ b.readerIndex_ ∧ b.readerIndex_ ≤ b.writerIndex_ ∧
    b.writerIndex_ ≤ b.buffer_.length ∧ b.buffer_.length + kCheapPrepend < sizeModulus := by
  refine ⟨h.inv.prepend_le, h.inv.reader_le, h.inv.writer_le, ?_⟩
  have := h.size_le
  norm_num [maxSize, kCheapPrepend, sizeModulus] at this ⊢
  omega

theorem readableBytes_eq (h : Ok b) : readableBytes b = b.readableBytes := by
  obtain ⟨-, h2, h3, h4⟩ := h.bounds
  exact sub_eq h2 (by omega)

theorem writableBytes_eq (h : Ok b) : writableBytes b = b.writableBytes := by
  obtain ⟨-, -, h3, h4⟩ := h.bounds
  exact sub_eq h3 (by omega)

theorem retrieve_eq (h : Ok b) (len : ℕ) : retrieve b len = b.retrieve len := by
  obtain ⟨-, h2, h3, h4⟩ := h.bounds
  rw [retrieve, Buffer.retrieve, readableBytes_eq h]
  split_ifs with hlt
  · rw [add_eq]
    unfold Buffer.readableBytes at hlt
    omega
  · rfl

theorem ok_retrieveAll (h : Ok b) : Ok b.retrieveAll := ⟨Buffer.inv_retrieveAll h.inv, h.size_le⟩

theorem ok_retrieve (h : Ok b) (len : ℕ) : Ok (b.retrieve len) := by
  refine ⟨Buffer.inv_retrieve h.inv len, ?_⟩
  unfold Buffer.retrieve
  split_ifs <;> exact h.size_le

variable [Inhabited β]

theorem ok_of_make {n : ℕ} (hn : kCheapPrepend + n < sizeModulus)
    (h : (make n : Option (Buffer β)) = some b) : Ok b ∧ b.content = [] := by
  rw [make, add_eq hn] at h
  simp only [Option.ite_none_right_eq_some, Option.some.injEq] at h
  obtain ⟨hle, rfl⟩ := h
  exact ⟨⟨Buffer.inv_ofSize n, by simpa using hle⟩, Buffer.content_ofSize n⟩

omit [Inhabited β] in
/-- The sums of `makeSpace` that do not depend on the request. -/
theorem Ok.room_lt (h : Ok b) : b.writableBytes + b.prependableBytes < sizeModulus := by
  obtain ⟨h1, h2, h3, h4⟩ := h.bounds
  unfold Buffer.writableBytes Buffer.prependableBytes
  omega

omit [Inhabited β] in
theorem Ok.moved_lt (h : Ok b) : kCheapPrepend + b.readableBytes < sizeModulus := by
  obtain ⟨h1, h2, h3, h4⟩ := h.bounds
  unfold Buffer.readableBytes
  omega

/-- The branch of `makeSpace` that resizes. -/
theorem makeSpace_of_grow (h : Ok b)
    (hgrow : b.writableBytes + b.prependableBytes < add len kCheapPrepend) :
    makeSpace b len =
      if add b.writerIndex_ len ≤ maxSize then
        some { b with buffer_ := resize b.buffer_ (add b.writerIndex_ len) }
      else none := by
  rw [makeSpace, writableBytes_eq h, add_eq h.room_lt, if_pos hgrow]

/-- The branch of `makeSpace` that moves the content. -/
theorem makeSpace_of_room (h : Ok b)
    (hroom : add len kCheapPrepend ≤ b.writableBytes + b.prependableBytes) :
    makeSpace b len = some
      { buffer_ := copyForward b.buffer_ b.readerIndex_ kCheapPrepend b.readableBytes
        readerIndex_ := kCheapPrepend
        writerIndex_ := kCheapPrepend + b.readableBytes } := by
  rw [makeSpace, writableBytes_eq h, readableBytes_eq h, add_eq h.room_lt,
    if_neg (Nat.not_lt.2 hroom)]
  simp only [add_eq h.moved_lt]

/-- Without wrapping, `makeSpace` throws in the growing branch above `max_size()` and does what
`Buffer.makeSpace` does otherwise. -/
theorem makeSpace_eq (h : Ok b) (hn : NoWrap b len) :
    makeSpace b len =
      if b.writableBytes + b.prependableBytes < len + kCheapPrepend ∧
        maxSize < b.writerIndex_ + len then none else some (b.makeSpace len) := by
  obtain ⟨hn1, hn2⟩ := hn
  by_cases hgrow : b.writableBytes + b.prependableBytes < len + kCheapPrepend
  · rw [makeSpace_of_grow h (by rwa [add_eq hn2]), add_eq hn1, Buffer.makeSpace, if_pos hgrow]
    by_cases hmax : b.writerIndex_ + len ≤ maxSize
    · rw [if_pos hmax, if_neg fun hthrow => Nat.not_lt.2 hmax hthrow.2]
    · rw [if_neg hmax, if_pos ⟨hgrow, Nat.lt_of_not_le hmax⟩]
  · rw [makeSpace_of_room h (by rw [add_eq hn2]; exact Nat.le_of_not_lt hgrow),
      if_neg fun hthrow => hgrow hthrow.1, Buffer.makeSpace, if_neg hgrow]

/-- A request that is served leaves a vector that can exist. -/
theorem ok_of_makeSpace (h : Ok b) (hn : NoWrap b len) (hlen : b.writableBytes < len)
    (hb : makeSpace b len = some b') : b' = b.makeSpace len ∧ Ok b' := by
  rw [makeSpace_eq h hn] at hb
  split_ifs at hb with hthrow
  cases hb
  refine ⟨rfl, Buffer.inv_makeSpace h.inv hlen, ?_⟩
  obtain ⟨h1, h2, h3, h4⟩ := h.bounds
  unfold Buffer.makeSpace
  split_ifs with hgrow
  · show (resize b.buffer_ (b.writerIndex_ + len)).length ≤ maxSize
    unfold Buffer.writableBytes at hlen
    rw [Buffer.resize_of_le (by omega), List.length_append, List.length_replicate]
    have : b.writerIndex_ + len ≤ maxSize := by
      by_contra hc
      exact hthrow ⟨hgrow, by omega⟩
    omega
  · show (copyForward _ _ _ _).length ≤ maxSize
    rw [h.inv.copy_content, h.inv.length_copy_content]
    exact h.size_le

theorem ok_of_ensureWritableBytes (h : Ok b) (hn : NoWrap b len)
    (hb : ensureWritableBytes b len = some b') : b' = b.ensureWritableBytes len ∧ Ok b' := by
  rw [ensureWritableBytes, writableBytes_eq h] at hb
  rw [Buffer.ensureWritableBytes]
  split_ifs at hb ⊢ with hlt
  · exact ok_of_makeSpace h hn hlt hb
  · cases hb
    exact ⟨rfl, h⟩

theorem ok_of_append {data : List β} (h : Ok b) (hn : NoWrap b data.length)
    (hb : append b data = some b') : b' = b.append data ∧ Ok b' := by
  obtain ⟨c, hc, rfl⟩ := Option.map_eq_some_iff.1 hb
  obtain ⟨rfl, hok⟩ := ok_of_ensureWritableBytes h hn hc
  have hroom := Buffer.le_writableBytes_ensureWritableBytes h.inv data.length
  obtain ⟨-, -, h3, h4⟩ := hok.bounds
  unfold Buffer.writableBytes at hroom
  rw [add_eq (by omega)]
  refine ⟨rfl, Buffer.inv_append h.inv data, ?_⟩
  show (blit _ _ _).length ≤ maxSize
  rw [length_blit (by omega)]
  exact hok.size_le

/-- A request is refused only when the vector it asks for cannot exist. -/
theorem ensureWritableBytes_isSome (h : Ok b) (hn : NoWrap b len)
    (hmax : b.writerIndex_ + len ≤ maxSize) : (ensureWritableBytes b len).isSome := by
  rw [ensureWritableBytes]
  split_ifs with hlt
  · rw [makeSpace_eq h hn, if_neg (by omega)]
    rfl
  · rfl

end SizeT

end Muduo
