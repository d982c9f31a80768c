import MuduoCpp.Lib.Segment
import Mathlib.Tactic

/-!
# `include/Buffer.h`, `src/Buffer.cc`: the application buffer

A vector of bytes with two indices:

    | prependable bytes | readable bytes (CONTENT) | writable bytes |
    0        <=    readerIndex_      <=      writerIndex_   <=   size

The byte type `β` is arbitrary and `default` is the byte a resized vector is filled with.  Sizes
are natural numbers here: every `size_t` addition is taken not to wrap and every allocation to
succeed.  `MuduoCpp.BufferSizeT` states the same functions over wrapping arithmetic and a vector
that may throw, and proves that the two agree whenever no addition wraps.

* `Buffer` and its member functions;
* `Buffer.content`, the readable bytes, and `Buffer.Inv`, the index invariant;
* for each member function what it does to both (`inv_append`, `content_append`, …);
* `OkBuffer`, a buffer that carries its invariant.
-/

namespace Muduo

open Segment

/-- `Buffer::kCheapPrepend`. -/
def kCheapPrepend : ℕ := 8

/-- `Buffer::kInitialSize`. -/
def kInitialSize : ℕ := 1024

/-- `sizeof(extrabuf)` in `Buffer::readFd`. -/
def extrabufSize : ℕ := 65536

/-- `std::vector<char>::resize`: cut off, or fill up with zero bytes. -/
def resize {β : Type} [Inhabited β] (v : List β) (n : ℕ) : List β :=
  v.take n ++ List.replicate (n - v.length) default

/-- `Buffer`: a vector with the two indices into it. -/
structure Buffer (β : Type) where
  buffer_ : List β
  readerIndex_ : ℕ
  writerIndex_ : ℕ
  deriving DecidableEq, Repr

namespace Buffer

variable {β : Type}

/-- The constructor `Buffer(size_t initalSize)`. -/
def ofSize [Inhabited β] (initalSize : ℕ) : Buffer β where
  buffer_ := List.replicate (kCheapPrepend + initalSize) default
  readerIndex_ := kCheapPrepend
  writerIndex_ := kCheapPrepend

/-- How many bytes there are to read. -/
def readableBytes (b : Buffer β) : ℕ := b.writerIndex_ - b.readerIndex_

/-- How many bytes there is room for behind the content. -/
def writableBytes (b : Buffer β) : ℕ := b.buffer_.length - b.writerIndex_

/-- How many bytes there are before the content. -/
def prependableBytes (b : Buffer β) : ℕ := b.readerIndex_

/-- The content is gone; both indices go back to `kCheapPrepend`. -/
def retrieveAll (b : Buffer β) : Buffer β :=
  { b with readerIndex_ := kCheapPrepend, writerIndex_ := kCheapPrepend }

/-- Drop `len` bytes of the content, or all of it if it has no more than these. -/
def retrieve (b : Buffer β) (len : ℕ) : Buffer β :=
  if len < b.readableBytes then { b with readerIndex_ := b.readerIndex_ + len }
  else b.retrieveAll

/-- The string is built from `peek()` and `len` before `retrieve` looks at `len`. -/
def retrieveAsString (b : Buffer β) (len : ℕ) : List β × Buffer β :=
  (seg b.buffer_ b.readerIndex_ len, b.retrieve len)

/-- The whole content as a string. -/
def retrieveAllAsString (b : Buffer β) : List β × Buffer β := b.retrieveAsString b.readableBytes

/-- Grow the vector, or move the content down to `kCheapPrepend`. -/
def makeSpace [Inhabited β] (b : Buffer β) (len : ℕ) : Buffer β :=
  if b.writableBytes + b.prependableBytes < len + kCheapPrepend then
    { b with buffer_ := resize b.buffer_ (b.writerIndex_ + len) }
  else
    let readable := b.readableBytes
    { buffer_ := copyForward b.buffer_ b.readerIndex_ kCheapPrepend readable
      readerIndex_ := kCheapPrepend
      writerIndex_ := kCheapPrepend + readable }

/-- Make room for `len` bytes, if there is not enough. -/
def ensureWritableBytes [Inhabited β] (b : Buffer β) (len : ℕ) : Buffer β :=
  if b.writableBytes < len then b.makeSpace len else b

/-- Make room for the data and copy it behind the content. -/
def append [Inhabited β] (b : Buffer β) (data : List β) : Buffer β :=
  let b := b.ensureWritableBytes data.length
  { b with
    buffer_ := blit b.buffer_ b.writerIndex_ data
    writerIndex_ := b.writerIndex_ + data.length }

/-- The space `readFd` offers to `readv`: the writable area, and `extrabuf` behind it unless the
writable area alone is as large. -/
def readSpace (b : Buffer β) : ℕ :=
  if b.writableBytes < extrabufSize then b.writableBytes + extrabufSize else b.writableBytes

/-- `readFd` when `readv` delivered the bytes `got`; what did not fit into the writable area was
scattered into `extrabuf` and is appended. -/
def readFd [Inhabited β] (b : Buffer β) (got : List β) : Buffer β :=
  let writable := b.writableBytes
  if got.length ≤ writable then
    { b with
      buffer_ := blit b.buffer_ b.writerIndex_ got
      writerIndex_ := b.writerIndex_ + got.length }
  else
    { b with
      buffer_ := blit b.buffer_ b.writerIndex_ (got.take writable)
      writerIndex_ := b.buffer_.length : Buffer β }.append (got.drop writable)

/-- The bytes `[peek(), peek() + readableBytes())`. -/
def content (b : Buffer β) : List β := seg b.buffer_ b.readerIndex_ b.readableBytes

/-- The picture at the head of `Buffer.h`. -/
structure Inv (b : Buffer β) : Prop where
  prepend_le : kCheapPrepend ≤ b.readerIndex_
  reader_le : b.readerIndex_ ≤ b.writerIndex_
  writer_le : b.writerIndex_ ≤ b.buffer_.length

variable {b : Buffer β}

theorem Inv.length_content (h : b.Inv) : b.content.length = b.readableBytes := by
  have := h.reader_le
  have := h.writer_le
  exact length_seg (by unfold readableBytes; omega)

/-! ### `retrieve` and its variants, filling the writable area -/

theorem inv_retrieveAll (h : b.Inv) : b.retrieveAll.Inv where
  prepend_le := le_rfl
  reader_le := le_rfl
  writer_le := h.prepend_le.trans (h.reader_le.trans h.writer_le)

@[simp] theorem content_retrieveAll : b.retrieveAll.content = [] := by
  simp [content, retrieveAll, readableBytes]

theorem inv_retrieve (h : b.Inv) (len : ℕ) : (b.retrieve len).Inv := by
  unfold retrieve
  split_ifs with hlt
  · have := h.prepend_le
    unfold readableBytes at hlt
    exact ⟨by simp only; omega, by simp only; omega, h.writer_le⟩
  · exact inv_retrieveAll h

theorem content_retrieve (h : b.Inv) (len : ℕ) : (b.retrieve len).content = b.content.drop len := by
  unfold retrieve
  split_ifs with hlt
  · simp only [content, readableBytes, seg_drop]
    congr 1
    omega
  · rw [content_retrieveAll, List.drop_eq_nil_of_le]
    rw [h.length_content]
    omega

theorem retrieveAsString_fst {len : ℕ} (hlen : len ≤ b.readableBytes) :
    (b.retrieveAsString len).1 = b.content.take len := (seg_take hlen).symm

/-- Writing `xs` at `writerIndex_` and moving the index on, as `append` and `readFd` do. -/
theorem inv_fill (h : b.Inv) {xs : List β} (hxs : xs.length ≤ b.writableBytes) :
    Inv { b with
      buffer_ := blit b.buffer_ b.writerIndex_ xs
      writerIndex_ := b.writerIndex_ + xs.length } := by
  obtain ⟨h1, h2, h3⟩ := h
  unfold writableBytes at hxs
  refine ⟨h1, by simp only; omega, ?_⟩
  simp only
  rw [length_blit] <;> omega

theorem content_fill (h : b.Inv) {xs : List β} :
    content { b with
      buffer_ := blit b.buffer_ b.writerIndex_ xs
      writerIndex_ := b.writerIndex_ + xs.length } = b.content ++ xs := by
  obtain ⟨h1, h2, h3⟩ := h
  simp only [content, readableBytes]
  rw [← seg_blit_append (by omega : b.readerIndex_ + (b.writerIndex_ - b.readerIndex_) =
    b.writerIndex_) h3]
  congr 1
  omega

/-- The writable area filled to the end of the vector. -/
theorem fill_to_end (h : b.Inv) {got : List β} (hgot : b.writableBytes ≤ got.length) :
    b.buffer_.length = b.writerIndex_ + (got.take b.writableBytes).length := by
  have := h.writer_le
  rw [List.length_take, Nat.min_eq_left hgot, writableBytes]
  omega

/-- The compacting branch moves the content as it is. -/
theorem Inv.copy_content (h : b.Inv) :
    copyForward b.buffer_ b.readerIndex_ kCheapPrepend b.readableBytes =
      blit b.buffer_ kCheapPrepend b.content := by
  obtain ⟨h1, h2, h3⟩ := h
  exact copyForward_eq h1 (by unfold readableBytes; omega)

theorem Inv.length_copy_content (h : b.Inv) :
    (blit b.buffer_ kCheapPrepend b.content).length = b.buffer_.length := by
  have hc := h.length_content
  obtain ⟨h1, h2, h3⟩ := h
  unfold readableBytes at hc
  exact length_blit (by omega)

/-! ### Making space and appending -/

variable [Inhabited β]

theorem inv_ofSize (n : ℕ) : (ofSize n : Buffer β).Inv := by
  constructor <;> simp [ofSize]

@[simp] theorem content_ofSize (n : ℕ) : (ofSize n : Buffer β).content = [] := by
  simp [content, ofSize, readableBytes]

theorem resize_of_le {v : List β} {n : ℕ} (h : v.length ≤ n) :
    resize v n = v ++ List.replicate (n - v.length) default := by
  rw [resize, List.take_of_length_le h]

theorem inv_makeSpace (h : b.Inv) {len : ℕ} (hlen : b.writableBytes < len) :
    (b.makeSpace len).Inv := by
  have hcopy := h.length_copy_content
  rw [← h.copy_content] at hcopy
  obtain ⟨h1, h2, h3⟩ := h
  unfold writableBytes at hlen
  unfold makeSpace
  split_ifs with hgrow
  · refine ⟨h1, h2, ?_⟩
    show b.writerIndex_ ≤ (resize b.buffer_ (b.writerIndex_ + len)).length
    rw [resize_of_le (by omega), List.length_append, List.length_replicate]
    omega
  · refine ⟨le_rfl, Nat.le_add_right _ _, ?_⟩
    simp only [hcopy]
    unfold readableBytes
    omega

theorem content_makeSpace (h : b.Inv) {len : ℕ} (hlen : b.writableBytes < len) :
    (b.makeSpace len).content = b.content := by
  have hcopy := h.copy_content
  have hc := h.length_content
  obtain ⟨h1, h2, h3⟩ := h
  unfold writableBytes at hlen
  unfold makeSpace
  split_ifs with hgrow
  · simp only [content, readableBytes]
    rw [resize_of_le (by omega), seg_append_left (by omega)]
  · show seg (copyForward _ _ _ _) kCheapPrepend (kCheapPrepend + b.readableBytes - kCheapPrepend) =
      b.content
    rw [hcopy, Nat.add_sub_cancel_left, ← hc]
    exact seg_blit_self (by omega)

/-- Either branch leaves room for what the caller asked. -/
theorem le_writableBytes_makeSpace (h : b.Inv) {len : ℕ} (hlen : b.writableBytes < len) :
    len ≤ (b.makeSpace len).writableBytes := by
  have hcopy := h.length_copy_content
  rw [← h.copy_content] at hcopy
  obtain ⟨h1, h2, h3⟩ := h
  unfold makeSpace
  split_ifs with hgrow
  · unfold writableBytes at hlen
    show len ≤ (resize b.buffer_ (b.writerIndex_ + len)).length - b.writerIndex_
    rw [resize_of_le (by omega), List.length_append, List.length_replicate]
    omega
  · unfold prependableBytes writableBytes at hgrow
    simp only [writableBytes, hcopy]
    unfold readableBytes
    omega

theorem inv_ensureWritableBytes (h : b.Inv) (len : ℕ) : (b.ensureWritableBytes len).Inv := by
  unfold ensureWritableBytes
  split_ifs with hlt
  · exact inv_makeSpace h hlt
  · exact h

theorem content_ensureWritableBytes (h : b.Inv) (len : ℕ) :
    (b.ensureWritableBytes len).content = b.content := by
  unfold ensureWritableBytes
  split_ifs with hlt
  · exact content_makeSpace h hlt
  · rfl

theorem le_writableBytes_ensureWritableBytes (h : b.Inv) (len : ℕ) :
    len ≤ (b.ensureWritableBytes len).writableBytes := by
  unfold ensureWritableBytes
  split_ifs with hlt
  · exact le_writableBytes_makeSpace h hlt
  · omega

theorem inv_append (h : b.Inv) (data : List β) : (b.append data).Inv :=
  inv_fill (inv_ensureWritableBytes h _) (le_writableBytes_ensureWritableBytes h _)

theorem content_append (h : b.Inv) (data : List β) :
    (b.append data).content = b.content ++ data := by
  rw [← content_ensureWritableBytes h data.length]
  exact content_fill (inv_ensureWritableBytes h _)

theorem inv_readFd (h : b.Inv) (got : List β) : (b.readFd got).Inv := by
  unfold readFd
  simp only
  split_ifs with hle
  · exact inv_fill h hle
  · rw [fill_to_end h (Nat.le_of_not_le hle)]
    exact inv_append (inv_fill h (List.length_take_le _ _)) _

theorem content_readFd (h : b.Inv) (got : List β) : (b.readFd got).content = b.content ++ got := by
  unfold readFd
  simp only
  split_ifs with hle
  · exact content_fill h
  · rw [fill_to_end h (Nat.le_of_not_le hle),
      content_append (inv_fill h (List.length_take_le _ _)), content_fill h, List.append_assoc,
      List.take_append_drop]

end Buffer

/-- A buffer with its index invariant: the form in which a connection holds its two buffers. -/
def OkBuffer (β : Type) := {b : Buffer β // b.Inv}

namespace OkBuffer

variable {β : Type} [Inhabited β]

/-- The default constructor `Buffer()`. -/
def empty : OkBuffer β := ⟨Buffer.ofSize kInitialSize, Buffer.inv_ofSize _⟩

/-- The bytes that are there to read. -/
def content (b : OkBuffer β) : List β := b.1.content

/-- How many they are. -/
def readableBytes (b : OkBuffer β) : ℕ := b.1.readableBytes

/-- `Buffer::retrieve`. -/
def retrieve (b : OkBuffer β) (len : ℕ) : OkBuffer β :=
  ⟨b.1.retrieve len, Buffer.inv_retrieve b.2 len⟩

/-- `Buffer::retrieveAll`. -/
def retrieveAll (b : OkBuffer β) : OkBuffer β := ⟨b.1.retrieveAll, Buffer.inv_retrieveAll b.2⟩

/-- `Buffer::append`. -/
def append (b : OkBuffer β) (data : List β) : OkBuffer β :=
  ⟨b.1.append data, Buffer.inv_append b.2 data⟩

/-- `Buffer::readFd`, with the bytes that were read. -/
def readFd (b : OkBuffer β) (got : List β) : OkBuffer β :=
  ⟨b.1.readFd got, Buffer.inv_readFd b.2 got⟩

omit [Inhabited β] in
theorem readableBytes_eq (b : OkBuffer β) : b.readableBytes = b.content.length :=
  (Buffer.Inv.length_content b.2).symm

@[simp] theorem content_empty : (empty : OkBuffer β).content = [] := Buffer.content_ofSize _

omit [Inhabited β] in
@[simp] theorem content_retrieve (b : OkBuffer β) (len : ℕ) :
    (b.retrieve len).content = b.content.drop len := Buffer.content_retrieve b.2 len

omit [Inhabited β] in
@[simp] theorem content_retrieveAll (b : OkBuffer β) : b.retrieveAll.content = [] :=
  Buffer.content_retrieveAll

omit [Inhabited β] in
theorem retrieve_readableBytes (b : OkBuffer β) : b.retrieve b.readableBytes = b.retrieveAll :=
  Subtype.ext (if_neg (Nat.lt_irrefl _))

@[simp] theorem content_append (b : OkBuffer β) (data : List β) :
    (b.append data).content = b.content ++ data := Buffer.content_append b.2 data

@[simp] theorem content_readFd (b : OkBuffer β) (got : List β) :
    (b.readFd got).content = b.content ++ got := Buffer.content_readFd b.2 got

end OkBuffer

end Muduo
