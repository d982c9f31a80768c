import MuduoCpp.BufferCalls
import MuduoCpp.BufferSizeT

/-!
# Runs of calls over `size_t`

The calls of `MuduoCpp.BufferCalls` with the wrapping additions and the throwing vector of
`MuduoCpp.BufferSizeT`.  A buffer is empty only at `kCheapPrepend` (`Rewound`); because of that,
`requests_meet_iff` says exactly which requests for space are answered as the caller expects: those
for which none of the additions wraps.  As long as none does and no request is refused, the calls
are those of `Buffer.call` (`after_eq`), and `makesSpace_of_run` says what each branch of
`makeSpace` does to the vector.
-/

namespace Muduo

open Segment

namespace SizeT

variable {β : Type}

/-- The space `readFd` offers. -/
def readSpace (b : Buffer β) : ℕ :=
  if writableBytes b < extrabufSize then writableBytes b + extrabufSize else writableBytes b

/-- `b` with `xs` at `writerIndex_` and the index moved behind it. -/
def fill (b : Buffer β) (xs : List β) : Buffer β :=
  { b with
    buffer_ := blit b.buffer_ b.writerIndex_ xs
    writerIndex_ := add b.writerIndex_ xs.length }

/-- The writable area filled with the first of the bytes `got`, `writerIndex_ = buffer_.size()`. -/
def full (b : Buffer β) (got : List β) : Buffer β :=
  { b with
    buffer_ := blit b.buffer_ b.writerIndex_ (got.take (writableBytes b))
    writerIndex_ := b.buffer_.length }

/-- The buffer and the length with which a call comes to `ensureWritableBytes`. -/
def request (b : Buffer β) : Buffer.Call β → Option (Buffer β × ℕ)
  | .append data => some (b, data.length)
  | .ensureWritableBytes len => some (b, len)
  | .readFd r =>
      if r.got.length ≤ writableBytes b then none
      else some (full b r.got, (r.got.drop (writableBytes b)).length)
  | _ => none

/-- The lengths are `size_t` values, and `readv` delivers no more than it was offered. -/
def enabled (b : Buffer β) : Buffer.Call β → Prop
  | .append data => data.length < sizeModulus
  | .ensureWritableBytes len => len < sizeModulus
  | .readFd r => r.got.length ≤ readSpace b
  | _ => True

instance (b : Buffer β) : DecidablePred (enabled b)
  | .append data => inferInstanceAs (Decidable (data.length < sizeModulus))
  | .ensureWritableBytes len => inferInstanceAs (Decidable (len < sizeModulus))
  | .readFd r => inferInstanceAs (Decidable (r.got.length ≤ readSpace b))
  | .retrieve _ | .retrieveAll | .retrieveAsString _ | .retrieveAllAsString => isTrue trivial

variable [Inhabited β]

/-- The buffer after the call.  When `ensureWritableBytes` throws, `append` has changed nothing yet,
and `readFd` has filled the writable area. -/
def after (b : Buffer β) : Buffer.Call β → Buffer β
  | .append data => (append b data).getD b
  | .ensureWritableBytes len => (ensureWritableBytes b len).getD b
  | .readFd r =>
      if r.got.length ≤ writableBytes b then fill b r.got
      else (append (full b r.got) (r.got.drop (writableBytes b))).getD (full b r.got)
  | .retrieve len => retrieve b len
  | .retrieveAll => b.retrieveAll
  | .retrieveAsString len => (retrieveAsString b len).2
  | .retrieveAllAsString => (retrieveAllAsString b).2

/-- A call that can be made. -/
def step : Buffer β → Buffer.Call β → Option (Buffer β) := Lts.guarded enabled after

/-- `ensureWritableBytes(len)` throws and leaves the buffer as it was, or returns with room for
`len` bytes and the readable content as it was. -/
def Ensures (b : Buffer β) (len : ℕ) : Prop :=
  ∀ b', ensureWritableBytes b len = some b' → len ≤ writableBytes b' ∧ b'.content = b.content

/-- The call's request for space, if it makes one, is answered as the caller expects. -/
def Meets (b : Buffer β) (c : Buffer.Call β) : Prop :=
  ∀ r ∈ request b c, Ensures r.1 r.2

/-- No addition of the call's request for space wraps. -/
def NoWraps (b : Buffer β) (c : Buffer.Call β) : Prop :=
  ∀ r ∈ request b c, NoWrap r.1 r.2

instance (b : Buffer β) : DecidablePred (NoWraps b) := fun c =>
  inferInstanceAs (Decidable (∀ r ∈ request b c, NoWrap r.1 r.2))

/-! ### One request -/

/-- A buffer that can exist; an empty one stands at `kCheapPrepend`. -/
structure Rewound (b : Buffer β) : Prop where
  ok : Ok b
  rewound : b.readerIndex_ = b.writerIndex_ → b.readerIndex_ = kCheapPrepend

variable {b b' : Buffer β} {len : ℕ}

theorem ensures_of_noWrap (h : Ok b) (hn : NoWrap b len) : Ensures b len := by
  intro b' hb
  obtain ⟨rfl, hok⟩ := ok_of_ensureWritableBytes h hn hb
  rw [writableBytes_eq hok]
  exact ⟨Buffer.le_writableBytes_ensureWritableBytes h.inv len,
    Buffer.content_ensureWritableBytes h.inv len⟩

/-- A sum of two `size_t` values that wraps. -/
theorem add_of_wrap {m n : ℕ} (hm : m < sizeModulus) (hn : n < sizeModulus)
    (hwrap : sizeModulus ≤ m + n) : add m n = m + n - sizeModulus := by
  rw [add, Nat.mod_eq_sub_mod hwrap, Nat.mod_eq_of_lt (by omega)]

/-- `len + kCheapPrepend` wraps: the content is moved down as if there were room. -/
theorem not_ensures_of_len_wraps (h : Ok b) (hlen : len < sizeModulus)
    (hwrap : sizeModulus ≤ len + kCheapPrepend) : ¬ Ensures b len := by
  obtain ⟨h1, h2, h3, h4⟩ := h.bounds
  have hsize := h.size_le
  have hcopy := h.inv.length_copy_content
  rw [← h.inv.copy_content] at hcopy
  have hlt : b.writableBytes < len := by
    norm_num [Buffer.writableBytes, kCheapPrepend, sizeModulus, maxSize] at *
    omega
  have hroom : add len kCheapPrepend ≤ b.writableBytes + b.prependableBytes := by
    rw [add_of_wrap hlen (by decide) hwrap]
    unfold Buffer.prependableBytes
    omega
  intro hensures
  have hle := (hensures _ (by
    rw [ensureWritableBytes, writableBytes_eq h, if_pos hlt, makeSpace_of_room h hroom])).1
  unfold writableBytes at hle
  simp only [hcopy] at hle
  unfold Buffer.readableBytes at hle
  rw [sub_eq (by omega) (by omega)] at hle
  norm_num [kCheapPrepend, sizeModulus, maxSize] at *
  omega

/-- `writerIndex_ + len` wraps: the vector is cut off before the content ends. -/
theorem not_ensures_of_writer_wraps (h : Rewound b) (hlen : len + kCheapPrepend < sizeModulus)
    (hwrap : sizeModulus ≤ b.writerIndex_ + len) : ¬ Ensures b len := by
  obtain ⟨h1, h2, h3, h4⟩ := h.ok.bounds
  have hsize := h.ok.size_le
  have hlt : b.writableBytes < len := by
    norm_num [Buffer.writableBytes, kCheapPrepend, sizeModulus, maxSize] at *
    omega
  have hgrow : b.writableBytes + b.prependableBytes < add len kCheapPrepend := by
    rw [add_eq hlen]
    norm_num [Buffer.writableBytes, Buffer.prependableBytes, kCheapPrepend, sizeModulus,
      maxSize] at *
    omega
  have hadd : add b.writerIndex_ len = b.writerIndex_ + len - sizeModulus :=
    add_of_wrap (by omega) (by omega) hwrap
  have hcut : b.writerIndex_ + len - sizeModulus < b.writerIndex_ := by omega
  -- the content is not empty: an empty buffer stands at `kCheapPrepend`
  have hne : b.readerIndex_ < b.writerIndex_ := by
    rcases Nat.lt_or_eq_of_le h2 with hne | heq
    · exact hne
    · have := h.rewound heq
      omega
  intro hensures
  have hcontent := (hensures _ (by
    rw [ensureWritableBytes, writableBytes_eq h.ok, if_pos hlt, makeSpace_of_grow h.ok hgrow,
      if_pos (by omega)])).2
  have hlength := congrArg List.length hcontent
  rw [h.ok.inv.length_content, hadd] at hlength
  generalize b.writerIndex_ + len - sizeModulus = n at hcut hlength
  clear hwrap hlen hsize h4
  simp only [Buffer.content, Buffer.readableBytes, seg, resize, List.length_take,
    List.length_drop, List.length_append, List.length_replicate] at hlength
  omega

/-- What `makeSpace(len)` does on `b`: either it moves the content down onto cells that lie strictly
before it, step by step inside the vector, and there is room for `len` bytes, or it makes the vector
larger, if that does not throw, and there is room for exactly `len` bytes. -/
structure MakesSpace (b : Buffer β) (len : ℕ) : Prop where
  compacts : ¬ add (writableBytes b) b.prependableBytes < add len kCheapPrepend →
    kCheapPrepend < b.readerIndex_ ∧
    (∀ p ∈ copySteps b.readerIndex_ kCheapPrepend (readableBytes b),
      p.2 < p.1 ∧ p.1 < b.buffer_.length) ∧
    ∃ b', makeSpace b len = some b' ∧ len ≤ writableBytes b' ∧
      b'.buffer_ =
        (copySteps b.readerIndex_ kCheapPrepend (readableBytes b)).foldl copyCell b.buffer_
  grows : add (writableBytes b) b.prependableBytes < add len kCheapPrepend →
    ∀ b', makeSpace b len = some b' →
      b.buffer_.length < b'.buffer_.length ∧ writableBytes b' = len

omit [Inhabited β] in
/-- The branch that moves the content is taken only with a gap before it. -/
theorem reader_gt_of_room (hlt : b.writableBytes < len)
    (hroom : len + kCheapPrepend ≤ b.writableBytes + b.prependableBytes) :
    kCheapPrepend < b.readerIndex_ := by
  have hprependable : b.prependableBytes = b.readerIndex_ := rfl
  omega

theorem makesSpace_of_noWrap (h : Ok b) (hn : NoWrap b len) (hlt : b.writableBytes < len) :
    MakesSpace b len := by
  obtain ⟨h1, h2, h3, h4⟩ := h.bounds
  have hwritable : b.writableBytes = b.buffer_.length - b.writerIndex_ := rfl
  have hreadable : b.readableBytes = b.writerIndex_ - b.readerIndex_ := rfl
  constructor
  · intro hroom
    rw [writableBytes_eq h, add_eq h.room_lt, add_eq hn.2] at hroom
    have hgap := reader_gt_of_room hlt (Nat.le_of_not_lt hroom)
    have hmade : makeSpace b len = some (b.makeSpace len) := by
      rw [makeSpace_eq h hn, if_neg fun hthrow => hroom hthrow.1]
    refine ⟨hgap, ?_, _, hmade, ?_, ?_⟩
    · intro p hp
      rw [readableBytes_eq h] at hp
      obtain ⟨k, hk, rfl⟩ := mem_copySteps.1 hp
      dsimp only
      omega
    · rw [writableBytes_eq (ok_of_makeSpace h hn hlt hmade).2]
      exact Buffer.le_writableBytes_makeSpace h.inv hlt
    · rw [readableBytes_eq h, ← copyForward_eq_foldl, Buffer.makeSpace, if_neg hroom]
  · intro hgrow b' hb'
    rw [writableBytes_eq h, add_eq h.room_lt, add_eq hn.2] at hgrow
    obtain ⟨rfl, hok⟩ := ok_of_makeSpace h hn hlt hb'
    have hsize : (b.makeSpace len).buffer_.length = b.writerIndex_ + len := by
      rw [Buffer.makeSpace, if_pos hgrow]
      simp only
      rw [Buffer.resize_of_le (by omega), List.length_append, List.length_replicate]
      omega
    have hwriter : (b.makeSpace len).writerIndex_ = b.writerIndex_ := by
      rw [Buffer.makeSpace, if_pos hgrow]
    rw [writableBytes_eq hok, Buffer.writableBytes, hsize, hwriter]
    omega

/-- **Which requests are answered as the caller expects.** -/
theorem ensures_iff (h : Rewound b) (hlen : len < sizeModulus) : Ensures b len ↔ NoWrap b len := by
  refine ⟨fun hensures => ⟨?_, ?_⟩, ensures_of_noWrap h.ok⟩
  · by_contra hwrap
    by_cases hlen' : len + kCheapPrepend < sizeModulus
    · exact not_ensures_of_writer_wraps h hlen' (Nat.le_of_not_lt hwrap) hensures
    · exact not_ensures_of_len_wraps h.ok hlen (Nat.le_of_not_lt hlen') hensures
  · by_contra hlen'
    exact not_ensures_of_len_wraps h.ok hlen (Nat.le_of_not_lt hlen') hensures

/-! ### Runs -/

theorem rewound_of_make {n : ℕ} (hn : kCheapPrepend + n < sizeModulus)
    (h : (make n : Option (Buffer β)) = some b) : Rewound b := by
  refine ⟨(ok_of_make hn h).1, fun _ => ?_⟩
  rw [make] at h
  simp only [Option.ite_none_right_eq_some, Option.some.injEq] at h
  rw [← h.2]

theorem rewound_ensureWritableBytes (h : Rewound b) (hn : NoWrap b len)
    (hb : ensureWritableBytes b len = some b') : Rewound b' := by
  obtain ⟨rfl, hok⟩ := ok_of_ensureWritableBytes h.ok hn hb
  refine ⟨hok, ?_⟩
  have hr := h.rewound
  unfold Buffer.ensureWritableBytes Buffer.makeSpace
  split_ifs
  · exact hr
  · exact fun _ => rfl
  · exact hr

omit [Inhabited β] in
theorem rewound_fill (h : Rewound b) {xs : List β} (hxs : xs.length ≤ b.writableBytes) :
    Rewound (fill b xs) := by
  obtain ⟨h1, h2, h3, h4⟩ := h.ok.bounds
  have hr := h.rewound
  have hxs' := hxs
  unfold Buffer.writableBytes at hxs'
  unfold fill
  rw [add_eq (by omega)]
  refine ⟨⟨Buffer.inv_fill h.ok.inv hxs, ?_⟩, ?_⟩
  · show (blit _ _ _).length ≤ maxSize
    rw [length_blit (by omega)]
    exact h.ok.size_le
  · intro heq
    simp only at heq ⊢
    omega

theorem rewound_append {data : List β} (h : Rewound b) (hn : NoWrap b data.length)
    (hb : append b data = some b') : Rewound b' := by
  obtain ⟨c, hc, rfl⟩ := Option.map_eq_some_iff.1 hb
  obtain ⟨rfl, hok⟩ := ok_of_ensureWritableBytes h.ok hn hc
  exact rewound_fill (rewound_ensureWritableBytes h hn hc)
    (Buffer.le_writableBytes_ensureWritableBytes h.ok.inv _)

omit [Inhabited β] in
theorem full_eq_fill (h : Rewound b) {got : List β} (hgot : b.writableBytes ≤ got.length) :
    full b got = fill b (got.take b.writableBytes) := by
  obtain ⟨h1, h2, h3, h4⟩ := h.ok.bounds
  have hend := Buffer.fill_to_end h.ok.inv hgot
  rw [full, fill, writableBytes_eq h.ok, add_eq (by omega), ← hend]

omit [Inhabited β] in
theorem rewound_retrieve (h : Rewound b) (len : ℕ) : Rewound (retrieve b len) := by
  rw [retrieve_eq h.ok]
  refine ⟨ok_retrieve h.ok len, ?_⟩
  unfold Buffer.retrieve
  split_ifs with hlt
  · intro heq
    unfold Buffer.readableBytes at hlt
    simp only at heq
    omega
  · exact fun _ => rfl

omit [Inhabited β] in
/-- A request that is refused leaves the buffer as it was before it. -/
theorem rewound_getD {o : Option (Buffer β)} (h : Rewound b) (ho : ∀ b', o = some b' → Rewound b') :
    Rewound (o.getD b) := by
  cases o with
  | none => exact h
  | some b' => exact ho b' rfl

omit [Inhabited β] in
theorem rewound_full (h : Rewound b) {got : List β} (hgot : b.writableBytes ≤ got.length) :
    Rewound (full b got) := by
  rw [full_eq_fill h hgot]
  exact rewound_fill h (List.length_take_le _ _)

omit [Inhabited β] in
/-- `readFd` asks for no more than `extrabuf` holds, with the vector filled to its end. -/
theorem request_readFd (h : Rewound b) {r : Readv β} (hc : enabled b (.readFd r))
    {q : Buffer β × ℕ} (hq : q ∈ request b (.readFd r)) :
    b.writableBytes ≤ r.got.length ∧ q.1 = full b r.got ∧ q.2 ≤ extrabufSize := by
  simp only [request, writableBytes_eq h.ok] at hq
  simp only [enabled, readSpace, writableBytes_eq h.ok] at hc
  split_ifs at hq with hle
  · cases hq
  · obtain rfl := Option.some.inj hq
    refine ⟨Nat.le_of_not_le hle, rfl, ?_⟩
    rw [List.length_drop]
    split_ifs at hc <;> omega

omit [Inhabited β] in
theorem request_ok {c : Buffer.Call β} (h : Rewound b) (hc : enabled b c) :
    ∀ q ∈ request b c, Rewound q.1 ∧ q.2 < sizeModulus := by
  intro q hq
  cases c with
  | append data =>
    cases hq
    exact ⟨h, hc⟩
  | ensureWritableBytes len =>
    cases hq
    exact ⟨h, hc⟩
  | readFd r =>
    obtain ⟨hle, hfull, hlen⟩ := request_readFd h hc hq
    rw [hfull]
    exact ⟨rewound_full h hle, hlen.trans_lt (by decide)⟩
  | retrieve len | retrieveAll | retrieveAsString len | retrieveAllAsString => cases hq

omit [Inhabited β] in
/-- The additions of `readFd` never wrap. -/
theorem noWraps_readFd {r : Readv β} (h : Rewound b) (hc : enabled b (.readFd r)) :
    NoWraps b (.readFd r) := by
  intro q hq
  obtain ⟨-, hfull, hlen⟩ := request_readFd h hc hq
  have hsize := h.ok.size_le
  rw [NoWrap, hfull]
  simp only [full]
  norm_num [extrabufSize, maxSize, kCheapPrepend, sizeModulus] at *
  omega

theorem meets_iff {c : Buffer.Call β} (h : Rewound b) (hc : enabled b c) :
    Meets b c ↔ NoWraps b c := by
  refine forall₂_congr fun q hq => ?_
  obtain ⟨hrew, hlen⟩ := request_ok h hc q hq
  exact ensures_iff hrew hlen

theorem rewound_after {c : Buffer.Call β} (h : Rewound b) (hn : NoWraps b c) :
    Rewound (after b c) := by
  cases c with
  | append data => exact rewound_getD h fun b' => rewound_append h (hn _ rfl)
  | ensureWritableBytes len =>
    exact rewound_getD h fun b' => rewound_ensureWritableBytes h (hn _ rfl)
  | readFd r =>
    simp only [after]
    simp only [NoWraps, request] at hn
    rw [writableBytes_eq h.ok] at hn ⊢
    split_ifs at hn ⊢ with hle
    · exact rewound_fill h hle
    · have hfull := rewound_full h (Nat.le_of_not_le hle)
      exact rewound_getD hfull fun b' => rewound_append hfull (hn _ rfl)
  | retrieve len => exact rewound_retrieve h len
  | retrieveAll => exact ⟨ok_retrieveAll h.ok, fun _ => rfl⟩
  | retrieveAsString len => exact rewound_retrieve h len
  | retrieveAllAsString => exact rewound_retrieve h _

theorem append_getD (h : Rewound b) {data : List β} (hn : NoWrap b data.length)
    (hfit : (ensureWritableBytes b data.length).isSome) :
    (append b data).getD b = b.append data := by
  obtain ⟨b', hb'⟩ := Option.isSome_iff_exists.1 (show (append b data).isSome by
    simpa [append] using hfit)
  rw [hb', Option.getD_some]
  exact (ok_of_append h.ok hn hb').1

/-- When no addition wraps and no request is refused, the calls are those of `Buffer.call`. -/
theorem after_eq {c : Buffer.Call β} (h : Rewound b) (hn : NoWraps b c)
    (hfit : ∀ q ∈ request b c, (ensureWritableBytes q.1 q.2).isSome) : after b c = b.call c := by
  cases c with
  | append data => exact append_getD h (hn _ rfl) (hfit _ rfl)
  | ensureWritableBytes len =>
    obtain ⟨b', hb'⟩ := Option.isSome_iff_exists.1 (hfit _ rfl)
    simp only [after, hb', Option.getD_some, Buffer.call]
    exact (ok_of_ensureWritableBytes h.ok (hn _ rfl) hb').1
  | readFd r =>
    simp only [after, Buffer.call, Buffer.readFd]
    simp only [NoWraps, request] at hn
    simp only [request] at hfit
    rw [writableBytes_eq h.ok] at hn hfit ⊢
    split_ifs at hn hfit ⊢ with hle
    · obtain ⟨-, -, h3, h4⟩ := h.ok.bounds
      unfold Buffer.writableBytes at hle
      rw [fill, add_eq (by omega)]
    · rw [append_getD (rewound_full h (Nat.le_of_not_le hle)) (hn _ rfl) (hfit _ rfl)]
      rw [full, writableBytes_eq h.ok]
  | retrieve len => exact retrieve_eq h.ok len
  | retrieveAll => rfl
  | retrieveAsString len => exact retrieve_eq h.ok len
  | retrieveAllAsString =>
    simp only [after, retrieveAllAsString, retrieveAsString, readableBytes_eq h.ok,
      retrieve_eq h.ok]
    rfl

end SizeT

variable {β : Type} [Inhabited β]

/-- **The size arithmetic of a buffer.**  A constructor that does not throw leaves the indices
inside the vector exactly when `kCheapPrepend + initalSize` does not wrap; and in any run of calls
from there, every request for space is answered as the caller expects exactly when none of the
additions of a request wraps. -/
theorem requests_meet_iff {initalSize : ℕ} (hsize : initalSize < sizeModulus) :
    ((∀ b : Buffer β, SizeT.make initalSize = some b →
        kCheapPrepend ≤ b.writerIndex_ ∧ b.writerIndex_ ≤ b.buffer_.length) ↔
      kCheapPrepend + initalSize < sizeModulus) ∧
    (kCheapPrepend + initalSize < sizeModulus →
      ∀ (b b' : Buffer β) (calls : List (Buffer.Call β)), SizeT.make initalSize = some b →
        Lts.exec SizeT.step b calls = some b' →
        (Lts.Along SizeT.step SizeT.Meets b calls ↔
          Lts.Along SizeT.step SizeT.NoWraps b calls)) := by
  refine ⟨⟨?_, ?_⟩, ?_⟩
  · intro hinside
    by_contra hwrap
    have hn := SizeT.add_of_wrap (by decide) hsize (Nat.le_of_not_lt hwrap)
    have hsmall : SizeT.add kCheapPrepend initalSize ≤ maxSize := by
      rw [hn]
      norm_num [kCheapPrepend, sizeModulus, maxSize] at *
      omega
    have := hinside _ (if_pos hsmall)
    simp only [List.length_replicate, hn] at this
    omega
  · intro hn b hb
    have hinv := (SizeT.ok_of_make hn hb).1.inv
    exact ⟨hinv.prepend_le.trans hinv.reader_le, hinv.writer_le⟩
  · intro hn b b' calls hb hrun
    exact Lts.guarded_along_iff' (I := SizeT.Rewound)
      (fun _ _ h hc _ => SizeT.rewound_after h hc) (fun _ _ h hc => SizeT.meets_iff h hc)
      (SizeT.rewound_of_make hn hb) hrun

/-- Appends, a read that overflows into `extrabuf`, and a request of moderate size. -/
private def moderateCalls : List (Buffer.Call ℕ) :=
  [.append [1, 2, 3], .retrieve 2, .readFd (.bytes [4, 5, 6]), .ensureWritableBytes 20]

theorem requests_meet_iff_moderate :
    ∃ b b' : Buffer ℕ, SizeT.make 3 = some b ∧ Lts.exec SizeT.step b moderateCalls = some b' ∧
      Lts.Along SizeT.step SizeT.Meets b moderateCalls := by
  have hrun : (Lts.exec SizeT.step (Buffer.ofSize 3) moderateCalls).isSome := by decide +kernel
  have hwraps : Lts.Along SizeT.step SizeT.NoWraps (Buffer.ofSize 3) moderateCalls := by
    decide +kernel
  have h := (requests_meet_iff (β := ℕ) (by decide : 3 < sizeModulus)).2 (by decide)
    _ _ moderateCalls rfl (Option.some_get hrun).symm
  exact ⟨_, _, rfl, (Option.some_get hrun).symm, h.2 hwraps⟩

/-- A constructor call with the largest `size_t` leaves `writerIndex_` behind the end of the vector;
and of three readable bytes, a request for `2^64 - 1` bytes leaves room for 13, and one for
`2^64 - 10` none of the content. -/
theorem requests_wrap :
    SizeT.make (sizeModulus - 1) = some ⟨[0, 0, 0, 0, 0, 0, 0], 8, 8⟩ ∧
      ∃ b b' : Buffer ℕ, SizeT.make 16 = some b ∧
        Lts.exec SizeT.step b [.append [1, 2, 3]] = some b' ∧ b'.content = [1, 2, 3] ∧
        (SizeT.ensureWritableBytes b' (sizeModulus - 1)).map SizeT.writableBytes = some 13 ∧
        (SizeT.ensureWritableBytes b' (sizeModulus - 10)).map Buffer.content = some [] :=
  ⟨rfl, _, _, rfl, rfl, rfl, rfl, rfl⟩

/-! ### Several buffers -/

/-- A call on one of the buffers, or the exchange of two. -/
inductive FamilyCall (ι β : Type)
  | call (i : ι) (c : Buffer.Call β)
  | swap (i j : ι)

namespace FamilyCall

variable {ι : Type} {s : ι → Buffer β}

/-- A call on one buffer needs what it needs alone. -/
def enabled (s : ι → Buffer β) : FamilyCall ι β → Prop
  | .call i c => SizeT.enabled (s i) c
  | .swap _ _ => True

instance (s : ι → Buffer β) : DecidablePred (enabled s)
  | .call i c => inferInstanceAs (Decidable (SizeT.enabled (s i) c))
  | .swap _ _ => isTrue trivial

/-- No addition of the call's request for space wraps. -/
def NoWraps (s : ι → Buffer β) : FamilyCall ι β → Prop
  | .call i c => SizeT.NoWraps (s i) c
  | .swap _ _ => True

instance (s : ι → Buffer β) : DecidablePred (NoWraps s)
  | .call i c => inferInstanceAs (Decidable (SizeT.NoWraps (s i) c))
  | .swap _ _ => isTrue trivial

variable [DecidableEq ι]

/-- A call changes its own buffer; `swap` changes two. -/
def after (s : ι → Buffer β) : FamilyCall ι β → ι → Buffer β
  | .call i c => Function.update s i (SizeT.after (s i) c)
  -- the vectors and both indices
  | .swap i j => s ∘ Equiv.swap i j

/-- A call on a family of buffers. -/
def step : (ι → Buffer β) → FamilyCall ι β → Option (ι → Buffer β) := Lts.guarded enabled after

theorem rewound_after {c : FamilyCall ι β} (h : ∀ i, SizeT.Rewound (s i)) (hn : NoWraps s c)
    (i : ι) :
    SizeT.Rewound (after s c i) := by
  cases c with
  | call j c =>
    by_cases hij : i = j
    · subst hij
      rw [after, Function.update_self]
      exact SizeT.rewound_after (h i) hn
    · rw [after, Function.update_of_ne hij]
      exact h i
  | swap j k => exact h _

end FamilyCall

/-- **`makeSpace` on the buffers that can be reached.**  Whichever call makes the request, and
whatever calls on this and other buffers came before it without an addition that wraps: content is
moved only strictly downwards and inside the vector, the vector is only ever made larger, and there
is room then. -/
theorem makesSpace_of_run {ι : Type} [DecidableEq ι] {initalSize : ι → ℕ} {s₀ s : ι → Buffer β}
    {calls : List (FamilyCall ι β)} (hsize : ∀ i, kCheapPrepend + initalSize i < sizeModulus)
    (hmake : ∀ i, SizeT.make (initalSize i) = some (s₀ i))
    (hrun : Lts.exec FamilyCall.step s₀ calls = some s)
    (hwraps : Lts.Along FamilyCall.step FamilyCall.NoWraps s₀ calls) (i : ι) {c : Buffer.Call β}
    (hc : SizeT.enabled (s i) c) {q : Buffer β × ℕ} (hq : q ∈ SizeT.request (s i) c)
    (hn : SizeT.NoWrap q.1 q.2) (hlt : SizeT.writableBytes q.1 < q.2) :
    SizeT.MakesSpace q.1 q.2 := by
  have hs : ∀ i, SizeT.Rewound (s i) :=
    Lts.guarded_inv (I := fun s => ∀ i, SizeT.Rewound (s i)) (P := FamilyCall.NoWraps)
      (fun _ _ h hc _ => FamilyCall.rewound_after h hc)
      (fun i => SizeT.rewound_of_make (hsize i) (hmake i)) hwraps hrun
  have hok := (SizeT.request_ok (hs i) hc q hq).1.ok
  rw [SizeT.writableBytes_eq hok] at hlt
  exact SizeT.makesSpace_of_noWrap hok hn hlt

/-- A full vector of which two bytes have been retrieved. -/
private def retrievedBuffer : Buffer ℕ := ⟨[0, 0, 0, 0, 0, 0, 0, 0, 1, 2, 3], 10, 11⟩

/-- Two of three bytes are retrieved from one buffer, and the other one gets the rest. -/
private def exchangedCalls : List (FamilyCall Bool ℕ) :=
  [.call false (.append [1, 2, 3]), .call false (.retrieve 2), .swap false true]

/-- Two more bytes come, and the third one moves down by two cells. -/
theorem makesSpace_of_run_exchanged :
    SizeT.MakesSpace retrievedBuffer 2 ∧
      (SizeT.makeSpace retrievedBuffer 2).map Buffer.readerIndex_ = some kCheapPrepend := by
  have hrun : Lts.exec FamilyCall.step (fun _ => Buffer.ofSize 3) exchangedCalls = some _ := rfl
  have hwraps :
      Lts.Along FamilyCall.step FamilyCall.NoWraps (fun _ => Buffer.ofSize 3) exchangedCalls := by
    decide +kernel
  exact ⟨makesSpace_of_run (fun _ => (by decide : kCheapPrepend + 3 < sizeModulus)) (fun _ => rfl)
    hrun hwraps true (c := .append [4, 5]) (by decide) rfl (by decide) (by decide), rfl⟩

end Muduo
