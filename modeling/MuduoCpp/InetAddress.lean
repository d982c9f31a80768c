import Mathlib.Data.BitVec
import Mathlib.Data.List.TakeWhile
import MuduoCpp.Lib.Decimal

/-!
# `src/InetAddress.cc`

An `InetAddress` is made of a port and a text like `127.0.0.1`, and is printed into a buffer of 64
characters.  The constructor does not look whether `inet_pton` has read the text; if it has not, the
address stays zero, which is `0.0.0.0`.

* `inet_ntop`, `inet_pton`: an address as a text, four numbers without leading zeros, and back;
* `InetAddress`: the class;
* `round_trip`: an address is made again from its texts, and a text is that of the address made of
  it, or that of no address;
* `toIpPort_inj`: `toIpPort` tells addresses and ports apart.
-/

namespace Muduo

/-! ### Addresses and texts -/

/-- An IPv4 address, byte by byte. -/
structure InAddr where
  a : BitVec 8
  b : BitVec 8
  c : BitVec 8
  d : BitVec 8
  deriving DecidableEq, Repr

/-- The other byte order; the host is little-endian. -/
def htons (x : BitVec 16) : BitVec 16 := x.extractLsb' 0 8 ++ x.extractLsb' 8 8

/-- The same, the other way. -/
def ntohs (x : BitVec 16) : BitVec 16 := htons x

theorem ntohs_htons (x : BitVec 16) : ntohs (htons x) = x := by
  apply BitVec.eq_of_getLsbD_eq
  intro i hi
  simp only [ntohs, htons, BitVec.getLsbD_append, BitVec.getLsbD_extractLsb']
  grind

/-- A byte in decimal. -/
def octetText (x : BitVec 8) : List Char := Nat.toDigits 10 x.toNat

/-- The four bytes with dots between them. -/
def InAddr.text (x : InAddr) : List Char :=
  ['.'].intercalate ([x.a, x.b, x.c, x.d].map octetText)

/-- `none`: there is no room for the text and its zero, and nothing is written. -/
def inet_ntop (x : InAddr) (size : ℕ) : Option (List Char) :=
  if x.text.length < size then some x.text else none

/-- A number of up to three digits, from 0 to 255. -/
def readOctet (ds : List Char) : Option (BitVec 8) :=
  if Decimal.isNumeral ds = true ∧ ds.length ≤ 3 ∧ Nat.ofDigitChars 10 ds 0 ≤ 255 then
    some (BitVec.ofNat 8 (Nat.ofDigitChars 10 ds 0))
  else none

/-- `none`: `src` is not the text of an address, and nothing is written. -/
def inet_pton (src : List Char) : Option InAddr :=
  match (src.splitOn '.').mapM readOctet with
  | some [a, b, c, d] => some ⟨a, b, c, d⟩
  | _ => none

theorem readOctet_eq_some {ds : List Char} {x : BitVec 8} :
    readOctet ds = some x ↔ ds = octetText x := by
  unfold readOctet
  rw [Option.ite_none_right_eq_some, Option.some.injEq, Decimal.isNumeral_iff]
  constructor
  · rintro ⟨⟨hds, -, hle⟩, rfl⟩
    rw [octetText, BitVec.toNat_ofNat, Nat.mod_eq_of_lt (Nat.lt_succ_of_le hle),
      Decimal.toDigits_of_numeral hds]
  · rintro rfl
    have hlt : x.toNat < 256 := x.isLt
    rw [octetText, Nat.ofDigitChars_ten_toDigits]
    refine ⟨⟨Decimal.numeral_toDigits _, ?_, Nat.le_of_lt_succ hlt⟩, ?_⟩
    · exact (Nat.length_toDigits_le_iff (by decide) (by decide)).2 (by omega)
    · rw [BitVec.ofNat_toNat, BitVec.setWidth_eq]

theorem mapM_readOctet {ls : List (List Char)} {xs : List (BitVec 8)} :
    ls.mapM readOctet = some xs ↔ ls = xs.map octetText := by
  induction ls generalizing xs with
  | nil => cases xs <;> simp
  | cons ds ls ih =>
    rw [List.mapM_cons]
    simp only [Option.bind_eq_bind, Option.pure_def, Option.bind_eq_some_iff, readOctet_eq_some, ih,
      Option.some.injEq]
    constructor
    · rintro ⟨x, rfl, xs, rfl, rfl⟩
      rfl
    · intro h
      obtain ⟨x, xs, rfl, rfl, rfl⟩ := List.map_eq_cons_iff.1 h.symm
      exact ⟨x, rfl, xs, rfl, rfl⟩

/-- `inet_pton` reads the texts of addresses. -/
theorem inet_pton_eq_some {src : List Char} {x : InAddr} :
    inet_pton src = some x ↔ src = x.text := by
  have hdot : ∀ l ∈ [x.a, x.b, x.c, x.d].map octetText, '.' ∉ l := by
    intro l hl
    obtain ⟨y, -, rfl⟩ := List.mem_map.1 hl
    exact Decimal.notMem_toDigits rfl
  constructor
  · intro h
    have hparts : (src.splitOn '.').mapM readOctet = some [x.a, x.b, x.c, x.d] := by
      unfold inet_pton at h
      split at h
      · next a b c d hm =>
        cases h
        exact hm
      · cases h
    rw [InAddr.text, ← mapM_readOctet.1 hparts, List.intercalate_splitOn]
  · rintro rfl
    have hparts := List.splitOn_intercalate '.' hdot (List.cons_ne_nil _ _)
    rw [inet_pton, InAddr.text, hparts, mapM_readOctet.2 rfl]

/-! ### The class -/

/-- `sockaddr_in`. -/
structure SockaddrIn where
  sin_family : ℕ
  /-- In network byte order, as is `sin_addr`. -/
  sin_port : BitVec 16
  sin_addr : InAddr
  deriving DecidableEq, Repr

/-- The address family of IPv4. -/
def AF_INET : ℕ := 2

/-- `InetAddress`. -/
structure InetAddress where
  addr_ : SockaddrIn
  deriving DecidableEq, Repr

/-- What a C function reads of a string. -/
def c_str (s : String) : List Char := s.toList.takeWhile fun ch => ch.toNat != 0

/-- `snprintf` into the rest of a buffer cuts the text off. -/
def snprintf (text : List Char) (size : ℕ) : List Char := text.take (size - 1)

namespace InetAddress

/-- The constructor; `addr_` is cleared before `inet_pton` writes to it. -/
def ofPort (port : BitVec 16) (ip : String) : InetAddress where
  addr_ :=
    { sin_family := AF_INET
      sin_port := htons port
      sin_addr := (inet_pton (c_str ip)).getD ⟨0, 0, 0, 0⟩ }

/-- `none`: the buffer is read without having been written. -/
def toIp (x : InetAddress) : Option String := (inet_ntop x.addr_.sin_addr 64).map String.ofList

/-- `toPort`: the port in the byte order of the host. -/
def toPort (x : InetAddress) : BitVec 16 := ntohs x.addr_.sin_port

/-- `toIpPort`: address and port with a colon between them, in the same 64 bytes. -/
def toIpPort (x : InetAddress) : Option String :=
  (inet_ntop x.addr_.sin_addr 64).map fun buf =>
    String.ofList (buf ++ snprintf (':' :: Nat.toDigits 10 x.toPort.toNat) (64 - buf.length))

end InetAddress

/-! ### The texts -/

theorem length_octetText (x : BitVec 8) : (octetText x).length ≤ 3 := by
  have hlt : x.toNat < 256 := x.isLt
  exact (Nat.length_toDigits_le_iff (by decide) (by decide)).2 (by omega)

theorem text_eq (x : InAddr) : x.text = octetText x.a ++ '.' ::
    (octetText x.b ++ '.' :: (octetText x.c ++ '.' :: octetText x.d)) := by
  simp [InAddr.text, List.intercalate]

theorem length_text (x : InAddr) : x.text.length ≤ 15 := by
  have ha := length_octetText x.a
  have hb := length_octetText x.b
  have hc := length_octetText x.c
  have hd := length_octetText x.d
  rw [text_eq]
  simp only [List.length_append, List.length_cons]
  omega

/-- The buffer has room for every address. -/
theorem inet_ntop_eq (x : InAddr) : inet_ntop x 64 = some x.text :=
  if_pos (Nat.lt_of_le_of_lt (length_text x) (by decide))

theorem mem_text {x : InAddr} {ch : Char} (h : ch ∈ x.text) : ch.isDigit = true ∨ ch = '.' := by
  have hdigit : ∀ {o : BitVec 8}, ch ∈ octetText o → ch.isDigit = true :=
    fun ho => (Decimal.numeral_toDigits _).isDigit ch ho
  rw [text_eq] at h
  simp only [List.mem_append, List.mem_cons] at h
  rcases h with h | h | h | h | h | h | h
  · exact Or.inl (hdigit h)
  · exact Or.inr h
  · exact Or.inl (hdigit h)
  · exact Or.inr h
  · exact Or.inl (hdigit h)
  · exact Or.inr h
  · exact Or.inl (hdigit h)

theorem notMem_text {x : InAddr} {ch : Char} (hdigit : ch.isDigit = false) (hdot : ch ≠ '.') :
    ch ∉ x.text := by
  intro h
  rcases mem_text h with h | h
  · rw [hdigit] at h
    cases h
  · exact hdot h

theorem c_str_text (x : InAddr) : c_str (String.ofList x.text) = x.text := by
  rw [c_str, String.toList_ofList, List.takeWhile_eq_self_iff]
  intro ch hch
  rw [bne_iff_ne]
  intro hzero
  have hnul : ch = Char.ofNat 0 := Char.toNat_inj.1 (hzero.trans rfl)
  exact notMem_text rfl (by decide) (hnul ▸ hch)

theorem text_inj {x y : InAddr} : x.text = y.text ↔ x = y := by
  refine ⟨fun h => ?_, fun h => h ▸ rfl⟩
  have hx := inet_pton_eq_some.2 (rfl : x.text = x.text)
  rw [h, inet_pton_eq_some.2 rfl] at hx
  exact (Option.some.inj hx).symm

namespace InetAddress

theorem toIp_eq (x : InetAddress) : x.toIp = some (String.ofList x.addr_.sin_addr.text) := by
  rw [toIp, inet_ntop_eq]
  rfl

theorem toIp_zero : some (String.ofList (InAddr.text ⟨0, 0, 0, 0⟩)) = some "0.0.0.0" := by
  decide +kernel

/-- Nothing of the text is cut off. -/
theorem toIpPort_eq (x : InetAddress) : x.toIpPort =
    some (String.ofList (x.addr_.sin_addr.text ++ ':' :: Nat.toDigits 10 x.toPort.toNat)) := by
  have hport : (Nat.toDigits 10 x.toPort.toNat).length ≤ 5 := by
    have hlt : x.toPort.toNat < 65536 := x.toPort.isLt
    exact (Nat.length_toDigits_le_iff (by decide) (by decide)).2 (by omega)
  have htext := length_text x.addr_.sin_addr
  rw [toIpPort, inet_ntop_eq, Option.map_some, snprintf, List.take_of_length_le]
  rw [List.length_cons]
  omega

/-- **Texts of addresses.**  Every address is made again from its port and its text, and `toIpPort`
is both of them with a colon between; and a string that is given is the text of the address that is
made, or no address has this text and the address that is made is `0.0.0.0`. -/
theorem round_trip (x : InetAddress) (port : BitVec 16) (ip : String) :
    (x.addr_.sin_family = AF_INET → ∃ text, x.toIp = some text ∧ ofPort x.toPort text = x) ∧
      x.toIpPort = x.toIp.map (fun text => text ++ ":" ++ toString x.toPort.toNat) ∧
      (ofPort port ip).toPort = port ∧
      ((ofPort port ip).toIp = some (String.ofList (c_str ip)) ∨
        (ofPort port ip).toIp = some "0.0.0.0" ∧
          ∀ y : InetAddress, y.toIp ≠ some (String.ofList (c_str ip))) := by
  refine ⟨fun hf => ⟨_, toIp_eq x, ?_⟩, ?_, ntohs_htons port, ?_⟩
  · have hport : htons x.toPort = x.addr_.sin_port := ntohs_htons _
    rw [ofPort, c_str_text, inet_pton_eq_some.2 rfl, hport, ← hf]
    rfl
  · rw [toIpPort_eq, toIp_eq, Option.map_some, Option.some.injEq, ← String.toList_inj]
    simp
  · rw [toIp_eq]
    cases hip : inet_pton (c_str ip) with
    | some z =>
      left
      rw [ofPort, hip, inet_pton_eq_some.1 hip]
      rfl
    | none =>
      right
      refine ⟨?_, fun y hy => ?_⟩
      · rw [ofPort, hip]
        exact toIp_zero
      · rw [toIp_eq, Option.some.injEq, String.ofList_inj] at hy
        rw [inet_pton_eq_some.2 hy.symm] at hip
        cases hip

theorem round_trip_host :
    ∃ text, (ofPort 8080 "192.168.0.1").toIp = some text ∧
      ofPort (ofPort 8080 "192.168.0.1").toPort text = ofPort 8080 "192.168.0.1" :=
  (round_trip (ofPort 8080 "192.168.0.1") 0 "").1 rfl

/-- Leading zeros and a number too large. -/
example : (ofPort 80 "10.0.0.01").toIp = some "0.0.0.0" ∧
    (ofPort 80 "256.0.0.1").toIp = some "0.0.0.0" := by
  decide +kernel

end InetAddress

theorem notMem_ipPort {x : InetAddress} {text : String} (h : x.toIpPort = some text) {ch : Char}
    (hdigit : ch.isDigit = false) (hdot : ch ≠ '.') (hcolon : ch ≠ ':') : ch ∉ text.toList := by
  rw [InetAddress.toIpPort_eq, Option.some.injEq] at h
  rw [← h, String.toList_ofList, List.mem_append, List.mem_cons, not_or, not_or]
  exact ⟨notMem_text hdigit hdot, hcolon, Decimal.notMem_toDigits hdigit⟩

/-- `toIpPort` tells addresses and ports apart. -/
theorem toIpPort_inj {x y : InetAddress} :
    x.toIpPort = y.toIpPort ↔ x.addr_.sin_addr = y.addr_.sin_addr ∧ x.toPort = y.toPort := by
  rw [InetAddress.toIpPort_eq, InetAddress.toIpPort_eq, Option.some.injEq, String.ofList_inj,
    Decimal.append_cons_inj_of_notMem_left (notMem_text rfl (by decide))
      (notMem_text rfl (by decide)), text_inj, Decimal.toDigits_inj, BitVec.toNat_inj]

end Muduo
