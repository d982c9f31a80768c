import MuduoCpp.InetAddress
import MuduoCpp.RoundRobin

/-!
# The names of the connections of several servers

A connection is named after its server, the address that the server listens at, and its number
there.  The name of a server may have any characters; the address has no `-` and no `#`, and the
number has no `#`, so the name can be taken apart from its end.

* `nameOf_eq_iff`: when two names are equal;
* `named_run`: in every run of a server the connections have the names that `nameOf` gives;
* `names_unambiguous`: so two connections of any servers have one name only if the servers have one
  name and one address, and the connections one number modulo `2^32`.
-/

namespace Muduo

theorem notMem_repr {i : ℤ} {ch : Char} (hdigit : ch.isDigit = false) (hminus : ch ≠ '-') :
    ch ∉ i.repr.toList := by
  have hnat : ∀ n : ℕ, ch ∉ n.repr.toList := fun n => by
    rw [Nat.toList_repr]
    exact Decimal.notMem_toDigits hdigit
  rw [Int.repr_eq_if]
  split_ifs
  · exact hnat _
  · rw [String.toList_append, List.mem_append, not_or]
    exact ⟨by simpa using hminus, hnat _⟩

namespace TcpServer

variable {L M β γ : Type}

/-! ### Names -/

section Names

variable {s : TcpServer L β} {u : TcpServer M γ} {x y : InetAddress} {c d : ℕ}

theorem nameOf_eq_iff (hx : x.toIpPort = some s.ipPort_) (hy : y.toIpPort = some u.ipPort_) :
    s.nameOf c = u.nameOf d ↔
      s.name_ = u.name_ ∧ (x.addr_.sin_addr = y.addr_.sin_addr ∧ x.toPort = y.toPort) ∧
        c % 2 ^ 32 = d % 2 ^ 32 := by
  have hchars : ∀ (name ip : String) (i : ℤ),
      (name ++ "-" ++ ip ++ "#" ++ toString i).toList =
        (name.toList ++ '-' :: ip.toList) ++ '#' :: i.repr.toList := by
    intro name ip i
    simp
  have hnumber : ∀ {e f : ℕ}, (BitVec.ofNat 32 (e + 1)).toInt.repr.toList =
      (BitVec.ofNat 32 (f + 1)).toInt.repr.toList ↔ e % 2 ^ 32 = f % 2 ^ 32 := by
    intro e f
    rw [String.toList_inj, Int.repr_inj, BitVec.toInt_inj, ← BitVec.toNat_inj, BitVec.toNat_ofNat,
      BitVec.toNat_ofNat]
    omega
  -- the last `#`, the last `-` before it, and the colon
  rw [nameOf, nameOf, ← String.toList_inj, hchars, hchars,
    Decimal.append_cons_inj_of_notMem_right (notMem_repr rfl (by decide))
      (notMem_repr rfl (by decide)),
    Decimal.append_cons_inj_of_notMem_right (notMem_ipPort hx rfl (by decide) (by decide))
      (notMem_ipPort hy rfl (by decide) (by decide)),
    String.toList_inj, String.toList_inj, hnumber, and_assoc, ← toIpPort_inj, hx, hy,
    Option.some.injEq]

end Names

/-! ### What keeps the names -/

/-- All that a name is made of, and the names given. -/
def names (s : TcpServer L β) : String × String × BitVec 32 × ℕ × (ℕ → String) :=
  (s.name_, s.ipPort_, s.nextConnId_, s.made, fun c => (s.conns c).name_)

variable {s s' : TcpServer L β} {l : L} {t : Option L} {c : ℕ}

/-- A change of one connection. -/
theorem names_conns {x : Connection L β} (h : x.name_ = (s.conns c).name_) :
    ({ s with conns := Function.update s.conns c x } : TcpServer L β).names = s.names := by
  have hnames : (fun d => (Function.update s.conns c x d).name_) = fun d => (s.conns d).name_ := by
    funext d
    by_cases hd : d = c
    · rw [hd, Function.update_self, h]
    · rw [Function.update_of_ne hd]
  rw [names, hnames]
  rfl

theorem names_markDestroyed : (s.markDestroyed t c).names = s.names :=
  names_conns (s := s) (c := c) (x := { s.conns c with destroyed := t }) rfl

theorem names_setConn (conn : TcpConnection β) : (s.setConn c conn).names = s.names :=
  names_conns (s := s) (c := c) (x := { s.conns c with conn := conn }) rfl

section Steps

variable [DecidableEq L]

theorem names_perform (res : TcpConnection β × List (Effect β)) :
    (s.perform t c res).names = s.names :=
  names_conns (s := s) (c := c)
    (x := { s.conns c with conn := { res.1 with channel_ := (s.registration c res).2 } }) rfl

theorem names_removeConnection : (s.removeConnection t c).names = s.names := by
  unfold removeConnection removeConnectionInLoop
  simp only
  split_ifs <;> rfl

theorem names_poll (events : List (ℤ × Events)) : (s.poll l events).names = s.names := by
  refine poll_inv (I := fun u => u.names = s.names) rfl (fun u e active _ hu => ?_) events
  refine Eq.trans ?_ hu
  unfold activate
  cases (u.loops l).poller.epollfd_ e.1 with
  | none => rfl
  | some event => exact names_setConn (s := u) _

variable [Inhabited β]

theorem names_runTask (task : Task β) (r : WriteResult) :
    (s.runTask t c task r).names = s.names := by
  have hperform : (s.perform t c ((s.conns c).conn.runTask r task)).names = s.names :=
    names_perform _
  unfold runTask
  cases task with
  | connectDestroyed => exact names_markDestroyed.trans hperform
  | _ => exact hperform

theorem names_runInLoop (task : Task β) (r : WriteResult) :
    (s.runInLoop t c task r).names = s.names := by
  unfold runInLoop
  split_ifs
  · exact names_runTask task r
  · rfl

theorem names_destroy (conns : List ℕ) : (s.destroy t conns).names = s.names :=
  List.foldlRecOn (motive := fun u : TcpServer L β => u.names = s.names) conns _ rfl
    fun _ hu _ _ => (names_runInLoop _ _).trans hu

variable [Fintype L]

theorem names_next {a : Label L β} (hnew : a.isNew = false) (hst : s.next a = some s') :
    s'.names = s.names := by
  cases does_of_next hst with
  | start t hs =>
    unfold start
    split_ifs <;> rfl
  | poll hp he => exact names_poll _
  | newConnection => cases hnew
  | @callback l active c k rest read write hp =>
    have hperform : ((s.setPhase l (.dispatching active rest)).perform (some l) c
        ((s.conns c).conn.runCallback read write k)).names = s.names :=
      names_perform _
    unfold runCallback
    simp only
    split_ifs
    · exact names_removeConnection.trans hperform
    · exact hperform
  | @functor l f rest done r hp =>
    cases f with
    | run task c => exact names_runTask (s := s.setPhase l _) task r
    | removeConnectionInLoop c => rfl
    | listen => rfl
  | call r hc hconn ht => exact names_runInLoop _ r
  | shutdown hc hconn => exact (names_runInLoop _ _).trans (names_setConn _)
  | store hc hs => exact names_setConn _
  | destroy hs hconns => exact names_destroy _
  | handleEvent | swap | finish | push | exit => rfl
  | nothing | user | destroyed => rfl

/-! ### Runs -/

/-- The server has the name and the address that it was made with, and its connections are named. -/
structure Named (s : TcpServer L β) (ipPort_ name_ : String) : Prop where
  name_ : s.name_ = name_
  ipPort_ : s.ipPort_ = ipPort_
  counter : s.nextConnId_ = BitVec.ofNat 32 (s.made + 1)
  named : ∀ c < s.made, (s.conns c).name_ = s.nameOf c

variable {ipPort_ name_ : String}

omit [DecidableEq L] [Inhabited β] [Fintype L] in
theorem named_of_names (h : s.Named ipPort_ name_) (hnames : s'.names = s.names) :
    s'.Named ipPort_ name_ := by
  simp only [names, Prod.mk.injEq] at hnames
  obtain ⟨hname, hip, hcounter, hmade, hconns⟩ := hnames
  refine ⟨hname.trans h.name_, hip.trans h.ipPort_, ?_, fun c hc => ?_⟩
  · rw [hcounter, hmade, h.counter]
  · rw [nameOf, hname, hip, ← nameOf, ← h.named c (hmade ▸ hc)]
    exact congrFun hconns c

omit [DecidableEq L] [Fintype L] in
/-- The new connection is named after the counter. -/
theorem named_makeConnection (h : s.Named ipPort_ name_) (sockfd : ℤ) (highWater : Bool)
    (mark : ℕ) :
    (s.makeConnection t sockfd highWater mark).Named ipPort_ name_ := by
  refine ⟨h.name_, h.ipPort_, ?_, fun c hc => ?_⟩
  · show s.nextConnId_ + 1 = BitVec.ofNat 32 (s.made + 1 + 1)
    rw [h.counter, BitVec.ofNat_add (s.made + 1) 1]
    rfl
  · show (Function.update s.conns s.made _ c).name_ = s.nameOf c
    by_cases hnew : c = s.made
    · rw [hnew, Function.update_self]
      exact connName_eq h.counter
    · rw [Function.update_of_ne hnew]
      exact h.named c (Nat.lt_of_le_of_ne (Nat.le_of_lt_succ hc) hnew)

theorem named_next {a : Label L β} (h : s.Named ipPort_ name_) (hst : s.next a = some s') :
    s'.Named ipPort_ name_ := by
  cases hnew : a.isNew with
  | false => exact named_of_names h (names_next hnew hst)
  | true =>
    cases a with
    | newConnection sockfd highWater mark =>
      obtain ⟨-, -, -, rfl⟩ := next_newConnection hst
      exact named_of_names (named_makeConnection h sockfd highWater mark) (names_runInLoop _ _)
    | _ => cases hnew

theorem named_run {loop_ : L} {loops_ : List L} {writeComplete : Bool} {ls : List (Label L β)}
    (h : Lts.exec step (init loop_ loops_ ipPort_ name_ writeComplete) ls = some s) :
    s.Named ipPort_ name_ :=
  Lts.exec_inv' (I := fun s : TcpServer L β => s.Named ipPort_ name_)
    (fun _ _ _ hs hst => named_next hs (step_eq_some.1 hst).2)
    ⟨rfl, rfl, rfl, fun c hc => absurd hc (Nat.not_lt_zero c)⟩ h

/-- **Names of connections.**  In any runs of two servers that listen at `x` and `y`, two
connections have one name if and only if the servers have one name, address and port, and the
connections one number modulo `2^32`. -/
theorem names_unambiguous {M γ : Type} [DecidableEq M] [Fintype M] [Inhabited γ] {x y : InetAddress}
    {loop_ : L} {loops_ : List L} {writeComplete : Bool} {ls : List (Label L β)}
    {loop' : M} {loops' : List M} {ipPort' name' : String} {writeComplete' : Bool}
    {ms : List (Label M γ)} {u : TcpServer M γ} {d : ℕ}
    (hx : x.toIpPort = some ipPort_) (hy : y.toIpPort = some ipPort')
    (h : Lts.exec step (init loop_ loops_ ipPort_ name_ writeComplete) ls = some s)
    (h' : Lts.exec step (init loop' loops' ipPort' name' writeComplete') ms = some u)
    (hc : c < s.made) (hd : d < u.made) :
    (s.conns c).name_ = (u.conns d).name_ ↔
      name_ = name' ∧ (x.addr_.sin_addr = y.addr_.sin_addr ∧ x.toPort = y.toPort) ∧
        c % 2 ^ 32 = d % 2 ^ 32 := by
  have hs := named_run h
  have hu := named_run h'
  rw [hs.named c hc, hu.named d hd,
    nameOf_eq_iff (hx.trans (congrArg some hs.ipPort_.symm))
      (hy.trans (congrArg some hu.ipPort_.symm)), hs.name_, hu.name_]

/-- A server with a pool of one loop accepts two connections. -/
private def namedRun : List (Label Bool ℕ) :=
  [.start (some true), .poll true [], .newConnection 7 false 0, .newConnection 8 false 0]

/-- Two ports of one host. -/
theorem names_unambiguous_ports :
    ∃ s u : TcpServer Bool ℕ,
      Lts.exec step (init true [false] "127.0.0.1:80" "echo" false) namedRun = some s ∧
        Lts.exec step (init true [false] "127.0.0.1:8080" "echo" false) namedRun = some u ∧
        (s.conns 1).name_ ≠ (u.conns 1).name_ := by
  have h : (Lts.exec step (init true [false] "127.0.0.1:80" "echo" false) namedRun).isSome := rfl
  have h' : (Lts.exec step (init true [false] "127.0.0.1:8080" "echo" false) namedRun).isSome := rfl
  have hnames := names_unambiguous (c := 1) (d := 1) (x := .ofPort 80 "127.0.0.1")
    (y := .ofPort 8080 "127.0.0.1") (by decide +kernel) (by decide +kernel)
    (Option.some_get h).symm (Option.some_get h').symm (Nat.le_of_eq rfl) (Nat.le_of_eq rfl)
  refine ⟨_, _, (Option.some_get h).symm, (Option.some_get h').symm, fun heq => ?_⟩
  have hport : (80 : BitVec 16) = 8080 := (hnames.1 heq).2.1.2
  cases hport

end Steps

end TcpServer

end Muduo
