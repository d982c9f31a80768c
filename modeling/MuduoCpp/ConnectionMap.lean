import Mathlib
import MuduoCpp.Confinement

/-!
# `connections_` and the names of the connections

The runs of a server over the steps that touch `connections_`: `newConnection` and
`removeConnectionInLoop`, in any order and for any connections, each of which may be removed more
than once (`handleClose` can run twice for one `handleEvent`).

The key of a connection is made of `nextConnId_`, an `int` that wraps around after `2^32`
connections; nothing looks whether the key is there.

* `nameOf`, the name of the connection with a number, and `nameOf_inj`: two names are equal exactly
  if the numbers are equal modulo `2^32`;
* `Naming`, the server with the connections that have been removed;
* `names_unique_iff`: when `connections_` is what its comment says, all the connections.
-/

namespace Muduo

namespace TcpServer

variable {L β : Type}

/-! ### Names -/

/-- The name of the connection with the number `c`: `nextConnId_` starts at one. -/
def nameOf (s : TcpServer L β) (c : ℕ) : String :=
  s.name_ ++ "-" ++ s.ipPort_ ++ "#" ++ toString (BitVec.ofNat 32 (c + 1)).toInt

theorem nameOf_inj {s : TcpServer L β} {c d : ℕ} :
    s.nameOf c = s.nameOf d ↔ c % 2 ^ 32 = d % 2 ^ 32 := by
  have hrepr : ∀ i j : ℤ, toString i = toString j ↔ i = j := fun i j => Int.repr_inj
  rw [nameOf, nameOf, String.append_right_inj, hrepr, BitVec.toInt_inj, ← BitVec.toNat_inj,
    BitVec.toNat_ofNat, BitVec.toNat_ofNat]
  omega

theorem connName_eq {s : TcpServer L β} (h : s.nextConnId_ = BitVec.ofNat 32 (s.made + 1)) :
    s.connName = s.nameOf s.made := by
  rw [connName, h, nameOf]

section Functions

variable [DecidableEq L] [Inhabited β] (s : TcpServer L β) (t : Option L) (c : ℕ)

omit [Inhabited β] in
/-- A function of a connection leaves the server's own data alone. -/
theorem server_perform (res : TcpConnection β × List (Effect β)) :
    (s.perform t c res).connections_ = s.connections_ ∧
      (s.perform t c res).nextConnId_ = s.nextConnId_ ∧ (s.perform t c res).name_ = s.name_ ∧
      (s.perform t c res).ipPort_ = s.ipPort_ ∧ (s.perform t c res).made = s.made :=
  ⟨rfl, rfl, rfl, rfl, rfl⟩

theorem server_runInLoop (task : Task β) (r : WriteResult) :
    (s.runInLoop t c task r).connections_ = s.connections_ ∧
      (s.runInLoop t c task r).nextConnId_ = s.nextConnId_ ∧
      (s.runInLoop t c task r).name_ = s.name_ ∧ (s.runInLoop t c task r).ipPort_ = s.ipPort_ ∧
      (s.runInLoop t c task r).made = s.made := by
  have hperform := s.server_perform t c ((s.conns c).conn.runTask r task)
  unfold runInLoop runTask
  split_ifs
  · cases task with
    | _ => exact hperform
  · exact ⟨rfl, rfl, rfl, rfl, rfl⟩

theorem name_runInLoop (task : Task β) (r : WriteResult) (d : ℕ) :
    ((s.runInLoop t c task r).conns d).name_ = (s.conns d).name_ := by
  have hact : s.Acts (s.runInLoop t c task r) c fun _ => True := acts_runInLoop
  by_cases hd : d = c
  · rw [hd, hact.nameOf]
  · rw [hact.conns d hd]

end Functions

/-- A server that makes and removes connections, with the connections that have been removed; no
step reads these. -/
structure Naming (L β : Type) where
  server : TcpServer L β
  removed : List ℕ

namespace Naming

/-- What the base loop does with `connections_`. -/
inductive Label
  | newConnection (sockfd : ℤ) (highWater : Bool) (mark : ℕ)
  | removeConnectionInLoop (c : ℕ)
  deriving DecidableEq, Repr

/-- Only a connection that was made is removed. -/
def enabled (s : Naming L β) : Label → Prop
  | .newConnection _ _ _ => True
  | .removeConnectionInLoop c => c < s.server.made

instance (s : Naming L β) : DecidablePred s.enabled
  | .newConnection _ _ _ => isTrue trivial
  | .removeConnectionInLoop _ => inferInstanceAs (Decidable (_ < _))

variable [DecidableEq L] [Inhabited β]

/-- Both run on the thread of the base loop. -/
def after (s : Naming L β) : Label → Naming L β
  | .newConnection sockfd highWater mark =>
      { s with server := s.server.newConnection (some s.server.loop_) sockfd highWater mark }
  | .removeConnectionInLoop c =>
      { server := s.server.removeConnectionInLoop (some s.server.loop_) c
        removed := c :: s.removed }

/-- One step. -/
def step : Naming L β → Label → Option (Naming L β) := Lts.guarded enabled after

/-- A newly constructed server. -/
def init (loop_ : L) (loops_ : List L) (ipPort_ name_ : String) (writeComplete : Bool) :
    Naming L β where
  server := .init loop_ loops_ ipPort_ name_ writeComplete
  removed := []

/-- `connections_` has the connections made and not removed, each under its name. -/
def HoldsAll (s : Naming L β) : Prop :=
  ∀ n c, s.server.connections_ n = some c ↔
    c < s.server.made ∧ c ∉ s.removed ∧ (s.server.conns c).name_ = n

/-- The step does what it should: the new name is no key yet, the removal erases the entry of its
connection only, and `connections_` has all the connections afterwards. -/
def Meets (s : Naming L β) (l : Label) : Prop :=
  (match l with
    | .newConnection _ _ _ => s.server.connections_ s.server.connName = none
    | .removeConnectionInLoop c => ∀ n d, s.server.connections_ n = some d →
        ((s.after l).server.connections_ n = some d ↔ d ≠ c)) ∧
  (s.after l).HoldsAll

/-- No connection that is not removed has a number that is equal to the new one modulo `2^32`, or to
that of a connection that is removed again. -/
def IdFree (s : Naming L β) : Label → Prop
  | .newConnection _ _ _ => ∀ d < s.server.made, d ∉ s.removed → d % 2 ^ 32 ≠ s.server.made % 2 ^ 32
  | .removeConnectionInLoop c => c ∈ s.removed → ∀ d < s.server.made, d ∉ s.removed →
      d % 2 ^ 32 ≠ c % 2 ^ 32

instance (s : Naming L β) : DecidablePred s.IdFree
  | .newConnection _ _ _ => inferInstanceAs (Decidable (∀ d < _, _ → _))
  | .removeConnectionInLoop _ => inferInstanceAs (Decidable (_ → ∀ d < _, _ → _))

/-- Names are numbered, and `connections_` has all the connections. -/
structure Exact (s : Naming L β) : Prop where
  counter : s.server.nextConnId_ = BitVec.ofNat 32 (s.server.made + 1)
  named : ∀ c < s.server.made, (s.server.conns c).name_ = s.server.nameOf c
  removed : ∀ c ∈ s.removed, c < s.server.made
  holds : s.HoldsAll

omit [DecidableEq L] in
theorem exact_init (loop_ : L) (loops_ : List L) (ipPort_ name_ : String) (writeComplete : Bool) :
    (init loop_ loops_ ipPort_ name_ writeComplete : Naming L β).Exact := by
  constructor <;> simp [init, TcpServer.init, HoldsAll]

variable {s : Naming L β} {sockfd : ℤ} {highWater : Bool} {mark c : ℕ}

/-! ### The two steps -/

section NewConnection

theorem connections_newConnection :
    (s.after (.newConnection sockfd highWater mark)).server.connections_ =
      Function.update s.server.connections_ s.server.connName (some s.server.made) :=
  (server_runInLoop _ _ _ _ _).1

theorem name_newConnection (d : ℕ) :
    ((s.after (.newConnection sockfd highWater mark)).server.conns d).name_ =
      if d = s.server.made then s.server.connName else (s.server.conns d).name_ := by
  refine (name_runInLoop _ _ _ _ _ _).trans ?_
  show (Function.update s.server.conns _ _ d).name_ = _
  rw [Function.update_apply]
  split_ifs <;> rfl

theorem nameOf_newConnection (d : ℕ) :
    (s.after (.newConnection sockfd highWater mark)).server.nameOf d = s.server.nameOf d := by
  obtain ⟨-, -, hname, hip, -⟩ := server_runInLoop
    (s.server.makeConnection (some s.server.loop_) sockfd highWater mark) (some s.server.loop_)
    s.server.made .connectEstablished (.sent 0)
  unfold nameOf
  exact congrArg₂ (fun n p => n ++ "-" ++ p ++ "#" ++ toString (BitVec.ofNat 32 (d + 1)).toInt)
    hname hip

theorem made_newConnection :
    (s.after (.newConnection sockfd highWater mark)).server.made = s.server.made + 1 :=
  (server_runInLoop _ _ _ _ _).2.2.2.2

theorem counter_newConnection :
    (s.after (.newConnection sockfd highWater mark)).server.nextConnId_ =
      s.server.nextConnId_ + 1 :=
  (server_runInLoop _ _ _ _ _).2.1

end NewConnection

omit [DecidableEq L] [Inhabited β] in
/-- The name of a connection that is there is that of its number. -/
theorem Exact.nameOf_of_mapped (h : s.Exact) {n : String} {d : ℕ}
    (hd : s.server.connections_ n = some d) : s.server.nameOf d = n := by
  obtain ⟨hlt, -, hname⟩ := (h.holds n d).1 hd
  rw [← h.named d hlt, hname]

omit [DecidableEq L] [Inhabited β] in
/-- A live connection of the same number modulo `2^32` has the name. -/
theorem Exact.mapped_of_mod (h : s.Exact) {d e : ℕ} (hd : d < s.server.made)
    (hlive : d ∉ s.removed) (hmod : d % 2 ^ 32 = e % 2 ^ 32) :
    s.server.connections_ (s.server.nameOf e) = some d := by
  refine (h.holds _ d).2 ⟨hd, hlive, ?_⟩
  rw [h.named d hd]
  exact nameOf_inj.2 hmod

omit [DecidableEq L] [Inhabited β] in
theorem freeName_iff (h : s.Exact) :
    s.server.connections_ s.server.connName = none ↔
      ∀ d < s.server.made, d ∉ s.removed → d % 2 ^ 32 ≠ s.server.made % 2 ^ 32 := by
  rw [connName_eq h.counter]
  constructor
  · intro hnone d hd hlive hmod
    rw [h.mapped_of_mod hd hlive hmod] at hnone
    cases hnone
  · intro hfree
    cases hd : s.server.connections_ (s.server.nameOf s.server.made) with
    | none => rfl
    | some d =>
      obtain ⟨hlt, hlive, -⟩ := (h.holds _ d).1 hd
      exact absurd (nameOf_inj.1 (h.nameOf_of_mapped hd)) (hfree d hlt hlive)

theorem exact_newConnection (h : s.Exact)
    (hfree : s.IdFree (.newConnection sockfd highWater mark)) :
    (s.after (.newConnection sockfd highWater mark)).Exact := by
  have hnone := (freeName_iff h).2 hfree
  refine ⟨?_, fun d hd => ?_, fun d hd => ?_, fun n d => ?_⟩
  · rw [counter_newConnection, made_newConnection, h.counter]
    exact (BitVec.ofNat_add _ 1).symm
  · rw [made_newConnection] at hd
    rw [name_newConnection, nameOf_newConnection]
    split_ifs with hnew
    · rw [hnew, connName_eq h.counter]
    · exact h.named d (by omega)
  · rw [made_newConnection]
    exact Nat.lt_succ_of_lt (h.removed d hd)
  · rw [connections_newConnection, made_newConnection, name_newConnection, Function.update_apply]
    show _ ↔ _ ∧ d ∉ s.removed ∧ _
    by_cases hn : n = s.server.connName
    · subst hn
      rw [if_pos rfl]
      constructor
      · rintro hd
        cases hd
        exact ⟨Nat.lt_succ_self _, fun hd => absurd (h.removed _ hd) (Nat.lt_irrefl _), if_pos rfl⟩
      · rintro ⟨hd, hlive, hname⟩
        split_ifs at hname with hnew
        · rw [hnew]
        · -- a connection that has the name already
          have := (h.holds _ d).2 ⟨by omega, hlive, hname⟩
          rw [hnone] at this
          cases this
    · rw [if_neg hn, h.holds]
      by_cases hnew : d = s.server.made
      · rw [if_pos hnew]
        exact ⟨fun hd => absurd hd.1 (by omega), fun hd => absurd hd.2.2.symm hn⟩
      · rw [if_neg hnew]
        refine and_congr_left fun _ => ?_
        omega

theorem connections_remove (n : String) :
    (s.after (.removeConnectionInLoop c)).server.connections_ n =
      if n = (s.server.conns c).name_ then none else s.server.connections_ n :=
  Function.update_apply _ _ _ _

/-- The entry of the name is that of the connection, or there is none. -/
theorem own_entry_iff (h : s.Exact) (hc : c < s.server.made) :
    (∀ n d, s.server.connections_ n = some d →
        ((s.after (.removeConnectionInLoop c)).server.connections_ n = some d ↔ d ≠ c)) ↔
      s.IdFree (.removeConnectionInLoop c) := by
  constructor
  · intro hown hrem d hd hlive hmod
    have hmapped := h.mapped_of_mod hd hlive hmod
    rw [← h.named c hc] at hmapped
    have hkept := (hown _ d hmapped).2 fun hdc => hlive (hdc ▸ hrem)
    rw [connections_remove, if_pos rfl] at hkept
    cases hkept
  · intro hfree n d hd
    obtain ⟨hlt, hlive, hname⟩ := (h.holds n d).1 hd
    rw [connections_remove]
    split_ifs with hn
    · refine iff_of_false (fun hnone => by cases hnone) (not_not.2 ?_)
      by_contra hdc
      by_cases hrem : c ∈ s.removed
      · refine hfree hrem d hlt hlive ((nameOf_inj (s := s.server)).1 ?_)
        rw [← h.named d hlt, ← h.named c hc, hname, hn]
      · have := (h.holds n c).2 ⟨hc, hrem, hn.symm⟩
        rw [hd] at this
        exact hdc (Option.some.inj this)
    · exact iff_of_true hd fun hdc => hn (hdc ▸ hname.symm)

theorem exact_remove (h : s.Exact) (hc : c < s.server.made)
    (hfree : s.IdFree (.removeConnectionInLoop c)) :
    (s.after (.removeConnectionInLoop c)).Exact := by
  have hown := (own_entry_iff h hc).2 hfree
  refine ⟨h.counter, h.named, fun d hd => ?_, fun n d => ?_⟩
  · rcases List.mem_cons.1 hd with rfl | hd
    · exact hc
    · exact h.removed d hd
  · show _ ↔ d < s.server.made ∧ d ∉ c :: s.removed ∧ (s.server.conns d).name_ = n
    rw [List.mem_cons, not_or]
    constructor
    · intro hd
      have hold : s.server.connections_ n = some d := by
        rw [connections_remove] at hd
        split_ifs at hd
        exact hd
      obtain ⟨hlt, hlive, hname⟩ := (h.holds n d).1 hold
      exact ⟨hlt, ⟨(hown n d hold).1 hd, hlive⟩, hname⟩
    · rintro ⟨hlt, ⟨hdc, hlive⟩, hname⟩
      exact (hown n d ((h.holds n d).2 ⟨hlt, hlive, hname⟩)).2 hdc

theorem exact_after {l : Label} (h : s.Exact) (hfree : s.IdFree l) (hen : s.enabled l) :
    (s.after l).Exact := by
  cases l with
  | newConnection sockfd highWater mark => exact exact_newConnection h hfree
  | removeConnectionInLoop c => exact exact_remove h hen hfree

theorem meets_iff {l : Label} (h : s.Exact) (hen : s.enabled l) : s.Meets l ↔ s.IdFree l := by
  cases l with
  | newConnection sockfd highWater mark =>
    refine ⟨fun hm => (freeName_iff h).1 hm.1, fun hfree => ⟨(freeName_iff h).2 hfree, ?_⟩⟩
    exact (exact_newConnection h hfree).holds
  | removeConnectionInLoop c =>
    refine ⟨fun hm => (own_entry_iff h hen).1 hm.1,
      fun hfree => ⟨(own_entry_iff h hen).2 hfree, ?_⟩⟩
    exact (exact_remove h hen hfree).holds

/-! ### The counter comes back -/

/-- `k` connections are opened and closed. -/
private def shortLived : ℕ → List Label
  | 0 => []
  | k + 1 => shortLived k ++ [.newConnection 10 false 0, .removeConnectionInLoop (k + 1)]

/-- The first connection stays, `k` are opened and closed, and another one comes. -/
private def wrapRun (k : ℕ) : List Label :=
  .newConnection 9 false 0 :: (shortLived k ++ [.newConnection 10 false 0])

/-- As long as the counter has not come back, the first connection is the only one. -/
private theorem exec_shortLived {s : Naming L β} (h : s.Exact) (hmade : s.server.made = 1)
    (hnone : s.removed = []) {k : ℕ} (hk : k < 2 ^ 32) :
    ∃ u, Lts.exec step s (shortLived k) = some u ∧ u.Exact ∧ u.server.made = k + 1 ∧
      ∀ d, d ∈ u.removed ↔ 0 < d ∧ d ≤ k := by
  induction k with
  | zero => exact ⟨s, rfl, h, hmade, fun d => by rw [hnone]; simp; omega⟩
  | succ k ih =>
    obtain ⟨u, hu, hexact, humade, hrem⟩ := ih (by omega)
    have hfirst : u.IdFree (.newConnection 10 false 0) := by
      intro d hd hlive
      rw [hrem] at hlive
      rw [humade] at hd ⊢
      have : d = 0 := by omega
      subst this
      omega
    have hen : (u.after (.newConnection 10 false 0)).enabled (.removeConnectionInLoop (k + 1)) := by
      show k + 1 < (u.after (.newConnection 10 false 0)).server.made
      rw [made_newConnection, humade]
      omega
    have hagain :
        (u.after (.newConnection 10 false 0)).IdFree (.removeConnectionInLoop (k + 1)) := by
      intro hmem
      have := (hrem (k + 1)).1 hmem
      omega
    refine ⟨(u.after (.newConnection 10 false 0)).after (.removeConnectionInLoop (k + 1)), ?_,
      exact_remove (exact_newConnection hexact hfirst) hen hagain, ?_, fun d => ?_⟩
    · refine Lts.exec_append_iff.2 ⟨u, hu, Lts.guarded_exec_cons.2 ⟨trivial,
        Lts.guarded_exec_cons.2 ⟨hen, rfl⟩⟩⟩
    · exact made_newConnection.trans (by rw [humade])
    · show d ∈ (k + 1) :: u.removed ↔ _
      rw [List.mem_cons, hrem]
      omega

private theorem not_meets_wrapRun {k : ℕ} (hk : k + 1 = 2 ^ 32) :
    ¬ Lts.Along step Meets (init () [] "" "" false : Naming Unit ℕ) (wrapRun k) := by
  have hfirst : (init () [] "" "" false : Naming Unit ℕ).IdFree (.newConnection 9 false 0) :=
    fun d hd => absurd hd (Nat.not_lt_zero d)
  obtain ⟨u, hu, hexact, humade, hrem⟩ := exec_shortLived (k := k)
    (exact_newConnection (exact_init () [] "" "" false) hfirst) made_newConnection rfl (by omega)
  intro hrun
  have hlast := (Lts.along_append.1 (hrun.2 _ rfl)).2 u hu
  -- the name of the first connection is a key, and it is the name that is built
  refine (freeName_iff hexact).1 hlast.1.1 0 (by omega) (fun h => ?_) (by omega)
  have := (hrem 0).1 h
  omega

/-- **`connections_` has all the connections**, in every step of a run, if and only if no number
comes back modulo `2^32` while a connection has it. -/
theorem names_unique_iff {loop_ : L} {loops_ : List L} {ipPort_ name_ : String}
    {writeComplete : Bool} {ls : List Label} {s : Naming L β}
    (h : Lts.exec step (init loop_ loops_ ipPort_ name_ writeComplete) ls = some s) :
    Lts.Along step Meets (init loop_ loops_ ipPort_ name_ writeComplete : Naming L β) ls ↔
      Lts.Along step IdFree (init loop_ loops_ ipPort_ name_ writeComplete : Naming L β) ls :=
  Lts.guarded_along_iff' (fun _ _ hs hfree hen => exact_after hs hfree hen)
    (fun _ _ hs hen => meets_iff hs hen) (exact_init _ _ _ _ _) h

/-- The first connection is open, and after `2^32 - 1` more its name is built again. -/
theorem name_reused :
    ¬ Lts.Along step Meets (init () [] "" "" false : Naming Unit ℕ) (wrapRun (2 ^ 32 - 1)) :=
  not_meets_wrapRun (by norm_num)

/-- Two connections; the first is removed twice, and another one comes. -/
private def reopenedRun : List Label :=
  [.newConnection 9 false 0, .newConnection 10 false 0, .removeConnectionInLoop 0,
    .removeConnectionInLoop 0, .newConnection 9 false 0]

theorem names_unique_iff_reopened :
    Lts.Along step Meets (init () [] "" "" false : Naming Unit ℕ) reopenedRun := by
  have hrun : (Lts.exec step (init () [] "" "" false : Naming Unit ℕ) reopenedRun).any
      (fun _ => true) = true := by decide +kernel
  obtain ⟨s, hs, -⟩ := Lts.exec_of_any hrun
  exact (names_unique_iff hs).2 (by decide +kernel)

end Naming

end TcpServer

end Muduo
