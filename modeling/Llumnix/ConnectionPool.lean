/-
**The connection pool of an engine.**

`LruConnectionPool` (`connection_pool.py`) keeps a connection for each address, in the order of their last
use.  When it is full, it drops the oldest one without closing it.  A channel cannot be closed at all: its
`close` passes on an argument that `grpc.aio.Channel.close` does not have, so that it raises.

* `pool_owns_open` — **in a run in which no lookup evicts or fails, and channels are not closed all at once,
  every connection is pooled or closed**, and at most the maximum is open.
-/

import Llumnix.GuardedRun
import Mathlib.Data.Finset.Card

namespace Llumnix.ConnectionPool

open GuardedRun List

inductive ConnectionType
  | zmqSocket
  | grpcChannel
  deriving DecidableEq

structure Connection where
  id : ℕ
  address : String
  deriving DecidableEq

/-- The pool, with the number of connections made and those that have been closed. -/
structure LruConnectionPool where
  connectionPool : List Connection
  created : ℕ
  closed : Finset ℕ
  deriving DecidableEq

/-- The calls; `connects` says whether `socket.connect` goes through. -/
inductive Call
  | getConnection (address : String) (connects : Bool)
  | closeConnection (address : String)
  | closeAll

variable (type : ConnectionType) (maxConnections : ℤ)

namespace LruConnectionPool

variable (s : LruConnectionPool)

def find? (address : String) : Option Connection := s.connectionPool.find? (·.address = address)

/-- The lookup, which raises if it cannot connect. -/
def getConnectionThroughAddress (address : String) (connects : Bool) :
    LruConnectionPool × Option Connection :=
  match s.find? address with
  | some c => ({ s with connectionPool := s.connectionPool.erase c ++ [c] }, some c)
  | none =>
    let pool := if 0 < maxConnections ∧ maxConnections ≤ s.connectionPool.length then s.connectionPool.tail
      else s.connectionPool
    let c : Connection := ⟨s.created, address⟩
    if type = .zmqSocket ∧ ¬ connects then ({ s with connectionPool := pool, created := s.created + 1 }, none)
    else ({ s with connectionPool := pool ++ [c], created := s.created + 1 }, some c)

def closeConnection (address : String) : LruConnectionPool :=
  match s.find? address, type with
  | some c, .zmqSocket =>
    { s with connectionPool := s.connectionPool.erase c, closed := insert c.id s.closed }
  -- an exception, or nothing to close
  | _, _ => s

/-- `close_all`, which gathers the exceptions of the channels. -/
def closeAll : LruConnectionPool :=
  { s with
    connectionPool := []
    closed := if type = .zmqSocket then s.closed ∪ (s.connectionPool.map Connection.id).toFinset
      else s.closed }

def exec (s : LruConnectionPool) : Call → Option LruConnectionPool
  | .getConnection address connects =>
    some (s.getConnectionThroughAddress type maxConnections address connects).1
  | .closeConnection address => some (s.closeConnection type address)
  | .closeAll => some (s.closeAll type)

/-- **The guard**: a lookup does not evict and can connect, and channels are not closed all at once. -/
def Keeps (s : LruConnectionPool) : Call → Prop
  | .getConnection address connects => (s.find? address).isSome ∨
    s.connectionPool.length < maxConnections ∧ (type = .zmqSocket → connects)
  | .closeConnection _ => True
  | .closeAll => type = .zmqSocket ∨ s.connectionPool = []

instance (s : LruConnectionPool) : (c : Call) → Decidable (Keeps type maxConnections s c)
  | .getConnection _ _ => inferInstanceAs (Decidable (_ ∨ _ ∧ _))
  | .closeConnection _ => inferInstanceAs (Decidable True)
  | .closeAll => inferInstanceAs (Decidable (_ ∨ _))

/-- **Every connection is pooled or closed**, and no more than the maximum are pooled. -/
structure Owned : Prop where
  owned : ∀ i < s.created, i ∈ s.connectionPool.map Connection.id ∨ i ∈ s.closed
  bound : s.connectionPool.length ≤ maxConnections

variable {type maxConnections} {s} {t : LruConnectionPool} {c : Call}

theorem perm_of_find? {address : String} {c : Connection} (h : s.find? address = some c) :
    s.connectionPool.Perm (c :: s.connectionPool.erase c) :=
  perm_cons_erase (mem_of_find?_eq_some h)

theorem owned_getConnection {address : String} {connects : Bool}
    (hk : Keeps type maxConnections s (.getConnection address connects)) (h : Owned maxConnections s) :
    Owned maxConnections (s.getConnectionThroughAddress type maxConnections address connects).1 := by
  unfold getConnectionThroughAddress
  cases hf : s.find? address with
  | some c =>
    have hp := (perm_append_singleton c _).trans (perm_of_find? hf).symm
    refine ⟨fun i hi => ?_, hp.length_eq ▸ h.bound⟩
    rw [(hp.map Connection.id).mem_iff]
    exact h.owned i hi
  | none =>
    obtain ⟨hl, hc⟩ : s.connectionPool.length < maxConnections ∧ (type = .zmqSocket → connects) := by
      simpa [Keeps, hf] using hk
    have hn : ¬ (type = .zmqSocket ∧ ¬ connects) := fun hn => hn.2 (hc hn.1)
    dsimp only
    rw [if_neg hn, if_neg (by omega)]
    refine ⟨fun i hi => ?_, by simp only [length_append, length_singleton]; omega⟩
    rw [map_append, mem_append]
    rcases Nat.lt_succ_iff_lt_or_eq.1 hi with hi | rfl
    · exact (h.owned i hi).imp_left .inl
    · exact .inl (.inr mem_cons_self)

theorem owned_exec (hk : Keeps type maxConnections s c) (hex : exec type maxConnections s c = some t)
    (h : Owned maxConnections s) : Owned maxConnections t := by
  cases c with
  | getConnection =>
    cases hex
    exact owned_getConnection hk h
  | closeConnection address =>
    cases hex
    unfold closeConnection
    split
    · next c hf =>
      -- the connection goes from the pool to the closed ones
      have hp := perm_of_find? hf
      have hl := hp.length_eq
      refine ⟨fun i hi => ?_, le_trans ?_ h.bound⟩
      · have ho := h.owned i hi
        rw [(hp.map Connection.id).mem_iff, map_cons, mem_cons] at ho
        rw [Finset.mem_insert]
        tauto
      · simp only [length_cons] at hl ⊢
        omega
    · exact h
  | closeAll =>
    cases hex
    refine ⟨fun i hi => .inr ?_, le_trans (by simp [closeAll]) h.bound⟩
    have ho := h.owned i hi
    rcases hk with rfl | he
    · simpa [closeAll, or_comm] using ho
    · rw [he] at ho
      simpa [closeAll, he] using ho

end LruConnectionPool

open LruConnectionPool

/-- **Every connection is pooled or closed**, and a lookup that returns gives a pooled one. -/
theorem pool_owns_open (hpos : 0 < maxConnections) {s : LruConnectionPool}
    (h : Reaches (exec type maxConnections) (Keeps type maxConnections) ⟨[], 0, ∅⟩ s) :
    Owned maxConnections s ∧ (Finset.range s.created \ s.closed).card ≤ maxConnections ∧
      ∀ address connects t c,
        s.getConnectionThroughAddress type maxConnections address connects = (t, some c) →
          c.address = address ∧ c ∈ t.connectionPool := by
  have ho : Owned maxConnections s := h.invariant (I := Owned maxConnections)
    ⟨fun i hi => absurd hi (Nat.not_lt_zero i), hpos.le⟩ fun _ _ _ => owned_exec
  refine ⟨ho, le_trans ?_ ho.bound, fun address connects t c hg => ?_⟩
  · have hs : Finset.range s.created \ s.closed ⊆ (s.connectionPool.map Connection.id).toFinset := by
      intro i hi
      rw [Finset.mem_sdiff, Finset.mem_range] at hi
      exact mem_toFinset.2 ((ho.owned i hi.1).resolve_right hi.2)
    have hc := (Finset.card_le_card hs).trans (toFinset_card_le _)
    rw [length_map] at hc
    exact_mod_cast hc
  · unfold getConnectionThroughAddress at hg
    cases hf : s.find? address with
    | some c' =>
      rw [hf] at hg
      cases hg
      have ha := find?_some hf
      exact ⟨of_decide_eq_true ha, by simp⟩
    | none =>
      rw [hf] at hg
      dsimp only at hg
      split at hg <;> cases hg
      exact ⟨rfl, by simp⟩

theorem pool_owns_open_closed : ∃ s, Reaches (exec .zmqSocket 1) (Keeps .zmqSocket 1) ⟨[], 0, ∅⟩ s ∧
    s.closed = {0} ∧ Owned 1 s :=
  Reaches.exists_and (l := [.getConnection "a" true, .closeAll, .getConnection "b" true]) (by decide)
    fun _ h => (pool_owns_open .zmqSocket 1 (by decide) h).1

/-- **An evicted connection stays open**: the second lookup drops the first connection. -/
theorem evicted_stays_open : ¬ ∀ s, Reaches (exec .zmqSocket 1) free ⟨[], 0, ∅⟩ s → Owned 1 s := by
  intro h
  have hr : ∃ s ∈ runAll (exec .zmqSocket 1) free ⟨[], 0, ∅⟩
      [.getConnection "a" true, .getConnection "b" true], s = ⟨[⟨1, "b"⟩], 2, ∅⟩ := by decide
  obtain ⟨s, hs, rfl⟩ := Reaches.of_exists hr
  exact absurd ((h _ hs).owned 0 (by decide)) (by decide)

end Llumnix.ConnectionPool
