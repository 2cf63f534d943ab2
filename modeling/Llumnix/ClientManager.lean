/-
**The pool of llumlet connections.**

A `ClientManager` keeps one connection per instance, counts the requests that use it, and keeps the
connections in the order of their last use.  When the pool is full, a new connection takes the place of the
least recently used one; if that one is in use, the new connection is refused.  `GetOrCreateClient` takes
the lock twice: to look the connection up, and to create it.  Anything may happen in between.

* `pool_sound` — **the two maps and the list agree, the pool keeps to its size, counts count holders, nobody
  holds a closed connection, and a new connection is refused exactly when the pool is full and the least
  recently used connection has a holder**.
-/

import Llumnix.FiniteMap
import Llumnix.GuardedRun

namespace Llumnix.Llumlet

open GuardedRun FiniteMap List

/-! ### The manager -/

/-- A `ClientConnection`; `conn` stands for the grpc connection. -/
structure ClientConnection where
  conn : Nat
  instanceId : String
  address : String
  deriving DecidableEq

/-- A `ClientManager`, with the connections that have been opened and closed so far. -/
structure ClientManager where
  clientConnections : Finmap fun _ : String => ClientConnection
  clientConnectionRequestCnt : Finmap fun _ : String => Nat
  maxSize : Int
  /-- The most recently used connection comes first. -/
  lruList : List ClientConnection
  opened : Nat
  closed : List Nat

inductive CreateError
  /-- "create llumlet llumletClient failed, reach max size" -/
  | reachMaxSize
  | newClient (err : String)
  deriving DecidableEq

def newClientManager (maxSize : Int) : ClientManager :=
  ⟨∅, ∅, if maxSize ≤ 0 then -1 else maxSize, [], 0, []⟩

namespace ClientManager

variable (m : ClientManager)

def decrClientConnectionRequestCnt (instanceId : String) : ClientManager :=
  match m.clientConnectionRequestCnt.lookup instanceId with
  | some cnt =>
    if 0 < cnt then { m with
      clientConnectionRequestCnt := m.clientConnectionRequestCnt.insert instanceId (cnt - 1) }
    else m
  | none => m

def use (c : ClientConnection) : ClientManager :=
  { m with
    lruList := c :: m.lruList.erase c
    clientConnectionRequestCnt := m.clientConnectionRequestCnt.insert c.instanceId
      ((m.clientConnectionRequestCnt.lookup c.instanceId).getD 0 + 1) }

def getClient (instanceId : String) : ClientManager × Option ClientConnection :=
  match m.clientConnections.lookup instanceId with
  | some c => (m.use c, some c)
  | none => (m, none)

def full : Bool := decide (0 < m.maxSize ∧ m.maxSize ≤ m.clientConnections.keys.card)

/-- The connection at the back of the list is closed and forgotten. -/
def evict (c : ClientConnection) : ClientManager :=
  { m with
    clientConnections := m.clientConnections.erase c.instanceId
    clientConnectionRequestCnt := m.clientConnectionRequestCnt.erase c.instanceId
    lruList := m.lruList.dropLast
    closed := c.conn :: m.closed }

/-- The loop of `createClient`, over the list from its back. With an empty list and a full pool it would never
end. -/
def makeRoom : List ClientConnection → ClientManager → Option (ClientManager × Bool)
  | [], m => if m.full then none else some (m, true)
  | last :: back, m =>
    if m.full then
      if 0 < (m.clientConnectionRequestCnt.lookup last.instanceId).getD 0 then some (m, false)
      else makeRoom back (m.evict last)
    else some (m, true)

def add (instanceId address : String) : ClientManager × ClientConnection :=
  let c : ClientConnection := ⟨m.opened, instanceId, address⟩
  ({ m with
      clientConnections := m.clientConnections.insert instanceId c
      clientConnectionRequestCnt := m.clientConnectionRequestCnt.insert instanceId 1
      lruList := c :: m.lruList
      opened := m.opened + 1 }, c)

/-- `createClient`; `dialed` is the outcome of `grpc.NewClient`. -/
def createClient (instanceId address : String) (dialed : Except String Unit) :
    Option (ClientManager × Except CreateError ClientConnection) :=
  match m.clientConnections.lookup instanceId with
  | some c => some (m.use c, .ok c)
  | none => (makeRoom m.lruList.reverse m).map fun (m, room) =>
      if room then
        match dialed with
        | .ok _ => ((m.add instanceId address).1, .ok (m.add instanceId address).2)
        | .error err => (m, .error (.newClient err))
      else (m, .error .reachMaxSize)

end ClientManager

open ClientManager

/-! ### The pool and its holders -/

/-- The manager, and the connections that callers have got and not yet given back. -/
structure Pool where
  manager : ClientManager
  holders : List ClientConnection

inductive Action
  | getClient (instanceId : String)
  | createClient (instanceId address : String) (dialed : Except String Unit)
  | decr (c : ClientConnection)

def exec (s : Pool) : Action → Option Pool
  | .getClient instanceId =>
    some ⟨(s.manager.getClient instanceId).1, (s.manager.getClient instanceId).2.toList ++ s.holders⟩
  | .createClient instanceId address dialed =>
    (s.manager.createClient instanceId address dialed).map fun r =>
      ⟨r.1, r.2.toOption.toList ++ s.holders⟩
  | .decr c =>
    if c ∈ s.holders then
      some ⟨s.manager.decrClientConnectionRequestCnt c.instanceId, s.holders.erase c⟩
    else none

/-- The holders of the connection of an instance. -/
def heldBy (holders : List ClientConnection) (instanceId : String) : Nat :=
  holders.countP fun c => c.instanceId = instanceId

structure Pooled (s : Pool) : Prop where
  conns : ∀ id c, s.manager.clientConnections.lookup id = some c ↔
    c ∈ s.manager.lruList ∧ c.instanceId = id
  counts : ∀ id, s.manager.clientConnectionRequestCnt.lookup id =
    (s.manager.clientConnections.lookup id).map fun _ => heldBy s.holders id
  ids : (s.manager.lruList.map ClientConnection.instanceId).Nodup
  held : ∀ c ∈ s.holders, c ∈ s.manager.lruList
  size : 0 < s.manager.maxSize → (s.manager.lruList.length : Int) ≤ s.manager.maxSize
  /-- Every connection ever opened is closed or pooled. -/
  serials : (s.manager.closed ++ s.manager.lruList.map ClientConnection.conn).Perm
    (List.range s.manager.opened)

variable {s t : Pool} {c : ClientConnection} {id : String}

namespace Pooled

theorem lookup_of_mem (h : Pooled s) (hc : c ∈ s.manager.lruList) :
    s.manager.clientConnections.lookup c.instanceId = some c := (h.conns _ c).2 ⟨hc, rfl⟩

theorem mem_keys (h : Pooled s) (id : String) : id ∈ s.manager.clientConnections.keys ↔
    id ∈ s.manager.lruList.map ClientConnection.instanceId := by
  rw [Finmap.mem_keys, ← Finmap.lookup_isSome, Option.isSome_iff_exists, mem_map]
  exact exists_congr fun c => h.conns id c

theorem card (h : Pooled s) : s.manager.clientConnections.keys.card = s.manager.lruList.length := by
  have hk : s.manager.clientConnections.keys = (s.manager.lruList.map ClientConnection.instanceId).toFinset := by
    ext id
    rw [h.mem_keys, mem_toFinset]
  rw [hk, toFinset_card_of_nodup h.ids, length_map]

theorem not_held (h : Pooled s) (hn : s.manager.clientConnections.lookup id = none) :
    heldBy s.holders id = 0 := by
  refine countP_eq_zero.2 fun c hc => ?_
  have hl := h.lookup_of_mem (h.held c hc)
  simp only [decide_eq_true_eq]
  rintro rfl
  cases hn.symm.trans hl

theorem heldBy_cons (c : ClientConnection) (holders : List ClientConnection) (id : String) :
    heldBy (c :: holders) id = heldBy holders id + if c.instanceId = id then 1 else 0 := by
  simp [heldBy, countP_cons]

/-- **A pooled connection is used once more.** -/
theorem use (h : Pooled s) (hc : c ∈ s.manager.lruList) : Pooled ⟨s.manager.use c, c :: s.holders⟩ := by
  have hp : (c :: s.manager.lruList.erase c).Perm s.manager.lruList := (perm_cons_erase hc).symm
  have hm : ∀ d, d ∈ (s.manager.use c).lruList ↔ d ∈ s.manager.lruList := fun d => hp.mem_iff
  refine ⟨fun id d => by rw [hm]; exact h.conns id d, fun id => ?_, ?_, ?_, ?_, ?_⟩
  · have hl := h.counts c.instanceId
    rw [h.lookup_of_mem hc, Option.map_some] at hl
    simp only [ClientManager.use, lookup_insert_ite, heldBy_cons, hl, Option.getD_some]
    split
    · next hid => rw [hid, h.lookup_of_mem hc, Option.map_some, if_pos rfl]
    · next hid => rw [h.counts, if_neg (Ne.symm hid), Nat.add_zero]
  · exact (hp.map _).nodup_iff.2 h.ids
  · simp only [hm]
    exact forall_mem_cons.2 ⟨hc, h.held⟩
  · intro hpos
    have hlen : (s.manager.use c).lruList.length = s.manager.lruList.length := hp.length_eq
    rw [hlen]
    exact h.size hpos
  · exact ((hp.map _).append_left _).trans h.serials

/-- **A holder gives its connection back.** -/
theorem decr (h : Pooled s) (hc : c ∈ s.holders) :
    Pooled ⟨s.manager.decrClientConnectionRequestCnt c.instanceId, s.holders.erase c⟩ := by
  have hl := h.counts c.instanceId
  rw [h.lookup_of_mem (h.held c hc), Option.map_some] at hl
  have hp : ∀ id, heldBy s.holders id = heldBy (s.holders.erase c) id + if c.instanceId = id then 1 else 0 :=
    fun id => ((perm_cons_erase hc).countP_eq _).trans (heldBy_cons c _ id)
  have hpos : 0 < heldBy s.holders c.instanceId := by
    rw [hp, if_pos rfl]
    omega
  simp only [decrClientConnectionRequestCnt, hl, if_pos hpos]
  refine ⟨h.conns, fun id => ?_, h.ids, fun d hd => h.held d (mem_of_mem_erase hd), h.size, h.serials⟩
  simp only [lookup_insert_ite]
  split
  · next hid => rw [hid, h.lookup_of_mem (h.held c hc), Option.map_some, hp, if_pos rfl, Nat.add_sub_cancel]
  · next hid => rw [h.counts, hp id, if_neg (Ne.symm hid), Nat.add_zero]

/-- **The connection at the back goes, if it has no holder.** -/
theorem evict (h : Pooled s) {front : List ClientConnection} (hl : s.manager.lruList = front ++ [c])
    (hn : heldBy s.holders c.instanceId = 0) : Pooled ⟨s.manager.evict c, s.holders⟩ := by
  have hd : (s.manager.evict c).lruList = front := by simp [ClientManager.evict, hl]
  have hids := h.ids
  rw [hl, map_append, nodup_append] at hids
  have hm : ∀ d, d ∈ front ↔ d ∈ s.manager.lruList ∧ d.instanceId ≠ c.instanceId := by
    intro d
    rw [hl, mem_append, mem_singleton]
    constructor
    · exact fun hd => ⟨.inl hd, hids.2.2 _ (mem_map_of_mem hd) _ (by simp)⟩
    · rintro ⟨hd | rfl, hne⟩
      · exact hd
      · exact absurd rfl hne
  refine ⟨fun id d => ?_, fun id => ?_, hd ▸ hids.1, fun d hh => ?_, fun hpos => ?_, ?_⟩
  · rw [hd, hm, and_right_comm, ← h.conns, ClientManager.evict, lookup_erase_ite]
    split
    · next hid => simp [hid, h.conns]
    · rename_i hid
      refine ⟨fun hx => ⟨hx, ?_⟩, And.left⟩
      rwa [((h.conns id d).1 hx).2]
  · simp only [ClientManager.evict, lookup_erase_ite]
    split
    · rfl
    · exact h.counts id
  · rw [hd, hm]
    exact ⟨h.held d hh, by simpa using countP_eq_zero.1 hn d hh⟩
  · have hs := h.size hpos
    rw [hl, length_append] at hs
    rw [hd]
    exact le_trans (by simp) hs
  · have hp := h.serials
    rw [hl, map_append, ← append_assoc] at hp
    rw [hd]
    exact (perm_append_singleton _ _).symm.trans hp

/-- **A new connection is pooled, if there is room.** -/
theorem add (h : Pooled s) (hn : s.manager.clientConnections.lookup id = none) (hf : s.manager.full = false)
    (address : String) :
    Pooled ⟨(s.manager.add id address).1, (s.manager.add id address).2 :: s.holders⟩ := by
  have hne : ∀ d ∈ s.manager.lruList, d.instanceId ≠ id := by
    rintro d hd rfl
    cases hn.symm.trans (h.lookup_of_mem hd)
  refine ⟨fun id' d => ?_, fun id' => ?_, ?_, ?_, fun hpos => ?_, ?_⟩
  · simp only [ClientManager.add, lookup_insert_ite, mem_cons]
    split
    · rename_i hid
      subst hid
      constructor
      · rintro ⟨⟩
        exact ⟨.inl rfl, rfl⟩
      · rintro ⟨rfl | hd, hi⟩
        · rfl
        · exact absurd hi (hne d hd)
    · rename_i hid
      rw [h.conns]
      refine ⟨fun hd => ⟨.inr hd.1, hd.2⟩, ?_⟩
      rintro ⟨rfl | hd, hi⟩
      · exact absurd hi.symm hid
      · exact ⟨hd, hi⟩
  · simp only [ClientManager.add, lookup_insert_ite, heldBy_cons]
    split
    · next hid => rw [hid, h.not_held hn, Option.map_some, if_pos rfl]
    · next hid => rw [h.counts, if_neg (Ne.symm hid), Nat.add_zero]
  · simp only [ClientManager.add, map_cons, nodup_cons, mem_map, not_exists, not_and]
    exact ⟨hne, h.ids⟩
  · exact forall_mem_cons.2 ⟨mem_cons_self, fun d hd => mem_cons_of_mem _ (h.held d hd)⟩
  · simp only [full, h.card, decide_eq_false_iff_not, not_and, not_le] at hf
    exact hf hpos
  · simp only [ClientManager.add, map_cons, range_succ]
    exact perm_middle.trans ((h.serials.cons _).trans (perm_append_singleton _ _).symm)

end Pooled

/-! ### Making room -/

/-- Whether a new connection finds the pool full and the connection at its back in use. -/
def BackInUse (s : Pool) : Prop :=
  s.manager.full = true ∧ ∃ c ∈ s.manager.lruList.getLast?, c ∈ s.holders

/-- **The loop evicts at most one connection**, and ends. -/
theorem makeRoom_cases (h : Pooled s) : ∃ m room,
    makeRoom s.manager.lruList.reverse s.manager = some (m, room) ∧ Pooled ⟨m, s.holders⟩ ∧
      (room = true → m.full = false) ∧ (room = false ↔ BackInUse s) ∧
        ∀ id, s.manager.clientConnections.lookup id = none → m.clientConnections.lookup id = none := by
  cases hf : s.manager.full with
  | false =>
    refine ⟨s.manager, true, ?_, h, fun _ => hf, by simp [BackInUse, hf], fun _ hn => hn⟩
    cases s.manager.lruList.reverse <;> simp [makeRoom, hf]
  | true =>
  have hfull := hf
  simp only [full, h.card, decide_eq_true_eq] at hfull
  have hsize := h.size hfull.1
  rcases s.manager.lruList.eq_nil_or_concat' with hl | ⟨front, c, hl⟩
  · rw [hl] at hfull
    exact absurd hfull.1 (by simpa using hfull.2)
  have hc : c ∈ s.manager.lruList := by simp [hl]
  have hcnt := h.counts c.instanceId
  rw [h.lookup_of_mem hc, Option.map_some] at hcnt
  have hin : 0 < heldBy s.holders c.instanceId ↔ c ∈ s.holders := by
    rw [heldBy, countP_pos_iff]
    refine ⟨fun ⟨d, hd, hid⟩ => ?_, fun hm => ⟨c, hm, by simp⟩⟩
    have hcd := h.lookup_of_mem (h.held d hd)
    rw [of_decide_eq_true hid, h.lookup_of_mem hc] at hcd
    cases hcd
    exact hd
  simp only [hl, reverse_append, reverse_singleton, singleton_append, makeRoom,
    hf, if_true, hcnt, Option.getD_some, BackInUse, true_and, getLast?_concat, Option.mem_some_iff,
    exists_eq_left', ← hin]
  by_cases hpos : 0 < heldBy s.holders c.instanceId
  · exact ⟨s.manager, false, if_pos hpos, h, nofun, by simp [hpos], fun _ hn => hn⟩
  have he := h.evict hl (Nat.eq_zero_of_not_pos hpos)
  have hroom : (s.manager.evict c).full = false := by
    have hlen : (s.manager.evict c).lruList.length + 1 = s.manager.lruList.length := by
      simp [evict, hl]
    have hmax : (s.manager.evict c).maxSize = s.manager.maxSize := rfl
    simp only [full, he.card, decide_eq_false_iff_not, not_and, not_le, hmax]
    intro
    omega
  refine ⟨s.manager.evict c, true, ?_, he, fun _ => hroom, by simp [hpos], fun id hn => ?_⟩
  · rw [if_neg hpos]
    cases front.reverse <;> simp [makeRoom, hroom]
  · rw [evict, lookup_erase_ite, hn, ite_self]

theorem createClient_spec (h : Pooled s) (id address : String) (dialed : Except String Unit) :
    ∃ r, s.manager.createClient id address dialed = some r ∧
      Pooled ⟨r.1, r.2.toOption.toList ++ s.holders⟩ ∧ (r.2 = .error .reachMaxSize ↔
        s.manager.clientConnections.lookup id = none ∧ BackInUse s) := by
  unfold createClient
  cases hl : s.manager.clientConnections.lookup id with
  | some c => exact ⟨_, rfl, h.use ((h.conns id c).1 hl).1, by simp⟩
  | none =>
  obtain ⟨m, room, hm, hp, hf, hr, hn⟩ := makeRoom_cases h
  rw [hm]
  cases room with
  | false => exact ⟨_, rfl, hp, by simpa using hr⟩
  | true =>
    cases dialed with
    | error => exact ⟨_, rfl, hp, by simpa using hr⟩
    | ok => exact ⟨_, rfl, hp.add (hn id hl) (hf rfl) address, by simpa using hr⟩

theorem pooled_step {a : Action} (hex : exec s a = some t) (h : Pooled s) : Pooled t := by
  cases a with
  | getClient id =>
    cases hex
    unfold getClient
    split
    · next c hc => exact h.use ((h.conns id c).1 hc).1
    · exact h
  | createClient id address dialed =>
    obtain ⟨r, hr, rfl⟩ := Option.map_eq_some_iff.1 hex
    obtain ⟨r', hr', hp, -⟩ := createClient_spec h id address dialed
    cases hr.symm.trans hr'
    exact hp
  | decr c =>
    simp only [exec] at hex
    split at hex <;> cases hex
    rename_i hc
    exact h.decr hc

/-! ### All runs -/

/-- What holds of the pool at any time. -/
structure Sound (s : Pool) : Prop where
  sameIds : ∀ id, (id ∈ s.manager.clientConnections ↔ id ∈ s.manager.clientConnectionRequestCnt) ∧
    (id ∈ s.manager.clientConnections ↔ id ∈ s.manager.lruList.map ClientConnection.instanceId)
  nodup : (s.manager.lruList.map ClientConnection.instanceId).Nodup
  size : 0 < s.manager.maxSize → (s.manager.clientConnections.keys.card : Int) ≤ s.manager.maxSize
  counts : ∀ id n, s.manager.clientConnectionRequestCnt.lookup id = some n → n = heldBy s.holders id
  held : ∀ c ∈ s.holders, s.manager.clientConnections.lookup c.instanceId = some c ∧
    c.conn ∉ s.manager.closed
  refused : ∀ id address dialed, ∃ r, s.manager.createClient id address dialed = some r ∧
    (r.2 = .error .reachMaxSize ↔ s.manager.clientConnections.lookup id = none ∧ BackInUse s)

/-- **The pool is sound**, whatever is called by whom. -/
theorem pool_sound (maxSize : Int) {s : Pool} (h : Reaches exec free ⟨newClientManager maxSize, []⟩ s) :
    Sound s := by
  have h₀ : Pooled ⟨newClientManager maxSize, []⟩ := by
    refine ⟨fun _ _ => ?_, fun _ => rfl, .nil, ?_, fun hpos => hpos.le, .nil⟩ <;> simp [newClientManager]
  have hp : Pooled s := h.invariant h₀ fun _ _ _ _ hex hi => pooled_step hex hi
  refine ⟨fun id => ⟨?_, ?_⟩, hp.ids, fun hpos => ?_, fun id n hn => ?_, fun c hc => ⟨?_, fun hcl => ?_⟩,
    fun id address dialed => ?_⟩
  · rw [← Finmap.lookup_isSome, ← Finmap.lookup_isSome, hp.counts, Option.isSome_map]
  · rw [← Finmap.mem_keys, hp.mem_keys]
  · rw [hp.card]
    exact hp.size hpos
  · rw [hp.counts] at hn
    obtain ⟨_, -, rfl⟩ := Option.map_eq_some_iff.1 hn
    rfl
  · exact hp.lookup_of_mem (hp.held c hc)
  · have hn := hp.serials.nodup_iff.2 nodup_range
    exact (nodup_append.1 hn).2.2 _ hcl _ (mem_map_of_mem (hp.held c hc)) rfl
  · obtain ⟨r, hr, -, hrf⟩ := createClient_spec hp id address dialed
    exact ⟨r, hr, hrf⟩

/-- Two connections are in use, and the one used last is given back. -/
def sampleCalls : List Action :=
  [.createClient "a" "10.0.0.1" (.ok ()), .getClient "b", .createClient "b" "10.0.0.2" (.ok ()),
    .decr ⟨1, "b", "10.0.0.2"⟩]

theorem pool_sound_two_connections : ∃ s : Pool,
    s.manager.lruList.map ClientConnection.instanceId = ["b", "a"] ∧ Sound s := by
  have hr : ∃ s ∈ runAll exec free ⟨newClientManager 2, []⟩ sampleCalls,
      s.manager.lruList.map ClientConnection.instanceId = ["b", "a"] := by decide
  obtain ⟨s, hs, hl⟩ := Reaches.of_exists hr
  exact ⟨s, hl, pool_sound 2 hs⟩

/-- **A new connection is refused although a pooled one has no holder.** -/
theorem refused_with_idle_connection : ¬ ∀ (maxSize : Int) (s : Pool) (id address : String)
    (dialed : Except String Unit) (m : ClientManager), Reaches exec free ⟨newClientManager maxSize, []⟩ s →
      s.manager.createClient id address dialed = some (m, .error .reachMaxSize) →
        ∀ c ∈ s.manager.lruList, c ∈ s.holders := by
  intro ha
  have hr : ∃ s ∈ runAll exec free ⟨newClientManager 2, []⟩ sampleCalls,
      ∃ r ∈ s.manager.createClient "c" "10.0.0.3" (.ok ()), r.2 = .error .reachMaxSize ∧
        ⟨1, "b", "10.0.0.2"⟩ ∈ s.manager.lruList ∧ ⟨1, "b", "10.0.0.2"⟩ ∉ s.holders := by decide
  obtain ⟨s, hs, ⟨m, _⟩, hm, rfl, hl, hh⟩ := Reaches.of_exists hr
  exact hh (ha 2 s "c" "10.0.0.3" (.ok ()) m hs hm _ hl)

end Llumnix.Llumlet
