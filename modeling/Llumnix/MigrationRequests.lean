/-
**The requests that migrate.**

Which requests the SGLang scheduler takes for a migration, which the KVT front end leaves marked, and the
slots the Mooncake front end keeps for the requests that come in.  The SGLang loop tests its limit after it
has selected a request; the KVT front end reads the code of a cancelled call; an abort in the Mooncake front
end reads an attribute that does not exist.

* `migrateOut_asked_iff` — **a migration takes what is asked for exactly if something is left to take
  whenever something has to be taken**;
* `marks_follow_acceptance_iff` — **the accepted requests, and no others, stay marked exactly if none is
  accepted, or no call is cancelled and none outlasts the pre-stop time-out**;
* `slots_accounted` — **in a run in which no abort gets through the connector, which frees what it aborts, the
  migrating-in requests are those admitted and not aborted, and within the maximum**.
-/

import Llumnix.FiniteMap
import Llumnix.GuardedRun

namespace Llumnix.Migration

open GuardedRun List

/-! ### Selection in the SGLang scheduler -/

structure Req where
  rid : String
  seqlen : Nat
  /-- `disagg_kv_sender is not None` -/
  isSending : Bool
  deriving DecidableEq

inductive MigrationParams
  | numReq (numReqs : Int)
  | token (numTokens : Int)
  | unsupported

/-- The loop over the running batch, from position `idx` on. -/
def select (limit : Nat → Nat → Bool) (selectedReqsIds : List Nat) (numTokens idx : Nat) :
    List Req → List Nat
  | [] => selectedReqsIds
  | req :: reqs =>
    if req.isSending then select limit selectedReqsIds numTokens (idx + 1) reqs
    else
      -- only now is the limit looked at
      if limit (selectedReqsIds.length + 1) (numTokens + req.seqlen) then selectedReqsIds ++ [idx]
      else select limit (selectedReqsIds ++ [idx]) (numTokens + req.seqlen) (idx + 1) reqs

structure Scheduler where
  runningBatch : List Req
  migrationBootstrapQueue : List Req
  deriving DecidableEq

structure MigrateInReq where
  rid : String
  seqlenBeforeMigration : Nat
  deriving DecidableEq

def Req.migrateInReq (req : Req) : MigrateInReq := ⟨req.rid, req.seqlen⟩

def Scheduler.selectedReqsIds (s : Scheduler) : MigrationParams → List Nat
  | .numReq n => select (fun selected _ => n ≤ selected) [] 0 0 s.runningBatch
  | .token n => select (fun _ numTokens => n ≤ numTokens) [] 0 0 s.runningBatch
  | .unsupported => []

def Scheduler.migrateOut (s : Scheduler) (params : MigrationParams) : Scheduler × List MigrateInReq :=
  let reqs := (s.selectedReqsIds params).filterMap (s.runningBatch[·]?)
  ({ s with migrationBootstrapQueue := s.migrationBootstrapQueue ++ reqs }, reqs.map Req.migrateInReq)

/-- The requests that are not being sent. -/
def Scheduler.available (s : Scheduler) : List Req := s.runningBatch.filter (!·.isSending)

def tokens (reqs : List Req) : Nat := (reqs.map Req.seqlen).sum

/-- **What is asked for**: the first so many requests, all of them, or the shortest prefix with so many
tokens. -/
def MigrationParams.Asks (available reqs : List Req) : MigrationParams → Prop
  | .numReq n => (0 ≤ n → reqs = available.take n.toNat) ∧ (n = -1 → reqs = available)
  | .token n => reqs <+: available ∧ (n ≤ tokens reqs ∨ reqs = available) ∧
      ∀ p, p <+: available → n ≤ tokens p → reqs <+: p
  | .unsupported => reqs = []

/-- Taking one request at least, if there is one, is not too much, and taking one is all if all are asked
for. -/
def MigrationParams.TakesOne (available : Nat) : MigrationParams → Prop
  | .numReq n => (n = 0 → available = 0) ∧ (n = -1 → available ≤ 1)
  | .token n => n ≤ 0 → available = 0
  | .unsupported => True

/-- What the loop selects, as requests. -/
def taken (limit : Nat → Nat → Bool) (selected numTokens : Nat) : List Req → List Req
  | [] => []
  | req :: reqs => req :: if limit (selected + 1) (numTokens + req.seqlen) then []
      else taken limit (selected + 1) (numTokens + req.seqlen) reqs

variable {limit : Nat → Nat → Bool} {reqs : List Req} {n : Int}

theorem select_eq {batch b : List Req} {ids : List Nat} {m : Nat} (h : b ++ reqs = batch) :
    (select limit ids m b.length reqs).filterMap (batch[·]?) =
      ids.filterMap (batch[·]?) ++ taken limit ids.length m (reqs.filter (!·.isSending)) := by
  induction reqs generalizing b ids m with
  | nil => simp [select, taken]
  | cons req reqs ih =>
    have hat : batch[b.length]? = some req := by simp [← h]
    have ih {ids m} := @ih (b ++ [req]) ids m (by simpa using h)
    rw [length_append, length_singleton] at ih
    cases hs : req.isSending
    · simp only [select, hs, filter_cons, taken, Bool.false_eq_true, Bool.not_false, if_true, if_false]
      split
      · simp [hat]
      · rw [ih]
        simp [hat]
    · simp only [select, hs, filter_cons, Bool.not_true, Bool.false_eq_true, if_true, if_false, ih]

theorem taken_numReq (k m : Nat) :
    taken (fun selected _ => n ≤ selected) k m reqs = reqs.take (max n (k + 1) - k).toNat := by
  induction reqs generalizing k m with
  | nil => simp [taken]
  | cons req reqs ih =>
    obtain ⟨i, hi⟩ : ∃ i, (max n (k + 1) - k).toNat = i + 1 := ⟨(max n (k + 1) - k).toNat - 1, by omega⟩
    rw [taken, hi, take_succ_cons, ih]
    congr 1
    split
    · rw [show i = 0 by simp_all, take_zero]
    · congr 1
      simp_all
      omega

theorem taken_token (n : Int) (reqs : List Req) (k m : Nat) :
    let sel := taken (fun _ numTokens => n ≤ numTokens) k m reqs
    sel <+: reqs ∧ (n ≤ ↑(m + tokens sel) ∨ sel = reqs) ∧
      ∀ p, p <+: reqs → p ≠ [] → n ≤ ↑(m + tokens p) → sel <+: p := by
  induction reqs generalizing k m with
  | nil => simp [taken]
  | cons req reqs ih =>
    obtain ⟨h, h', hp⟩ := ih (k + 1) (m + req.seqlen)
    rw [taken]
    refine ⟨cons_prefix_cons.2 ⟨rfl, ?_⟩, ?_, ?_⟩
    · split <;> simp [h]
    · split
      · simp_all [tokens]
      · simpa [tokens, add_assoc] using h'
    · rintro (_ | ⟨_, p⟩) hpre hne hn
      · exact (hne rfl).elim
      · obtain ⟨rfl, hpre'⟩ := cons_prefix_cons.1 hpre
        refine cons_prefix_cons.2 ⟨rfl, ?_⟩
        split
        · exact nil_prefix
        · rename_i hl
          refine hp p hpre' ?_ (by simpa [tokens, add_assoc] using hn)
          rintro rfl
          exact hl (by simpa [tokens] using hn)

theorem selected_eq (s : Scheduler) : (select limit [] 0 0 s.runningBatch).filterMap (s.runningBatch[·]?) =
    taken limit 0 0 s.available :=
  select_eq (b := []) rfl

/-- **What is taken is what is asked for.** -/
theorem migrateOut_asked_iff (s : Scheduler) (params : MigrationParams) :
    (∃ reqs, params.Asks s.available reqs ∧ s.migrateOut params =
      ({ s with migrationBootstrapQueue := s.migrationBootstrapQueue ++ reqs },
        reqs.map Req.migrateInReq)) ↔ params.TakesOne s.available.length := by
  refine Iff.trans ⟨?_, fun ha => ⟨_, ha, rfl⟩⟩
    (?_ : params.Asks s.available ((s.selectedReqsIds params).filterMap (s.runningBatch[·]?)) ↔ _)
  · rintro ⟨reqs, ha, he⟩
    simp only [Scheduler.migrateOut, Prod.mk.injEq, Scheduler.mk.injEq, append_cancel_left_eq] at he
    rwa [he.1.2]
  cases params with
  | unsupported => simp [Scheduler.selectedReqsIds, MigrationParams.Asks, MigrationParams.TakesOne]
  | numReq n =>
    rw [Scheduler.selectedReqsIds, selected_eq, taken_numReq]
    simp only [MigrationParams.Asks, MigrationParams.TakesOne]
    constructor
    · rintro ⟨h, h'⟩
      refine ⟨?_, ?_⟩
      · rintro rfl
        simpa using congrArg length (h le_rfl)
      · rintro rfl
        simpa using congrArg length (h' rfl)
    · rintro ⟨h, h'⟩
      refine ⟨fun hn => ?_, fun hn => take_of_length_le ?_⟩
      · rcases hn.eq_or_lt with rfl | hn
        · simp [length_eq_zero_iff.1 (h rfl)]
        · congr 1
          omega
      · subst hn
        exact h' rfl
  | token n =>
    rw [Scheduler.selectedReqsIds, selected_eq]
    obtain ⟨h, h', hp⟩ := taken_token n s.available 0 0
    simp only [MigrationParams.Asks, MigrationParams.TakesOne]
    constructor
    · rintro ⟨-, -, hm⟩ hn
      cases hav : s.available with
      | nil => rfl
      | cons =>
        rw [hav] at hm
        cases prefix_nil.1 (hm [] nil_prefix hn)
    · intro hk
      refine ⟨h, by simpa using h', fun p hpre hn => ?_⟩
      by_cases hne : p = []
      · subst hne
        simp [length_eq_zero_iff.1 (hk hn), taken]
      · exact hp p hpre hne (by simpa using hn)

/-- Of two requests, a migration of all of them takes one. -/
theorem second_request_left : ¬ ∃ reqs,
    (MigrationParams.numReq (-1)).Asks [⟨"a", 1, false⟩, ⟨"b", 1, false⟩] reqs ∧
      Scheduler.migrateOut ⟨[⟨"a", 1, false⟩, ⟨"b", 1, false⟩], []⟩ (.numReq (-1)) =
        (⟨[⟨"a", 1, false⟩, ⟨"b", 1, false⟩], reqs⟩, reqs.map Req.migrateInReq) := by
  rintro ⟨_, ⟨-, h⟩, he⟩
  cases h rfl
  exact absurd he (by decide)

/-! ### Marks of the KVT front end -/

/-- What `gather` returns for a call; a `CancelledError` is not an `Exception`. -/
inductive Result
  | resp (code : Int)
  | exception
  | cancelled
  deriving DecidableEq

section
variable (codeOk : Int) (outcome : String → Result)

variable (migratingReqs : Finset String)

def setMigratingStatus (reqs : List String) : Finset String :=
  migratingReqs ∪ reqs.toFinset

def cleanupFailedMigration (reqs : List String) : Finset String :=
  migratingReqs \ reqs.toFinset

/-- The loop over the results; `none` where `result.code` raises. -/
def collect (accepted rejected failed : List String) :
    List String → Option (List String × List String × List String)
  | [] => some (accepted, rejected, failed)
  | req :: reqs =>
    match outcome req with
    | .exception => collect accepted rejected (failed ++ [req]) reqs
    -- it has no code
    | .cancelled => none
    | .resp code =>
      if code = codeOk then collect (accepted ++ [req]) rejected failed reqs
      else collect accepted (rejected ++ [req]) failed reqs

def dispatchAndCollectTasks (reqs : List String) : Option (Finset String × Bool) :=
  (collect codeOk outcome [] [] [] reqs).map fun (accepted, rejected, failed) =>
    (cleanupFailedMigration migratingReqs (failed ++ rejected), !accepted.isEmpty)

def migrateOut (reqs : List String) : Finset String × Bool :=
  (dispatchAndCollectTasks codeOk outcome migratingReqs reqs).getD
    (cleanupFailedMigration migratingReqs reqs, false)

/-- `migrate_out_prestop`, after all calls have ended or the time is up. Both clean-ups only discard, so their
order does not matter. -/
def migrateOutPrestop (timedOut : Bool) (migratingReqs : Finset String) (reqs : List String) :
    Finset String × Bool :=
  if timedOut then
    let cleaned := cleanupFailedMigration migratingReqs reqs
    (((dispatchAndCollectTasks codeOk outcome cleaned reqs).map Prod.fst).getD cleaned, false)
  else migrateOut codeOk outcome migratingReqs reqs

theorem collect_spec (a r f reqs : List String) :
    (∃ req ∈ reqs, outcome req = .cancelled) ∧ collect codeOk outcome a r f reqs = none ∨
      (∀ req ∈ reqs, outcome req ≠ .cancelled) ∧ ∃ a' r' f',
        collect codeOk outcome a r f reqs = some (a', r', f') ∧
          ∀ req, req ∈ f' ++ r' ↔ req ∈ f ++ r ∨ req ∈ reqs ∧ outcome req ≠ .resp codeOk := by
  induction reqs generalizing a r f with
  | nil => simp [collect]
  | cons req reqs ih =>
    rw [collect]
    cases ho : outcome req with
    | cancelled => simp [ho]
    | exception => grind
    | resp code => grind

/-- A selected request stays marked if it is accepted and the batch is not cleaned up as a whole. -/
theorem marked_iff {timedOut : Bool} {marks : Finset String} {reqs : List String} {req : String}
    (hr : req ∈ reqs) :
    req ∈ (migrateOutPrestop codeOk outcome timedOut (setMigratingStatus marks reqs) reqs).1 ↔
      outcome req = .resp codeOk ∧ timedOut = false ∧ ∀ req ∈ reqs, outcome req ≠ .cancelled := by
  obtain ⟨⟨req', hr', hc⟩, he⟩ | ⟨hc, a, r, f, he, hm⟩ := collect_spec codeOk outcome [] [] [] reqs
  · have hn : ¬ ∀ req ∈ reqs, outcome req ≠ .cancelled := fun h => h _ hr' hc
    cases timedOut <;>
      simp [migrateOutPrestop, migrateOut, dispatchAndCollectTasks, he, cleanupFailedMigration, hr, hn]
  · have hm := hm req
    cases timedOut <;>
      simp_all [migrateOutPrestop, migrateOut, dispatchAndCollectTasks, cleanupFailedMigration,
        setMigratingStatus]

/-- **Marks follow acceptance**; `migrate_out` is the case without a time-out. -/
theorem marks_follow_acceptance_iff (timedOut : Bool) (marks : Finset String) (reqs : List String) :
    (∀ req ∈ reqs,
      (req ∈ (migrateOutPrestop codeOk outcome timedOut (setMigratingStatus marks reqs) reqs).1 ↔
        outcome req = .resp codeOk)) ↔
      ((∃ req ∈ reqs, outcome req = .resp codeOk) →
        timedOut = false ∧ ∀ req ∈ reqs, outcome req ≠ .cancelled) := by
  constructor
  · rintro h ⟨req, hr, ho⟩
    exact ((marked_iff codeOk outcome hr).1 ((h req hr).2 ho)).2
  · intro h req hr
    rw [marked_iff codeOk outcome hr]
    exact ⟨And.left, fun ho => ⟨ho, h ⟨req, hr, ho⟩⟩⟩

end

/-- The first request is accepted, the call for the second is cancelled. -/
theorem accepted_unmarked : ¬ ∀ req ∈ ["a", "b"],
    (req ∈ (migrateOut 0 (fun r => if r = "a" then .resp 0 else .cancelled)
      (setMigratingStatus ∅ ["a", "b"]) ["a", "b"]).1 ↔
        (if req = "a" then Result.resp 0 else .cancelled) = .resp 0) := by
  decide

/-! ### Slots of the Mooncake front end -/

structure Config where
  maxReqMigIn : Int
  detailedMigStatus : Bool
  maxMigrateInTokens : Int

structure Request where
  requestId : String
  numTokens : Nat

/-- The module's `g_migrate_in_reqs` and `g_migrate_in_tokens`. -/
structure MigrateIn where
  reqs : Finset String
  tokens : Finmap fun _ : String => Nat

/-- What `abort_migrate_in_request` of the connector comes to: it raises, or it aborts the request, and it may
take the request out of the module's set and map itself. -/
inductive Outcome
  | raises
  | aborts (clears : Bool)
  deriving DecidableEq

/-- A call, with what the connector comes to: in a `migrate_in`, `true` if it does not raise. -/
inductive Call
  | migrateIn (reqs : List Request) (connector : Bool)
  | abort (requestIds : List String) (connector : String → Outcome)

variable (cfg : Config)

/-- The loop of `_has_migrate_in_slots` over the tokens. -/
def fits (totalTokens : Nat) : List Request → Bool
  | [] => true
  | req :: reqs =>
    totalTokens + req.numTokens ≤ cfg.maxMigrateInTokens && fits (totalTokens + req.numTokens) reqs

def MigrateIn.hasMigrateInSlots (s : MigrateIn) (reqs : List Request) : Bool :=
  s.reqs.card + reqs.length ≤ cfg.maxReqMigIn &&
    (!cfg.detailedMigStatus || fits cfg (FiniteMap.total (fun _ n => n) s.tokens) reqs)

def MigrateIn.add (s : MigrateIn) (req : Request) : MigrateIn :=
  ⟨insert req.requestId s.reqs,
    if cfg.detailedMigStatus then s.tokens.insert req.requestId req.numTokens else s.tokens⟩

/-- `migrate_in`; the result is absent if the connector raises. -/
def MigrateIn.migrateIn (s : MigrateIn) (reqs : List Request) (connector : Bool) : MigrateIn × Option Bool :=
  if !s.hasMigrateInSlots cfg reqs then (s, some false)
  else if connector then (reqs.foldl (MigrateIn.add cfg) s, some true)
  else (s, none)

/-- `self.migrate_in_reqs.discard(req_id)`: the front end has no such attribute, and the set stays. -/
def MigrateIn.discard (_ : MigrateIn) (_ : String) : Option MigrateIn := none

/-- The connector's part of an abort; an exception is `none`. -/
def MigrateIn.connect (s : MigrateIn) (id : String) : Outcome → Option MigrateIn
  | .raises => none
  | .aborts false => some s
  | .aborts true => some ⟨s.reqs.erase id, s.tokens.erase id⟩

/-- `abort_migrate_in_requets`, in which an exception ends the loop; with it, the requests the connector has
aborted. -/
def MigrateIn.abortMigrateInRequets (connector : String → Outcome) (s : MigrateIn) :
    List String → MigrateIn × Finset String × Bool
  | [] => (s, ∅, true)
  | id :: ids =>
    match s.connect id (connector id) with
    | none => (s, ∅, false)
    | some s =>
      match s.discard id with
      | none => (s, {id}, false)
      | some s =>
        let (s, aborted, res) := s.abortMigrateInRequets connector ids
        (s, insert id aborted, res)

/-- The front end, with the requests admitted and not aborted since: those the connector has aborted
are. -/
abbrev Account := MigrateIn × Finset String

def Account.call (σ : Account) : Call → Account
  | .migrateIn reqs connector =>
    let (s, res) := σ.1.migrateIn cfg reqs connector
    (s, if res = some true then σ.2 ∪ (reqs.map Request.requestId).toFinset else σ.2)
  | .abort ids connector =>
    let (s, aborted, _) := σ.1.abortMigrateInRequets connector ids
    (s, σ.2 \ aborted)

/-- **What a call should do**: keep the account, and if the connector aborts all requests of an abort,
return true and free their slots. -/
def Account.Right (σ : Account) (c : Call) : Prop :=
  (σ.call cfg c).1.reqs = (σ.call cfg c).2 ∧
    ∀ ids connector, c = .abort ids connector → (∀ id ∈ ids, connector id ≠ .raises) →
      (σ.1.abortMigrateInRequets connector ids).2.2 = true ∧ ∀ id ∈ ids, id ∉ (σ.call cfg c).1.reqs

/-- The connector raises for some request, unless there is nothing to abort, and takes the first one off the
books if it aborts it and it is migrating in. -/
def Account.Spared (σ : Account) : Call → Prop
  | .migrateIn _ _ => True
  | .abort ids connector => (∀ id ∈ ids.head?, connector id = .aborts false → id ∉ σ.1.reqs) ∧
      (ids = [] ∨ ∃ id ∈ ids, connector id = .raises)

def Account.init : Account := (⟨∅, ∅⟩, ∅)

theorem abort_cons (connector : String → Outcome) (s : MigrateIn) (id : String) (ids : List String) :
    s.abortMigrateInRequets connector (id :: ids) =
      ((s.connect id (connector id)).getD s, if connector id = .raises then ∅ else {id}, false) := by
  rw [MigrateIn.abortMigrateInRequets]
  rcases connector id with _ | _ | _ <;> rfl

/-- The account is kept by an abort exactly if the connector clears the first request it aborts. -/
theorem account_abort (connector : String → Outcome) (s : MigrateIn) (ids : List String) :
    (s.abortMigrateInRequets connector ids).1.reqs = s.reqs \ (s.abortMigrateInRequets connector ids).2.1 ↔
      ∀ id ∈ ids.head?, connector id = .aborts false → id ∉ s.reqs := by
  cases ids with
  | nil => simp [MigrateIn.abortMigrateInRequets]
  | cons id ids =>
    simp only [abort_cons, head?_cons, Option.mem_some_iff, forall_eq']
    rcases connector id with _ | _ | _ <;>
      simp [MigrateIn.connect, eq_comm (a := s.reqs), Finset.sdiff_singleton_eq_erase]

theorem card_abort_le (connector : String → Outcome) (s : MigrateIn) (ids : List String) :
    (s.abortMigrateInRequets connector ids).1.reqs.card ≤ s.reqs.card := by
  cases ids with
  | nil => rfl
  | cons id ids =>
    rw [abort_cons]
    rcases connector id with _ | _ | _
    · rfl
    · rfl
    · exact Finset.card_erase_le

theorem reqs_foldl_add (reqs : List Request) (s : MigrateIn) :
    (reqs.foldl (MigrateIn.add cfg) s).reqs = s.reqs ∪ (reqs.map Request.requestId).toFinset := by
  induction reqs generalizing s with
  | nil => simp
  | cons req reqs ih => simp [ih, MigrateIn.add, Finset.insert_union]

theorem right_iff_spared {σ : Account} (h : σ.1.reqs = σ.2) (c : Call) : σ.Right cfg c ↔ σ.Spared c := by
  cases c with
  | migrateIn reqs connector =>
    refine iff_of_true ⟨?_, fun _ _ he => by cases he⟩ trivial
    simp only [Account.call, MigrateIn.migrateIn]
    split
    · simp [h]
    · split <;> simp [h, reqs_foldl_add]
  | abort ids connector =>
    simp only [Account.Right, Account.call, Account.Spared, ← h, account_abort]
    refine and_congr_right fun _ => ⟨fun hr => ?_, ?_⟩
    · by_cases hc : ∀ id ∈ ids, connector id ≠ .raises
      · cases ids with
        | nil => exact .inl rfl
        | cons id ids =>
          have hf := (hr _ connector rfl hc).1
          rw [abort_cons] at hf
          cases hf
      · simpa using Or.inr hc
    · rintro hs _ _ ⟨⟩ hc
      obtain rfl | ⟨id, hid, hn⟩ := hs
      · exact ⟨rfl, by simp⟩
      · exact absurd hn (hc id hid)

theorem card_call (σ : Account) (c : Call) (h : σ.1.reqs.card ≤ max 0 cfg.maxReqMigIn) :
    (σ.call cfg c).1.reqs.card ≤ max 0 cfg.maxReqMigIn := by
  cases c with
  | abort ids connector =>
    have hl := card_abort_le connector σ.1 ids
    simp only [Account.call]
    omega
  | migrateIn reqs connector =>
    simp only [Account.call, MigrateIn.migrateIn]
    split
    · exact h
    · rename_i hs
      split
      · have hu := Finset.card_union_le σ.1.reqs (reqs.map Request.requestId).toFinset
        have hl := toFinset_card_le (reqs.map Request.requestId)
        simp only [MigrateIn.hasMigrateInSlots, Bool.not_eq_true, Bool.not_eq_false', Bool.and_eq_true,
          decide_eq_true_eq] at hs
        rw [length_map] at hl
        rw [reqs_foldl_add]
        omega
      · exact h

/-- **Slots are accounted for** as long as no abort gets through the connector, and it frees what it aborts.
-/
theorem slots_accounted {σ : Account}
    (h : Reaches (fun σ c => some (Account.call cfg σ c)) Account.Spared Account.init σ) :
    σ.1.reqs = σ.2 ∧ σ.1.reqs.card ≤ max 0 cfg.maxReqMigIn ∧ ∀ c, σ.Right cfg c ↔ σ.Spared c := by
  suffices hi : σ.1.reqs = σ.2 ∧ σ.1.reqs.card ≤ max 0 cfg.maxReqMigIn from
    ⟨hi.1, hi.2, right_iff_spared cfg hi.1⟩
  induction h with
  | refl => simp [Account.init]
  | step _ hok he ih =>
    cases he
    exact ⟨((right_iff_spared cfg ih.1 _).2 hok).1, card_call cfg _ _ ih.2⟩

/-- One slot, taken by a first request. -/
def oneTaken : Account := Account.init.call ⟨1, false, 0⟩ (.migrateIn [⟨"a", 8⟩] true)

/-- A second request does not get in, and the abort of the first one fails. -/
theorem slots_accounted_refused : ∃ σ : Account, σ.1.reqs = {"a"} ∧ σ.1.reqs = σ.2 ∧
    (σ.1.reqs.card : ℤ) ≤ max 0 1 ∧ ∀ c, σ.Right ⟨1, false, 0⟩ c ↔ σ.Spared c := by
  refine ⟨_, ?_, slots_accounted ⟨1, false, 0⟩ (.step (a := .abort ["a"] fun _ => .raises)
    (.step (a := .migrateIn [⟨"b", 8⟩] true) (.step (a := .migrateIn [⟨"a", 8⟩] true) .refl trivial rfl)
      trivial rfl) ⟨by decide, .inr (by decide)⟩ rfl)⟩
  decide

/-- Its abort returns false, and the slot stays taken: the connector has not freed it. -/
theorem slot_stays_taken : ¬ oneTaken.Right ⟨1, false, 0⟩ (.abort ["a"] fun _ => .aborts false) :=
  fun h => absurd (h.2 _ _ rfl fun _ _ he => by cases he).1 (by decide)

end Llumnix.Migration
