/-
**Prefix-cache hits.**

For each chunk of a prompt the metadata service names the instances that hold it.  The scan over the chunks
adds up the chunks that an instance holds in a row, from the first one that it holds, not from the first one
of the prompt.  The view of an instance without any hit is not written at all, so it keeps zero missed
tokens.

* `hitLen_eq_iff` — **when the hit length is the length of the prefix held**;
* `missed_iff` — **when missed and hit tokens add up to the prompt**, so that longer hits rank better.
-/

import Llumnix.SinglePrecision

namespace Llumnix.PrefixCache

open List SinglePrecision

/-! ### The scan -/

/-- What the scan knows of one instance: its entries in `instanceCacheHitLen`, `instanceLastHitIdx` and
`instanceBroken`. -/
structure Trace where
  hitLen : Option Int := none
  lastHitIdx : Option Nat := none
  broken : Bool := false

/-- The instance holds chunk `i`. -/
def Trace.hit (chunkSize : Int) (i : Nat) (t : Trace) : Trace :=
  if t.broken then t
  else
    match t.lastHitIdx with
    | none => { t with lastHitIdx := some i, hitLen := some (t.hitLen.getD 0 + chunkSize) }
    | some lastSeenIdx =>
      if (lastSeenIdx : Int) = i - 1 then
        { t with lastHitIdx := some i, hitLen := some (t.hitLen.getD 0 + chunkSize) }
      else { t with broken := true }

/-- The instances that hold a chunk.  A hash that is not in the map has a `nil` set. -/
abbrev HitInstances := String → Option (Finset String)

/-- The loop over the chunks.  The loop over the instances of one chunk touches only the entries of each
instance, so its order does not matter. -/
def scanFrom (chunkSize : Int) (prefixHashHitInstances : HitInstances) :
    Nat → List String → (String → Trace) → String → Trace
  | _, [], traces => traces
  | i, prefixHash :: rest, traces =>
    scanFrom chunkSize prefixHashHitInstances (i + 1) rest fun id =>
      if id ∈ (prefixHashHitInstances prefixHash).getD ∅ then (traces id).hit chunkSize i else traces id

/-- `calcInstancesPrefixCacheHitLen`, from a map that may be `nil`. -/
def calcInstancesPrefixCacheHitLen (chunkSize : Int) (prefixHashes : List String)
    (prefixHashHitInstances : Option HitInstances) : String → Option Int :=
  if prefixHashes = [] then fun _ => none
  else
    match prefixHashHitInstances with
    | none => fun _ => none
    | some hits => fun id => (scanFrom chunkSize hits 0 prefixHashes (fun _ => {}) id).hitLen

def holds (hits : Option HitInstances) (id prefixHash : String) : Bool :=
  decide (id ∈ (hits.bind (· prefixHash)).getD ∅)

section

variable {chunkSize : Int} {hits : HitInstances} {id : String}
variable {i : Nat} {traces : String → Trace} {l : List String}

theorem scanFrom_cons {prefixHash : String} {rest : List String} :
    scanFrom chunkSize hits i (prefixHash :: rest) traces = scanFrom chunkSize hits (i + 1) rest fun id =>
        if holds (some hits) id prefixHash then (traces id).hit chunkSize i else traces id := by
  simp [scanFrom, holds]

/-- At chunk `i`, the instance has missed a chunk after its first hit. -/
def Trace.Gap (t : Trace) (i : Nat) : Prop :=
  t.broken = true ∨ ∃ last, t.lastHitIdx = some last ∧ last + 1 < i

theorem Trace.Gap.hit {t : Trace} (h : t.Gap i) :
    (t.hit chunkSize i).hitLen = t.hitLen ∧ (t.hit chunkSize i).broken = true := by
  unfold Trace.hit
  split
  · exact ⟨rfl, ‹_›⟩
  · rename_i hb
    obtain ⟨last, hl, hlt⟩ := h.resolve_left hb
    have hne : ¬ (last : Int) = i - 1 := by omega
    rw [hl]
    simp only [if_neg hne, and_self]

/-- After a gap nothing is counted. -/
theorem hitLen_scanFrom_of_gap (h : (traces id).Gap i) :
    (scanFrom chunkSize hits i l traces id).hitLen = (traces id).hitLen := by
  induction l generalizing i traces with
  | nil => rfl
  | cons prefixHash rest ih =>
  rw [scanFrom_cons]
  cases hh : holds (some hits) id prefixHash with
  | false =>
    rw [ih] <;> simp only [hh, Bool.false_eq_true, if_false]
    exact h.imp_right fun ⟨last, hl, hlt⟩ => ⟨last, hl, by omega⟩
  | true =>
    rw [ih] <;> simp only [hh, if_true]
    · exact h.hit.1
    · exact .inl h.hit.2

theorem hitLen_scanFrom_of_run {n : Int} (h : traces id = ⟨some n, some i, false⟩) :
    (scanFrom chunkSize hits (i + 1) l traces id).hitLen
      = some (n + chunkSize * (l.takeWhile (holds (some hits) id)).length) := by
  induction l generalizing i traces n with
  | nil => simp [scanFrom, h]
  | cons prefixHash rest ih =>
  rw [scanFrom_cons]
  cases hh : holds (some hits) id prefixHash with
  | false =>
    rw [hitLen_scanFrom_of_gap (.inr ⟨i, by simp [hh, h], by omega⟩)]
    simp [hh, h]
  | true =>
    rw [ih (n := n + chunkSize) (by simp [hh, h, Trace.hit])]
    simp only [takeWhile_cons, hh, if_true, length_cons]
    push_cast
    ring_nf

/-- An instance that was not met yet is counted from the first chunk that it holds. -/
theorem hitLen_scanFrom_of_unmet (h : traces id = {}) :
    (scanFrom chunkSize hits i l traces id).hitLen = if l.any (holds (some hits) id) then
      some (chunkSize * ((l.dropWhile (!holds (some hits) id ·)).takeWhile (holds (some hits) id)).length)
      else none := by
  induction l generalizing i traces with
  | nil => simp [scanFrom, h]
  | cons prefixHash rest ih =>
  rw [scanFrom_cons]
  cases hh : holds (some hits) id prefixHash with
  | false =>
    rw [ih (by simp [hh, h])]
    simp [hh]
  | true =>
    rw [hitLen_scanFrom_of_run (n := chunkSize) (by simp [hh, h, Trace.hit])]
    simp only [any_cons, hh, Bool.true_or, if_true, dropWhile_cons, Bool.not_true,
      Bool.false_eq_true, if_false, takeWhile_cons, length_cons]
    push_cast
    ring_nf

end

/-- **What the scan counts**: the first run of chunks that the instance holds, wherever it begins. -/
theorem calcInstancesPrefixCacheHitLen_eq (chunkSize : Int) (prefixHashes : List String)
    (hits : Option HitInstances) (id : String) :
    calcInstancesPrefixCacheHitLen chunkSize prefixHashes hits id = if prefixHashes.any (holds hits id) then
        some (chunkSize * ((prefixHashes.dropWhile (!holds hits id ·)).takeWhile (holds hits id)).length)
      else none := by
  unfold calcInstancesPrefixCacheHitLen
  split
  · simp [*]
  · cases hits with
    | none => simp [holds]
    | some => exact hitLen_scanFrom_of_unmet rfl

/-- **The hit length is the chunk size times the length of the longest run of chunks, from the first on, that
the instance holds** — exactly for instances that hold the first chunk or none (or chunks of size zero). -/
theorem hitLen_eq_iff (chunkSize : Int) (prefixHashes : List String) (hits : Option HitInstances)
    (id : String) : (calcInstancesPrefixCacheHitLen chunkSize prefixHashes hits id).getD 0
        = chunkSize * (prefixHashes.takeWhile (holds hits id)).length ↔
      chunkSize = 0 ∨ (∃ prefixHash ∈ prefixHashes.head?, holds hits id prefixHash = true) ∨
        ∀ prefixHash ∈ prefixHashes, holds hits id prefixHash = false := by
  rw [calcInstancesPrefixCacheHitLen_eq]
  cases prefixHashes with
  | nil => simp
  | cons prefixHash rest =>
  cases hh : holds hits id prefixHash with
  | true => simp [hh]
  | false =>
  have hf : ¬ ∃ first ∈ (prefixHash :: rest).head?, holds hits id first = true := by simp [hh]
  rw [or_iff_right hf, takeWhile_cons_of_neg (by simp [hh])]
  cases hd : (prefixHash :: rest).dropWhile (!holds hits id ·) with
  | nil =>
    have hn : ∀ h ∈ prefixHash :: rest, holds hits id h = false := by
      simpa using dropWhile_eq_nil_iff.1 hd
    simp only [takeWhile_nil, length_nil]
    exact iff_of_true (by split <;> simp) (.inr hn)
  | cons h =>
  have hhe : holds hits id h = true := by
    have hhd := head_dropWhile_not (!holds hits id ·) (l := prefixHash :: rest) (by simp [hd])
    simpa [hd] using hhd
  have hm : h ∈ prefixHash :: rest := (dropWhile_sublist _).mem (hd ▸ mem_cons_self)
  rw [if_pos (any_eq_true.2 ⟨h, hm, hhe⟩), takeWhile_cons_of_pos hhe,
    or_iff_left fun hn => by simp [hn h hm] at hhe]
  simp only [Option.getD_some, length_cons, length_nil, Nat.cast_zero, mul_zero, mul_eq_zero]
  omega

theorem hits_after_first_chunk :
    ¬ ∀ (chunkSize : Int) (prefixHashes : List String) (hits : Option HitInstances) (id : String),
      (calcInstancesPrefixCacheHitLen chunkSize prefixHashes hits id).getD 0
        = chunkSize * (prefixHashes.takeWhile (holds hits id)).length := by
  intro h
  have h := h 4 ["x", "y"] (some fun ha => if ha = "y" then some {"a"} else none) "a"
  exact absurd h (by decide)

/-! ### Missed tokens -/

/-- What a scheduling round knows of an instance: the token counts of its status and of the requests in
flight, and the `schedulingCtx`. -/
structure InstanceView where
  numUncomputedTokensAllWaitingPrefills : BitVec 32
  numUncomputedTokensSchedulerRunningPrefills : BitVec 32
  numUncomputedTokensInflightDispatchPrefillRequests : BitVec 32
  numComputedPrefillTokensPredicted : BitVec 32
  prefixHitTokens : Int := 0
  prefixMissTokens : Int := 0

/-- The answer of the metadata service: the addresses that hold a chunk. -/
abbrev Answer := Finmap fun _ : String => List String

/-- `convertToCacheHitInstances`, over `GetInstanceIDsByIPs`. -/
def convertToCacheHitInstances (getInstanceIDsByIPs : List String → Finset String) (answer : Answer) :
    Option HitInstances :=
  if answer.keys = ∅ then none
  else some fun prefixHash => (answer.lookup prefixHash).map getInstanceIDsByIPs

def getInstancesPrefixCacheHitLen (isKVSMetadataServiceDown : Bool) (answer : Answer)
    (getInstanceIDsByIPs : List String → Finset String) (prefixHashes : List String)
    (chunkSize numPromptTokens : Int) (instanceViews : String → Option InstanceView) :
    String → Option InstanceView :=
  if isKVSMetadataServiceDown then instanceViews
  else
    let prefixHashHitInstances := convertToCacheHitInstances getInstanceIDsByIPs answer
    let prefixHitLen := calcInstancesPrefixCacheHitLen chunkSize prefixHashes prefixHashHitInstances
    fun id => (instanceViews id).map fun instanceView =>
      match prefixHitLen id with
      | some n =>
        { instanceView with prefixHitTokens := n, prefixMissTokens := numPromptTokens - n }
      | none => instanceView

/-- The tokens that `allPrefillsTokensNum` adds up, in 32 bits. -/
def InstanceView.pendingTokens (v : InstanceView) : BitVec 32 :=
  v.numUncomputedTokensAllWaitingPrefills + v.numUncomputedTokensSchedulerRunningPrefills +
    v.numUncomputedTokensInflightDispatchPrefillRequests - v.numComputedPrefillTokensPredicted

def InstanceView.allPrefillsTokensNum (v : InstanceView) : Int :=
  ofInt v.pendingTokens.toInt

/-- `CacheAwareAllPrefillsTokensNum`: the sum of two numbers of single precision. -/
def InstanceView.cacheAwareAllPrefillsTokensNum (v : InstanceView) : Int :=
  ofInt (ofInt v.prefixMissTokens + v.allPrefillsTokensNum)

/-- The instance holds one of the chunks, by the answer of the metadata service. -/
def HoldsSome (answer : Answer) (getInstanceIDsByIPs : List String → Finset String)
    (prefixHashes : List String) (id : String) : Prop :=
  ∃ prefixHash ∈ prefixHashes, ∃ ips ∈ answer.lookup prefixHash, id ∈ getInstanceIDsByIPs ips

theorem any_holds_iff {answer : Answer} {getInstanceIDsByIPs : List String → Finset String}
    {prefixHashes : List String} {id : String} :
    prefixHashes.any (holds (convertToCacheHitInstances getInstanceIDsByIPs answer) id) = true ↔
      HoldsSome answer getInstanceIDsByIPs prefixHashes id := by
  rw [any_eq_true]
  refine exists_congr fun prefixHash => and_congr_right fun _ => ?_
  unfold holds convertToCacheHitInstances
  split
  · rename_i he
    have hn : answer.lookup prefixHash = none := Finmap.lookup_eq_none.2 fun hm => by
        rw [← Finmap.mem_keys, he] at hm
        exact absurd hm (Finset.notMem_empty _)
    simp [hn]
  · cases hl : answer.lookup prefixHash <;> simp [hl]

/-- **Missed and hit tokens of every view add up to the prompt**, and of two instances with equal pending
tokens the one with the longer hit is not ranked worse: exactly when the prompt is empty or every instance of
the round holds some chunk. -/
theorem missed_iff (answer : Answer) (getInstanceIDsByIPs : List String → Finset String)
    (prefixHashes : List String) (chunkSize numPromptTokens : Int)
    (instanceViews : String → Option InstanceView)
    (hfresh : ∀ id v, instanceViews id = some v → v.prefixHitTokens = 0 ∧ v.prefixMissTokens = 0) :
    let views := getInstancesPrefixCacheHitLen false answer getInstanceIDsByIPs prefixHashes chunkSize
      numPromptTokens instanceViews
    ((∀ id v, views id = some v → v.prefixMissTokens = numPromptTokens - v.prefixHitTokens) ∧
      ∀ id id' v v', views id = some v → views id' = some v' → v.pendingTokens = v'.pendingTokens →
        v'.prefixHitTokens < v.prefixHitTokens →
          ¬ v'.cacheAwareAllPrefillsTokensNum < v.cacheAwareAllPrefillsTokensNum) ↔
      numPromptTokens = 0 ∨
        ∀ id v, instanceViews id = some v → HoldsSome answer getInstanceIDsByIPs prefixHashes id := by
  intro views
  have hm (hc : numPromptTokens = 0 ∨ ∀ id v, instanceViews id = some v →
      HoldsSome answer getInstanceIDsByIPs prefixHashes id) (id v) (hv : views id = some v) :
      v.prefixMissTokens = numPromptTokens - v.prefixHitTokens := by
    obtain ⟨v₀, hv₀, rfl⟩ := Option.map_eq_some_iff.1 hv
    rw [calcInstancesPrefixCacheHitLen_eq]
    by_cases ha : prefixHashes.any (holds (convertToCacheHitInstances getInstanceIDsByIPs answer) id) = true
    · rw [if_pos ha]
    · rw [if_neg ha]
      obtain ⟨hh, hmi⟩ := hfresh id v₀ hv₀
      rcases hc with hz | hal
      · rw [hmi, hh, hz, sub_zero]
      · exact absurd (any_holds_iff.2 (hal id v₀ hv₀)) ha
  refine ⟨fun ⟨hal, _⟩ => ?_, fun hc => ⟨hm hc, fun id id' v v' hv hv' hp hlt => ?_⟩⟩
  · by_contra hc
    push Not at hc
    obtain ⟨hpr, id, v, hv, hn⟩ := hc
    have hk : views id = some v := by
      refine Option.map_eq_some_iff.2 ⟨v, hv, ?_⟩
      rw [calcInstancesPrefixCacheHitLen_eq, if_neg (mt any_holds_iff.1 hn)]
    have hs := hal id v hk
    obtain ⟨hh, hmi⟩ := hfresh id v hv
    exact hpr (by omega)
  · have hmi := hm hc id v hv
    have hm' := hm hc id' v' hv'
    refine not_lt.2 (ofInt_mono (add_le_add (ofInt_mono (by omega)) ?_))
    rw [InstanceView.allPrefillsTokensNum, InstanceView.allPrefillsTokensNum, hp]

/-- One chunk, held behind one address. -/
def sampleAnswer : Answer := Finmap.insert "x" ["1.1.1.1"] ∅

def sampleInstanceIDs (ips : List String) : Finset String := if ips = ["1.1.1.1"] then {"a"} else ∅

/-- The views of instances with nothing to do. -/
def idleViews (ids : List String) (id : String) : Option InstanceView :=
  if id ∈ ids then some ⟨0, 0, 0, 0, 0, 0⟩ else none

theorem idleViews_fresh (ids : List String) (id : String) (v : InstanceView)
    (h : idleViews ids id = some v) : v.prefixHitTokens = 0 ∧ v.prefixMissTokens = 0 := by
  unfold idleViews at h
  split at h <;> cases h
  exact ⟨rfl, rfl⟩

/-- Two instances hold the first chunk, and one of them holds the second. -/
def twoHolders : String → Option InstanceView :=
  getInstancesPrefixCacheHitLen false (sampleAnswer.insert "y" ["2.2.2.2"])
    (fun ips => if ips = ["1.1.1.1"] then {"a", "b"} else {"a"}) ["x", "y"] 4 9 (idleViews ["a", "b"])

theorem missed_iff_two_instances : ∃ v v', twoHolders "a" = some v ∧ twoHolders "b" = some v' ∧
    v'.prefixHitTokens < v.prefixHitTokens ∧ v.prefixMissTokens = 9 - v.prefixHitTokens ∧
      v'.prefixMissTokens = 9 - v'.prefixHitTokens ∧
      ¬ v'.cacheAwareAllPrefillsTokensNum < v.cacheAwareAllPrefillsTokensNum := by
  have hh : ∀ id v, idleViews ["a", "b"] id = some v → HoldsSome (sampleAnswer.insert "y" ["2.2.2.2"])
      (fun ips => if ips = ["1.1.1.1"] then {"a", "b"} else {"a"}) ["x", "y"] id := by
    intro id v h
    have hid : id = "a" ∨ id = "b" := by simpa [idleViews] using Option.isSome_iff_exists.2 ⟨v, h⟩
    exact ⟨"x", by decide, ["1.1.1.1"], by decide, by rcases hid with rfl | rfl <;> decide⟩
  have hm := (missed_iff _ _ ["x", "y"] 4 9 _ (idleViews_fresh _)).2 (.inr hh)
  exact ⟨_, _, rfl, rfl, by decide, hm.1 "a" _ rfl, hm.1 "b" _ rfl, hm.2 "a" "b" _ _ rfl rfl rfl (by decide)⟩

/-- **An instance without the chunk is ranked before one that holds it**: its missed tokens stay zero. -/
theorem hitless_ranked_first : ¬ ∀ (answer : Answer) (getInstanceIDsByIPs : List String → Finset String)
      (prefixHashes : List String) (chunkSize numPromptTokens : Int)
      (instanceViews : String → Option InstanceView),
      (∀ id v, instanceViews id = some v → v.prefixHitTokens = 0 ∧ v.prefixMissTokens = 0) →
      let views := getInstancesPrefixCacheHitLen false answer getInstanceIDsByIPs prefixHashes chunkSize
        numPromptTokens instanceViews
      (∀ id v, views id = some v → v.prefixMissTokens = numPromptTokens - v.prefixHitTokens) ∧
        ∀ id id' v v', views id = some v → views id' = some v' → v.pendingTokens = v'.pendingTokens →
          v'.prefixHitTokens < v.prefixHitTokens →
            ¬ v'.cacheAwareAllPrefillsTokensNum < v.cacheAwareAllPrefillsTokensNum := by
  intro h
  have hr := (h sampleAnswer sampleInstanceIDs ["x"] 4 5 (idleViews ["a", "b"])
    (idleViews_fresh _)).2 "a" "b" ⟨0, 0, 0, 0, 4, 1⟩ ⟨0, 0, 0, 0, 0, 0⟩ rfl rfl rfl (by decide)
  exact hr (by decide)

end Llumnix.PrefixCache
