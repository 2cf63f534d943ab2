/-
**The hashes of a prompt, and how long a hit can be.**

The prompt is cut into chunks, and every chunk gets a key that also depends on the chunks before it; a last
chunk that is not full gets one only where such chunks are saved.  The scheduler counts a full chunk for
every key, so a hit can be longer than the prompt.

* `hits_le_prompt_iff` — **when no hit is longer than the prompt**;
* `hashTokens_append` — **prompts with a common beginning have common keys**.
-/

import Llumnix.CmsLocalAccount
import Llumnix.PrefixCache

namespace Llumnix.TokenHasher

/-! ### Hashing -/

/-- What comes from elsewhere: SHA-256, hexadecimal text, canonical CBOR, xxHash, and the seed in the
environment. -/
structure Digests where
  sha256 : List UInt8 → List UInt8
  encodeToString : List UInt8 → String
  decodeString : String → Except String (List UInt8)
  marshalSeed : String → Except String (List UInt8)
  marshalBlock : List UInt8 → List Int → Except String (List UInt8)
  sum64 : List UInt8 → UInt64
  goHashSeed : Option String

inductive HashAlgo
  | sha256Hex | sha256CBOR | xxhash

/-- The `n` bytes of a number, the low one first. -/
def littleEndian (n : Nat) (t : Int) : List UInt8 :=
  (List.range n).map fun i => UInt8.ofNat (t / 256 ^ i % 256).toNat

variable (D : Digests) (tokens : List Int)

def hashBlockSha256Hex (priorHex : String) : Except String String := do
  let priorBytes ←
    if priorHex = "" then pure []
    else do
      let bytes ← (D.decodeString priorHex).mapError ("invalid prior_hash hex: " ++ ·)
      if bytes.length ≠ 32 then
        throw ("prior_hash must decode to 32 bytes, got " ++ toString bytes.length)
      else pure bytes
  let words ← tokens.mapM fun t =>
    if t < 0 ∨ 4294967295 < t then throw ("token out of uint32 range: " ++ toString t)
    else pure (littleEndian 4 t)
  pure (D.encodeToString (D.sha256 (priorBytes ++ words.flatten)))

/-- The loop over blocks: the key of a block, and what the next block depends on. -/
def hashBlocks {σ : Type} (hash : σ → List Int → Except String (String × σ)) :
    σ → List (List Int) → Except String (List String × σ)
  | prefixHash, [] => pure ([], prefixHash)
  | prefixHash, chunk :: rest => do
    let (key, prefixHash) ← hash prefixHash chunk
    let (keys, prefixHash) ← hashBlocks hash prefixHash rest
    pure (key :: keys, prefixHash)

variable (chunkSize : Nat)

def chunks (n : Nat) : List (List Int) :=
  (List.range n).map fun i => (tokens.drop (i * chunkSize)).take chunkSize

variable (saveUnfullChunk : Bool)

def totalBlocks (numTokens chunkSize : Nat) (saveUnfullChunk : Bool) : Nat :=
  if saveUnfullChunk && decide (numTokens % chunkSize > 0) then numTokens / chunkSize + 1
  else numTokens / chunkSize

def hashTokensSha256Hex : Except String (List String) := do
  let numCompleteBlocks := tokens.length / chunkSize
  if totalBlocks tokens.length chunkSize saveUnfullChunk = 0 then pure []
  else
    let (blockHashes, prefixHash) ← hashBlocks
      (fun prefixHash chunk => (hashBlockSha256Hex D chunk prefixHash).map fun h => (h, h))
      "" (chunks tokens chunkSize numCompleteBlocks)
    if saveUnfullChunk && decide (tokens.length % chunkSize > 0) then
      let h ← hashBlockSha256Hex D (tokens.drop (numCompleteBlocks * chunkSize)) prefixHash
      pure (blockHashes ++ [h ++ "_0"])
    else pure blockHashes

def hashTokensSha256CBOR : Except String (List String) := do
  let total := totalBlocks tokens.length chunkSize saveUnfullChunk
  if total = 0 then pure []
  else
    let seed := if D.goHashSeed.getD "" = "" then "0" else D.goHashSeed.getD ""
    let prefixHash ← (D.marshalSeed seed).map D.sha256
    let (blockHashes, _) ← hashBlocks
      (fun prefixHash chunk => (D.marshalBlock prefixHash chunk).map fun bytes =>
        (D.encodeToString (D.sha256 bytes) ++ "_0", D.sha256 bytes))
      prefixHash (chunks tokens chunkSize total)
    pure blockHashes

/-- `HashTokensXxhash` and the names that `hashTokensXxhash` makes of the hashes.  The state is what has
been written to the hasher. -/
def hashTokensXxhash (irisMetaPrefix vLLMBlockPrefix : String) : Except String (List String) := do
  let numCompleteBlocks := tokens.length / chunkSize
  let name (written : List UInt8) := irisMetaPrefix ++ vLLMBlockPrefix ++ toString (D.sum64 written)
  let (blockHashes, written) ← hashBlocks
    (fun written chunk =>
      let written := written ++ chunk.flatMap (littleEndian 8)
      pure (name written, written))
    [] (chunks tokens chunkSize numCompleteBlocks)
  if saveUnfullChunk && decide (tokens.length % chunkSize > 0) then
    let padding := List.replicate (chunkSize - tokens.length % chunkSize) (0 : Int)
    pure (blockHashes ++ [name (written ++
      (tokens.drop (numCompleteBlocks * chunkSize) ++ padding).flatMap (littleEndian 8))])
  else pure blockHashes

def hashTokens (hashAlgo : HashAlgo) (tokens : List Int) (chunkSize : Int)
    (saveUnfullChunk : Bool) (irisMetaPrefix vLLMBlockPrefix : String) : Except String (List String) :=
  if tokens.length = 0 ∨ chunkSize ≤ 0 then throw "invalid hash input"
  else
    match hashAlgo with
    | .sha256Hex => hashTokensSha256Hex D tokens chunkSize.toNat saveUnfullChunk
    | .sha256CBOR => hashTokensSha256CBOR D tokens chunkSize.toNat saveUnfullChunk
    | .xxhash =>
      hashTokensXxhash D tokens chunkSize.toNat saveUnfullChunk irisMetaPrefix vLLMBlockPrefix

/-! ### The number of keys -/

/-- A computation that succeeds after a step that succeeds. -/
theorem bind_eq_ok {α β : Type} {x : Except String α} {f : α → Except String β} {b : β}
    (h : x >>= f = .ok b) : ∃ a, x = .ok a ∧ f a = .ok b := by
  cases x with
  | error => cases h
  | ok a => exact ⟨a, rfl, h⟩

theorem length_hashBlocks {σ : Type} {ha : σ → List Int → Except String (String × σ)} {s : σ}
    {l : List (List Int)} {r : List String × σ} (h : hashBlocks ha s l = .ok r) :
    r.1.length = l.length := by
  induction l generalizing s r with
  | nil =>
    cases h
    rfl
  | cons chunk rest ih =>
    obtain ⟨_, _, h⟩ := bind_eq_ok h
    obtain ⟨_, hr, ⟨⟩⟩ := bind_eq_ok h
    exact congrArg (· + 1) (ih hr)

theorem length_chunks (n : Nat) : (chunks tokens chunkSize n).length = n := by
  rw [chunks, List.length_map, List.length_range]

section

variable {D : Digests} {tokens : List Int} {c : Nat} {save : Bool} {iris vLLM : String}
  {keys : List String}

theorem length_hashTokensSha256Hex (h : hashTokensSha256Hex D tokens c save = .ok keys) :
    keys.length = totalBlocks tokens.length c save := by
  unfold hashTokensSha256Hex at h
  dsimp only at h
  split at h
  · cases h
    exact Eq.symm ‹_›
  obtain ⟨r, hr, h⟩ := bind_eq_ok h
  have hle := (length_hashBlocks hr).trans (length_chunks _ _ _)
  split at h <;> rename_i hl
  · obtain ⟨_, _, ⟨⟩⟩ := bind_eq_ok h
    simp [totalBlocks, hl, hle]
  · cases h
    rwa [totalBlocks, if_neg hl]

theorem length_hashTokensSha256CBOR (h : hashTokensSha256CBOR D tokens c save = .ok keys) :
    keys.length = totalBlocks tokens.length c save := by
  unfold hashTokensSha256CBOR at h
  dsimp only at h
  split at h
  · cases h
    exact Eq.symm ‹_›
  · obtain ⟨_, _, h⟩ := bind_eq_ok h
    obtain ⟨r, hr, ⟨⟩⟩ := bind_eq_ok h
    exact (length_hashBlocks hr).trans (length_chunks _ _ _)

theorem length_hashTokensXxhash (h : hashTokensXxhash D tokens c save iris vLLM = .ok keys) :
    keys.length = totalBlocks tokens.length c save := by
  obtain ⟨r, hr, h⟩ := bind_eq_ok h
  have hle := (length_hashBlocks hr).trans (length_chunks _ _ _)
  dsimp only at h
  split at h <;> rename_i hl <;> cases h
  · simp [totalBlocks, hl, hle]
  · rwa [totalBlocks, if_neg hl]

/-- **The number of keys**: one for every full chunk, and one for the rest where it is saved. -/
theorem length_hashTokens {ha : HashAlgo} {chunkSize : Int}
    (h : hashTokens D ha tokens chunkSize save iris vLLM = .ok keys) :
    0 < chunkSize ∧ keys.length = totalBlocks tokens.length chunkSize.toNat save := by
  unfold hashTokens at h
  split at h
  · cases h
  · refine ⟨by omega, ?_⟩
    cases ha with
    | sha256Hex => exact length_hashTokensSha256Hex h
    | sha256CBOR => exact length_hashTokensSha256CBOR h
    | xxhash => exact length_hashTokensXxhash h

end

/-! ### Hits and the prompt -/

open PrefixCache List Finmap Nat Int

/-- The tokens of a view fit a prompt of `n` tokens, also as the number of tokens to compute that is added to
the account of the instance. -/
structure Fits (n : Nat) (v : PrefixCache.InstanceView) : Prop where
  hit_nonneg : 0 ≤ v.prefixHitTokens
  hit_le : v.prefixHitTokens ≤ n
  miss_nonneg : 0 ≤ v.prefixMissTokens
  /-- For prompts whose length `int32` can hold. -/
  uncomputed_nonneg : n < 2 ^ 31 → ∀ e : Cms.InstanceStatusLocalAccountEditor,
    0 ≤ (e.uncomputedTokens (BitVec.ofNat 32 n) (BitVec.ofInt 32 v.prefixHitTokens)).toInt

theorem toInt_ofInt {k : Int} (h₀ : 0 ≤ k) (h : k < 2 ^ 31) : (BitVec.ofInt 32 k).toInt = k := by
  rw [BitVec.toInt_ofInt]
  exact bmod_eq_of_le (by omega) (by omega)

theorem uncomputedTokens_nonneg (e : Cms.InstanceStatusLocalAccountEditor) {n : Nat} {k : Int}
    (h₀ : 0 ≤ k) (hle : k ≤ n) (hn : n < 2 ^ 31) :
    0 ≤ (e.uncomputedTokens (BitVec.ofNat 32 n) (BitVec.ofInt 32 k)).toInt := by
  rw [← BitVec.ofInt_natCast]
  unfold Cms.InstanceStatusLocalAccountEditor.uncomputedTokens
  split
  · rw [BitVec.toInt_sub, toInt_ofInt, toInt_ofInt, bmod_eq_of_le] <;> omega
  · rw [toInt_ofInt] <;> omega

theorem Fits.of_hit {n : Nat} {v : PrefixCache.InstanceView} (h₀ : 0 ≤ v.prefixHitTokens)
    (hle : v.prefixHitTokens ≤ n) (hm : 0 ≤ v.prefixMissTokens) : Fits n v :=
  ⟨h₀, hle, hm, fun hn e => uncomputedTokens_nonneg e h₀ hle hn⟩

/-- Some answer names one instance for every key. -/
theorem exists_answer (keys : List String) :
    ∃ answer : Answer, ∀ key ∈ keys, answer.lookup key = some ["1.1.1.1"] := by
  induction keys with
  | nil => exact ⟨∅, by simp⟩
  | cons key rest ih =>
    obtain ⟨answer, ha⟩ := ih
    refine ⟨answer.insert key ["1.1.1.1"], fun k hk => ?_⟩
    by_cases heq : k = key
    · rw [heq, lookup_insert]
    · rw [lookup_insert_of_ne _ heq, ha k ((mem_cons.1 hk).resolve_left heq)]

/-- **No hit is longer than the prompt, whatever the metadata service answers**, exactly when a last chunk
that is not full is not saved, or there is none. -/
theorem hits_le_prompt_iff (D : Digests) (hashAlgo : HashAlgo) (tokens : List Int) (chunkSize : Int)
    (saveUnfullChunk : Bool) (irisMetaPrefix vLLMBlockPrefix : String) (prefixHashes : List String)
    (hkeys : hashTokens D hashAlgo tokens chunkSize saveUnfullChunk irisMetaPrefix vLLMBlockPrefix
      = .ok prefixHashes) :
    (∀ (down : Bool) (answer : Answer) (getInstanceIDsByIPs : List String → Finset String)
      (instanceViews : String → Option PrefixCache.InstanceView),
      (∀ id v, instanceViews id = some v → v.prefixHitTokens = 0 ∧ v.prefixMissTokens = 0) →
      ∀ id v, getInstancesPrefixCacheHitLen down answer getInstanceIDsByIPs prefixHashes chunkSize
        tokens.length instanceViews id = some v → Fits tokens.length v) ↔
      saveUnfullChunk = false ∨ chunkSize ∣ tokens.length := by
  obtain ⟨hp, hle⟩ := length_hashTokens hkeys
  lift chunkSize to ℕ using hp.le with c hc
  rw [toNat_natCast] at hle
  constructor
  · intro hal
    by_contra hco
    obtain ⟨answer, ha⟩ := exists_answer prefixHashes
    have hhe : ∀ key ∈ prefixHashes,
        holds (convertToCacheHitInstances (fun _ => {"a"}) answer) "a" key = true := by
      intro key hk
      have han : [key].any (holds (convertToCacheHitInstances (fun _ => {"a"}) answer) "a") = true :=
        any_holds_iff.2 ⟨key, mem_singleton_self key, _, ha key hk, Finset.mem_singleton_self _⟩
      simpa using han
    have hr : 0 < tokens.length % c := by
      refine pos_of_ne_zero fun h => hco (.inr ?_)
      exact natCast_dvd_natCast.2 (dvd_of_mod_eq_zero h)
    have ht : prefixHashes.length = tokens.length / c + 1 := by
      rw [hle, totalBlocks, if_pos]
      simpa [hr] using fun h => hco (.inl h)
    have hh : calcInstancesPrefixCacheHitLen c prefixHashes
        (convertToCacheHitInstances (fun _ => {"a"}) answer) "a"
          = some ((c : Int) * (tokens.length / c + 1 : Nat)) := by
      rw [calcInstancesPrefixCacheHitLen_eq, if_pos, dropWhile_eq_self_iff.2,
        takeWhile_eq_self_iff.2 hhe, ht]
      · intro hl
        simp [hhe _ (getElem_mem hl)]
      · have hs : 0 < prefixHashes.length := ht ▸ succ_pos _
        obtain ⟨key, hk⟩ := exists_mem_of_length_pos hs
        exact any_eq_true.2 ⟨key, hk, hhe key hk⟩
    have hvi : getInstancesPrefixCacheHitLen false answer (fun _ => {"a"}) prefixHashes c tokens.length
        (idleViews ["a"]) "a" = some { (⟨0, 0, 0, 0, 0, 0⟩ : PrefixCache.InstanceView) with
          prefixHitTokens := c * (tokens.length / c + 1 : Nat)
          prefixMissTokens := tokens.length - c * (tokens.length / c + 1 : Nat) } := by
      simp only [getInstancesPrefixCacheHitLen, Bool.false_eq_true, if_false, hh]
      rfl
    have hfi : (c * (tokens.length / c + 1 : Nat) : Int) ≤ tokens.length :=
      (hal _ _ _ _ (idleViews_fresh _) _ _ hvi).hit_le
    have hlt := lt_mul_div_succ tokens.length (natCast_pos.1 hp)
    exact absurd hfi (not_le.2 (by exact_mod_cast hlt))
  · intro hco down answer getInstanceIDsByIPs instanceViews hf id v hv
    have ht : (c : Int) * prefixHashes.length ≤ tokens.length := by
      have hfu : totalBlocks tokens.length c saveUnfullChunk = tokens.length / c := by
        unfold totalBlocks
        rcases hco with rfl | hdv
        · rfl
        · rw [natCast_dvd_natCast] at hdv
          simp [mod_eq_zero_of_dvd hdv]
      rw [hle, hfu]
      exact_mod_cast mul_div_le tokens.length c
    cases down with
    | true =>
      obtain ⟨hh, hm⟩ := hf id v hv
      exact .of_hit hh.ge (hh ▸ natCast_nonneg _) hm.ge
    | false =>
    obtain ⟨v₀, hv₀, rfl⟩ := Option.map_eq_some_iff.1 hv
    obtain ⟨hh, hm⟩ := hf id v₀ hv₀
    rw [calcInstancesPrefixCacheHitLen_eq]
    split_ifs
    · have hhi (p q : String → Bool) :
          (c : Int) * ((prefixHashes.dropWhile p).takeWhile q).length ≤ tokens.length := by
        have hru : ((prefixHashes.dropWhile p).takeWhile q).Sublist prefixHashes :=
          (takeWhile_sublist q).trans (dropWhile_sublist p)
        exact (Int.mul_le_mul_of_nonneg_left (Int.ofNat_le.2 hru.length_le) hp.le).trans ht
      exact .of_hit (mul_nonneg hp.le (natCast_nonneg _)) (hhi _ _) (sub_nonneg.2 (hhi _ _))
    · exact .of_hit hh.ge (hh ▸ natCast_nonneg _) hm.ge

/-- Digests that are good enough to run: the hash of a list of bytes is its length. -/
def sampleDigests : Digests where
  sha256 bytes := [UInt8.ofNat bytes.length]
  encodeToString bytes := toString (bytes.map UInt8.toNat)
  decodeString _ := .ok []
  marshalSeed _ := .ok []
  marshalBlock digest _ := .ok digest
  sum64 bytes := UInt64.ofNat bytes.length
  goHashSeed := none

theorem hits_le_prompt_iff_four_tokens :
    ∃ v, getInstancesPrefixCacheHitLen false sampleAnswer sampleInstanceIDs ["32"] 4 4 (idleViews ["a"]) "a"
      = some v ∧ Fits 4 v := by
  refine ⟨_, rfl, (hits_le_prompt_iff sampleDigests .xxhash [1, 2, 3, 4] 4 true "" "" ["32"] (by decide)).2
    (.inr (by decide)) false sampleAnswer sampleInstanceIDs (idleViews ["a"]) (idleViews_fresh _) "a" _ rfl⟩

/-- **Five tokens, and a hit of eight.** -/
theorem hit_longer_than_prompt :
    ¬ ∀ (D : Digests) (hashAlgo : HashAlgo) (tokens : List Int) (chunkSize : Int) (saveUnfullChunk : Bool)
      (irisMetaPrefix vLLMBlockPrefix : String) (prefixHashes : List String),
      hashTokens D hashAlgo tokens chunkSize saveUnfullChunk irisMetaPrefix vLLMBlockPrefix
        = .ok prefixHashes →
      ∀ (down : Bool) (answer : Answer) (getInstanceIDsByIPs : List String → Finset String)
        (instanceViews : String → Option PrefixCache.InstanceView),
        (∀ id v, instanceViews id = some v → v.prefixHitTokens = 0 ∧ v.prefixMissTokens = 0) →
        ∀ id v, getInstancesPrefixCacheHitLen down answer getInstanceIDsByIPs prefixHashes chunkSize
          tokens.length instanceViews id = some v → Fits tokens.length v := by
  intro h
  have hf := h sampleDigests .xxhash [1, 2, 3, 4, 5] 4 true "" "" ["32", "64"] (by decide) false
    (insert "64" ["1.1.1.1"] (insert "32" ["1.1.1.1"] ∅)) sampleInstanceIDs (idleViews ["a"])
    (idleViews_fresh _) "a" ⟨0, 0, 0, 0, 8, -3⟩ rfl
  exact absurd hf.hit_le (by decide)

/-! ### Prompts with a common beginning -/

variable {D tokens} {more : List Int} {c : Nat} {save : Bool} {iris vLLM : String} {keys : List String}

theorem hashBlocks_append {σ : Type} {ha : σ → List Int → Except String (String × σ)} {s : σ}
    {l m : List (List Int)} {r : List String × σ} (h : hashBlocks ha s (l ++ m) = .ok r) :
    ∃ r', hashBlocks ha s l = .ok r' ∧ r'.1 <+: r.1 := by
  induction l generalizing s r with
  | nil => exact ⟨_, rfl, nil_prefix⟩
  | cons chunk rest ih =>
    obtain ⟨x, hx, h⟩ := bind_eq_ok h
    obtain ⟨y, hy, ⟨⟩⟩ := bind_eq_ok h
    obtain ⟨r', hr, hp⟩ := ih hy
    refine ⟨(x.1 :: r'.1, r'.2), ?_, cons_prefix_cons.2 ⟨rfl, hp⟩⟩
    rw [hashBlocks, hx]
    change (hashBlocks ha x.2 rest >>= _) = _
    rw [hr]
    rfl

/-- The full chunks of a prompt are the first chunks of a longer one. -/
theorem hashBlocks_chunks {σ : Type} {ha : σ → List Int → Except String (String × σ)} {s : σ} {n : Nat}
    {r : List String × σ} (hn : tokens.length / c ≤ n)
    (h : hashBlocks ha s (chunks (tokens ++ more) c n) = .ok r) :
    ∃ r', hashBlocks ha s (chunks tokens c (tokens.length / c)) = .ok r' ∧ r'.1 <+: r.1 := by
  obtain ⟨k, rfl⟩ := Nat.exists_eq_add_of_le hn
  rw [chunks, range_add, map_append] at h
  convert hashBlocks_append h using 5
  refine map_congr_left fun i hi => ?_
  have hle := Nat.mul_le_of_le_div c (i + 1) tokens.length (mem_range.1 hi)
  rw [Nat.add_one_mul] at hle
  rw [drop_append_of_le_length (by omega), take_append_of_le_length (by simp; omega)]

/-- **Prompts with a common beginning have common keys**: the keys of the full chunks of a prompt are the
first keys of every longer one. -/
theorem hashTokens_append {a : HashAlgo} {chunkSize : Int}
    (h : hashTokens D a (tokens ++ more) chunkSize save iris vLLM = .ok keys) (hne : tokens ≠ []) :
    ∃ keys', hashTokens D a tokens chunkSize false iris vLLM = .ok keys' ∧ keys' <+: keys := by
  have hc := (length_hashTokens h).1
  unfold hashTokens at h ⊢
  rw [if_neg (by simp [hne, hc])] at h ⊢
  generalize chunkSize.toNat = c at *
  have hle : tokens.length / c ≤ (tokens ++ more).length / c := Nat.div_le_div_right (by simp)
  have hto : tokens.length / c ≤ totalBlocks (tokens ++ more).length c save := by
    unfold totalBlocks
    split <;> omega
  have ht : totalBlocks tokens.length c false = tokens.length / c := rfl
  cases a with
  | sha256Hex =>
    by_cases hz : tokens.length / c = 0
    · exact ⟨[], by simp [hashTokensSha256Hex, ht, hz]; rfl, nil_prefix⟩
    rw [hashTokensSha256Hex, if_neg (by omega)] at h
    obtain ⟨r, hr, h⟩ := bind_eq_ok h
    obtain ⟨r', hr', hp⟩ := hashBlocks_chunks hle hr
    refine ⟨r'.1, by simp only [hashTokensSha256Hex, ht, if_neg hz, hr']; rfl, ?_⟩
    dsimp only at h
    split at h
    · obtain ⟨_, _, ⟨⟩⟩ := bind_eq_ok h
      exact hp.trans (prefix_append _ _)
    · cases h
      exact hp
  | sha256CBOR =>
    by_cases hz : tokens.length / c = 0
    · exact ⟨[], by simp [hashTokensSha256CBOR, ht, hz]; rfl, nil_prefix⟩
    rw [hashTokensSha256CBOR, if_neg (by omega)] at h
    obtain ⟨s, hs, h⟩ := bind_eq_ok h
    obtain ⟨r, hr, ⟨⟩⟩ := bind_eq_ok h
    obtain ⟨r', hr', hp⟩ := hashBlocks_chunks hto hr
    refine ⟨r'.1, ?_, hp⟩
    simp only [hashTokensSha256CBOR, ht, if_neg hz, hs]
    change (hashBlocks _ s _ >>= _) = _
    rw [hr']
    rfl
  | xxhash =>
    obtain ⟨r, hr, h⟩ := bind_eq_ok h
    obtain ⟨r', hr', hp⟩ := hashBlocks_chunks hle hr
    refine ⟨r'.1, by simp only [hashTokensXxhash, hr']; rfl, ?_⟩
    dsimp only at h
    split at h <;> cases h
    · exact hp.trans (prefix_append _ _)
    · exact hp

theorem hashTokens_append_two_chunks :
    ∃ keys, hashTokens sampleDigests .xxhash [1, 2] 2 false "" "" = .ok keys ∧ keys <+: ["16", "32"] :=
  hashTokens_append (show hashTokens _ _ ([1, 2] ++ [3]) _ true _ _ = _ by decide) (by decide)

end Llumnix.TokenHasher
