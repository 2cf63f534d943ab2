/-
**Listing the batch tasks page by page.**

A GET of `/v1/batches` loads all tasks, sorts them by their creation time, the newest first, and answers
with those that follow the task named by `after` (`pkg/gateway/batch/handlers.go`).  Redis returns the
members of a set in any order, and `sort.Slice` is not stable, so tasks of the same second come in an order
of their own at every request; both are chosen anew for every request here.

* `listsAll_iff` — **when a client that asks for page after page gets every task exactly once**.
-/

import Llumnix.BatchStore
import Llumnix.Pagination

namespace Llumnix.Batch

open FiniteMap List Option Bool BatchTask

/-! ### The handler -/

/-- The page size: what `strconv.Atoi` makes of the parameter, if it is a positive number. -/
def pageLimit : Option ℤ → ℕ
  | some n => if 0 < n then n.toNat else 20
  | none => 20

variable (after : String) (w : World) (tasks : String → Option BatchTask) (limit : Option ℤ)

theorem pageLimit_pos : 0 < pageLimit limit := by
  unfold pageLimit
  split
  · split
    · omega
    · decide
  · decide

/-- The tasks that can be loaded, without their tokens. -/
def loadTasks (taskIDs : List String) : List BatchTask :=
  taskIDs.filterMap fun taskID => (tasks taskID).map fun task => { task with token := none }

/-- The tasks after the one with the id `after`: none at all if there is no such task. -/
def tasksAfter (allTasks : List BatchTask) : List BatchTask :=
  if after ≠ "" then
    match allTasks.findIdx? fun task => task.id = after with
    | some afterIndex =>
      if afterIndex < allTasks.length - 1 then allTasks.drop (afterIndex + 1) else []
    | none => []
  else allTasks

structure Page where
  data : List BatchTask
  firstID : Option String
  lastID : Option String
  hasMore : Bool
  deriving DecidableEq

def firstPage (limit : ℕ) (allTasks : List BatchTask) : Page :=
  let data := if limit < allTasks.length then allTasks.take limit else allTasks
  { data := data
    firstID := data.head?.map (·.id)
    lastID := data.getLast?.map (·.id)
    hasMore := limit < allTasks.length }

/-- `handleListBatchTasks`: `taskIDs` is what Redis answers, `sort` what `sort.Slice` does. -/
def handleListBatchTasks (taskIDs : Except String (List String))
    (sort : List BatchTask → List BatchTask) (limit : Option ℤ) (after : String) :
    Except (ℕ × String) Page :=
  match taskIDs with
  | .error _ => .error (500, "Failed to get task list")
  | .ok taskIDs =>
    .ok (firstPage (pageLimit limit) (tasksAfter after (sort (loadTasks tasks taskIDs))))

/-! ### The client -/

/-- The order of the listing: the newest task comes first. -/
def ByAge (a b : BatchTask) : Prop := b.createdAt ≤ a.createdAt

instance : DecidableRel ByAge := fun a b => inferInstanceAs (Decidable (b.createdAt ≤ a.createdAt))

instance : Std.Total ByAge := ⟨fun a b => le_total b.createdAt a.createdAt⟩

instance : IsTrans BatchTask ByAge := ⟨fun _ _ _ hab hbc => le_trans hbc hab⟩

def SortsByAge (sort : List BatchTask → List BatchTask) : Prop :=
  ∀ l, (sort l).Perm l ∧ (sort l).Pairwise ByAge

theorem sortsByAge_insertionSort : SortsByAge (insertionSort ByAge) :=
  fun _ => ⟨perm_insertionSort _ _, pairwise_insertionSort _ _⟩

/-- **What happens at one request**: the order in which Redis returns the members, and the way the tasks are
sorted. -/
structure Answer (w : World) where
  taskIDs : List String
  enumerates : Enumerates taskIDs w.globalTasks
  sort : List BatchTask → List BatchTask
  sorts : SortsByAge sort

def Answer.sorted {w : World} (a : Answer w) : List BatchTask := a.sort (loadTasks w.tasks a.taskIDs)

/-- **The client** asks for the next page as long as there is one, at most `fuel` times. -/
def listAll (w : World) (limit : Option ℤ) : ℕ → (ℕ → Answer w) → String → Option (List BatchTask)
  | 0, _, _ => none
  | fuel + 1, answers, after =>
    match handleListBatchTasks w.tasks (.ok (answers 0).taskIDs) (answers 0).sort limit after with
    | .error _ => none
    | .ok page =>
      if page.hasMore then
        match page.lastID with
        | none => none
        | some lastID =>
          (listAll w limit fuel (fun n => answers (n + 1)) lastID).map (page.data ++ ·)
      else some page.data

/-- The tasks of a store, as the handler shows them. -/
def World.Shown (task : BatchTask) : Prop :=
  ∃ taskID ∈ w.globalTasks, ∃ stored, w.tasks taskID = some stored ∧ task = { stored with token := none }

/-- **The client gets every task exactly once**, whatever happens at its requests. -/
def ListsAll : Prop :=
  ∀ answers : ℕ → Answer w, ∃ fuel listed, listAll w limit fuel answers "" = some listed ∧
    listed.Nodup ∧ ∀ task, task ∈ listed ↔ w.Shown task

/-- **No page but the last one ends with a task that was created at the time of another one.** -/
def PagesApart : Prop :=
  ∀ (a : Answer w) (u : List BatchTask) (task : BatchTask) (v : List BatchTask),
    a.sorted = u ++ task :: v → pageLimit limit ∣ u.length + 1 → v ≠ [] →
      ∀ other, w.Shown other → other.createdAt = task.createdAt → other = task

/-- Tasks are stored under their ids, which `CreateTask` makes from `batch_` and a UUID. -/
def World.Keyed : Prop :=
  ∀ taskID ∈ w.globalTasks, ∀ task, w.tasks taskID = some task → task.id = taskID ∧ taskID ≠ ""

/-! ### The handler and the client as a reader of pages -/

theorem findIdx?_drop (p : BatchTask → Bool) : ∀ l : List BatchTask, (match l.findIdx? p with
      | some i => if i < l.length - 1 then l.drop (i + 1) else []
      | none => []) = (l.dropWhile fun task => !p task).tail := by
  intro l
  induction l with
  | nil => rfl
  | cons task l ih =>
  rw [findIdx?_cons, dropWhile_cons]
  by_cases hp : p task = true
  · simp only [hp, if_true, Bool.not_true, Bool.false_eq_true, if_false, tail_cons,
      length_cons, Nat.add_sub_cancel, Nat.zero_add, drop_one]
    split
    · rfl
    · next hl =>
      symm
      rw [← length_eq_zero_iff]
      omega
  · simp only [hp, Bool.false_eq_true, if_false, Bool.not_false, if_true, ← ih]
    cases hf : l.findIdx? p with
    | none => rfl
    | some i =>
      have hi := (findIdx?_eq_some_iff_findIdx_eq.1 hf).1
      simp only [map_some, length_cons, Nat.add_sub_cancel, drop_succ_cons]
      have hif : i + 1 < l.length ↔ i < l.length - 1 := by omega
      simp only [hif]

/-- The position that a value of `after` names. -/
def positionOf : Option String := if after = "" then none else some after

theorem tasksAfter_eq (l : List BatchTask) :
    tasksAfter after l = Pagination.after BatchTask.id (positionOf after) l := by
  unfold tasksAfter positionOf
  by_cases ha : after = ""
  · rw [if_neg (not_not.2 ha), if_pos ha]
    rfl
  · rw [if_pos ha, if_neg ha, findIdx?_drop]
    simp [Pagination.after]

section

variable {w : World} {limit : Option ℤ}

/-- The tasks of a store in some order. -/
noncomputable def World.shownTasks (w : World) : List BatchTask := loadTasks w.tasks w.globalTasks.toList

theorem mem_loadTasks {taskIDs : List String} (h : Enumerates taskIDs w.globalTasks) (task : BatchTask) :
    task ∈ loadTasks w.tasks taskIDs ↔ w.Shown task := by
  rw [loadTasks, mem_filterMap]
  constructor
  · rintro ⟨taskID, hm, ht⟩
    obtain ⟨stored, hs, rfl⟩ := map_eq_some_iff.1 ht
    exact ⟨taskID, (h.2 taskID).1 hm, stored, hs, rfl⟩
  · rintro ⟨taskID, hm, stored, hs, rfl⟩
    exact ⟨taskID, (h.2 taskID).2 hm, by rw [hs]; rfl⟩

theorem enumerates_toList (s : Finset String) : Enumerates s.toList s :=
  ⟨s.nodup_toList, fun _ => Finset.mem_toList⟩

theorem loadTasks_perm {taskIDs : List String} (h : Enumerates taskIDs w.globalTasks) :
    (loadTasks w.tasks taskIDs).Perm w.shownTasks := by
  refine List.Perm.filterMap _ ((perm_ext_iff_of_nodup h.1 (Finset.nodup_toList _)).2 fun k => ?_)
  rw [h.2, Finset.mem_toList]

theorem mem_shownTasks (task : BatchTask) : task ∈ w.shownTasks ↔ w.Shown task :=
  mem_loadTasks (enumerates_toList _) task

theorem nodup_ids (h : w.Keyed) : (w.shownTasks.map BatchTask.id).Nodup := by
  have hi : ∀ taskIDs : List String, (∀ k ∈ taskIDs, k ∈ w.globalTasks) →
      ((loadTasks w.tasks taskIDs).map BatchTask.id).Sublist taskIDs := by
    intro taskIDs
    induction taskIDs with
    | nil => exact fun _ => List.Sublist.refl _
    | cons k taskIDs ih =>
    intro hm
    have hr := ih fun j hj => hm j (mem_cons_of_mem _ hj)
    rw [loadTasks, filterMap_cons]
    cases ht : w.tasks k with
    | none => exact hr.cons _
    | some task =>
      obtain ⟨hid, -⟩ := h k (hm k mem_cons_self) task ht
      rw [map_some, map_cons]
      rw [hid]
      exact hr.cons_cons _
  exact (hi _ fun k hk => Finset.mem_toList.1 hk).nodup (Finset.nodup_toList _)

theorem Answer.arranges (a : Answer w) : Pagination.Arranges createdAt w.shownTasks a.sorted where
  perm := (a.sorts _).1.trans (loadTasks_perm a.enumerates)
  sorted := (a.sorts _).2

theorem exists_answer {l : List BatchTask} (h : Pagination.Arranges createdAt w.shownTasks l) :
    ∃ a : Answer w, a.sorted = l := by
  refine ⟨⟨w.globalTasks.toList, enumerates_toList _,
    fun m => if m.Perm l then l else m.insertionSort ByAge, fun m => ?_⟩, if_pos h.perm.symm⟩
  dsimp only
  split
  · next hp => exact ⟨hp.symm, h.sorted⟩
  · exact sortsByAge_insertionSort m

theorem positionOf_id (hk : w.Keyed) {task : BatchTask} (h : w.Shown task) :
    positionOf task.id = some task.id := by
  obtain ⟨taskID, hm, stored, hs, rfl⟩ := h
  obtain ⟨hke, hne⟩ := hk taskID hm stored hs
  exact if_neg fun he => hne (hke.symm.trans he)

/-- **The client is a reader of pages.** -/
theorem listAll_eq_collect (hk : w.Keyed) : ∀ (fuel : ℕ) (answers : ℕ → Answer w) (after : String),
    listAll w limit fuel answers after = Pagination.collect BatchTask.id (pageLimit limit) fuel
      (fun n => (answers n).sorted) (positionOf after) := by
  intro fuel
  induction fuel with
  | zero => exact fun _ _ => rfl
  | succ fuel ih =>
  intro answers after
  rw [listAll, Pagination.collect]
  simp only [handleListBatchTasks, firstPage]
  rw [show (answers 0).sort (loadTasks w.tasks (answers 0).taskIDs) = (answers 0).sorted from rfl,
    tasksAfter_eq]
  by_cases hm : pageLimit limit <
      (Pagination.after BatchTask.id (positionOf after) (answers 0).sorted).length
  · simp only [hm, decide_true, if_true]
    cases hl : ((Pagination.after BatchTask.id (positionOf after) (answers 0).sorted).take
        (pageLimit limit)).getLast? with
    | none => rfl
    | some task =>
    simp only [map_some]
    have hme : task ∈ (answers 0).sorted := by
      have ht := mem_of_mem_take (mem_of_getLast? hl)
      unfold Pagination.after at ht
      split at ht
      · exact ht
      · exact (dropWhile_sublist _).subset (mem_of_mem_tail ht)
    have hs := (mem_shownTasks task).1 ((answers 0).arranges.perm.mem_iff.1 hme)
    rw [ih, positionOf_id hk hs]
  · simp only [hm, decide_false, if_false, false_eq_true]

theorem perm_shownTasks_iff (hk : w.Keyed) {listed : List BatchTask} :
    listed.Perm w.shownTasks ↔ listed.Nodup ∧ ∀ task, task ∈ listed ↔ w.Shown task := by
  have hn : w.shownTasks.Nodup := (nodup_ids hk).of_map
  constructor
  · exact fun h => ⟨h.nodup_iff.2 hn, fun task => h.mem_iff.trans (mem_shownTasks task)⟩
  · rintro ⟨hl, hm⟩
    exact (perm_ext_iff_of_nodup hl hn).2 fun task =>
      (hm task).trans (mem_shownTasks task).symm

theorem listsAll_iff_exhaustive (hk : w.Keyed) : ListsAll w limit ↔
      Pagination.Exhaustive BatchTask.id BatchTask.createdAt w.shownTasks (pageLimit limit) := by
  unfold ListsAll Pagination.Exhaustive
  simp only [listAll_eq_collect hk, ← perm_shownTasks_iff hk]
  constructor
  · intro h choice hc
    choose answers hanswers using fun n => exists_answer (hc n)
    have ho := h answers
    simp only [hanswers] at ho
    exact ho
  · exact fun h answers => h _ fun n => (answers n).arranges

theorem pagesApart_iff_separated :
    PagesApart w limit ↔ Pagination.Separated createdAt w.shownTasks (pageLimit limit) := by
  constructor
  · intro h u task v har hdv hv other ho
    obtain ⟨a, ha⟩ := exists_answer har
    exact h a u task v ha hdv hv other ((mem_shownTasks other).1 ho)
  · intro h a u task v ha hdv hv other ho
    exact h u task v (ha ▸ a.arranges) hdv hv other ((mem_shownTasks other).2 ho)

end

/-- **The client gets every task exactly once, exactly if no page but the last ends with a task created at the
time of another one.** -/
theorem listsAll_iff {w : World} (hkeyed : w.Keyed) (limit : Option ℤ) :
    ListsAll w limit ↔ PagesApart w limit := by
  rw [listsAll_iff_exhaustive hkeyed, pagesApart_iff_separated,
    Pagination.exhaustive_iff (pageLimit_pos limit) (nodup_ids hkeyed)]

/-! ### Two tasks -/

/-- A task with an id and a creation time. -/
def plainTask (id : String) (createdAt : ℤ) : BatchTask where
  id := id
  endpoint := "/v1/completions"
  errors := none
  inputFileID := "file"
  status := .pending
  outputFileID := none
  errorFileID := none
  createdAt := createdAt
  inProgressAt := none
  expiresAt := createdAt + 86400
  finalizingAt := none
  completedAt := none
  failedAt := none
  expiredAt := none
  cancellingAt := none
  cancelledAt := none
  requestCounts := none
  outputExpiresAfter := none
  updatedAt := none
  token := none

def twoTasks (createdA createdB : ℤ) : World :=
  { World.empty with
    tasks := fun taskID =>
      if taskID = "a" then some (plainTask "a" createdA)
      else if taskID = "b" then some (plainTask "b" createdB) else none
    globalTasks := {"a", "b"} }

theorem keyed_twoTasks (createdA createdB : ℤ) : (twoTasks createdA createdB).Keyed := by
  intro taskID hm task ht
  have hi : taskID = "a" ∨ taskID = "b" := by simpa [twoTasks] using hm
  rcases hi with rfl | rfl
  · cases ht
    exact ⟨rfl, by decide⟩
  · cases ht
    exact ⟨rfl, by decide⟩

/-- The members of the set in a given order, and a stable sort. -/
def inOrder {createdA createdB : ℤ} (taskIDs : List String)
    (h : Enumerates taskIDs (twoTasks createdA createdB).globalTasks) : Answer (twoTasks createdA createdB) where
  taskIDs := taskIDs
  enumerates := h
  sort := List.insertionSort ByAge
  sorts := sortsByAge_insertionSort

theorem listsAll_twoTasks : (twoTasks 1 2).Keyed ∧ ListsAll (twoTasks 1 2) (some 1) := by
  refine ⟨keyed_twoTasks 1 2, (listsAll_iff (keyed_twoTasks 1 2) (some 1)).2 ?_⟩
  intro answer u task v hso _ _ other ho hsa
  have hsh : ∀ t, (twoTasks 1 2).Shown t → t = plainTask "a" 1 ∨ t = plainTask "b" 2 := by
    rintro t ⟨taskID, hm, stored, hs, rfl⟩
    have hi : taskID = "a" ∨ taskID = "b" := by simpa [twoTasks] using hm
    rcases hi with rfl | rfl
    · cases hs
      exact .inl rfl
    · cases hs
      exact .inr rfl
  have ht : (twoTasks 1 2).Shown task := by
    rw [← mem_shownTasks, ← answer.arranges.perm.mem_iff, hso]
    simp
  rcases hsh task ht with rfl | rfl <;> rcases hsh other ho with rfl | rfl
  · rfl
  · exact absurd hsa (by decide)
  · exact absurd hsa (by decide)
  · rfl

/-- **A task that is never listed.** Two tasks of the same second, one task a page: Redis returns `a` before
`b` first and `b` before `a` then, and nothing follows `a`. -/
theorem skipped_task : ¬ ∀ (w : World) (limit : Option ℤ), w.Keyed → ListsAll w limit := by
  intro ha
  have hab : Enumerates ["a", "b"] (twoTasks 1 1).globalTasks := by decide
  have hba : Enumerates ["b", "a"] (twoTasks 1 1).globalTasks := by decide
  obtain ⟨fuel, listed, hl, -, hm⟩ := ha (twoTasks 1 1) (some 1) (keyed_twoTasks 1 1)
    fun n => if n = 0 then inOrder ["a", "b"] hab else inOrder ["b", "a"] hba
  have hb : plainTask "b" 1 ∈ listed := (hm _).2 ⟨"b", by simp [twoTasks], plainTask "b" 1, rfl, rfl⟩
  have hf : handleListBatchTasks (twoTasks 1 1).tasks (.ok ["a", "b"]) (insertionSort ByAge)
      (some 1) "" = .ok ⟨[plainTask "a" 1], some "a", some "a", true⟩ := by decide +kernel
  have hs : handleListBatchTasks (twoTasks 1 1).tasks (.ok ["b", "a"]) (insertionSort ByAge)
      (some 1) "a" = .ok ⟨[], none, none, false⟩ := by decide +kernel
  cases fuel with
  | zero => cases hl
  | succ fuel =>
  rw [listAll, if_pos rfl] at hl
  simp only [inOrder, hf, if_true] at hl
  cases fuel with
  | zero => cases hl
  | succ =>
    rw [listAll, if_neg (by decide)] at hl
    simp only [hs, false_eq_true, if_false, map_some, append_nil, some.injEq] at hl
    rw [← hl] at hb
    exact absurd hb (by decide)

end Llumnix.Batch
