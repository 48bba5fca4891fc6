import Mathlib.Algebra.BigOperators.Group.Finset.Basic
import Mathlib.Algebra.BigOperators.Group.Finset.Piecewise
import Mathlib.Data.Fintype.BigOperators
import StateGuard.Analysis.Batch
import StateGuard.Proofs.Analysis.Outcome

/-!
# Sharing the cache

Analyses of many units may run at the same time and share the classifications they have computed.  A
question to the cache is then two steps: the type is looked up, and if nothing is found its
classification is computed and entered.  Between the two steps other analyses go on, so that two of
them may miss the same type and both enter it.

A pool is the cache with the analyses in progress, and a run of a pool is any interleaving of their
steps.  No interleaving can be told from the outside: each analysis ends as it does alone with an
empty cache, and only the counts of the cache say what happened.

## Main results

* `Pool.Step.isSound`: what one step preserves.
* `Pool.Run.isSound`, `Pool.Run.completes`: what any run preserves, and that it comes to an end.
* `Pool.Run.tallies`: what the counts say when questions are not interleaved.
* `Analyzer.shared_cache_is_invisible`: the same for the analyses of units.
-/

namespace StateGuard

/-! ## The cache in two steps -/

namespace Cache

/-- The types with an entry. -/
def types (cache : Cache) : List TypeRef := cache.entries.map (·.1)

/-- Enter a classification, in place of an entry that the type may have. -/
def insert (cache : Cache) (type : TypeRef) (answer : Classification) : Cache :=
  { cache with entries := (type, answer) :: cache.entries.filter fun entry => entry.1 ≠ type }

theorem find?_eq_none_iff {cache : Cache} {type : TypeRef} :
    cache.find? type = none ↔ type ∉ cache.types := by
  simp only [find?, List.lookup_eq_none_iff, types, List.mem_map, not_exists, not_and,
    bne_iff_ne, ne_eq]
  constructor
  · intro h entry hMem hType
    exact h entry hMem hType.symm
  · intro h entry hMem hType
    exact h entry hMem hType.symm

theorem mem_entries_of_find? {cache : Cache} {type : TypeRef} {answer : Classification}
    (h : cache.find? type = some answer) : (type, answer) ∈ cache.entries := by
  obtain ⟨before, after, hEntries, -⟩ := List.lookup_eq_some_iff.1 h
  rw [hEntries]
  exact List.mem_append_right before List.mem_cons_self

theorem mem_types_of_find? {cache : Cache} {type : TypeRef} {answer : Classification}
    (h : cache.find? type = some answer) : type ∈ cache.types :=
  List.mem_map_of_mem (mem_entries_of_find? h)

theorem types_insert (cache : Cache) (type : TypeRef) (answer : Classification) :
    (cache.insert type answer).types = type :: cache.types.filter (· ≠ type) := by
  simp only [types, insert, List.map_cons, List.filter_map]
  rfl

/-- Nothing has to give way to the entry of a new type. -/
theorem entries_insert_of_absent {cache : Cache} {type : TypeRef} (h : cache.find? type = none)
    (answer : Classification) :
    (cache.insert type answer).entries = (type, answer) :: cache.entries := by
  simp only [insert, List.cons.injEq, true_and, List.filter_eq_self]
  intro entry hMem
  have hAbsent : type ∉ cache.types := find?_eq_none_iff.1 h
  have hNe : entry.1 ≠ type := fun hType => hAbsent (hType ▸ List.mem_map_of_mem hMem)
  exact decide_eq_true hNe

/-- **A question is a lookup and, after a miss, an entry.** -/
theorem classify_of_absent {cache : Cache} {type : TypeRef} (h : cache.find? type = none)
    (classify : TypeRef → Classification) :
    cache.classify classify type =
      (classify type,
        { cache with misses := cache.misses + 1 }.insert type (classify type)) := by
  have hEntries := entries_insert_of_absent h (classify type)
  simp only [Cache.classify, h]
  simp only [insert] at hEntries ⊢
  rw [hEntries]

/-- The entries are classifications of their types, one for each type. -/
structure IsSound (classify : TypeRef → Classification) (cache : Cache) : Prop where
  right : ∀ entry ∈ cache.entries, entry.2 = classify entry.1
  nodup : cache.types.Nodup

theorem IsSound.isRight {classify : TypeRef → Classification} {cache : Cache}
    (h : cache.IsSound classify) : cache.IsRight classify := by
  intro type answer hFound
  exact h.right (type, answer) (mem_entries_of_find? hFound)

theorem IsSound.insert {classify : TypeRef → Classification} {cache : Cache}
    (h : cache.IsSound classify) (type : TypeRef) :
    (cache.insert type (classify type)).IsSound classify where
  right := by
    intro entry hMem
    rcases List.mem_cons.1 hMem with rfl | hOld
    · rfl
    · exact h.right entry (List.mem_of_mem_filter hOld)
  nodup := by
    rw [types_insert, List.nodup_cons]
    refine ⟨?_, h.nodup.filter _⟩
    simp

/-- An entry adds one at most. -/
theorem size_insert_le (cache : Cache) (type : TypeRef) (answer : Classification) :
    (cache.insert type answer).size ≤ cache.size + 1 := by
  have hFilter := List.length_filter_le (fun entry => decide (entry.1 ≠ type)) cache.entries
  simp only [size, insert, List.length_cons]
  omega

end Cache

/-! ## Pools -/

/-- An inquiry in progress. -/
inductive Task (α : Type) where
  /-- Before its next question, or at its end. -/
  | active (inquiry : Inquiry α)
  /-- Between a lookup that found nothing and the entry. -/
  | computing (type : TypeRef) (next : Classification → Inquiry α)

/-- What a step does to the cache. -/
inductive CacheEvent where
  /-- A lookup found an entry, and the question has this answer. -/
  | hit (type : TypeRef) (answer : Classification)
  /-- A lookup found nothing. -/
  | miss (type : TypeRef)
  /-- A classification is entered, and the question has this answer. -/
  | enter (type : TypeRef) (answer : Classification)

namespace CacheEvent

/-- The type that a lookup is about. -/
def lookup? : CacheEvent → Option TypeRef
  | .hit type _ => some type
  | .miss type => some type
  | .enter _ _ => none

/-- The type and the answer of a question that ends. -/
def answered? : CacheEvent → Option (TypeRef × Classification)
  | .hit type answer => some (type, answer)
  | .miss _ => none
  | .enter type answer => some (type, answer)

end CacheEvent

namespace Task

variable {α : Type} (classify : TypeRef → Classification)

/-- What an inquiry in progress will come to. -/
def answer : Task α → α
  | .active inquiry => inquiry.answer classify
  | .computing type next => (next (classify type)).answer classify

/-- A bound on the steps still to be taken. -/
def stepsLeft : Task α → Nat
  | .active inquiry => 2 * (inquiry.questions classify).length
  | .computing type next => 2 * ((next (classify type)).questions classify).length + 1

/-- The entries that are still due. -/
def entriesDue : Task α → Nat
  | .active _ => 0
  | .computing _ _ => 1

/-- One step of an inquiry, from a cache to a cache. -/
inductive Step : Cache → Task α → CacheEvent → Cache → Task α → Prop
  | hit {cache : Cache} {type : TypeRef} {answer : Classification}
      {next : Classification → Inquiry α} (hFound : cache.find? type = some answer) :
      Step cache (.active (.ask type next)) (.hit type answer)
        { cache with hits := cache.hits + 1 } (.active (next answer))
  | miss {cache : Cache} {type : TypeRef} {next : Classification → Inquiry α}
      (hAbsent : cache.find? type = none) :
      Step cache (.active (.ask type next)) (.miss type)
        { cache with misses := cache.misses + 1 } (.computing type next)
  | enter {cache : Cache} {type : TypeRef} {next : Classification → Inquiry α} :
      Step cache (.computing type next) (.enter type (classify type))
        (cache.insert type (classify type)) (.active (next (classify type)))

/-- An inquiry that is not at its end can take a step. -/
theorem exists_step (cache : Cache) (task : Task α) :
    (∃ value, task = .active (.done value)) ∨
      ∃ event cache' task', Step classify cache task event cache' task' := by
  match task with
  | .active (.done value) => exact .inl ⟨value, rfl⟩
  | .active (.ask type next) =>
      right
      cases hFound : cache.find? type with
      | some answer => exact ⟨_, _, _, .hit hFound⟩
      | none => exact ⟨_, _, _, .miss hFound⟩
  | .computing type next => exact .inr ⟨_, _, _, .enter⟩

variable {classify} {cache cache' : Cache} {task task' : Task α} {event : CacheEvent}

theorem Step.of_hit {type : TypeRef} {answer : Classification}
    (h : Step classify cache task (.hit type answer) cache' task') :
    cache.find? type = some answer ∧ cache' = { cache with hits := cache.hits + 1 } := by
  cases h with
  | hit hFound => exact ⟨hFound, rfl⟩

theorem Step.of_miss {type : TypeRef} (h : Step classify cache task (.miss type) cache' task') :
    cache.find? type = none ∧ cache' = { cache with misses := cache.misses + 1 } := by
  cases h with
  | miss hAbsent => exact ⟨hAbsent, rfl⟩

theorem Step.of_enter {type : TypeRef} {answer : Classification}
    (h : Step classify cache task (.enter type answer) cache' task') :
    cache' = cache.insert type answer := by
  cases h with
  | enter => rfl

/-- A step of an inquiry leaves a sound cache sound. -/
theorem Step.isSound (h : Step classify cache task event cache' task')
    (hSound : cache.IsSound classify) : cache'.IsSound classify := by
  cases h with
  | hit _ => exact ⟨hSound.right, hSound.nodup⟩
  | miss _ => exact ⟨hSound.right, hSound.nodup⟩
  | enter => exact hSound.insert _

/-- A question that ends with a step has the right answer. -/
theorem Step.answered (h : Step classify cache task event cache' task')
    (hSound : cache.IsSound classify) {type : TypeRef} {answer : Classification}
    (hAnswered : event.answered? = some (type, answer)) : answer = classify type := by
  cases h with
  | hit hFound =>
      obtain ⟨rfl, rfl⟩ := Prod.mk.inj (Option.some.inj hAnswered)
      exact hSound.isRight _ _ hFound
  | miss _ => simp [CacheEvent.answered?] at hAnswered
  | enter =>
      obtain ⟨rfl, rfl⟩ := Prod.mk.inj (Option.some.inj hAnswered)
      rfl

/-- A step does not change what the inquiry will come to. -/
theorem Step.answer_eq (h : Step classify cache task event cache' task')
    (hSound : cache.IsSound classify) : task'.answer classify = task.answer classify := by
  cases h with
  | hit hFound =>
      rw [hSound.isRight _ _ hFound]
      rfl
  | miss _ => rfl
  | enter => rfl

/-- With each step there are fewer left. -/
theorem Step.stepsLeft_lt (h : Step classify cache task event cache' task')
    (hSound : cache.IsSound classify) : task'.stepsLeft classify < task.stepsLeft classify := by
  cases h with
  | hit hFound =>
      rw [hSound.isRight _ _ hFound]
      simp only [stepsLeft, Inquiry.questions, List.length_cons]
      omega
  | miss _ =>
      simp only [stepsLeft, Inquiry.questions, List.length_cons]
      omega
  | enter =>
      simp only [stepsLeft]
      omega

/-- Every entry made or due has been counted as a miss. -/
theorem Step.size_le (h : Step classify cache task event cache' task') :
    cache'.size + task'.entriesDue + cache.misses ≤
      cache.size + task.entriesDue + cache'.misses := by
  cases h with
  | hit _ => simp [entriesDue, Cache.size]
  | miss _ =>
      simp only [entriesDue, Cache.size]
      omega
  | enter =>
      rename_i type next
      have hSize := cache.size_insert_le type (classify type)
      simp only [entriesDue, Cache.insert] at hSize ⊢
      omega

end Task

/-- Inquiries in progress that share a cache. -/
structure Pool (ι α : Type) where
  cache : Cache
  tasks : ι → Task α

namespace Pool

variable {ι α : Type} [DecidableEq ι] (classify : TypeRef → Classification)

/-- One step of one inquiry. -/
def Step (pool : Pool ι α) (label : ι × CacheEvent) (pool' : Pool ι α) : Prop :=
  ∃ task, Task.Step classify pool.cache (pool.tasks label.1) label.2 pool'.cache task ∧
    pool'.tasks = Function.update pool.tasks label.1 task

/-- Any steps, one after the other. -/
inductive Run : Pool ι α → List (ι × CacheEvent) → Pool ι α → Prop
  | nil (pool : Pool ι α) : Run pool [] pool
  | cons {first second last : Pool ι α} {label : ι × CacheEvent} {rest : List (ι × CacheEvent)}
      (hStep : Step classify first label second) (hRest : Run second rest last) :
      Run first (label :: rest) last

/-- Whether all inquiries are at their ends. -/
def IsFinished (pool : Pool ι α) : Prop := ∀ i, ∃ value, pool.tasks i = .active (.done value)

/-- Inquiries before their first questions, with an empty cache. -/
def fresh (inquiries : ι → Inquiry α) : Pool ι α := ⟨{}, fun i => .active (inquiries i)⟩

variable {classify}

theorem Run.append {first second last : Pool ι α} {events more : List (ι × CacheEvent)}
    (hFirst : Run classify first events second) (hSecond : Run classify second more last) :
    Run classify first (events ++ more) last := by
  induction hFirst with
  | nil => exact hSecond
  | cons hStep _ ih => exact .cons hStep (ih hSecond)

section Preservation

variable [Fintype ι]

/-- A sum over all inquiries changes with a step by what it changes for one of them. -/
theorem sum_update (measure : Task α → Nat) (tasks : ι → Task α) (i : ι) (task : Task α) :
    ∑ k, measure (Function.update tasks i task k) + measure (tasks i) =
      ∑ k, measure (tasks k) + measure task := by
  have hNew := Fintype.sum_eq_add_sum_compl i fun k => measure (Function.update tasks i task k)
  have hOld := Fintype.sum_eq_add_sum_compl i fun k => measure (tasks k)
  have hRest : ∑ k ∈ {i}ᶜ, measure (Function.update tasks i task k) =
      ∑ k ∈ {i}ᶜ, measure (tasks k) := by
    apply Finset.sum_congr rfl
    intro k hk
    have hNe : k ≠ i := by simpa using hk
    rw [Function.update_of_ne hNe]
  rw [hNew, hOld, hRest, Function.update_self]
  omega

/-- What holds of a pool whatever has happened: the cache is sound, each inquiry will come to the
same as at the start, and no entry was made or is due without a miss. -/
structure IsSound (classify : TypeRef → Classification) (answers : ι → α) (pool : Pool ι α) :
    Prop where
  cache : pool.cache.IsSound classify
  answer : ∀ i, (pool.tasks i).answer classify = answers i
  counted : pool.cache.size + ∑ i, (pool.tasks i).entriesDue ≤ pool.cache.misses

variable {answers : ι → α} {pool pool' : Pool ι α} {label : ι × CacheEvent}

/-- **One step of a pool** leaves it sound. -/
theorem Step.isSound (h : Step classify pool label pool')
    (hSound : pool.IsSound classify answers) : pool'.IsSound classify answers := by
  obtain ⟨task, hTask, hTasks⟩ := h
  refine ⟨hTask.isSound hSound.cache, ?_, ?_⟩
  · intro i
    rw [hTasks]
    by_cases hi : i = label.1
    · subst hi
      rw [Function.update_self, hTask.answer_eq hSound.cache]
      exact hSound.answer _
    · rw [Function.update_of_ne hi]
      exact hSound.answer i
  · have hSum := sum_update Task.entriesDue pool.tasks label.1 task
    have hSize := hTask.size_le
    have hCounted := hSound.counted
    rw [hTasks]
    omega

/-- With each step of a pool there are fewer left. -/
theorem Step.stepsLeft_lt (h : Step classify pool label pool')
    (hSound : pool.IsSound classify answers) :
    ∑ i, (pool'.tasks i).stepsLeft classify < ∑ i, (pool.tasks i).stepsLeft classify := by
  obtain ⟨task, hTask, hTasks⟩ := h
  have hSum := sum_update (Task.stepsLeft classify) pool.tasks label.1 task
  have hLess := hTask.stepsLeft_lt hSound.cache
  rw [hTasks]
  omega

omit [DecidableEq ι] in
theorem isSound_fresh (classify : TypeRef → Classification) (inquiries : ι → Inquiry α) :
    (fresh inquiries).IsSound classify fun i => (inquiries i).answer classify where
  cache := ⟨by simp [fresh], by simp [fresh, Cache.types]⟩
  answer _ := rfl
  counted := by simp [fresh, Task.entriesDue, Cache.size]

variable {events : List (ι × CacheEvent)}

/-- **Any run of a pool** leaves it sound. -/
theorem Run.isSound (h : Run classify pool events pool')
    (hSound : pool.IsSound classify answers) : pool'.IsSound classify answers := by
  induction h with
  | nil => exact hSound
  | cons hStep _ ih => exact ih (hStep.isSound hSound)

/-- Every question that ends in a run has the right answer. -/
theorem Run.answered (h : Run classify pool events pool') (hSound : pool.IsSound classify answers)
    {i : ι} {event : CacheEvent} (hEvent : (i, event) ∈ events) {type : TypeRef}
    {answer : Classification} (hAnswered : event.answered? = some (type, answer)) :
    answer = classify type := by
  induction h with
  | nil => simp at hEvent
  | cons hStep _ ih =>
      rcases List.mem_cons.1 hEvent with hHere | hLater
      · obtain ⟨task, hTask, -⟩ := hStep
        rw [← hHere] at hTask
        exact hTask.answered hSound.cache hAnswered
      · exact ih (hStep.isSound hSound) hLater

/-- A run takes no more steps than there were left. -/
theorem Run.length_le (h : Run classify pool events pool')
    (hSound : pool.IsSound classify answers) :
    events.length + ∑ i, (pool'.tasks i).stepsLeft classify ≤
      ∑ i, (pool.tasks i).stepsLeft classify := by
  induction h with
  | nil => simp
  | cons hStep _ ih =>
      have hLess := hStep.stepsLeft_lt hSound
      have hRest := ih (hStep.isSound hSound)
      simp only [List.length_cons]
      omega

omit [Fintype ι] in
/-- As long as some inquiry is not at its end, there is a step. -/
theorem exists_step_of_not_isFinished (h : ¬ pool.IsFinished) :
    ∃ label pool', Step classify pool label pool' := by
  simp only [IsFinished, not_forall] at h
  obtain ⟨i, hi⟩ := h
  obtain hDone | ⟨event, cache', task', hStep⟩ :=
    (pool.tasks i).exists_step classify pool.cache
  · exact absurd hDone hi
  · exact ⟨(i, event), ⟨cache', Function.update pool.tasks i task'⟩, task', hStep, rfl⟩

/-- **Every run can be brought to an end.** -/
theorem IsSound.completes (hSound : pool.IsSound classify answers) :
    ∃ events last, Run classify pool events last ∧ last.IsFinished := by
  -- the steps left bound how far the run can be from its end
  induction hLeft : ∑ i, (pool.tasks i).stepsLeft classify using Nat.strong_induction_on
    generalizing pool with
  | h left ih =>
      by_cases hFinished : pool.IsFinished
      · exact ⟨[], pool, .nil pool, hFinished⟩
      · obtain ⟨label, pool', hStep⟩ := exists_step_of_not_isFinished hFinished
        have hLess := hStep.stepsLeft_lt hSound
        obtain ⟨rest, last, hRest, hLast⟩ :=
          ih _ (hLeft ▸ hLess) (hStep.isSound hSound) rfl
        exact ⟨label :: rest, last, .cons hStep hRest, hLast⟩

end Preservation

end Pool

/-! ## Questions one after the other -/

/-- No step stands between the two steps of a question. -/
inductive IsSequential {ι : Type} : List (ι × CacheEvent) → Prop
  | nil : IsSequential []
  | hit {i : ι} {type : TypeRef} {answer : Classification} {rest : List (ι × CacheEvent)}
      (hRest : IsSequential rest) : IsSequential ((i, .hit type answer) :: rest)
  | miss {i : ι} {type : TypeRef} {answer : Classification} {rest : List (ι × CacheEvent)}
      (hRest : IsSequential rest) :
      IsSequential ((i, .miss type) :: (i, .enter type answer) :: rest)

theorem IsSequential.append {ι : Type} {events more : List (ι × CacheEvent)}
    (hFirst : IsSequential events) (hSecond : IsSequential more) :
    IsSequential (events ++ more) := by
  induction hFirst with
  | nil => exact hSecond
  | hit _ ih => exact .hit ih
  | miss _ ih => exact .miss ih

/-- The types that were looked up, in order. -/
def lookups {ι : Type} (events : List (ι × CacheEvent)) : List TypeRef :=
  events.filterMap (·.2.lookup?)

namespace Cache

/-- The counts of a cache agree with the types of the questions it was asked: each type was missed
once and has one entry. -/
structure Tallies (cache : Cache) (asked : List TypeRef) : Prop where
  nodup : cache.types.Nodup
  mem_iff : ∀ type, type ∈ cache.types ↔ type ∈ asked
  size : cache.size = cache.misses
  calls : cache.hits + cache.misses = asked.length

theorem tallies_empty : Tallies {} [] where
  nodup := List.nodup_nil
  mem_iff _ := Iff.rfl
  size := rfl
  calls := rfl

variable {cache : Cache} {asked : List TypeRef} {type : TypeRef}

theorem Tallies.hit (h : cache.Tallies asked) {answer : Classification}
    (hFound : cache.find? type = some answer) :
    { cache with hits := cache.hits + 1 }.Tallies (asked ++ [type]) where
  nodup := h.nodup
  mem_iff other := by
    have hType : type ∈ asked := (h.mem_iff type).1 (mem_types_of_find? hFound)
    have hOther := h.mem_iff other
    simp only [types, List.mem_append, List.mem_singleton] at hOther ⊢
    rw [hOther]
    constructor
    · exact .inl
    · rintro (hOld | rfl)
      · exact hOld
      · exact hType
  size := h.size
  calls := by
    have hCalls := h.calls
    simp only [List.length_append, List.length_singleton]
    omega

theorem Tallies.miss (h : cache.Tallies asked) (hAbsent : cache.find? type = none)
    (answer : Classification) :
    ({ cache with misses := cache.misses + 1 }.insert type answer).Tallies (asked ++ [type]) := by
  have hEntries : ({ cache with misses := cache.misses + 1 }.insert type answer).entries =
      (type, answer) :: cache.entries := entries_insert_of_absent hAbsent answer
  have hTypes : ({ cache with misses := cache.misses + 1 }.insert type answer).types =
      type :: cache.types := by rw [types, hEntries, List.map_cons, types]
  refine ⟨?_, ?_, ?_, ?_⟩
  · rw [hTypes, List.nodup_cons]
    exact ⟨find?_eq_none_iff.1 hAbsent, h.nodup⟩
  · intro other
    rw [hTypes, List.mem_cons, h.mem_iff, List.mem_append, List.mem_singleton, or_comm]
  · have hSize : cache.entries.length = cache.misses := h.size
    show List.length _ = cache.misses + 1
    rw [hEntries, List.length_cons, hSize]
  · have hCalls := h.calls
    simp only [insert, List.length_append, List.length_singleton]
    omega

/-- There is one entry for each different type. -/
theorem Tallies.size_eq (h : cache.Tallies asked) : cache.size = asked.dedup.length := by
  have hPerm : cache.types.Perm asked.dedup := by
    rw [List.perm_ext_iff_of_nodup h.nodup asked.nodup_dedup]
    intro type
    rw [h.mem_iff, List.mem_dedup]
  have hLength := hPerm.length_eq
  rwa [types, List.length_map] at hLength

end Cache

namespace Pool

variable {ι α : Type} [DecidableEq ι] {classify : TypeRef → Classification}
  {pool pool' : Pool ι α}

/-- **The counts of a sequential run** agree with the questions asked. -/
theorem Run.tallies {events : List (ι × CacheEvent)} (h : Run classify pool events pool')
    (hSequential : IsSequential events) {asked : List TypeRef}
    (hTallies : pool.cache.Tallies asked) :
    pool'.cache.Tallies (asked ++ lookups events) := by
  induction hSequential generalizing pool asked with
  | nil =>
      cases h with
      | nil => simpa [lookups] using hTallies
  | hit _ ih =>
      cases h with
      | cons hStep hRest =>
          obtain ⟨task, hTask, -⟩ := hStep
          obtain ⟨hFound, hCache⟩ := hTask.of_hit
          have hLater := ih hRest (hCache ▸ hTallies.hit hFound)
          rwa [List.append_assoc] at hLater
  | miss _ ih =>
      cases h with
      | cons hMiss hRun =>
          cases hRun with
          | cons hEnter hRest =>
              obtain ⟨task, hTask, -⟩ := hMiss
              obtain ⟨task', hTask', -⟩ := hEnter
              obtain ⟨hAbsent, hCache⟩ := hTask.of_miss
              have hCache' := hTask'.of_enter
              rw [hCache] at hCache'
              have hLater := ih hRest (hCache' ▸ hTallies.miss hAbsent _)
              rwa [List.append_assoc] at hLater

/-- **An inquiry with the cache to itself** takes the steps of a sequential run. -/
theorem exists_run_alone (classify : TypeRef → Classification) {inquiry : Inquiry α} {i : ι}
    (h : pool.tasks i = .active inquiry) :
    ∃ events, IsSequential events ∧ Run classify pool events
      ⟨(inquiry.run classify pool.cache).2,
        Function.update pool.tasks i (.active (.done (inquiry.run classify pool.cache).1))⟩ := by
  induction inquiry generalizing pool with
  | done value =>
      refine ⟨[], .nil, ?_⟩
      have hSame : Function.update pool.tasks i (.active (.done value)) = pool.tasks := by
        rw [← h, Function.update_eq_self]
      simp only [Inquiry.run, hSame]
      exact .nil pool
  | ask type next ih =>
      cases hFound : pool.cache.find? type with
      | some answer =>
          have hAnswer : pool.cache.classify classify type =
              (answer, { pool.cache with hits := pool.cache.hits + 1 }) := by
            simp only [Cache.classify, hFound]
          let pool₁ : Pool ι α := ⟨{ pool.cache with hits := pool.cache.hits + 1 },
            Function.update pool.tasks i (.active (next answer))⟩
          have hStep : Step classify pool (i, .hit type answer) pool₁ :=
            ⟨_, h ▸ .hit hFound, rfl⟩
          have hTask : pool₁.tasks i = .active (next answer) := Function.update_self ..
          obtain ⟨events, hEvents, hRun⟩ := ih answer hTask
          refine ⟨_, .hit hEvents, .cons hStep ?_⟩
          simpa only [Inquiry.run, hAnswer, pool₁, Function.update_idem] using hRun
      | none =>
          have hAnswer := Cache.classify_of_absent hFound classify
          let pool₁ : Pool ι α := ⟨{ pool.cache with misses := pool.cache.misses + 1 },
            Function.update pool.tasks i (.computing type next)⟩
          let pool₂ : Pool ι α := ⟨pool₁.cache.insert type (classify type),
            Function.update pool₁.tasks i (.active (next (classify type)))⟩
          have hMiss : Step classify pool (i, .miss type) pool₁ := ⟨_, h ▸ .miss hFound, rfl⟩
          have hTask : pool₁.tasks i = .computing type next := Function.update_self ..
          have hEnter : Step classify pool₁ (i, .enter type (classify type)) pool₂ :=
            ⟨_, hTask ▸ .enter, rfl⟩
          have hTask' : pool₂.tasks i = .active (next (classify type)) := Function.update_self ..
          obtain ⟨events, hEvents, hRun⟩ := ih (classify type) hTask'
          refine ⟨_, .miss hEvents, .cons hMiss (.cons hEnter ?_)⟩
          simpa only [Inquiry.run, hAnswer, pool₁, pool₂, Function.update_idem] using hRun

end Pool

/-! ## Analyses -/

/-- A unit to be analysed, and the answers to the questions whether that has been cancelled. -/
structure Job where
  unit : SourceUnit
  signal : Signal

namespace Analyzer

variable (analyzer : Analyzer)

/-- The analysis of a unit. -/
def inquiry (job : Job) : Inquiry (Except Fault Report) :=
  analyze (.ofUnit job.unit analyzer.config) analyzer.rules job.signal

/-- What a unit gives when it is analysed alone, with nothing classified before. -/
def alone (job : Job) : Except Fault Report := (analyzer.run job.unit job.signal {}).1

/-- Analyses that share the cache of one analyzer. -/
def pool {ι : Type} (jobs : ι → Job) : Pool ι (Except Fault Report) :=
  .fresh fun i => analyzer.inquiry (jobs i)

theorem answer_inquiry (job : Job) :
    (analyzer.inquiry job).answer analyzer.config.classify = analyzer.alone job :=
  ((analyzer.inquiry job).run_of_isRight (Cache.isRight_empty _)).1.symm

/-- A right cache does not change what units give one after the other. -/
theorem outcomes_of_isRight (signals : Nat → Signal) (units : List SourceUnit) {cache : Cache}
    (hCache : cache.IsRight analyzer.config.classify) (position : Nat) :
    (analyzer.outcomes signals cache position units).1 =
      units.mapIdx fun k unit =>
        (unit.tree.file, analyzer.alone ⟨unit, signals (position + k)⟩) := by
  induction units generalizing cache position with
  | nil => rfl
  | cons unit rest ih =>
      obtain ⟨hAnswer, hRight⟩ :=
        (analyzer.inquiry ⟨unit, signals position⟩).run_of_isRight hCache
      rw [answer_inquiry] at hAnswer
      have hRest := ih hRight (position + 1)
      simp only [outcomes, List.mapIdx_cons, Nat.add_zero, List.cons.injEq, Prod.mk.injEq, true_and]
      refine ⟨hAnswer, hRest.trans ?_⟩
      simp only [Nat.add_assoc, Nat.add_comm 1]

variable {analyzer}

/-- Units one after the other take the steps of a sequential run, whatever else is in the pool. -/
theorem exists_run_outcomes {ι : Type} [DecidableEq ι] (jobs : ι → Job) {order : List ι}
    (hNodup : order.Nodup) {pool : Pool ι (Except Fault Report)}
    (hTasks : ∀ i ∈ order, pool.tasks i = .active (analyzer.inquiry (jobs i)))
    {signals : Nat → Signal} {position : Nat}
    (hSignals : ∀ k i, order[k]? = some i → signals (position + k) = (jobs i).signal) :
    ∃ events last, IsSequential events ∧ Pool.Run analyzer.config.classify pool events last ∧
      last.cache =
        (analyzer.outcomes signals pool.cache position (order.map (jobs · |>.unit))).2 ∧
      (∀ i, i ∉ order → last.tasks i = pool.tasks i) ∧
      order.map last.tasks =
        (analyzer.outcomes signals pool.cache position (order.map (jobs · |>.unit))).1.map
          (.active <| .done ·.2) := by
  induction order generalizing pool position with
  | nil => exact ⟨[], pool, .nil, .nil pool, rfl, fun _ _ => rfl, rfl⟩
  | cons i rest ih =>
      obtain ⟨hNew, hRest⟩ := List.nodup_cons.1 hNodup
      have hSignal : signals position = (jobs i).signal := hSignals 0 i rfl
      obtain ⟨events, hEvents, hRun⟩ :=
        Pool.exists_run_alone analyzer.config.classify (hTasks i List.mem_cons_self)
      generalize hPool : Pool.mk _ _ = pool₁ at hRun
      have hOthers : ∀ k ≠ i, pool₁.tasks k = pool.tasks k := by
        intro k hk
        rw [← hPool]
        exact Function.update_of_ne hk ..
      have hTasksRest : ∀ k ∈ rest, pool₁.tasks k = .active (analyzer.inquiry (jobs k)) := by
        intro k hk
        have hNe : k ≠ i := fun hEq => hNew (hEq ▸ hk)
        rw [hOthers k hNe]
        exact hTasks k (List.mem_cons_of_mem i hk)
      have hSignalsRest : ∀ k j, rest[k]? = some j →
          signals (position + 1 + k) = (jobs j).signal := by
        intro k j hj
        rw [Nat.add_assoc, Nat.add_comm 1]
        exact hSignals (k + 1) j hj
      obtain ⟨more, last, hMore, hRunMore, hCache, hElse, hOutcomes⟩ :=
        ih hRest hTasksRest hSignalsRest
      refine ⟨events ++ more, last, hEvents.append hMore, hRun.append hRunMore, ?_, ?_, ?_⟩
      · rw [hCache, ← hPool]
        simp only [List.map_cons, outcomes, run, hSignal]
        rfl
      · intro k hk
        rw [List.mem_cons, not_or] at hk
        rw [hElse k hk.2, hOthers k hk.1]
      · have hHere : last.tasks i = pool₁.tasks i := hElse i hNew
        rw [List.map_cons, hHere, hOutcomes, ← hPool]
        simp only [List.map_cons, outcomes, run, hSignal, Function.update_self]
        rfl

/-- **A batch is a sequential run** of the analyses of its units, to the end. -/
theorem exists_run_batch (analyzer : Analyzer) (signals : Nat → Signal) (units : List SourceUnit) :
    ∃ events last, IsSequential events ∧
      Pool.Run analyzer.config.classify
        (analyzer.pool fun k : Fin units.length => ⟨units.get k, signals k⟩) events last ∧
      last.IsFinished ∧ last.cache = (analyzer.outcomes signals {} 0 units).2 := by
  let jobs : Fin units.length → Job := fun k => ⟨units.get k, signals k⟩
  have hUnits : (List.finRange units.length).map (jobs · |>.unit) = units := by
    simp [jobs, ← List.ofFn_eq_map]
  have hSignals : ∀ (k : Nat) (i : Fin units.length), (List.finRange units.length)[k]? = some i →
      signals (0 + k) = (jobs i).signal := by
    intro k i hi
    obtain ⟨hk, rfl⟩ := List.getElem?_eq_some_iff.1 hi
    simp [jobs]
  have hTasks : ∀ i ∈ List.finRange units.length,
      (analyzer.pool jobs).tasks i = .active (analyzer.inquiry (jobs i)) := fun _ _ => rfl
  obtain ⟨events, last, hSequential, hRun, hCache, -, hOutcomes⟩ :=
    exists_run_outcomes jobs (List.nodup_finRange _) hTasks hSignals
  rw [hUnits] at hCache hOutcomes
  refine ⟨events, last, hSequential, hRun, ?_, hCache⟩
  intro i
  have hTask : last.tasks i ∈ (List.finRange units.length).map last.tasks :=
    List.mem_map_of_mem (List.mem_finRange i)
  rw [hOutcomes] at hTask
  obtain ⟨outcome, -, hOutcome⟩ := List.mem_map.1 hTask
  exact ⟨outcome.2, hOutcome.symm⟩

/-- **A shared cache is invisible.**  Let any finite family of analyses share the cache of one
analyzer, and let their steps be interleaved in any way.  Then at every moment each entry is the
classification of its type, each question that has ended had the classification of its type for an
answer, and so has a question about a node now, a node without a type being unrelated.  An analysis
that has come to its end gives what it gives alone, and all of them do come to their ends.  Whatever
is analysed after that, in whatever order, gives what it gives alone.  There are at most as many
entries as misses.  If questions were not interleaved, as in a batch, there is an entry and a miss
for each different type, and a hit or a miss for each question. -/
theorem shared_cache_is_invisible {ι : Type} [Fintype ι] [DecidableEq ι] (analyzer : Analyzer)
    (jobs : ι → Job) {events : List (ι × CacheEvent)} {last : Pool ι (Except Fault Report)}
    (hRun : Pool.Run analyzer.config.classify (analyzer.pool jobs) events last) :
    (∀ type answer, (type, answer) ∈ last.cache.entries →
      answer = analyzer.config.classify type) ∧
    (∀ i event type answer, (i, event) ∈ events → event.answered? = some (type, answer) →
      answer = analyzer.config.classify type) ∧
    (∀ unit (i : (Context.ofUnit unit analyzer.config).Id),
      (((Context.ofUnit unit analyzer.config).classify i).run analyzer.config.classify
        last.cache).1 = (unit.oracle.typeOf i).elim .unrelated analyzer.config.classify) ∧
    (∀ i outcome, last.tasks i = .active (.done outcome) → outcome = analyzer.alone (jobs i)) ∧
    (∃ more final, Pool.Run analyzer.config.classify last more final ∧ final.IsFinished) ∧
    events.length ≤
      ∑ i, 2 * ((analyzer.inquiry (jobs i)).questions analyzer.config.classify).length ∧
    (∀ signals units, (analyzer.outcomes signals last.cache 0 units).1 =
      units.mapIdx fun k unit => (unit.tree.file, analyzer.alone ⟨unit, signals k⟩)) ∧
    last.cache.size ≤ last.cache.misses ∧
    (IsSequential events →
      last.cache.size = last.cache.misses ∧
      last.cache.misses = (lookups events).dedup.length ∧
      last.cache.hits + last.cache.misses = (lookups events).length) ∧
    (∀ signals units, ∃ events final, IsSequential events ∧
      Pool.Run analyzer.config.classify
        (analyzer.pool fun k : Fin units.length => ⟨units.get k, signals k⟩) events final ∧
      final.IsFinished ∧ final.cache = (analyzer.outcomes signals {} 0 units).2) := by
  have hStart := Pool.isSound_fresh analyzer.config.classify fun i => analyzer.inquiry (jobs i)
  have hSound := hRun.isSound hStart
  have hRight := hSound.cache.isRight
  refine ⟨?_, ?_, ?_, ?_, hSound.completes, ?_, ?_, ?_, ?_, analyzer.exists_run_batch⟩
  · intro type answer hMem
    exact hSound.cache.right (type, answer) hMem
  · intro i event type answer hEvent hAnswered
    exact hRun.answered hStart hEvent hAnswered
  · intro unit i
    rw [(Inquiry.run_of_isRight _ hRight).1]
    simp only [Context.classify, Context.ofUnit]
    cases unit.oracle.typeOf i with
    | none => rfl
    | some type => rfl
  · intro i outcome hTask
    have hAnswer := hSound.answer i
    rw [hTask] at hAnswer
    exact hAnswer.trans (analyzer.answer_inquiry (jobs i))
  · exact Nat.le_trans (Nat.le_add_right _ _) (hRun.length_le hStart)
  · intro signals units
    have hOutcomes := analyzer.outcomes_of_isRight signals units hRight 0
    simpa only [Nat.zero_add] using hOutcomes
  · exact Nat.le_trans (Nat.le_add_right _ _) hSound.counted
  · intro hSequential
    have hTallies := hRun.tallies hSequential Cache.tallies_empty
    rw [List.nil_append] at hTallies
    exact ⟨hTallies.size, hTallies.size ▸ hTallies.size_eq, hTallies.calls⟩

/-- Two analyses of the unguarded read `r.Value`. -/
def twoReads : Fin 2 → Job := fun _ => ⟨unguardedRead.toSourceUnit, .never⟩

/-- The type of the receiver in `r.Value`. -/
def readType : TypeRef := .generic "CSharpFunctionalExtensions.Result" [.named "int"]

/-- Both analyses ask for that type first. -/
theorem exists_inquiry_twoReads :
    ∃ next, ∀ i, (Analyzer.mk {} Rule.all).inquiry (twoReads i) = .ask readType next := by
  have hPreorder : unguardedRead.tree.preorder =
      ([(1 : Fin 2), (0 : Fin 2)] : List unguardedRead.Id) := by cbv
  have hFirst : ((sweep unguardedRead Rule.all .never 0 unguardedRead.tree.preorder).questions
      ({} : Config).classify).head? = some readType := by
    rw [hPreorder]
    decide +kernel
  cases hSweep : sweep unguardedRead Rule.all .never 0 unguardedRead.tree.preorder with
  | done value => simp [hSweep, Inquiry.questions] at hFirst
  | ask type next =>
      rw [hSweep, Inquiry.questions, List.head?_cons, Option.some.injEq] at hFirst
      refine ⟨fun answer => (next answer).bind fun result =>
        .done (result.map (·.report unguardedRead)), fun i => ?_⟩
      show (sweep unguardedRead Rule.all .never 0 unguardedRead.tree.preorder).bind _ = _
      rw [hSweep, hFirst]
      rfl

/-- Two analyses that miss the same type leave one entry and two misses, and both come to their
ends.  One that is alone with the cache leaves as many misses as types. -/
theorem shared_cache_is_invisible_twoReads :
    (∃ events last, Pool.Run ({} : Config).classify ((Analyzer.mk {} Rule.all).pool twoReads)
      events last ∧ last.cache.size = 1 ∧ last.cache.misses = 2 ∧
      ∃ more final, Pool.Run ({} : Config).classify last more final ∧ final.IsFinished) ∧
    ∃ events last, Pool.Run ({} : Config).classify ((Analyzer.mk {} Rule.all).pool twoReads)
      events last ∧ IsSequential events ∧ lookups events = [readType] ∧
      last.cache.misses = (lookups events).dedup.length := by
  obtain ⟨next, hNext⟩ := exists_inquiry_twoReads
  let answer := ({} : Config).classify readType
  let start := (Analyzer.mk {} Rule.all).pool twoReads
  have hTasks : ∀ i, start.tasks i = .active (.ask readType next) := fun i =>
    congrArg Task.active (hNext i)
  let missed : Pool (Fin 2) (Except Fault Report) :=
    ⟨{ misses := 1 }, Function.update start.tasks 0 (.computing readType next)⟩
  have hMissed : Pool.Step ({} : Config).classify start (0, .miss readType) missed :=
    ⟨_, hTasks 0 ▸ .miss rfl, rfl⟩
  constructor
  · let both : Pool (Fin 2) (Except Fault Report) :=
      ⟨{ misses := 2 }, Function.update missed.tasks 1 (.computing readType next)⟩
    have hBoth : Pool.Step ({} : Config).classify missed (1, .miss readType) both :=
      ⟨_, hTasks 1 ▸ .miss rfl, rfl⟩
    let entered : Pool (Fin 2) (Except Fault Report) :=
      ⟨both.cache.insert readType answer, Function.update both.tasks 0 (.active (next answer))⟩
    have hEntered : Pool.Step ({} : Config).classify both (0, .enter readType answer) entered :=
      ⟨_, .enter, rfl⟩
    let twice : Pool (Fin 2) (Except Fault Report) :=
      ⟨entered.cache.insert readType answer,
        Function.update entered.tasks 1 (.active (next answer))⟩
    have hTwice : Pool.Step ({} : Config).classify entered (1, .enter readType answer) twice :=
      ⟨_, .enter, rfl⟩
    have hRun := Pool.Run.cons hMissed (.cons hBoth (.cons hEntered (.cons hTwice (.nil twice))))
    obtain ⟨-, -, -, -, hCompletes, -⟩ := shared_cache_is_invisible ⟨{}, Rule.all⟩ twoReads hRun
    have hSize : (({ misses := 2 } : Cache).insert readType answer |>.insert readType answer).size =
        1 := by decide +kernel
    exact ⟨_, twice, hRun, hSize, rfl, hCompletes⟩
  · let entered : Pool (Fin 2) (Except Fault Report) :=
      ⟨missed.cache.insert readType answer, Function.update missed.tasks 0 (.active (next answer))⟩
    have hEntered : Pool.Step ({} : Config).classify missed (0, .enter readType answer) entered :=
      ⟨_, .enter, rfl⟩
    have hRun := Pool.Run.cons hMissed (.cons hEntered (.nil entered))
    obtain ⟨-, -, -, -, -, -, -, -, hCounts, -⟩ :=
      shared_cache_is_invisible ⟨{}, Rule.all⟩ twoReads hRun
    have hSequential : IsSequential [((0 : Fin 2), CacheEvent.miss readType),
        (0, .enter readType answer)] := .miss .nil
    exact ⟨_, entered, hRun, hSequential, rfl, (hCounts hSequential).2.1⟩

end Analyzer

end StateGuard
