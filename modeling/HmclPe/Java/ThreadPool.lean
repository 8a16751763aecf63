import Mathlib.Data.List.Perm.Basic
import Mathlib.Data.List.Pairwise

/-! `ThreadPoolExecutor` with as many core threads as it may have at most, a bounded queue and
the policy that discards what finds it full. Tasks run over a state that they share. -/
namespace HmclPe.Java

/-- What a worker does for a task, with a state of its own. -/
structure Program (τ ρ σ : Type) where
  start : τ → ρ
  Step : τ → ρ → σ → ρ → σ → Prop
  Done : ρ → Prop

structure ThreadPool (τ ρ : Type) where
  queue : List τ
  workers : List (Option (τ × ρ))
  isShutdown : Bool
  finished : List (τ × ρ)
  discarded : List τ

variable {τ ρ σ : Type}

namespace ThreadPool

def empty : ThreadPool τ ρ := ⟨[],[],false,[],[]⟩

def execute (maximumPoolSize capacity : Nat) (program : Program τ ρ σ) (pool : ThreadPool τ ρ)
    (task : τ) : ThreadPool τ ρ :=
  if pool.isShutdown then { pool with discarded := pool.discarded ++ [task] }
  else if pool.workers.length < maximumPoolSize then
    { pool with workers := pool.workers ++ [some (task,program.start task)] }
  else if pool.queue.length < capacity then { pool with queue := pool.queue ++ [task] }
  else { pool with discarded := pool.discarded ++ [task] }

def shutdown (pool : ThreadPool τ ρ) : ThreadPool τ ρ := { pool with isShutdown := true }

/-- The queue is drained and what it held is never run. -/
def shutdownNow (pool : ThreadPool τ ρ) : ThreadPool τ ρ :=
  { pool with queue := [], isShutdown := true, discarded := pool.discarded ++ pool.queue }

def Terminated (pool : ThreadPool τ ρ) : Prop :=
  pool.isShutdown = true ∧ pool.queue = [] ∧ pool.workers = []

inductive Step (program : Program τ ρ σ) (pool : ThreadPool τ ρ) (s : σ) :
    ThreadPool τ ρ → σ → Prop
  | take (before after : List (Option (τ × ρ))) (task : τ) (rest : List τ)
      (idle : pool.workers = before ++ none :: after) (first : pool.queue = task :: rest) :
      Step program pool s { pool with
        queue := rest, workers := before ++ some (task,program.start task) :: after } s
  | run (before after : List (Option (τ × ρ))) (task : τ) (run run' : ρ) (s' : σ)
      (busy : pool.workers = before ++ some (task,run) :: after)
      (step : program.Step task run s run' s') :
      Step program pool s { pool with workers := before ++ some (task,run') :: after } s'
  | finish (before after : List (Option (τ × ρ))) (task : τ) (run : ρ)
      (busy : pool.workers = before ++ some (task,run) :: after) (done : program.Done run) :
      Step program pool s { pool with
        workers := before ++ none :: after, finished := pool.finished ++ [(task,run)] } s
  | exit (before after : List (Option (τ × ρ))) (idle : pool.workers = before ++ none :: after)
      (shut : pool.isShutdown = true) (drained : pool.queue = []) :
      Step program pool s { pool with workers := before ++ after } s

def running (workers : List (Option (τ × ρ))) : List τ :=
  workers.filterMap (fun worker => worker.map Prod.fst)

/-- All tasks that the pool was ever given. -/
def tasks (pool : ThreadPool τ ρ) : List τ :=
  pool.queue ++ running pool.workers ++ pool.finished.map Prod.fst ++ pool.discarded

theorem running_append (before after : List (Option (τ × ρ))) :
    running (before ++ after) = running before ++ running after :=
  List.filterMap_append

theorem running_busy (task : τ) (run : ρ) (after : List (Option (τ × ρ))) :
    running (some (task,run) :: after) = task :: running after := rfl

theorem running_idle (after : List (Option (τ × ρ))) : running (none :: after) = running after :=
  rfl

theorem mem_running {workers : List (Option (τ × ρ))} {task : τ} {run : ρ}
    (busy : some (task,run) ∈ workers) : task ∈ running workers :=
  List.mem_filterMap.mpr ⟨_,busy,rfl⟩

theorem tasks_execute (maximumPoolSize capacity : Nat) (program : Program τ ρ σ)
    (pool : ThreadPool τ ρ) (task : τ) :
    (pool.execute maximumPoolSize capacity program task).tasks.Perm (task :: pool.tasks) := by
  classical
  rw [List.perm_iff_count]
  intro some_
  have single : running [some (task,program.start task)] = [task] := rfl
  rw [execute]
  split <;> (try split) <;> (try split) <;>
    simp only [tasks,running_append,single,List.count_append,List.count_cons,List.count_nil] <;> omega

theorem tasks_shutdownNow (pool : ThreadPool τ ρ) : pool.shutdownNow.tasks.Perm pool.tasks := by
  classical
  rw [List.perm_iff_count]
  intro some_
  simp only [tasks,shutdownNow,List.count_append,List.count_nil]
  omega

/-- No task is lost or run a second time. -/
theorem tasks_step {program : Program τ ρ σ} {pool pool' : ThreadPool τ ρ} {s s' : σ}
    (step : Step program pool s pool' s') : pool'.tasks.Perm pool.tasks := by
  classical
  rw [List.perm_iff_count]
  intro some_
  cases step with
  | take before after task rest idle first =>
    simp only [tasks,idle,first,running_append,running_busy,running_idle,List.count_append,
      List.count_cons]
    omega
  | run before after task run run' s' busy =>
    simp only [tasks,busy,running_append,running_busy]
  | finish before after task run busy =>
    simp only [tasks,busy,running_append,running_busy,running_idle,List.map_append,List.map_cons,
      List.map_nil,List.count_append,List.count_cons,List.count_nil]
    omega
  | exit before after idle =>
    simp only [tasks,idle,running_append,running_idle]

/-- A pool whose tasks can do more does so. -/
theorem Step.mono {start : τ → ρ} {does does' : τ → ρ → σ → ρ → σ → Prop} {done : ρ → Prop}
    {pool pool' : ThreadPool τ ρ} {s s' : σ}
    (more : ∀ task run s run' s', does task run s run' s' → does' task run s run' s')
    (step : Step ⟨start,does,done⟩ pool s pool' s') :
    Step ⟨start,does',done⟩ pool s pool' s' := by
  cases step with
  | take before after task rest idle first => exact .take before after task rest idle first
  | run before after task run run' s' busy step =>
    exact .run before after task run run' s' busy (more task run s run' s' step)
  | finish before after task run busy done => exact .finish before after task run busy done
  | exit before after idle shut drained => exact .exit before after idle shut drained

/-- A submitter that finds the queue empty is not turned away. -/
theorem discarded_execute {maximumPoolSize capacity : Nat} (program : Program τ ρ σ)
    {pool : ThreadPool τ ρ} (task : τ) (open_ : pool.isShutdown = false) (drained : pool.queue = [])
    (room : 0 < capacity) :
    (pool.execute maximumPoolSize capacity program task).discarded = pool.discarded := by
  rw [execute,open_,drained]
  split
  · exact absurd ‹false = true› (by simp)
  split
  · rfl
  split
  · rfl
  · exact absurd room ‹¬_›

theorem isShutdown_execute (maximumPoolSize capacity : Nat) (program : Program τ ρ σ)
    (pool : ThreadPool τ ρ) (task : τ) :
    (pool.execute maximumPoolSize capacity program task).isShutdown = pool.isShutdown := by
  rw [execute]
  split <;> (try split) <;> (try split) <;> rfl

theorem step_kept {program : Program τ ρ σ} {pool pool' : ThreadPool τ ρ} {s s' : σ}
    (step : Step program pool s pool' s') :
    pool'.discarded = pool.discarded ∧ pool'.isShutdown = pool.isShutdown ∧
      (pool.queue = [] → pool'.queue = []) := by
  cases step with
  | take before after task rest idle first =>
    exact ⟨rfl,rfl,fun drained => absurd (first.symm.trans drained) (by simp)⟩
  | run | finish | exit => exact ⟨rfl,rfl,id⟩

theorem not_step_of_terminated {program : Program τ ρ σ} {pool pool' : ThreadPool τ ρ} {s s' : σ}
    (terminated : pool.Terminated) : ¬Step program pool s pool' s' := by
  obtain ⟨_,_,workers⟩ := terminated
  intro step
  cases step with
  | take _ _ _ _ idle => simp [workers] at idle
  | run _ _ _ _ _ _ busy => simp [workers] at busy
  | finish _ _ _ _ busy => simp [workers] at busy
  | exit _ _ idle => simp [workers] at idle

theorem step_shared {program : Program τ ρ σ} {pool pool' : ThreadPool τ ρ} {s s' : σ}
    (step : Step program pool s pool' s') :
    s' = s ∨ ∃ task ∈ pool.tasks, ∃ run run', program.Step task run s run' s' := by
  cases step with
  | run before after task run run' s' busy step =>
    refine Or.inr ⟨task,?_,run,run',step⟩
    simp [tasks,busy,running_append,running_busy]
  | take | finish | exit => exact Or.inl rfl

end ThreadPool

/-- What a task relies on before and while it is run, and leaves alone for tasks apart. -/
structure Guarantee (program : Program τ ρ σ) (Apart : τ → τ → Prop) (Fresh : τ → σ → Prop)
    (Owned : τ → ρ → σ → Prop) : Prop where
  symm : ∀ task other, Apart task other → Apart other task
  start : ∀ task s, Fresh task s → Owned task (program.start task) s
  own : ∀ task run s run' s', Owned task run s → program.Step task run s run' s' →
    Owned task run' s'
  fresh : ∀ task other run s run' s', Apart task other → program.Step other run s run' s' →
    Fresh task s → Fresh task s'
  owned : ∀ task mine other run s run' s', Apart task other → program.Step other run s run' s' →
    Owned task mine s → Owned task mine s'

/-- Each task as it has to be where it is; some wait to be given to the pool. -/
structure ThreadPool.Owns (program : Program τ ρ σ) (Fresh : τ → σ → Prop)
    (Owned : τ → ρ → σ → Prop) (waiting : List τ) (pool : ThreadPool τ ρ) (s : σ) : Prop where
  waiting : ∀ task ∈ waiting, Fresh task s
  queued : ∀ task ∈ pool.queue, Fresh task s
  running : ∀ task run, some (task,run) ∈ pool.workers → Owned task run s
  finished : ∀ task run, (task,run) ∈ pool.finished → Owned task run s ∧ program.Done run

namespace ThreadPool

variable {program : Program τ ρ σ} {Apart : τ → τ → Prop} {Fresh : τ → σ → Prop}
  {Owned : τ → ρ → σ → Prop} {waiting : List τ} {pool pool' : ThreadPool τ ρ} {s s' : σ}

theorem owns_execute {maximumPoolSize capacity : Nat} {task : τ}
    (guarantee : Guarantee program Apart Fresh Owned)
    (owns : Owns program Fresh Owned (task :: waiting) pool s) :
    Owns program Fresh Owned waiting (pool.execute maximumPoolSize capacity program task) s := by
  obtain ⟨waits,queued,running,finished⟩ := owns
  have fresh := waits task List.mem_cons_self
  have rest : ∀ task ∈ waiting, Fresh task s := fun other inside =>
    waits other (List.mem_cons_of_mem _ inside)
  rw [execute]
  split
  · exact ⟨rest,queued,running,finished⟩
  split
  · refine ⟨rest,queued,?_,finished⟩
    intro other run inside
    cases List.mem_append.mp inside with
    | inl before => exact running other run before
    | inr added =>
      obtain ⟨rfl,rfl⟩ : other = task ∧ run = program.start task := by simpa using added
      exact guarantee.start other s fresh
  split
  · refine ⟨rest,?_,running,finished⟩
    intro other inside
    cases List.mem_append.mp inside with
    | inl before => exact queued other before
    | inr added => exact List.mem_singleton.mp added ▸ fresh
  · exact ⟨rest,queued,running,finished⟩

/-- The task of a busy worker is apart from all that any one else holds. -/
theorem apart_of_busy {before after : List (Option (τ × ρ))} {task : τ} {run : ρ}
    (guarantee : Guarantee program Apart Fresh Owned)
    (apart : (waiting ++ pool.tasks).Pairwise Apart)
    (busy : pool.workers = before ++ some (task,run) :: after) :
    ∀ other, other ∈ waiting ∨ other ∈ pool.queue ∨ other ∈ ThreadPool.running (before ++ after) ∨
      other ∈ pool.finished.map Prod.fst → Apart other task := by
  classical
  have perm : (waiting ++ pool.tasks).Perm (task :: (waiting ++ (pool.queue ++
      ThreadPool.running (before ++ after) ++ pool.finished.map Prod.fst ++ pool.discarded))) := by
    rw [List.perm_iff_count]
    intro some_
    simp only [tasks,busy,running_append,running_busy,List.count_append,List.count_cons]
    omega
  have symmetric : ∀ {x y : τ}, Apart x y → Apart y x := fun {x y} => guarantee.symm x y
  have pairs := (perm.pairwise_iff symmetric).mp apart
  intro other inside
  apply guarantee.symm
  apply (List.pairwise_cons.mp pairs).1
  simp only [List.mem_append]
  tauto

theorem owns_step (guarantee : Guarantee program Apart Fresh Owned)
    (apart : (waiting ++ pool.tasks).Pairwise Apart)
    (owns : Owns program Fresh Owned waiting pool s) (step : Step program pool s pool' s') :
    Owns program Fresh Owned waiting pool' s' := by
  obtain ⟨waits,queued,running,finished⟩ := owns
  cases step with
  | take before after task rest idle first =>
    rw [idle] at running
    rw [first] at queued
    refine ⟨waits,fun other inside => queued other (List.mem_cons_of_mem _ inside),?_,finished⟩
    intro other run inside
    have place : some (other,run) ∈ before ++ none :: after ∨
        (other = task ∧ run = program.start task) := by
      simp only [List.mem_append,List.mem_cons,Option.some.injEq,Prod.mk.injEq] at inside ⊢
      tauto
    cases place with
    | inl before => exact running other run before
    | inr taken =>
      rw [taken.1,taken.2]
      exact guarantee.start task s (queued task List.mem_cons_self)
  | run before after task run run' s' busy step =>
    have others := apart_of_busy guarantee apart busy
    rw [busy] at running
    refine ⟨?_,?_,?_,?_⟩
    · intro other inside
      exact guarantee.fresh other task run s run' s' (others other (Or.inl inside)) step
        (waits other inside)
    · intro other inside
      exact guarantee.fresh other task run s run' s' (others other (Or.inr (Or.inl inside))) step
        (queued other inside)
    · intro other mine inside
      have place : some (other,mine) ∈ before ++ after ∨ (other = task ∧ mine = run') := by
        simp only [List.mem_append,List.mem_cons,Option.some.injEq,Prod.mk.injEq] at inside ⊢
        tauto
      cases place with
      | inl elsewhere =>
        refine guarantee.owned other mine task run s run' s'
          (others other (Or.inr (Or.inr (Or.inl (mem_running elsewhere))))) step ?_
        apply running
        simp only [List.mem_append,List.mem_cons] at elsewhere ⊢
        tauto
      | inr same =>
        rw [same.1,same.2]
        exact guarantee.own task run s run' s' (running task run (by simp)) step
    · intro other mine inside
      have held : other ∈ pool.finished.map Prod.fst := List.mem_map.mpr ⟨_,inside,rfl⟩
      obtain ⟨owned,done⟩ := finished other mine inside
      exact ⟨guarantee.owned other mine task run s run' s'
        (others other (Or.inr (Or.inr (Or.inr held)))) step owned,done⟩
  | finish before after task run busy done =>
    rw [busy] at running
    refine ⟨waits,queued,?_,?_⟩
    · intro other mine inside
      apply running
      simp only [List.mem_append,List.mem_cons] at inside ⊢
      tauto
    · intro other mine inside
      cases List.mem_append.mp inside with
      | inl before => exact finished other mine before
      | inr added =>
        obtain ⟨rfl,rfl⟩ : other = task ∧ mine = run := by simpa using added
        exact ⟨running other mine (by simp),done⟩
  | exit before after idle shut drained =>
    rw [idle] at running
    refine ⟨waits,queued,?_,finished⟩
    intro other mine inside
    apply running
    simp only [List.mem_append,List.mem_cons] at inside ⊢
    tauto

end ThreadPool
end HmclPe.Java
