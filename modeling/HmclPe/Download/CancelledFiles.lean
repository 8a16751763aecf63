import HmclPe.Download.MultipleFiles

/-! `downloadMultipleFiles` for a task that may be cancelled while the files are downloaded. What the
attempts do to the files is left open; the workers note which beans they have downloaded. -/
namespace HmclPe.Download.CancelledFiles
open HmclPe.Java HmclPe.Lib.Runs
open MultipleFiles (DownloadTaskListBean tryTimes Submitter)

/-- What the workers share with the task and its user. Nothing guards the `ArrayList` of the failed
files, so it may come to hold nulls. -/
structure Session where
  cancelled : Bool
  byUser : Bool
  failedFile : List (Option DownloadTaskListBean)
  downloaded : List DownloadTaskListBean

def Session.cancel (s : Session) : Session := { s with cancelled := true, byUser := true }

/-- Where a worker is; `called` stands for a call of `downloadFileMonitored`. -/
inductive Stage where
  | begun
  | loop (i : Nat)
  | called (i : Nat)
  | stopping
  | ended

open Stage

/-- The flag lets a call or an addition to the list end with an exception, which takes the worker
down, and lets an addition race with others: entries are lost or left null then. -/
inductive RunStep (losing : Bool) (bean : DownloadTaskListBean) :
    Stage → Session → Stage → Session → Prop
  | present (s : Session) :
      RunStep losing bean begun s ended { s with downloaded := s.downloaded ++ [bean] }
  | enter (s : Session) : RunStep losing bean begun s (loop 0) s
  | isCancelled (i : Nat) (s : Session) (again : i < tryTimes) (cancelled : s.cancelled = true) :
      RunStep losing bean (loop i) s stopping s
  | call (i : Nat) (s : Session) (again : i < tryTimes) (goes : s.cancelled = false) :
      RunStep losing bean (loop i) s (called i) s
  | leave (i : Nat) (s : Session) (enough : ¬i < tryTimes) : RunStep losing bean (loop i) s ended s
  | success (i : Nat) (s : Session) :
      RunStep losing bean (called i) s ended { s with downloaded := s.downloaded ++ [bean] }
  | failure (i : Nat) (s : Session) :
      RunStep losing bean (called i) s (loop (i + 1))
        { s with failedFile :=
            if i = tryTimes - 1 then s.failedFile ++ [some bean] else s.failedFile }
  | races (i : Nat) (s : Session) (failedFile : List (Option DownloadTaskListBean))
      (last : i = tryTimes - 1) (entries : failedFile ⊆ none :: some bean :: s.failedFile)
      (loses : losing = true) :
      RunStep losing bean (called i) s (loop (i + 1)) { s with failedFile := failedFile }
  | throws (i : Nat) (s : Session) (loses : losing = true) :
      RunStep losing bean (called i) s ended s

def runnable (losing : Bool) : Program DownloadTaskListBean Stage Session where
  start _ := begun
  Step := RunStep losing
  Done stage := stage = ended

structure State where
  submitter : Submitter
  threadPool : ThreadPool DownloadTaskListBean Stage
  session : Session
  interrupted : Bool

/-- `cancel(true)` interrupts the thread that waits for the pool, and only this does. The flag
lets the wait of an hour be too short. -/
inductive Step (losing : Bool) (maxTask : Nat) : State → State → Prop
  | execute (s : State) (bean : DownloadTaskListBean) (rest : List DownloadTaskListBean)
      (at_ : s.submitter = .executes (bean :: rest)) :
      Step losing maxTask s { s with
        submitter := .spins rest
        threadPool := s.threadPool.execute maxTask maxTask (runnable losing) bean }
  | isEmpty (s : State) (rest : List DownloadTaskListBean) (at_ : s.submitter = .spins rest)
      (drained : s.threadPool.queue = []) :
      Step losing maxTask s { s with submitter := .executes rest }
  | shutdown (s : State) (at_ : s.submitter = .executes []) :
      Step losing maxTask s { s with
        submitter := .awaits, threadPool := s.threadPool.shutdown }
  | awaitTermination (s : State) (at_ : s.submitter = .awaits)
      (terminated : s.threadPool.Terminated) :
      Step losing maxTask s { s with submitter := .returned }
  | interruptedException (s : State) (at_ : s.submitter = .awaits)
      (cancelled : s.session.cancelled = true) (running : ¬s.threadPool.Terminated) :
      Step losing maxTask s { s with submitter := .returned, interrupted := true }
  | timeout (s : State) (at_ : s.submitter = .awaits) (loses : losing = true) :
      Step losing maxTask s { s with submitter := .returned }
  | work (s : State) (threadPool : ThreadPool DownloadTaskListBean Stage) (session : Session)
      (step : ThreadPool.Step (runnable losing) s.threadPool s.session threadPool session) :
      Step losing maxTask s { s with threadPool := threadPool, session := session }
  | shutdownNow (s : State) (before after : List (Option (DownloadTaskListBean × Stage)))
      (bean : DownloadTaskListBean)
      (busy : s.threadPool.workers = before ++ some (bean,stopping) :: after) :
      Step losing maxTask s { s with threadPool :=
        { s.threadPool with workers := before ++ some (bean,ended) :: after }.shutdownNow }
  | cancel (s : State) : Step losing maxTask s { s with session := s.session.cancel }

def started (list : List DownloadTaskListBean) (cancelled byUser : Bool) : State :=
  ⟨.executes list,ThreadPool.empty,⟨cancelled,byUser,[],[]⟩,false⟩

/-- All runs for a task that is cancelled before the call or not. -/
def downloadMultipleFiles (losing : Bool) (list : List DownloadTaskListBean) (maxTask : Nat)
    (cancelled byUser : Bool) : System State :=
  ⟨fun s => s = started list cancelled byUser,Step losing maxTask⟩

section Accounting

variable {list : List DownloadTaskListBean} {maxTask : Nat} {cancelled byUser : Bool}

/-- What is known of a bean whose worker does not throw. -/
def Owned (bean : DownloadTaskListBean) (stage : Stage) (s : Session) : Prop :=
  match stage with
  | begun => True
  | loop i => i ≤ tryTimes ∧ (i = tryTimes → some bean ∈ s.failedFile)
  | called i => i < tryTimes
  | stopping => s.cancelled = true
  | ended => s.cancelled = true ∨ bean ∈ s.downloaded ∨ some bean ∈ s.failedFile

def Fresh (_ : DownloadTaskListBean) (_ : Session) : Prop := True

def Apart (_ _ : DownloadTaskListBean) : Prop := True

/-- Nothing is taken back. -/
structure Grows (s s' : Session) : Prop where
  cancelled : s.cancelled = true → s'.cancelled = true
  byUser : s.byUser = true → s'.byUser = true
  failedFile : s.failedFile ⊆ s'.failedFile
  downloaded : s.downloaded ⊆ s'.downloaded

theorem Owned.grows {bean : DownloadTaskListBean} {stage : Stage} {s s' : Session}
    (owned : Owned bean stage s) (grows : Grows s s') : Owned bean stage s' := by
  cases stage with
  | begun => trivial
  | loop i => exact ⟨owned.1,fun last => grows.failedFile (owned.2 last)⟩
  | called i => exact owned
  | stopping => exact grows.cancelled owned
  | ended =>
    rcases owned with cancelled | downloaded | failed
    · exact .inl (grows.cancelled cancelled)
    · exact .inr (.inl (grows.downloaded downloaded))
    · exact .inr (.inr (grows.failedFile failed))

theorem step_cancelled {losing : Bool} {bean : DownloadTaskListBean} {stage stage' : Stage}
    {s s' : Session} (step : RunStep losing bean stage s stage' s') :
    s'.cancelled = s.cancelled ∧ s'.byUser = s.byUser := by
  cases step <;> exact ⟨rfl,rfl⟩

theorem step_grows {bean : DownloadTaskListBean} {stage stage' : Stage} {s s' : Session}
    (step : RunStep false bean stage s stage' s') : Grows s s' := by
  cases step with
  | races _ _ _ _ _ loses => cases loses
  | present => exact ⟨id,id,List.Subset.refl _,List.subset_append_left _ _⟩
  | success => exact ⟨id,id,List.Subset.refl _,List.subset_append_left _ _⟩
  | failure i =>
    refine ⟨id,id,?_,List.Subset.refl _⟩
    dsimp only
    split
    · exact List.subset_append_left _ _
    · exact List.Subset.refl _
  | _ => exact ⟨id,id,List.Subset.refl _,List.Subset.refl _⟩

theorem step_owned {bean : DownloadTaskListBean} {stage stage' : Stage} {s s' : Session}
    (owned : Owned bean stage s) (step : RunStep false bean stage s stage' s') :
    Owned bean stage' s' := by
  cases step with
  | present => exact .inr (.inl (List.mem_append_right _ List.mem_cons_self))
  | enter => exact ⟨Nat.zero_le _,fun last => absurd last (by decide)⟩
  | isCancelled _ _ _ cancelled => exact cancelled
  | call _ _ again => exact again
  | leave i _ enough =>
    have last : i = tryTimes := Nat.le_antisymm owned.1 (Nat.not_lt.mp enough)
    exact .inr (.inr (owned.2 last))
  | success => exact .inr (.inl (List.mem_append_right _ List.mem_cons_self))
  | failure i =>
    have below : i < tryTimes := owned
    refine ⟨below,?_⟩
    intro last
    have enough : i = tryTimes - 1 := by omega
    dsimp only
    rw [if_pos enough]
    exact List.mem_append_right _ List.mem_cons_self
  | races _ _ _ _ _ loses => cases loses
  | throws _ _ loses => cases loses

theorem step_filled {bean : DownloadTaskListBean} {stage stage' : Stage} {s s' : Session}
    (step : RunStep false bean stage s stage' s') (filled : none ∉ s.failedFile) :
    none ∉ s'.failedFile := by
  cases step with
  | failure i =>
    dsimp only
    split
    · simp [filled]
    · exact filled
  | races _ _ _ _ _ loses => cases loses
  | _ => exact filled

theorem guarantee : Guarantee (runnable false) Apart Fresh Owned where
  symm _ _ _ := trivial
  start _ _ _ := trivial
  own _ _ _ _ _ owned step := step_owned owned step
  fresh _ _ _ _ _ _ _ _ _ := trivial
  owned _ _ _ _ _ _ _ _ step owned := owned.grows (step_grows step)

/-- The pool when the submitter is where it is, unless the task is cancelled. -/
def Finds (threadPool : ThreadPool DownloadTaskListBean Stage) : Submitter → Prop
  | .executes _ => threadPool.isShutdown = false ∧ threadPool.queue = []
  | .spins _ => threadPool.isShutdown = false
  | .awaits => True
  | .returned => threadPool.Terminated

structure Tracked (list : List DownloadTaskListBean) (s : State) : Prop where
  all : (s.submitter.waiting ++ s.threadPool.tasks).Perm list
  owns : ThreadPool.Owns (runnable false) Fresh Owned s.submitter.waiting s.threadPool s.session
  discarded : s.session.cancelled = false → s.threadPool.discarded = []
  finds : s.session.cancelled = false → Finds s.threadPool s.submitter

theorem tracked_started : Tracked list (started list cancelled byUser) := by
  refine ⟨?_,⟨?_,?_,?_,?_⟩,fun _ => rfl,fun _ => ⟨rfl,rfl⟩⟩
  · simp [started,Submitter.waiting,ThreadPool.tasks,ThreadPool.empty,ThreadPool.running]
  · exact fun _ _ => trivial
  · exact fun _ inside => absurd inside List.not_mem_nil
  · exact fun _ _ inside => absurd inside List.not_mem_nil
  · exact fun _ _ inside => absurd inside List.not_mem_nil

theorem owns_grows {waiting : List DownloadTaskListBean}
    {threadPool : ThreadPool DownloadTaskListBean Stage} {s s' : Session} (grows : Grows s s')
    (owns : ThreadPool.Owns (runnable false) Fresh Owned waiting threadPool s) :
    ThreadPool.Owns (runnable false) Fresh Owned waiting threadPool s' where
  waiting _ _ := trivial
  queued _ _ := trivial
  running bean stage inside := (owns.running bean stage inside).grows grows
  finished bean stage inside :=
    ⟨(owns.finished bean stage inside).1.grows grows,(owns.finished bean stage inside).2⟩

theorem tracked_work {s : State} {threadPool : ThreadPool DownloadTaskListBean Stage}
    {session : Session} (tracked : Tracked list s)
    (step : ThreadPool.Step (runnable false) s.threadPool s.session threadPool session) :
    Tracked list { s with threadPool := threadPool, session := session } := by
  obtain ⟨all,owns,discarded,finds⟩ := tracked
  obtain ⟨discards,shuts,drains⟩ := ThreadPool.step_kept step
  have flag : session.cancelled = s.session.cancelled := by
    rcases ThreadPool.step_shared step with same | ⟨bean,-,stage,stage',runs⟩
    · rw [same]
    · exact (step_cancelled runs).1
  have apart : (s.submitter.waiting ++ s.threadPool.tasks).Pairwise Apart :=
    List.pairwise_of_forall fun _ _ => trivial
  refine ⟨?_,ThreadPool.owns_step guarantee apart owns step,?_,?_⟩
  · exact ((ThreadPool.tasks_step step).append_left _).trans all
  · intro goes
    exact discards.trans (discarded (flag.symm.trans goes))
  · intro goes
    have before := finds (flag.symm.trans goes)
    dsimp only
    cases at_ : s.submitter with
    | executes rest =>
      rw [at_] at before
      exact ⟨shuts.trans before.1,drains before.2⟩
    | spins rest =>
      rw [at_] at before
      exact shuts.trans before
    | awaits => trivial
    | returned =>
      rw [at_] at before
      exact absurd step (ThreadPool.not_step_of_terminated before)

theorem tracked_shutdownNow {s : State}
    {before after : List (Option (DownloadTaskListBean × Stage))} {bean : DownloadTaskListBean}
    (tracked : Tracked list s)
    (busy : s.threadPool.workers = before ++ some (bean,stopping) :: after) :
    Tracked list { s with threadPool :=
      { s.threadPool with workers := before ++ some (bean,ended) :: after }.shutdownNow } := by
  obtain ⟨all,owns,-,-⟩ := tracked
  obtain ⟨waits,-,running,finished⟩ := owns
  rw [busy] at running
  have cancelled : s.session.cancelled = true := running bean stopping (by simp)
  refine ⟨?_,⟨waits,?_,?_,finished⟩,?_,?_⟩
  · refine ((ThreadPool.tasks_shutdownNow _).append_left _).trans ?_
    have same : ({ s.threadPool with workers := before ++ some (bean,ended) :: after } :
        ThreadPool DownloadTaskListBean Stage).tasks = s.threadPool.tasks := by
      simp only [ThreadPool.tasks,busy,ThreadPool.running_append,ThreadPool.running_busy]
    rw [same]
    exact all
  · exact fun _ inside => absurd inside List.not_mem_nil
  · intro other stage inside
    have place : some (other,stage) ∈ before ++ some (bean,stopping) :: after ∨
        (other = bean ∧ stage = ended) := by
      simp only [ThreadPool.shutdownNow,List.mem_append,List.mem_cons,Option.some.injEq,
        Prod.mk.injEq] at inside ⊢
      tauto
    rcases place with same | ⟨rfl,rfl⟩
    · exact running other stage same
    · exact .inl cancelled
  · exact fun goes => absurd (cancelled.symm.trans goes) (by simp)
  · exact fun goes => absurd (cancelled.symm.trans goes) (by simp)

theorem tracked_step {s s' : State} (room : 0 < maxTask) (tracked : Tracked list s)
    (step : Step false maxTask s s') : Tracked list s' := by
  cases step with
  | work threadPool session step => exact tracked_work tracked step
  | shutdownNow before after bean busy => exact tracked_shutdownNow tracked busy
  | timeout _ loses => cases loses
  | execute bean rest at_ =>
    obtain ⟨all,owns,discarded,finds⟩ := tracked
    rw [at_] at all owns finds
    refine ⟨?_,ThreadPool.owns_execute guarantee owns,?_,?_⟩
    · refine ((ThreadPool.tasks_execute _ _ _ _ bean).append_left rest).trans ?_
      exact List.perm_middle.trans all
    · intro goes
      obtain ⟨open_,drained⟩ := finds goes
      exact (ThreadPool.discarded_execute _ bean open_ drained room).trans (discarded goes)
    · intro goes
      exact (ThreadPool.isShutdown_execute _ _ _ _ bean).trans (finds goes).1
  | isEmpty rest at_ drained =>
    obtain ⟨all,owns,discarded,finds⟩ := tracked
    rw [at_] at all owns finds
    exact ⟨all,owns,discarded,fun goes => ⟨finds goes,drained⟩⟩
  | shutdown at_ =>
    obtain ⟨all,owns,discarded,-⟩ := tracked
    rw [at_] at all owns
    exact ⟨all,⟨owns.waiting,owns.queued,owns.running,owns.finished⟩,discarded,fun _ => trivial⟩
  | awaitTermination at_ terminated =>
    obtain ⟨all,owns,discarded,-⟩ := tracked
    rw [at_] at all owns
    exact ⟨all,owns,discarded,fun _ => terminated⟩
  | interruptedException at_ cancelled =>
    obtain ⟨all,owns,discarded,-⟩ := tracked
    rw [at_] at all owns
    refine ⟨all,owns,discarded,?_⟩
    exact fun goes => absurd (cancelled.symm.trans goes) (by simp)
  | cancel =>
    obtain ⟨all,owns,-,-⟩ := tracked
    have grows : Grows s.session s.session.cancel :=
      ⟨fun _ => rfl,fun _ => rfl,List.Subset.refl _,List.Subset.refl _⟩
    exact ⟨all,owns_grows grows owns,nofun,nofun⟩

theorem tracked_invariant (room : 0 < maxTask) :
    (downloadMultipleFiles false list maxTask cancelled byUser).Invariant (Tracked list) := by
  refine ⟨?_,fun s s' _ tracked step => tracked_step room tracked step⟩
  rintro s rfl
  exact tracked_started

/-- A call for a task that is not cancelled has downloaded all that it does not report. -/
theorem returned_accounts {s : State} (room : 0 < maxTask)
    (reached : (downloadMultipleFiles false list maxTask cancelled byUser).Reachable s)
    (at_ : s.submitter = .returned) (goes : s.session.cancelled = false) :
    ∀ bean ∈ list, bean ∈ s.session.downloaded ∨ some bean ∈ s.session.failedFile := by
  obtain ⟨all,owns,discarded,finds⟩ := (tracked_invariant room).reachable reached
  have terminated := finds goes
  rw [at_] at all terminated
  obtain ⟨-,queue,workers⟩ := terminated
  rw [ThreadPool.tasks,discarded goes,queue,workers,List.append_nil] at all
  intro bean inside
  have finished : bean ∈ s.threadPool.finished.map Prod.fst := all.mem_iff.mpr inside
  obtain ⟨⟨_,stage⟩,member,rfl⟩ := List.mem_map.mp finished
  obtain ⟨owned,done⟩ := owns.finished _ stage member
  rw [show stage = ended from done] at owned
  exact owned.resolve_left (by rw [goes]; simp)

/-- The flags of a task are only ever set, by the user only. -/
theorem session_flags {losing : Bool} {s : State}
    (reached : (downloadMultipleFiles losing list maxTask cancelled byUser).Reachable s) :
    s.session.cancelled = cancelled ∧ s.session.byUser = byUser ∨
      s.session.cancelled = true ∧ s.session.byUser = true := by
  induction reached with
  | start s starts =>
    rw [starts]
    exact .inl ⟨rfl,rfl⟩
  | step s s' _ steps before =>
    cases steps with
    | work threadPool session step =>
      rcases ThreadPool.step_shared step with same | ⟨bean,-,stage,stage',runs⟩
      · rw [same]
        exact before
      · obtain ⟨flag,user⟩ := step_cancelled runs
        rw [flag,user]
        exact before
    | cancel => exact .inr ⟨rfl,rfl⟩
    | _ => exact before

/-- No entry is null unless additions race. -/
theorem session_filled {s : State}
    (reached : (downloadMultipleFiles false list maxTask cancelled byUser).Reachable s) :
    none ∉ s.session.failedFile := by
  induction reached with
  | start s starts =>
    rw [starts]
    exact List.not_mem_nil
  | step s s' _ steps before =>
    cases steps with
    | work threadPool session step =>
      rcases ThreadPool.step_shared step with same | ⟨bean,-,stage,stage',runs⟩
      · rw [same]
        exact before
      · exact step_filled runs before
    | _ => exact before

end Accounting

section Runs
open Relation

variable {losing : Bool} {maxTask : Nat}

theorem RunStep.mono {bean : DownloadTaskListBean} {stage stage' : Stage} {s s' : Session}
    (step : RunStep false bean stage s stage' s') : RunStep losing bean stage s stage' s' := by
  cases step with
  | present => exact .present s
  | enter => exact .enter s
  | isCancelled i _ again cancelled => exact .isCancelled i s again cancelled
  | call i _ again goes => exact .call i s again goes
  | leave i _ enough => exact .leave i s enough
  | success i => exact .success i s
  | failure i => exact .failure i s
  | races _ _ _ _ _ loses => cases loses
  | throws _ _ loses => cases loses

theorem Step.mono {s s' : State} (step : Step false maxTask s s') : Step losing maxTask s s' := by
  cases step with
  | execute bean rest at_ => exact .execute s bean rest at_
  | isEmpty rest at_ drained => exact .isEmpty s rest at_ drained
  | shutdown at_ => exact .shutdown s at_
  | awaitTermination at_ terminated => exact .awaitTermination s at_ terminated
  | interruptedException at_ cancelled running =>
    exact .interruptedException s at_ cancelled running
  | timeout _ loses => cases loses
  | work threadPool session step =>
    exact .work s threadPool session (ThreadPool.Step.mono (fun _ _ _ _ _ => .mono) step)
  | shutdownNow before after bean busy => exact .shutdownNow s before after bean busy
  | cancel => exact .cancel s

theorem downloadMultipleFiles_mono {list : List DownloadTaskListBean} {cancelled byUser : Bool}
    {s : State} (reached : (downloadMultipleFiles false list maxTask cancelled byUser).Reachable s) :
    (downloadMultipleFiles losing list maxTask cancelled byUser).Reachable s := by
  induction reached with
  | start s starts => exact .start s starts
  | step s s' _ steps before => exact .step s s' before (.mono steps)

/-- The submitter is between two beans and all workers wait. -/
structure Rested (rest : List DownloadTaskListBean) (session : Session) (s : State) : Prop where
  submitter : s.submitter = .executes rest
  queue : s.threadPool.queue = []
  isShutdown : s.threadPool.isShutdown = false
  idle : ∀ worker ∈ s.threadPool.workers, worker = none
  session : s.session = session
  interrupted : s.interrupted = false

/-- A worker that has found the file of its bean. -/
theorem presents {s : State} {before after : List (Option (DownloadTaskListBean × Stage))}
    {bean : DownloadTaskListBean}
    (busy : s.threadPool.workers = before ++ some (bean,begun) :: after) :
    ReflTransGen (Step losing maxTask) s { s with
      threadPool := { s.threadPool with
        workers := before ++ none :: after
        finished := s.threadPool.finished ++ [(bean,ended)] }
      session := { s.session with downloaded := s.session.downloaded ++ [bean] } } := by
  have found := @Step.work losing maxTask s _ _
    (.run before after bean begun ended _ busy (.present s.session))
  refine .head found (.single (.work _ _ _ (.finish before after bean ended rfl rfl)))

/-- A new worker runs the bean. -/
theorem rested_new {s : State} {bean : DownloadTaskListBean} {rest : List DownloadTaskListBean}
    {session : Session} (more : s.threadPool.workers.length < maxTask)
    (rested : Rested (bean :: rest) session s) :
    ∃ s', ReflTransGen (Step losing maxTask) s s' ∧
      Rested rest { session with downloaded := session.downloaded ++ [bean] } s' := by
  obtain ⟨submitter,queue,isShutdown,idle,rfl,interrupted⟩ := rested
  have executes := @Step.execute losing maxTask s bean rest submitter
  have open_ : ¬s.threadPool.isShutdown = true := by rw [isShutdown]; simp
  rw [ThreadPool.execute,if_neg open_,if_pos more] at executes
  have drained := @Step.isEmpty losing maxTask
    { s with
      submitter := .spins rest
      threadPool := { s.threadPool with
        workers := s.threadPool.workers ++ [some (bean,begun)] } } rest rfl queue
  refine ⟨_,.head executes (.head drained (presents rfl)),rfl,queue,isShutdown,?_,rfl,interrupted⟩
  intro worker inside
  rcases List.mem_append.mp inside with before | last
  · exact idle worker before
  · exact List.mem_singleton.mp last

/-- A worker that waits takes the bean from the queue. -/
theorem rested_idle {s : State} {bean : DownloadTaskListBean} {rest : List DownloadTaskListBean}
    {session : Session} (room : 0 < maxTask) (full : ¬s.threadPool.workers.length < maxTask)
    (rested : Rested (bean :: rest) session s) :
    ∃ s', ReflTransGen (Step losing maxTask) s s' ∧
      Rested rest { session with downloaded := session.downloaded ++ [bean] } s' := by
  obtain ⟨submitter,queue,isShutdown,idle,rfl,interrupted⟩ := rested
  have executes := @Step.execute losing maxTask s bean rest submitter
  have open_ : ¬s.threadPool.isShutdown = true := by rw [isShutdown]; simp
  have short : s.threadPool.queue.length < maxTask := by rw [queue]; exact room
  rw [ThreadPool.execute,if_neg open_,if_neg full,if_pos short] at executes
  obtain ⟨worker,workers,split⟩ : ∃ worker workers, s.threadPool.workers = worker :: workers := by
    cases split : s.threadPool.workers with
    | nil => rw [split] at full; exact absurd room full
    | cons worker workers => exact ⟨worker,workers,rfl⟩
  obtain rfl := idle worker (by rw [split]; exact List.mem_cons_self)
  have queued : s.threadPool.queue ++ [bean] = [bean] := by rw [queue]; rfl
  have taken := @Step.work losing maxTask
    { s with
      submitter := .spins rest
      threadPool := { s.threadPool with queue := s.threadPool.queue ++ [bean] } } _ _
    (.take [] workers bean [] split queued)
  have drained := @Step.isEmpty losing maxTask
    { s with
      submitter := .spins rest
      threadPool := { s.threadPool with queue := [], workers := some (bean,begun) :: workers } }
    rest rfl rfl
  have found := @presents losing maxTask
    { s with
      submitter := .executes rest
      threadPool := { s.threadPool with queue := [], workers := some (bean,begun) :: workers } }
    [] workers bean rfl
  refine ⟨_,.head executes (.head taken (.head drained found)),rfl,rfl,isShutdown,?_,rfl,
    interrupted⟩
  intro other inside
  apply idle
  rw [split]
  exact inside

theorem rested_next {s : State} {bean : DownloadTaskListBean} {rest : List DownloadTaskListBean}
    {session : Session} (room : 0 < maxTask) (rested : Rested (bean :: rest) session s) :
    ∃ s', ReflTransGen (Step losing maxTask) s s' ∧
      Rested rest { session with downloaded := session.downloaded ++ [bean] } s' := by
  by_cases more : s.threadPool.workers.length < maxTask
  · exact rested_new more rested
  · exact rested_idle room more rested

theorem rested_all {list : List DownloadTaskListBean} {session : Session} {s : State}
    (room : 0 < maxTask) (rested : Rested list session s) :
    ∃ s', ReflTransGen (Step losing maxTask) s s' ∧
      Rested [] { session with downloaded := session.downloaded ++ list } s' := by
  induction list generalizing session s with
  | nil =>
    refine ⟨s,.refl,?_⟩
    rw [List.append_nil]
    exact rested
  | cons bean list ih =>
    obtain ⟨next,runs,rests⟩ := @rested_next losing _ _ _ _ _ room rested
    obtain ⟨last,run,rest⟩ := ih rests
    refine ⟨last,runs.trans run,?_⟩
    rw [List.append_assoc] at rest
    exact rest

/-- A pool of no size discards all it is given. -/
theorem rested_discards {list : List DownloadTaskListBean} {session : Session} {s : State}
    (none_ : maxTask = 0) (rested : Rested list session s) :
    ∃ s', ReflTransGen (Step losing maxTask) s s' ∧ Rested [] session s' := by
  induction list generalizing s with
  | nil => exact ⟨s,.refl,rested⟩
  | cons bean rest ih =>
    obtain ⟨submitter,queue,isShutdown,idle,same,interrupted⟩ := rested
    have executes := @Step.execute losing maxTask s bean rest submitter
    have open_ : ¬s.threadPool.isShutdown = true := by rw [isShutdown]; simp
    rw [ThreadPool.execute,if_neg open_,if_neg (by omega),if_neg (by omega)] at executes
    have drained := @Step.isEmpty losing maxTask
      { s with
        submitter := .spins rest
        threadPool := { s.threadPool with discarded := s.threadPool.discarded ++ [bean] } }
      rest rfl queue
    obtain ⟨last,runs,rested⟩ := ih (s := { s with
      submitter := .executes rest
      threadPool := { s.threadPool with discarded := s.threadPool.discarded ++ [bean] } })
      ⟨rfl,queue,isShutdown,idle,same,interrupted⟩
    exact ⟨last,.head executes (.head drained runs),rested⟩

/-- The workers of a pool that is shut down exit one by one. -/
theorem exits (workers : List (Option (DownloadTaskListBean × Stage))) {s : State}
    (at_ : s.threadPool.workers = workers) (idle : ∀ worker ∈ workers, worker = none)
    (shut : s.threadPool.isShutdown = true) (drained : s.threadPool.queue = []) :
    ReflTransGen (Step losing maxTask) s
      { s with threadPool := { s.threadPool with workers := [] } } := by
  induction workers generalizing s with
  | nil => rw [← at_]
  | cons worker workers ih =>
    obtain rfl := idle worker List.mem_cons_self
    have exit := @Step.work losing maxTask s _ _
      (.exit [] workers at_ shut drained)
    refine .head exit (ih rfl ?_ shut drained)
    exact fun other inside => idle other (List.mem_cons_of_mem _ inside)

theorem rested_returns {list : List DownloadTaskListBean} {cancelled byUser : Bool}
    {session : Session} {s : State} (rested : Rested [] session s)
    (reached : (downloadMultipleFiles losing list maxTask cancelled byUser).Reachable s) :
    ∃ s', (downloadMultipleFiles losing list maxTask cancelled byUser).Reachable s' ∧
      s'.submitter = .returned ∧ s'.interrupted = false ∧ s'.session = session := by
  obtain ⟨submitter,queue,-,idle,same,interrupted⟩ := rested
  have shut := System.Reachable.step _ _ reached (.shutdown _ submitter)
  have emptied := shut.run (exits _ rfl idle rfl queue)
  have returned := System.Reachable.step _ _ emptied (.awaitTermination _ rfl ⟨rfl,queue,rfl⟩)
  exact ⟨_,returned,rfl,interrupted,same⟩

theorem rested_started (list : List DownloadTaskListBean) (cancelled byUser : Bool) :
    Rested list ⟨cancelled,byUser,[],[]⟩ (started list cancelled byUser) :=
  ⟨rfl,rfl,rfl,fun _ inside => absurd inside List.not_mem_nil,rfl,rfl⟩

/-- There is a run that finds all files, however long the list. -/
theorem exists_returned (list : List DownloadTaskListBean) (cancelled byUser : Bool)
    (room : 0 < maxTask) :
    ∃ s, (downloadMultipleFiles losing list maxTask cancelled byUser).Reachable s ∧
      s.submitter = .returned ∧ s.interrupted = false ∧
      s.session = ⟨cancelled,byUser,[],list⟩ := by
  obtain ⟨last,runs,rested⟩ := @rested_all losing _ _ _ _ room
    (rested_started list cancelled byUser)
  exact rested_returns rested (.run (.start _ rfl) runs)

theorem exists_call (losing : Bool) (list : List DownloadTaskListBean) (maxTask : Nat)
    (cancelled byUser : Bool) :
    ∃ s, (downloadMultipleFiles losing list maxTask cancelled byUser).Reachable s ∧
      s.submitter = .returned := by
  rcases Nat.eq_zero_or_pos maxTask with none_ | room
  · obtain ⟨last,runs,rested⟩ := @rested_discards losing _ _ _ _ none_
      (rested_started list cancelled byUser)
    obtain ⟨s,reached,returned,-⟩ := rested_returns rested (.run (.start _ rfl) runs)
    exact ⟨s,reached,returned⟩
  · obtain ⟨s,reached,returned,-⟩ := @exists_returned losing _ list cancelled byUser room
    exact ⟨s,reached,returned⟩

end Runs

end HmclPe.Download.CancelledFiles
