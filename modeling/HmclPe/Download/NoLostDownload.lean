import HmclPe.Download.MultipleFiles
import Mathlib.Data.List.Nodup
import Mathlib.Tactic

/-! No download is lost: the queue is empty whenever a bean is submitted, and each bean is
accounted for by the one worker that runs it. -/
namespace HmclPe.Download.MultipleFiles
open HmclPe.Java HmclPe.Io HmclPe.Lib.Runs
open Stage

variable {platform : Platform} {looks : Bool} {maxTask : Nat}
  {list : List DownloadTaskListBean}

def Downloads.Right (digest : Content → Option Text) (s : Downloads)
    (bean : DownloadTaskListBean) : Prop :=
  isRightFile digest s.files bean.path bean.sha1 = true

def Fresh (bean : DownloadTaskListBean) (s : Downloads) : Prop := s.failedFile.count bean = 0

/-- The attempts of a run at each stage, and what is known of its bean. -/
def Owned (digest : Content → Option Text) (bean : DownloadTaskListBean) (run : Run)
    (s : Downloads) : Prop :=
  match run.stage with
  | begun => run.attempts = 0 ∧ s.failedFile.count bean = 0
  | loop i => run.attempts = i ∧ i ≤ tryTimes ∧
      s.failedFile.count bean = if i = tryTimes then 1 else 0
  | called i | connecting i | writing i _ | reporting i _ | written i | answered i false =>
    run.attempts = i + 1 ∧ i < tryTimes ∧ s.failedFile.count bean = 0
  | answered i true => run.attempts = i + 1 ∧ i < tryTimes ∧ s.failedFile.count bean = 0 ∧
      s.Right digest bean
  | ended => run.attempts ≤ tryTimes ∧
      (s.failedFile.count bean = 0 ∧ s.Right digest bean ∨ s.failedFile.count bean = 1)
  | thrown => run.attempts ≤ tryTimes ∧ s.failedFile.count bean = 0

def Apart (bean other : DownloadTaskListBean) : Prop := bean.path ≠ other.path

theorem right_of_read {digest read : Content → Option Text} {files : Files Content} {path : Text}
    {sha1 : Option Text} (reads : Reads digest read)
    (right : isRightFile read files path sha1 = true) :
    isRightFile digest files path sha1 = true := by
  rw [isRightFile] at right ⊢
  cases found : files path with
  | none =>
    rw [found] at right
    exact right
  | some content =>
    rw [found] at right
    cases sha1 with
    | none => rfl
    | some sha1 =>
      simp only [Bool.or_eq_true,decide_eq_true_eq] at right ⊢
      refine right.imp id ?_
      intro same
      cases reads content with
      | inl read_ => exact read_ ▸ same
      | inr failed => exact absurd (failed.symm.trans same) (by simp)

theorem right_of_present {digest read : Content → Option Text} {files : Files Content}
    {bean : DownloadTaskListBean} (reads : Reads digest read)
    (present : isNeeded read files bean = false) :
    isRightFile digest files bean.path bean.sha1 = true := by
  apply right_of_read reads
  cases exist : files.exist bean.path with
  | false => simp [isNeeded,exist] at present
  | true =>
    have same : getFileSha1 read files bean.path = bean.sha1 := by
      simpa [isNeeded,exist] using present
    obtain ⟨content,found⟩ := Option.isSome_iff_exists.mp exist
    rw [getFileSha1,found] at same
    rw [isRightFile,found]
    cases sha1 : bean.sha1 with
    | none => rfl
    | some expected =>
      have read_ : read content = some expected := same.trans sha1
      simp [read_]

theorem deleted_other {files files' : Files Content} {path other : Text}
    (deleted : Deleted files files' path) (different : other ≠ path) :
    files' other = files other := by
  cases deleted with
  | inl gone => rw [gone,Files.set_other files none different]
  | inr kept => rw [kept]

/-- A run touches the file and the entry of its own bean only. -/
theorem step_frame {bean : DownloadTaskListBean} {run run' : Run} {s s' : Downloads}
    (step : RunStep platform looks bean run s run' s') :
    (∀ path, path ≠ bean.path → s'.files path = s.files path) ∧
      ∀ other, other ≠ bean → s'.failedFile.count other = s.failedFile.count other := by
  cases step with
  | delete i attempts s read files reads exist wrong deleted =>
    exact ⟨fun path different => deleted_other deleted different,fun _ _ => rfl⟩
  | wrong i attempts s read files reads wrong deleted =>
    exact ⟨fun path different => deleted_other deleted different,fun _ _ => rfl⟩
  | opens =>
    exact ⟨fun path different => Files.set_other _ _ different,fun _ _ => rfl⟩
  | write =>
    exact ⟨fun path different => Files.set_other _ _ different,fun _ _ => rfl⟩
  | again i =>
    refine ⟨fun _ _ => rfl,?_⟩
    intro other different
    change List.count other (if i = tryTimes - 1 then _ else _) = _
    split
    · simp [Ne.symm different]
    · rfl
  | _ => exact ⟨fun _ _ => rfl,fun _ _ => rfl⟩

theorem owned_congr {digest : Content → Option Text} {bean : DownloadTaskListBean} {run : Run} {s s' : Downloads}
    (files : s'.files bean.path = s.files bean.path)
    (failed : s'.failedFile.count bean = s.failedFile.count bean)
    (owned : Owned digest bean run s) : Owned digest bean run s' := by
  have right : s'.Right digest bean ↔ s.Right digest bean := by
    rw [Downloads.Right,Downloads.Right,isRightFile_congr files]
  rw [Owned] at owned ⊢
  simpa only [failed,right] using owned

theorem step_owned {bean : DownloadTaskListBean} {run run' : Run} {s s' : Downloads}
    (owned : Owned platform.digest bean run s) (step : RunStep platform looks bean run s run' s') :
    Owned platform.digest bean run' s' := by
  cases step with
  | skip attempts s read reads looks_ present =>
    exact ⟨owned.1 ▸ Nat.zero_le _,Or.inl ⟨owned.2,right_of_present reads present⟩⟩
  | enter => exact ⟨owned.1,Nat.zero_le _,owned.2⟩
  | call i attempts s again =>
    obtain ⟨calls,_,failed⟩ := owned
    rw [if_neg (Nat.ne_of_lt again)] at failed
    exact ⟨congrArg (· + 1) calls,again,failed⟩
  | leave i attempts s enough =>
    obtain ⟨calls,bound,failed⟩ := owned
    have last : i = tryTimes := Nat.le_antisymm bound (Nat.not_lt.mp enough)
    rw [if_pos last] at failed
    exact ⟨calls ▸ bound,Or.inr failed⟩
  | right i attempts s read reads right =>
    exact ⟨owned.1,owned.2.1,owned.2.2,right_of_read reads right⟩
  | breaks i attempts s =>
    obtain ⟨calls,bound,failed,right⟩ := owned
    exact ⟨calls ▸ bound,Or.inl ⟨failed,right⟩⟩
  | again i attempts s =>
    obtain ⟨calls,bound,failed⟩ := owned
    refine ⟨calls,bound,?_⟩
    change List.count bean (if i = tryTimes - 1 then _ else _) = _
    have last : i = tryTimes - 1 ↔ i + 1 = tryTimes := by
      rw [tryTimes]
      omega
    by_cases enough : i = tryTimes - 1
    · rw [if_pos enough,if_pos (last.mp enough),List.count_append,failed]
      simp
    · rw [if_neg enough,if_neg (fun same => enough (last.mpr same)),failed]
  | noParent => exact ⟨owned.1 ▸ owned.2.1,owned.2.2⟩
  | castFails => exact ⟨owned.1 ▸ owned.2.1,owned.2.2⟩
  | divides => exact ⟨owned.1 ▸ owned.2.1,owned.2.2⟩
  | _ => exact owned

theorem guarantee (platform : Platform) (looks : Bool) :
    Guarantee (runnable platform looks) Apart Fresh (Owned platform.digest) where
  symm _ _ apart := apart.symm
  start _ _ fresh := ⟨rfl,fresh⟩
  own _ _ _ _ _ owned step := step_owned owned step
  fresh bean other _ _ _ _ apart step fresh := by
    have different : bean ≠ other := fun same => apart (congrArg _ same)
    exact ((step_frame step).2 bean different).trans fresh
  owned bean _ other _ _ _ _ apart step owned := by
    have different : bean ≠ other := fun same => apart (congrArg _ same)
    obtain ⟨files,failed⟩ := step_frame step
    exact owned_congr (files bean.path apart) (failed bean different) owned

theorem step_listed {bean : DownloadTaskListBean} {run run' : Run} {s s' : Downloads}
    (inside : bean ∈ list) (listed : ∀ other ∈ s.failedFile, other ∈ list)
    (step : RunStep platform looks bean run s run' s') : ∀ other ∈ s'.failedFile, other ∈ list := by
  cases step with
  | again i =>
    intro other
    change other ∈ (if i = tryTimes - 1 then _ else _) → _
    split
    · intro member
      cases List.mem_append.mp member with
      | inl before => exact listed other before
      | inr added => exact List.mem_singleton.mp added ▸ inside
    · exact listed other
  | _ => exact listed

/-- The pool when the submitter is where it is. -/
def Submitter.Finds (threadPool : ThreadPool DownloadTaskListBean Run) : Submitter → Prop
  | executes _ => threadPool.isShutdown = false ∧ threadPool.queue = []
  | spins _ => threadPool.isShutdown = false
  | awaits => True
  | returned => threadPool.Terminated

structure Tracked (platform : Platform) (looks : Bool)
    (list : List DownloadTaskListBean) (s : State) : Prop where
  all : (s.submitter.waiting ++ s.threadPool.tasks).Perm list
  owns : ThreadPool.Owns (runnable platform looks) Fresh (Owned platform.digest) s.submitter.waiting
    s.threadPool s.downloads
  listed : ∀ bean ∈ s.downloads.failedFile, bean ∈ list
  discarded : s.threadPool.discarded = []
  finds : s.submitter.Finds s.threadPool

theorem tracked_started (files : Files Content) :
    Tracked platform looks list (started list files) := by
  refine ⟨?_,⟨?_,?_,?_,?_⟩,?_,rfl,rfl,rfl⟩
  · simp [started,Submitter.waiting,ThreadPool.tasks,ThreadPool.empty,ThreadPool.running]
  · exact fun bean _ => rfl
  · exact fun bean inside => absurd inside List.not_mem_nil
  · exact fun bean run inside => absurd inside List.not_mem_nil
  · exact fun bean run inside => absurd inside List.not_mem_nil
  · exact fun bean inside => absurd inside List.not_mem_nil

theorem tracked_work {s : State} {threadPool : ThreadPool DownloadTaskListBean Run}
    {downloads : Downloads} (distinct : list.Pairwise Apart)
    (tracked : Tracked platform looks list s)
    (step : ThreadPool.Step (runnable platform looks) s.threadPool s.downloads threadPool
      downloads) :
    Tracked platform looks list { s with threadPool := threadPool, downloads := downloads } := by
  obtain ⟨all,owns,listed,discarded,finds⟩ := tracked
  obtain ⟨discards,shuts,drains⟩ := ThreadPool.step_kept step
  have symmetric : ∀ {x y : DownloadTaskListBean}, Apart x y → Apart y x := fun apart => apart.symm
  have apart := (all.pairwise_iff symmetric).mpr distinct
  refine ⟨?_,ThreadPool.owns_step (guarantee platform looks) apart owns step,?_,?_,?_⟩
  · exact ((ThreadPool.tasks_step step).append_left _).trans all
  · cases ThreadPool.step_shared step with
    | inl same =>
      change ∀ bean ∈ downloads.failedFile, bean ∈ list
      rw [same]
      exact listed
    | inr stepped =>
      obtain ⟨bean,inside,run,run',runs⟩ := stepped
      exact step_listed (all.mem_iff.mp (List.mem_append_right _ inside)) listed runs
  · exact discards.trans discarded
  · cases at_ : s.submitter with
    | executes rest =>
      rw [at_] at finds
      exact ⟨shuts.trans finds.1,drains finds.2⟩
    | spins rest =>
      rw [at_] at finds
      exact shuts.trans finds
    | awaits => trivial
    | returned =>
      rw [at_] at finds
      exact absurd step (ThreadPool.not_step_of_terminated finds)

theorem tracked_step {s s' : State} (distinct : list.Pairwise Apart) (room : 0 < maxTask)
    (tracked : Tracked platform looks list s) (step : Step platform looks maxTask s s') :
    Tracked platform looks list s' := by
  cases step with
  | work threadPool downloads step => exact tracked_work distinct tracked step
  | execute bean rest at_ =>
    obtain ⟨all,owns,listed,discarded,finds⟩ := tracked
    rw [at_] at all owns finds
    refine ⟨?_,ThreadPool.owns_execute (guarantee platform looks) owns,listed,?_,?_⟩
    · refine ((ThreadPool.tasks_execute _ _ _ _ bean).append_left rest).trans ?_
      exact List.perm_middle.trans all
    · exact (ThreadPool.discarded_execute _ bean finds.1 finds.2 room).trans discarded
    · exact (ThreadPool.isShutdown_execute _ _ _ _ bean).trans finds.1
  | isEmpty rest at_ drained =>
    obtain ⟨all,owns,listed,discarded,finds⟩ := tracked
    rw [at_] at all owns finds
    exact ⟨all,owns,listed,discarded,finds,drained⟩
  | shutdown at_ =>
    obtain ⟨all,owns,listed,discarded,finds⟩ := tracked
    rw [at_] at all owns
    exact ⟨all,⟨owns.waiting,owns.queued,owns.running,owns.finished⟩,listed,discarded,trivial⟩
  | awaitTermination at_ terminated =>
    obtain ⟨all,owns,listed,discarded,_⟩ := tracked
    rw [at_] at all owns
    exact ⟨all,owns,listed,discarded,terminated⟩

theorem tracked_invariant (distinct : list.Pairwise Apart) (room : 0 < maxTask) :
    (downloads platform looks list maxTask).Invariant (Tracked platform looks list) := by
  refine ⟨?_,fun s s' _ tracked step => tracked_step distinct room tracked step⟩
  intro s starts
  obtain ⟨files,rfl⟩ := starts
  exact tracked_started files

/-- What the caller can rely on; a run lists the calls of `downloadFileMonitored` as attempts. -/
structure NoneLost (digest : Content → Option Text) (list : List DownloadTaskListBean)
    (s : State) : Prop where
  discarded : s.threadPool.discarded = []
  once : (s.submitter.waiting ++ s.threadPool.queue ++ ThreadPool.running s.threadPool.workers ++
    s.threadPool.finished.map Prod.fst).Perm list
  attempts : ∀ bean run, some (bean,run) ∈ s.threadPool.workers ∨
    (bean,run) ∈ s.threadPool.finished → run.attempts ≤ 5
  returned : s.submitter = .returned → (s.threadPool.finished.map Prod.fst).Perm list ∧
    (∀ bean ∈ list, bean ∉ s.downloads.failedFile →
      isRightFile digest s.downloads.files bean.path bean.sha1 = true) ∧
    s.downloads.failedFile.Nodup ∧ ∀ bean ∈ s.downloads.failedFile, bean ∈ list

theorem attempts_of_owned {digest : Content → Option Text} {bean : DownloadTaskListBean} {run : Run}
    {s : Downloads} (owned : Owned digest bean run s) : run.attempts ≤ 5 := by
  obtain ⟨stage,attempts⟩ := run
  cases stage with
  | begun => exact owned.1 ▸ Nat.zero_le _
  | loop i => exact owned.1 ▸ owned.2.1
  | called | connecting | writing | reporting | written => exact owned.1 ▸ owned.2.1
  | answered i success => cases success <;> exact owned.1 ▸ owned.2.1
  | ended => exact owned.1
  | thrown => exact owned.1

theorem ended_of_done {bean : DownloadTaskListBean} {run : Run} {s : Downloads}
    (owned : Owned platform.digest bean run s) (done : (runnable platform looks).Done run) :
    s.failedFile.count bean ≤ 1 ∧ (run.stage ≠ thrown → s.failedFile.count bean = 0 →
      s.Right platform.digest bean) := by
  rcases done with ended_ | thrown_
  · rw [Owned,ended_] at owned
    rcases owned.2 with ⟨none_,right⟩ | one
    · exact ⟨none_ ▸ Nat.zero_le 1,fun _ _ => right⟩
    · exact ⟨one.le,fun _ none_ => absurd (one.symm.trans none_) Nat.one_ne_zero⟩
  · rw [Owned,thrown_] at owned
    exact ⟨owned.2 ▸ Nat.zero_le 1,fun stands => absurd thrown_ stands⟩

/-- None of the runs has thrown. -/
def Unthrown (threadPool : ThreadPool DownloadTaskListBean Run) : Prop :=
  ∀ bean run, some (bean,run) ∈ threadPool.workers ∨ (bean,run) ∈ threadPool.finished →
    run.stage ≠ thrown

theorem noneLost_of_tracked {s : State} (tracked : Tracked platform looks list s)
    (unthrown : Unthrown s.threadPool) : NoneLost platform.digest list s := by
  obtain ⟨all,owns,listed,discarded,finds⟩ := tracked
  rw [ThreadPool.tasks,discarded,List.append_nil] at all
  refine ⟨discarded,by simpa only [List.append_assoc] using all,?_,?_⟩
  · intro bean run placed
    cases placed with
    | inl running => exact attempts_of_owned (owns.running bean run running)
    | inr finished => exact attempts_of_owned (owns.finished bean run finished).1
  · intro at_
    rw [at_] at all finds
    obtain ⟨_,queue,workers⟩ := finds
    rw [queue,workers] at all
    have finished : (s.threadPool.finished.map Prod.fst).Perm list := all
    have outcome : ∀ bean ∈ list, s.downloads.failedFile.count bean ≤ 1 ∧
        (s.downloads.failedFile.count bean = 0 → s.downloads.Right platform.digest bean) := by
      intro bean inside
      obtain ⟨⟨_,run⟩,member,rfl⟩ := List.mem_map.mp (finished.mem_iff.mpr inside)
      obtain ⟨owned,done⟩ := owns.finished _ run member
      obtain ⟨most,right⟩ := ended_of_done owned done
      exact ⟨most,right (unthrown _ run (.inr member))⟩
    refine ⟨finished,?_,?_,listed⟩
    · intro bean inside absent
      exact (outcome bean inside).2 (List.count_eq_zero_of_not_mem absent)
    · apply List.nodup_iff_count_le_one.mpr
      intro bean
      by_cases member : bean ∈ s.downloads.failedFile
      · exact (outcome bean (listed bean member)).1
      · rw [List.count_eq_zero_of_not_mem member]
        exact Nat.zero_le _

/-- A run throws only from where it is about to. -/
theorem throws_of_step {bean : DownloadTaskListBean} {run run' : Run} {s s' : Downloads}
    (step : RunStep platform looks bean run s run' s') (stands : run.stage ≠ thrown)
    (threw : run'.stage = thrown) : Throws platform bean run s := by
  cases step with
  | noParent i attempts s missing none_ => exact ⟨missing,none_⟩
  | castFails i attempts s other => exact other
  | divides => exact rfl
  | _ => exact absurd threw (by simp)

theorem unthrown_execute {threadPool : ThreadPool DownloadTaskListBean Run}
    (unthrown : Unthrown threadPool) (bean : DownloadTaskListBean) :
    Unthrown (threadPool.execute maxTask maxTask (runnable platform looks) bean) := by
  rw [ThreadPool.execute]
  split
  · exact unthrown
  split
  · intro other run placed
    rcases placed with inside | finished
    · rcases List.mem_append.mp inside with before | added
      · exact unthrown other run (.inl before)
      · obtain ⟨-,rfl⟩ := Prod.mk.inj (Option.some.inj (List.mem_singleton.mp added))
        exact Stage.noConfusion
    · exact unthrown other run (.inr finished)
  split
  · exact unthrown
  · exact unthrown

theorem unthrown_work {s : State} {threadPool : ThreadPool DownloadTaskListBean Run}
    {downloads : Downloads} (calm : Calm platform s) (unthrown : Unthrown s.threadPool)
    (step : ThreadPool.Step (runnable platform looks) s.threadPool s.downloads threadPool
      downloads) : Unthrown threadPool := by
  cases step with
  | take before after bean rest idle first =>
    intro other run placed
    rcases placed with inside | finished
    · have place : some (other,run) ∈ s.threadPool.workers ∨ run = ⟨begun,0⟩ := by
        simp only [idle,List.mem_append,List.mem_cons,Option.some.injEq,Prod.mk.injEq] at inside ⊢
        tauto
      rcases place with before | rfl
      · exact unthrown other run (.inl before)
      · exact Stage.noConfusion
    · exact unthrown other run (.inr finished)
  | run before after bean run run' s' busy step =>
    have here : some (bean,run) ∈ s.threadPool.workers := by simp [busy]
    intro other mine placed
    rcases placed with inside | finished
    · have place : some (other,mine) ∈ s.threadPool.workers ∨ mine = run' := by
        simp only [busy,List.mem_append,List.mem_cons,Option.some.injEq,Prod.mk.injEq] at inside ⊢
        tauto
      rcases place with before | rfl
      · exact unthrown other mine (.inl before)
      · intro threw
        exact calm bean run here (throws_of_step step (unthrown bean run (.inl here)) threw)
    · exact unthrown other mine (.inr finished)
  | finish before after bean run busy done =>
    intro other mine placed
    have place : some (other,mine) ∈ s.threadPool.workers ∨ (other,mine) ∈ s.threadPool.finished := by
      simp only [busy,List.mem_append,List.mem_cons,Option.some.injEq,Prod.mk.injEq,
        List.not_mem_nil,or_false] at placed ⊢
      tauto
    exact unthrown other mine place
  | exit before after idle shut drained =>
    intro other mine placed
    have place : some (other,mine) ∈ s.threadPool.workers ∨ (other,mine) ∈ s.threadPool.finished := by
      simp only [idle,List.mem_append,List.mem_cons] at placed ⊢
      tauto
    exact unthrown other mine place

theorem unthrown_invariant : ((downloads platform looks list maxTask).whenever
    (Calm platform)).Invariant fun s => Unthrown s.threadPool := by
  refine ⟨?_,?_⟩
  · rintro s ⟨files,rfl⟩ bean run placed
    rcases placed with inside | inside
    · cases inside
    · cases inside
  · rintro s s' - unthrown ⟨calm,step⟩
    cases step with
    | work threadPool downloads step => exact unthrown_work calm unthrown step
    | execute bean => exact unthrown_execute unthrown bean
    | isEmpty => exact unthrown
    | shutdown => exact unthrown
    | awaitTermination => exact unthrown

theorem pairwise_apart (distinct : (list.map (·.path)).Nodup) : list.Pairwise Apart := by
  rw [List.Nodup,List.pairwise_map] at distinct
  exact distinct

theorem downloads_noneLost {s : State} (distinct : (list.map (·.path)).Nodup) (room : 0 < maxTask)
    (reached : ((downloads platform looks list maxTask).whenever (Calm platform)).Reachable s) :
    NoneLost platform.digest list s :=
  noneLost_of_tracked
    ((tracked_invariant (pairwise_apart distinct) room).reachable reached.of_whenever)
    (unthrown_invariant.reachable reached)

/-- In a run in which no worker throws no download is lost. -/
theorem downloadMultipleFiles_noneLost {s : State} (distinct : (list.map (·.path)).Nodup)
    (room : 0 < maxTask)
    (reached : ((downloadMultipleFiles platform list maxTask).whenever (Calm platform)).Reachable s) :
    NoneLost platform.digest list s :=
  downloads_noneLost distinct room reached

/-- One bean to download and one whose file is there, over a pool of one worker. -/
def natives : List DownloadTaskListBean :=
  [⟨"natives","https://mirror/natives","/cache/natives.jar",none⟩,
    ⟨"empty","https://mirror/empty","/cache/empty.jar",
      some "da39a3ee5e6b4b0d3255bfef95601890afd80709"⟩]

def emptyDigest (content : Content) : Option Text :=
  if content = [] then some "da39a3ee5e6b4b0d3255bfef95601890afd80709" else none

def mirror : Platform where
  digest := emptyDigest
  castFails url := !("https://".toList.isPrefixOf url || "http://".toList.isPrefixOf url)

theorem calm_single {s : State} {bean : DownloadTaskListBean} {run : Run}
    (only : s.threadPool.workers = [some (bean,run)])
    (stands : ¬Throws platform bean run s.downloads) : Calm platform s := by
  intro other mine inside
  rw [only] at inside
  obtain ⟨rfl,rfl⟩ := Prod.mk.inj (Option.some.inj (List.mem_singleton.mp inside))
  exact stands

theorem calm_idle {s : State} (idle : ∀ worker ∈ s.threadPool.workers, worker = none) :
    Calm platform s := by
  intro bean run inside
  cases idle _ inside

theorem natives_returned : ∃ s, ((downloadMultipleFiles mirror natives 1).whenever
    (Calm mirror)).Reachable s ∧ s.submitter = .returned := by
  let files : Files Content := fun path => if path = "/cache/empty.jar".toList then some [] else none
  let system := (downloadMultipleFiles mirror natives 1).whenever (Calm mirror)
  have start : system.Reachable (started natives files) := .start _ ⟨files,rfl⟩
  have reads : Reads emptyDigest emptyDigest := fun _ => Or.inl rfl
  have submitted := System.Reachable.step _ _ start ⟨calm_idle nofun,.execute _ _ _ rfl⟩
  have drained := System.Reachable.step _ _ submitted ⟨calm_single rfl id,.isEmpty _ _ rfl rfl⟩
  have queued := System.Reachable.step _ _ drained ⟨calm_single rfl id,.execute _ _ _ rfl⟩
  have entered := System.Reachable.step _ _ queued ⟨calm_single rfl id,
    .work _ _ _ (.run [] [] _ _ _ _ rfl (.enter _ _ emptyDigest reads (fun _ => by decide)))⟩
  have called := System.Reachable.step _ _ entered ⟨calm_single rfl id,
    .work _ _ _ (.run [] [] _ _ _ _ rfl (.call _ _ _ (by decide)))⟩
  have made := System.Reachable.step _ _ called ⟨calm_single rfl (by rintro ⟨-,none_⟩; cases none_),
    .work _ _ _ (.run [] [] _ _ _ _ rfl (.mkdirs _ _ _ (by decide) (by decide)))⟩
  have opened := System.Reachable.step _ _ made ⟨calm_single rfl (by rintro fails; cases fails),
    .work _ _ _ (.run [] [] _ _ _ _ rfl (.opens _ _ _ 2 (by decide)))⟩
  have wrote := System.Reachable.step _ _ opened ⟨calm_single rfl id,
    .work _ _ _ (.run [] [] _ _ _ _ rfl (.write _ _ _ _ [] [80,75] rfl (by decide)))⟩
  have reported := System.Reachable.step _ _ wrote ⟨calm_single rfl (by rintro zero; cases zero),
    .work _ _ _ (.run [] [] _ _ _ _ rfl (.updateProgress _ _ _ _ (by decide)))⟩
  have closed := System.Reachable.step _ _ reported ⟨calm_single rfl id,
    .work _ _ _ (.run [] [] _ _ _ _ rfl (.close _ _ _ _))⟩
  have right := System.Reachable.step _ _ closed ⟨calm_single rfl id,
    .work _ _ _ (.run [] [] _ _ _ _ rfl (.right _ _ _ emptyDigest reads (by decide)))⟩
  have ended_ := System.Reachable.step _ _ right ⟨calm_single rfl id,
    .work _ _ _ (.run [] [] _ _ _ _ rfl (.breaks _ _ _))⟩
  have finished := System.Reachable.step _ _ ended_ ⟨calm_single rfl id,
    .work _ _ _ (.finish [] [] _ _ rfl (.inl rfl))⟩
  have taken := System.Reachable.step _ _ finished ⟨calm_idle (by simp),
    .work _ _ _ (.take [] [] _ _ rfl rfl)⟩
  have drained := System.Reachable.step _ _ taken ⟨calm_single rfl id,.isEmpty _ _ rfl rfl⟩
  have shut := System.Reachable.step _ _ drained ⟨calm_single rfl id,.shutdown _ rfl⟩
  have skipped := System.Reachable.step _ _ shut ⟨calm_single rfl id,
    .work _ _ _ (.run [] [] _ _ _ _ rfl (.skip _ _ emptyDigest reads rfl (by decide)))⟩
  have finished := System.Reachable.step _ _ skipped ⟨calm_single rfl id,
    .work _ _ _ (.finish [] [] _ _ rfl (.inl rfl))⟩
  have exited := System.Reachable.step _ _ finished ⟨calm_idle (by simp),
    .work _ _ _ (.exit [] [] rfl rfl rfl)⟩
  exact ⟨_,.step _ _ exited ⟨calm_idle nofun,.awaitTermination _ rfl ⟨rfl,rfl,rfl⟩⟩,rfl⟩

theorem natives_noneLost : ∃ s, s.submitter = .returned ∧ NoneLost emptyDigest natives s := by
  obtain ⟨s,reached,returned⟩ := natives_returned
  exact ⟨s,returned,downloadMultipleFiles_noneLost (by decide) Nat.one_pos reached⟩

theorem checkLib_noneLost {s : State} (distinct : (list.map (·.path)).Nodup) (room : 0 < maxTask)
    (reached : ((checkLib platform list maxTask).whenever (Calm platform)).Reachable s) :
    NoneLost platform.digest list s :=
  downloads_noneLost distinct room reached

/-- A path without a directory above it. -/
def bare : List DownloadTaskListBean := [⟨"natives","https://mirror/natives","natives.jar",none⟩]

/-- The one worker dies, and its bean is neither downloaded nor among the failed ones. -/
theorem bare_lost : (bare.map (·.path)).Nodup ∧
    ∃ s, (downloadMultipleFiles mirror bare 1).Reachable s ∧ s.submitter = .returned ∧
      ¬NoneLost mirror.digest bare s := by
  refine ⟨by decide,?_⟩
  let system := downloadMultipleFiles mirror bare 1
  have start : system.Reachable (started bare fun _ => none) := .start _ ⟨_,rfl⟩
  have reads : Reads emptyDigest emptyDigest := fun _ => Or.inl rfl
  have submitted := System.Reachable.step _ _ start (.execute _ _ _ rfl)
  have drained := System.Reachable.step _ _ submitted (.isEmpty _ _ rfl rfl)
  have shut := System.Reachable.step _ _ drained (.shutdown _ rfl)
  have entered := System.Reachable.step _ _ shut
    (.work _ _ _ (.run [] [] _ _ _ _ rfl (.enter _ _ emptyDigest reads (fun _ => by decide))))
  have called := System.Reachable.step _ _ entered
    (.work _ _ _ (.run [] [] _ _ _ _ rfl (.call _ _ _ (by decide))))
  have threw := System.Reachable.step _ _ called
    (.work _ _ _ (.run [] [] _ _ _ _ rfl (.noParent _ _ _ rfl (by decide))))
  have finished := System.Reachable.step _ _ threw (.work _ _ _ (.finish [] [] _ _ rfl (.inr rfl)))
  have exited := System.Reachable.step _ _ finished (.work _ _ _ (.exit [] [] rfl rfl rfl))
  refine ⟨_,.step _ _ exited (.awaitTermination _ rfl ⟨rfl,rfl,rfl⟩),rfl,?_⟩
  intro noneLost
  have right := (noneLost.returned rfl).2.1 _ List.mem_cons_self List.not_mem_nil
  cases right

end HmclPe.Download.MultipleFiles
