import HmclPe.Download.InstallTask

/-! An install task reports once when what it reads before its downloads is usable. Otherwise it goes
on after the report with a value that is missing and ends with an exception. -/
namespace HmclPe.Download.InstallTask
open HmclPe.Java HmclPe.Game HmclPe.Lib.Runs HmclPe.Lib.Interactions
open HmclPe.Launch.CheckLibTask Relation
open Lib.Interactions.Program Lib.Interactions.Environment
open HmclPe.Download.MultipleFiles (DownloadTaskListBean)

section Reports

/-- The reports of a task that has not finished: one, or none as long as nobody but the user has
cancelled. -/
structure Calm (s : Shared) : Prop where
  finished : s.finished = []
  most : s.failed ≤ 1
  none : s.cancelled = false → s.failed = 0
  once : s.cancelled = true → s.byUser = false → s.failed = 1

/-- What is not downloaded is among the failed files. -/
structure Owing (failedFile : List (Option DownloadTaskListBean)) (s : Shared) : Prop where
  calm : Calm s
  filled : none ∉ failedFile
  accounts : s.cancelled = false → ∀ bean ∈ s.lists, bean ∈ s.downloaded ∨ some bean ∈ failedFile

structure Reported (s : Shared) : Prop where
  calm : Calm s
  cancelled : s.cancelled = true

structure Done (result : Result) (s : Shared) : Prop where
  owing : Owing [] s
  some_ : s.cancelled = false → result.version ≠ none

/-- What holds at all times while a task runs. -/
structure Modest (s : Shared) : Prop where
  finished : s.finished = []
  most : s.failed ≤ 1

variable {s s' : Shared} {failedFile : List (Option DownloadTaskListBean)} {losing : Bool}

theorem Calm.modest (calm : Calm s) : Modest s := ⟨calm.finished,calm.most⟩

theorem Calm.cancels (calm : Calm s) : Calm s.cancels :=
  ⟨calm.finished,calm.most,nofun,nofun⟩

theorem Owing.cancels (owing : Owing failedFile s) : Owing failedFile s.cancels :=
  ⟨owing.calm.cancels,owing.filled,nofun⟩

theorem Reported.owing (reported : Reported s) (filled : none ∉ failedFile) : Owing failedFile s :=
  ⟨reported.calm,filled,fun goes => absurd (reported.cancelled.symm.trans goes) (by simp)⟩

theorem Reported.done (reported : Reported s) (result : Result) : Done result s :=
  ⟨reported.owing List.not_mem_nil,
    fun goes => absurd (reported.cancelled.symm.trans goes) (by simp)⟩

theorem calm_fresh : Calm Shared.fresh := ⟨rfl,Nat.zero_le _,fun _ => rfl,nofun⟩

theorem owing_fresh : Owing [] Shared.fresh :=
  ⟨calm_fresh,List.not_mem_nil,fun _ _ inside => absurd inside List.not_mem_nil⟩

theorem of_disturbed (disturbed : (environment losing).Disturbed s s') : s' = s ∨ s' = s.cancels := by
  induction disturbed with
  | refl => exact .inl rfl
  | tail _ disturbs ih =>
    rcases ih with rfl | rfl
    · exact .inr disturbs
    · exact .inr disturbs

theorem Calm.disturbed (calm : Calm s) (disturbed : (environment losing).Disturbed s s') :
    Calm s' := by
  rcases of_disturbed disturbed with rfl | rfl
  · exact calm
  · exact calm.cancels

/-- Of the others a returned program sees the user only. -/
theorem meets_returned {α : Type} {post : α → Shared → Prop} {result : α} (ends : post result s)
    (cancels : ∀ s, post result s → post result s.cancels)
    (calm : ∀ s, post result s → Calm s) :
    (environment losing).Meets Modest post (.returns result) s := by
  refine meets_returns ends ?_ fun s ends => (calm s ends).modest
  rintro s _ ends rfl
  exact cancels s ends

theorem meets_owing {α : Type} {result : α} {failed : α → List (Option DownloadTaskListBean)}
    (owing : Owing (failed result) s) :
    (environment losing).Meets Modest (fun result s => Owing (failed result) s) (.returns result)
      s :=
  meets_returned owing (fun _ owing => owing.cancels) fun _ owing => owing.calm

theorem meets_done {result : Result} (done : Done result s) :
    (environment losing).Meets Modest Done (.returns result) s :=
  meets_returned done (fun _ done => ⟨done.owing.cancels,nofun⟩) fun _ done => done.owing.calm

theorem cancel_meets (calm : Calm { s with cancelled := true }) :
    (environment losing).Meets Modest (fun _ s => Reported s) cancel s := by
  intro later disturbed
  have here : Reported { later with cancelled := true } := by
    rcases of_disturbed disturbed with rfl | rfl
    · exact ⟨calm,rfl⟩
    · exact ⟨calm.cancels,rfl⟩
  refine ⟨⟨here.calm.finished,here.calm.most⟩,?_⟩
  rintro _ _ rfl
  apply meets_returned here
  · exact fun s reported => ⟨reported.calm.cancels,rfl⟩
  · exact fun s reported => reported.calm

theorem report_meets (calm : Calm s) :
    (environment losing).Meets Modest (fun _ s => Reported s) report s := by
  unfold report isCancelled
  rw [ask_bind]
  intro later disturbed
  have here := calm.disturbed disturbed
  refine ⟨here.modest,?_⟩
  rintro _ _ ⟨rfl,rfl⟩
  dsimp only [returns_bind]
  split
  · rename_i cancelled
    apply cancel_meets
    exact ⟨here.finished,here.most,nofun,fun _ => here.once cancelled⟩
  · rename_i goes
    have clean := here.none (Bool.eq_false_of_not_eq_true goes)
    -- the user may still cancel between the look at the flag and the callback
    intro last again
    have counted : last.failed = 0 ∧ last.finished = [] := by
      rcases of_disturbed again with rfl | rfl
      · exact ⟨clean,here.finished⟩
      · exact ⟨clean,here.finished⟩
    obtain ⟨none,finished⟩ := counted
    have one : last.failed + 1 = 1 := by rw [none]
    refine ⟨⟨finished,none.le.trans (Nat.zero_le 1)⟩,?_⟩
    rintro _ _ rfl
    apply cancel_meets
    exact ⟨finished,one.le,nofun,fun _ _ => one⟩

theorem downloadMultipleFiles_meets {list : List DownloadTaskListBean} {maxTask : Int}
    (room : 1 ≤ maxTask) (owing : Owing [] s) :
    (environment false).Meets Modest (fun failedFile s => Owing failedFile s)
      (downloadMultipleFiles list maxTask) s := by
  unfold downloadMultipleFiles awaits
  rw [if_neg (by omega),ask_bind]
  intro later disturbed
  have here : Owing [] later := by
    rcases of_disturbed disturbed with rfl | rfl
    · exact owing
    · exact owing.cancels
  refine ⟨here.calm.modest,?_⟩
  rintro ⟨interrupted,failedFile⟩ after ⟨call,reached,returned,-,rfl,rfl⟩
  have accounts := CancelledFiles.returned_accounts (by omega) reached returned
  have filled := CancelledFiles.session_filled reached
  have left : Owing call.session.failedFile { later with
      cancelled := call.session.cancelled
      byUser := call.session.byUser
      lists := later.lists ++ list
      downloaded := later.downloaded ++ call.session.downloaded
      live := later.live || !isTerminated call.threadPool } := by
    rcases CancelledFiles.session_flags reached with ⟨cancelled,byUser⟩ | ⟨cancelled,byUser⟩
    · rw [cancelled] at accounts
      rw [cancelled,byUser]
      refine ⟨⟨here.calm.finished,here.calm.most,here.calm.none,here.calm.once⟩,filled,?_⟩
      intro goes bean inside
      rcases List.mem_append.mp inside with before | now
      · have old := (here.accounts goes bean before).resolve_right List.not_mem_nil
        exact .inl (List.mem_append_left _ old)
      · rcases accounts goes bean now with downloaded | failed
        · exact .inl (List.mem_append_right _ downloaded)
        · exact .inr failed
    · rw [cancelled,byUser]
      exact ⟨⟨here.calm.finished,here.calm.most,nofun,nofun⟩,filled,nofun⟩
  dsimp only [returns_bind]
  split
  · apply (report_meets left.calm).bind
    intro _ s reported
    exact meets_owing (reported.owing filled)
  · exact meets_owing left

theorem reportFiles_meets (owing : Owing failedFile s) :
    (environment false).Meets Modest (fun _ s => Reported s) (reportFiles failedFile) s := by
  unfold reportFiles reads
  rw [ask_bind]
  intro later disturbed
  have here := owing.calm.disturbed disturbed
  refine ⟨here.modest,?_⟩
  rintro changed _ ⟨rfl,loses⟩
  dsimp only [returns_bind]
  rw [if_neg]
  swap
  · rintro (changes | inside)
    · exact absurd (loses changes).1 (by simp)
    · exact owing.filled inside
  exact report_meets here

theorem reportFailed_meets (owing : Owing failedFile s) :
    (environment false).Meets Modest (fun _ s => Owing [] s) (reportFailed failedFile) s := by
  unfold reportFailed
  by_cases all : failedFile = []
  · rw [if_pos all]
    rw [all] at owing
    exact meets_owing owing
  · rw [if_neg all]
    apply (reportFiles_meets owing).mono
    intro _ s reported
    exact reported.owing List.not_mem_nil

theorem mapM_some_iff {α : Type} {xs : List (Option α)} :
    (∃ ys, xs.mapM id = some ys) ↔ none ∉ xs := by
  induction xs with
  | nil => exact iff_of_true ⟨[],rfl⟩ List.not_mem_nil
  | cons x xs ih =>
    cases x with
    | none => simp
    | some y =>
      rw [List.mem_cons,not_or,and_iff_right (by simp),← ih]
      cases rest : xs.mapM id with
      | none => simp [rest]
      | some ys => simp [rest]

theorem bind_return_iff {α β : Type} {o : Option α} {f : α → β} :
    (∃ b, (do let a ← o; return f a) = some b) ↔ ∃ a, o = some a := by
  cases o <;> simp

theorem MinecraftInstall.libList_some_iff {task : MinecraftInstall} {raw : VersionJson} :
    (∃ list, task.libList raw = some list) ↔
      none ∉ raw.libraries ∧ (getDownloadInfo raw.version).url ≠ none := by
  rw [libList,← mapM_some_iff]
  cases (getDownloadInfo raw.version).url with
  | none => simp
  | some url =>
    rw [and_iff_left (by simp)]
    exact bind_return_iff

theorem VersionJson.addPatch_some_iff {raw : VersionJson} {additional : Version} :
    (∃ version, raw.addPatch additional = some version) ↔ none ∉ raw.patches := by
  rw [addPatch,← mapM_some_iff]
  exact bind_return_iff

theorem MinecraftInstall.assetsList_some_iff {task : MinecraftInstall} {version : Version}
    {url : Text} {index : AssetIndexJson} :
    (∃ list, task.assetsList version url index = some list) ↔
      ∃ objects, index.objects = some objects ∧ none ∉ objects := by
  rw [assetsList]
  cases index.objects with
  | none => simp
  | some objects =>
    simp only [Option.some.injEq,exists_eq_left',← mapM_some_iff]
    exact bind_return_iff

theorem MinecraftInstall.meets {task : MinecraftInstall} (usable : task.Usable)
    (room : 1 ≤ task.setting.maxTask) (owing : Owing [] s) :
    (environment false).Meets Modest Done task.doInBackground s := by
  obtain ⟨gameVersionUrl,given,versionJson,answered,raw,parsed,complete,patches,jar,url,index,
    indexJson,answered',assets,parsed',objects,values,complete'⟩ := usable
  obtain ⟨libs,libs_⟩ := (@libList_some_iff task raw).mpr ⟨complete,jar⟩
  obtain ⟨assets',assets_⟩ := (@assetsList_some_iff task raw.version (task.assetIndexUrl url)
    assets).mpr ⟨objects,values,complete'⟩
  obtain ⟨patched,patched_⟩ := (@VersionJson.addPatch_some_iff raw
    (((raw.version.setId ("game" : String)).setVersion (some raw.version.id)).setPriority
      (some 0))).mpr patches
  unfold doInBackground
  simp only [given,answered,parsed,index,answered',parsed',libs_,assets_,patched_,orThrow_some,
    returns_bind,doGet,fromJson,pure_eq]
  apply (downloadMultipleFiles_meets room owing).bind
  intro failedLibs s owing
  apply (reportFailed_meets owing).bind
  intro _ s owing
  apply (downloadMultipleFiles_meets room owing).bind
  intro failedAssets s owing
  apply (reportFailed_meets owing).bind
  intro _ s owing
  exact meets_done ⟨owing,fun _ => nofun⟩

theorem FabricInstall.list_some_iff {task : FabricInstall} {patch : VersionJson} :
    (∃ list, task.list patch = some list) ↔ none ∉ patch.libraries := by
  rw [list,← mapM_some_iff]
  exact bind_return_iff

/-- A task that ends with a report returns nothing. -/
theorem reported_meets {program : Background Unit} {result : Result}
    (reports : (environment losing).Meets Modest (fun _ s => Reported s) program s) :
    (environment losing).Meets Modest Done (do program; return result) s := by
  apply reports.bind
  intro _ s reported
  exact meets_done (reported.done result)

/-- What Forge and Fabric do after their downloads. -/
theorem files_meets {program : Background Result} {result : Result}
    (owing : Owing failedFile s)
    (goes : Owing [] s → (environment false).Meets Modest Done program s) :
    (environment false).Meets Modest Done
      (if failedFile = [] then program else do reportFiles failedFile; return result) s := by
  by_cases all : failedFile = []
  · rw [if_pos all]
    rw [all] at owing
    exact goes owing
  · rw [if_neg all]
    exact reported_meets (reportFiles_meets owing)

theorem FabricInstall.meets {task : FabricInstall} (usable : task.Usable)
    (room : task.getProfileJson task.patchUrl = .ioException ∨ 1 ≤ task.setting.maxTask)
    (owing : Owing [] s) : (environment false).Meets Modest Done task.doInBackground s := by
  unfold doInBackground
  rcases usable with failed | ⟨patchStr,answered,patch,parsed,complete⟩
  · rw [failed]
    exact reported_meets (report_meets owing.calm)
  · rw [answered] at room ⊢
    have room := room.resolve_left (by simp)
    obtain ⟨list,list_⟩ := (@list_some_iff task patch).mpr complete
    simp only [fromJson,parsed,list_,orThrow_some,returns_bind,pure_eq]
    apply (downloadMultipleFiles_meets room owing).bind
    intro failedFiles s owing
    exact files_meets owing fun owing => meets_done ⟨owing,fun _ => nofun⟩

namespace ForgeInstaller

variable {task : ForgeInstaller}

theorem unzipFile_meets (owing : Owing [] s) :
    (environment false).Meets Modest (fun _ s => Owing [] s) task.unzipFile s := by
  unfold unzipFile
  split
  · exact meets_owing owing
  · apply (report_meets owing.calm).mono
    intro _ s reported
    exact reported.owing List.not_mem_nil

theorem isNewInstaller_meets (owing : Owing [] s) :
    (environment false).Meets Modest (fun isNew s => isNew = task.isNew ∧ Owing [] s)
      task.isNewInstaller s := by
  have returned : ∀ s, Owing [] s → (environment false).Meets Modest
      (fun isNew s => isNew = task.isNew ∧ Owing [] s) (.returns task.isNew) s := by
    intro s owing
    apply meets_returned ⟨rfl,owing⟩
    · exact fun s same => ⟨same.1,same.2.cancels⟩
    · exact fun s same => same.2.calm
  unfold isNewInstaller
  split
  · exact returned s owing
  · apply (report_meets owing.calm).bind
    intro _ s reported
    exact returned s (reported.owing List.not_mem_nil)

theorem newList_some_iff {patch : VersionJson} {profile : ForgeNewInstallProfile} :
    (∃ list, task.newList patch profile = some list) ↔
      none ∉ patch.libraries ∧ none ∉ profile.libraries := by
  rw [newList,← mapM_some_iff,← mapM_some_iff]
  cases patch.libraries.mapM id with
  | none => simp
  | some libraries =>
    rw [and_iff_right ⟨libraries,rfl⟩]
    exact bind_return_iff

theorem oldList_some_iff {patch : VersionJson} {install : Option ForgeInstall} :
    (∃ list, task.oldList patch install = some list) ↔ patch.libraries = [] ∨
      none ∉ patch.libraries ∧ install.bind (·.path) ≠ none := by
  rw [oldList,← mapM_some_iff]
  cases patch.libraries with
  | nil => simp
  | cons library libraries =>
    cases install.bind (·.path) with
    | none => simp
    | some universal =>
      rw [or_iff_right (by simp),and_iff_left (by simp)]
      exact bind_return_iff

theorem installNew_meets (usable : task.UsableNew) (room : 1 ≤ task.setting.maxTask)
    (owing : Owing [] s) : (environment false).Meets Modest Done task.installNew s := by
  obtain ⟨versionText,read,profileText,read',patch,parsed,complete,profile,parsed',complete'⟩ :=
    usable
  obtain ⟨list,list_⟩ := (@newList_some_iff task patch profile).mpr ⟨complete,complete'⟩
  unfold installNew
  simp only [fromJson,read,read',parsed,parsed',list_,orThrow_some,returns_bind,pure_eq]
  apply (downloadMultipleFiles_meets room owing).bind
  intro failedFiles s owing
  exact files_meets owing fun owing => meets_done ⟨owing,fun _ => nofun⟩

theorem copyUniversal_meets {patch : VersionJson} {install : Option ForgeInstall}
    {universal : Artifact} (placed : install.bind (·.path) = some universal) (owing : Owing [] s) :
    (environment false).Meets Modest Done (task.copyUniversal patch install) s := by
  unfold copyUniversal
  rw [placed,orThrow_some,returns_bind]
  split
  · exact meets_done ⟨owing,fun _ => nofun⟩
  · exact reported_meets (report_meets owing.calm)

theorem installOld_meets (usable : task.UsableOld) (room : 1 ≤ task.setting.maxTask)
    (owing : Owing [] s) : (environment false).Meets Modest Done task.installOld s := by
  obtain ⟨profileText,read,profile,parsed,patch,given,complete,placed⟩ := usable
  obtain ⟨universal,placed⟩ := Option.ne_none_iff_exists'.mp placed
  obtain ⟨list,list_⟩ := (@oldList_some_iff task patch profile.install).mpr
    (.inr ⟨complete,by rw [placed]; simp⟩)
  unfold installOld
  simp only [fromJson,read,parsed,given,list_,orThrow_some,returns_bind,pure_eq]
  apply (downloadMultipleFiles_meets room owing).bind
  intro failedFiles s owing
  exact files_meets owing fun owing => copyUniversal_meets placed owing

theorem meets (usable : task.Usable) (room : 1 ≤ task.setting.maxTask) (owing : Owing [] s) :
    (environment false).Meets Modest Done task.doInBackground s := by
  unfold Usable at usable
  unfold doInBackground
  apply (unzipFile_meets owing).bind
  intro _ s owing
  apply (isNewInstaller_meets owing).bind
  rintro _ s ⟨rfl,owing⟩
  split
  · rename_i new
    rw [if_pos new] at usable
    exact installNew_meets usable room owing
  · rename_i old
    rw [if_neg old] at usable
    exact installOld_meets usable room owing

end ForgeInstaller

end Reports

section Surviving

variable {α β : Type} {losing : Bool} {f : α → Background β}

theorem report_yields (s : Shared) : ∃ s', (environment losing).Yields report s () s' := by
  have looks : (environment losing).Yields isCancelled s s.cancelled s := yields_ask ⟨rfl,rfl⟩
  have cancels (s : Shared) :
      (environment losing).Yields cancel s () { s with cancelled := true } := yields_ask rfl
  unfold report
  cases flag : s.cancelled with
  | true =>
    rw [flag] at looks
    exact ⟨_,looks.bind (cancels s)⟩
  | false =>
    have calls : (environment losing).Yields onFailed s () { s with failed := s.failed + 1 } :=
      yields_ask rfl
    rw [flag] at looks
    exact ⟨_,looks.bind (calls.bind (cancels _))⟩

/-- All files may be there. -/
theorem downloadMultipleFiles_yields {list : List DownloadTaskListBean} {maxTask : Int}
    (room : 1 ≤ maxTask) (s : Shared) :
    ∃ s', (environment losing).Yields (downloadMultipleFiles list maxTask) s [] s' := by
  obtain ⟨call,reached,returned,interrupted,session⟩ :=
    @CancelledFiles.exists_returned losing maxTask.toNat list s.cancelled s.byUser (by omega)
  have failedFile : [] = call.session.failedFile := by rw [session]
  have waits : (environment losing).Yields (awaits list maxTask.toNat) s (false,[]) _ :=
    yields_ask ⟨call,reached,returned,interrupted.symm,failedFile,rfl⟩
  unfold downloadMultipleFiles
  rw [if_neg (by omega)]
  exact ⟨_,waits.bind (.returns _ _)⟩

theorem survives_doGet {response : Response} {f : Option Text → Background β}
    (survives : (environment losing).Survives (doGet response >>= f)) :
    ∃ text, (environment losing).Survives (f text) ∧ ∀ s, text = some s → response = .text s := by
  cases response with
  | text s =>
    refine ⟨some s,survives,?_⟩
    rintro _ ⟨⟩
    rfl
  | ioException =>
    refine ⟨none,survives.next fun s => ?_,nofun⟩
    obtain ⟨s',reports⟩ := @report_yields losing s
    exact ⟨s',reports.bind (.returns _ _)⟩
  | runtimeException => exact absurd survives not_survives_throws

theorem survives_fromJson {parse : Text → Parsed α} {text : Option Text}
    {f : Option α → Background β}
    (survives : (environment losing).Survives (fromJson parse text >>= f)) :
    ∃ o, (environment losing).Survives (f o) ∧
      ∀ a, o = some a → ∃ s, text = some s ∧ parse s = .value a := by
  cases text with
  | none => exact ⟨none,survives,nofun⟩
  | some s =>
    unfold fromJson at survives
    dsimp only at survives
    cases parsed : parse s with
    | value a =>
      rw [parsed] at survives
      refine ⟨some a,survives,?_⟩
      rintro _ ⟨⟩
      exact ⟨s,rfl,parsed⟩
    | null =>
      rw [parsed] at survives
      exact ⟨none,survives,nofun⟩
    | throws =>
      rw [parsed] at survives
      exact absurd survives not_survives_throws

theorem survives_downloadMultipleFiles {list : List DownloadTaskListBean} {maxTask : Int}
    {f : List (Option DownloadTaskListBean) → Background β}
    (survives : (environment losing).Survives (downloadMultipleFiles list maxTask >>= f)) :
    1 ≤ maxTask ∧ (environment losing).Survives (f []) := by
  by_cases room : 1 ≤ maxTask
  · exact ⟨room,survives.next (downloadMultipleFiles_yields room)⟩
  · unfold downloadMultipleFiles at survives
    rw [if_pos (by omega)] at survives
    exact absurd survives not_survives_throws

theorem MinecraftInstall.usable_of_survives {task : MinecraftInstall}
    (survives : (environment losing).Survives task.doInBackground) :
    task.Usable ∧ 1 ≤ task.setting.maxTask := by
  unfold doInBackground at survives
  obtain ⟨gameVersionUrl,given,survives⟩ := survives.orThrow
  obtain ⟨versionJson,survives,answered⟩ := survives_doGet survives
  obtain ⟨rawPatch,survives,parsed⟩ := survives_fromJson survives
  obtain ⟨raw,some_,survives⟩ := survives.orThrow
  obtain ⟨url,index,survives⟩ := survives.orThrow
  obtain ⟨assetIndexJson,survives,answered'⟩ := survives_doGet survives
  obtain ⟨assetIndex,survives,parsed'⟩ := survives_fromJson survives
  obtain ⟨libs,libs_,survives⟩ := survives.orThrow
  obtain ⟨assets,some_',survives⟩ := survives.orThrow
  obtain ⟨assets',assets_,survives⟩ := survives.orThrow
  obtain ⟨room,survives⟩ := survives_downloadMultipleFiles survives
  obtain ⟨-,survives⟩ := survives_downloadMultipleFiles survives
  obtain ⟨patched,patched_,-⟩ := survives.orThrow
  have patches := VersionJson.addPatch_some_iff.mp ⟨patched,patched_⟩
  obtain ⟨versionJson,text,parsed⟩ := parsed raw some_
  obtain ⟨indexJson,text',parsed'⟩ := parsed' assets some_'
  obtain ⟨complete,jar⟩ := libList_some_iff.mp ⟨libs,libs_⟩
  obtain ⟨objects,values,complete'⟩ := assetsList_some_iff.mp ⟨assets',assets_⟩
  exact ⟨⟨gameVersionUrl,given,versionJson,answered _ text,raw,parsed,complete,patches,jar,url,
    index,indexJson,answered' _ text',assets,parsed',objects,values,complete'⟩,room⟩

theorem FabricInstall.usable_of_survives {task : FabricInstall}
    (survives : (environment losing).Survives task.doInBackground) :
    task.Usable ∧ (task.getProfileJson task.patchUrl = .ioException ∨ 1 ≤ task.setting.maxTask) := by
  unfold doInBackground at survives
  cases answered : task.getProfileJson task.patchUrl with
  | runtimeException =>
    rw [answered] at survives
    exact absurd survives not_survives_throws
  | ioException => exact ⟨.inl answered,.inl rfl⟩
  | text patchStr =>
    rw [answered] at survives
    obtain ⟨read,survives,parsed⟩ := survives_fromJson survives
    obtain ⟨patch,some_,survives⟩ := survives.orThrow
    obtain ⟨list,list_,survives⟩ := survives.orThrow
    obtain ⟨room,-⟩ := survives_downloadMultipleFiles survives
    obtain ⟨_,⟨⟩,parsed⟩ := parsed patch some_
    exact ⟨.inr ⟨patchStr,answered,patch,parsed,list_some_iff.mp ⟨list,list_⟩⟩,.inr room⟩

namespace ForgeInstaller

variable {task : ForgeInstaller}

theorem unzipFile_yields (s : Shared) :
    ∃ s', (environment losing).Yields task.unzipFile s () s' := by
  unfold unzipFile
  split
  · exact ⟨s,.returns _ _⟩
  · exact report_yields s

theorem isNewInstaller_yields (s : Shared) :
    ∃ s', (environment losing).Yields task.isNewInstaller s task.isNew s' := by
  unfold isNewInstaller
  split
  · exact ⟨s,.returns _ _⟩
  · obtain ⟨s',reports⟩ := @report_yields losing s
    exact ⟨s',reports.bind (.returns _ _)⟩

theorem usableNew_of_survives (survives : (environment losing).Survives task.installNew) :
    task.UsableNew ∧ 1 ≤ task.setting.maxTask := by
  unfold installNew at survives
  obtain ⟨readPatch,survives,parsed⟩ := survives_fromJson survives
  obtain ⟨readProfile,survives,parsed'⟩ := survives_fromJson survives
  obtain ⟨patch,some_,survives⟩ := survives.orThrow
  obtain ⟨profile,some_',survives⟩ := survives.orThrow
  obtain ⟨list,list_,survives⟩ := survives.orThrow
  obtain ⟨room,-⟩ := survives_downloadMultipleFiles survives
  obtain ⟨versionText,read,parsed⟩ := parsed patch some_
  obtain ⟨profileText,read',parsed'⟩ := parsed' profile some_'
  obtain ⟨complete,complete'⟩ := newList_some_iff.mp ⟨list,list_⟩
  exact ⟨⟨versionText,read,profileText,read',patch,parsed,complete,profile,parsed',complete'⟩,room⟩

/-- Without libraries the missing path shows below the downloads only. -/
theorem usableOld_of_survives (survives : (environment losing).Survives task.installOld) :
    task.UsableOld ∧ 1 ≤ task.setting.maxTask := by
  unfold installOld at survives
  obtain ⟨readProfile,survives,parsed⟩ := survives_fromJson survives
  obtain ⟨profile,some_,survives⟩ := survives.orThrow
  obtain ⟨patch,given,survives⟩ := survives.orThrow
  obtain ⟨list,list_,survives⟩ := survives.orThrow
  obtain ⟨room,survives⟩ := survives_downloadMultipleFiles survives
  rw [if_pos rfl] at survives
  unfold copyUniversal at survives
  obtain ⟨universal,placed,-⟩ := survives.orThrow
  obtain ⟨profileText,read,parsed⟩ := parsed profile some_
  have complete : none ∉ patch.libraries := by
    rcases oldList_some_iff.mp ⟨list,list_⟩ with empty | ⟨complete,-⟩
    · rw [empty]
      exact List.not_mem_nil
    · exact complete
  exact ⟨⟨profileText,read,profile,parsed,patch,given,complete,by rw [placed]; simp⟩,room⟩

theorem usable_of_survives (survives : (environment losing).Survives task.doInBackground) :
    task.Usable ∧ 1 ≤ task.setting.maxTask := by
  unfold doInBackground at survives
  have survives := survives.next unzipFile_yields
  have survives := survives.next isNewInstaller_yields
  unfold Usable
  split at survives
  · rename_i new
    rw [if_pos new]
    exact usableNew_of_survives survives
  · rename_i old
    rw [if_neg old]
    exact usableOld_of_survives survives

end ForgeInstaller

theorem Task.usable_of_survives {task : Task}
    (survives : (environment losing).Survives task.doInBackground) : task.Usable := by
  cases task with
  | minecraft task => exact MinecraftInstall.usable_of_survives survives
  | forge task => exact ForgeInstaller.usable_of_survives survives
  | fabric task => exact FabricInstall.usable_of_survives survives

end Surviving

section Runs

variable {task : Task} {s s' : State}

theorem Task.meets {s : Shared} (usable : task.Usable) (owing : Owing [] s) :
    (environment false).Meets Modest Done task.doInBackground s := by
  cases task with
  | minecraft task => exact MinecraftInstall.meets usable.1 usable.2 owing
  | forge task => exact ForgeInstaller.meets usable.1 usable.2 owing
  | fabric task => exact FabricInstall.meets usable.1 usable.2 owing

/-- A task is over with one callback, or with none after the user has cancelled it. -/
structure Over (s : Shared) : Prop where
  most : s.failed + s.finished.length ≤ 1
  once : s.byUser = false → s.failed + s.finished.length = 1
  downloaded : s.finished ≠ [] → s.lists ⊆ s.downloaded

/-- All beans are downloaded and no callback was called. -/
structure Ready (s : Shared) : Prop where
  failed : s.failed = 0
  finished : s.finished = []
  downloaded : s.lists ⊆ s.downloaded

inductive Sound : State → Prop
  | idle (s : Shared) (owing : Owing [] s) : Sound ⟨none,s,.waiting⟩
  | running (program : Background Result) (s : Shared)
      (meets : (environment false).Meets Modest Done program s) : Sound ⟨some program,s,.waiting⟩
  | serving (result : Result) (s : Shared) (version : Version) (ready : Ready s) :
      Sound ⟨some (.returns result),s,.serving version⟩
  | settled (background : Option (Background Result)) (s : Shared) (post : Post) (ends : post.Over)
      (still : ∀ program, background = some program → ∃ result, program = .returns result)
      (over_ : Over s) : Sound ⟨background,s,post⟩

theorem Post.Over.not_waiting {post : Post} (ends : post.Over) : post ≠ .waiting := by
  rintro rfl
  exact ends

theorem Post.Over.not_serving {post : Post} (ends : post.Over) (version : Version) :
    post ≠ .serving version := by
  rintro rfl
  exact ends

theorem Calm.over {s : Shared} (calm : Calm s) (cancelled : s.cancelled = true) : Over s where
  most := by
    rw [calm.finished]
    exact calm.most
  once := by
    intro goes
    rw [calm.finished]
    exact calm.once cancelled goes
  downloaded some_ := absurd calm.finished some_

theorem Over.cancels {s : Shared} (over_ : Over s) : Over s.cancels :=
  ⟨over_.most,nofun,over_.downloaded⟩

theorem Done.ready {result : Result} {s : Shared} (done : Done result s)
    (goes : s.cancelled = false) : Ready s where
  failed := done.owing.calm.none goes
  finished := done.owing.calm.finished
  downloaded := fun bean inside =>
    (done.owing.accounts goes bean inside).resolve_right List.not_mem_nil

theorem Ready.finishes {s : Shared} (ready : Ready s) (version : Option Version) :
    Over (Task.finishes version s) where
  most := by simp [Task.finishes,ready.failed,ready.finished]
  once _ := by simp [Task.finishes,ready.failed,ready.finished]
  downloaded _ := ready.downloaded

theorem Ready.fails {s : Shared} (ready : Ready s) : Over (Task.fails s) where
  most := by simp [Task.fails,ready.failed,ready.finished]
  once _ := by simp [Task.fails,ready.failed,ready.finished]
  downloaded some_ := absurd ready.finished some_

theorem Sound.reportsOnce (sound : Sound s) : ReportsOnce s := by
  cases sound with
  | idle s owing =>
    refine ⟨nofun,?_,nofun,?_⟩
    · rw [owing.calm.finished]
      exact owing.calm.most
    · exact fun some_ => absurd owing.calm.finished some_
  | running program s meets =>
    obtain ⟨finished,most⟩ := meets.now
    refine ⟨?_,?_,nofun,fun some_ => absurd finished some_⟩
    · rintro ⟨⟩
      exact not_meets_throws meets
    · rw [finished]
      exact most
  | serving result s version ready =>
    refine ⟨nofun,?_,nofun,?_⟩
    · rw [ready.failed,ready.finished]
      decide
    · exact fun some_ => absurd ready.finished some_
  | settled background s post ends still over_ =>
    refine ⟨?_,over_.most,fun _ => over_.once,over_.downloaded⟩
    intro throws
    obtain ⟨result,returned⟩ := still .throws throws
    cases returned

/-- A task that has returned is over. -/
theorem Over.sound {result : Result} {s : Shared} (over_ : Over s) {post : Post}
    (ends : post.Over) : Sound ⟨some (.returns result),s,post⟩ := by
  refine .settled _ s post ends ?_ over_
  rintro _ ⟨⟩
  exact ⟨result,rfl⟩

theorem Ready.onPostExecute {s : Shared} (ready : Ready s) (task : Task) (result : Result) :
    Sound ⟨some (.returns result),(task.onPostExecute result s).1,
      (task.onPostExecute result s).2⟩ := by
  unfold Task.onPostExecute
  split
  · exact (ready.finishes _).sound trivial
  · exact ready.fails.sound trivial
  · split
    · exact .serving result s _ ready
    · exact (ready.finishes _).sound trivial
  · exact ready.fails.sound trivial
  · exact (ready.finishes _).sound trivial

theorem Ready.onReceive {s : Shared} (ready : Ready s) (version : Version) {code : Option Int}
    (number : code.isSome = true) : Over (Task.onReceive version code s) := by
  obtain ⟨code,rfl⟩ := Option.isSome_iff_exists.mp number
  unfold Task.onReceive
  dsimp only
  split
  · exact ready.fails
  · exact ready.finishes _

theorem Sound.idle_inv (sound : Sound s) (idle : s.background = none) (waits : s.post = .waiting) :
    Owing [] s.shared := by
  cases sound with
  | idle shared owing => exact owing
  | running => cases idle
  | serving => cases waits
  | settled _ _ _ ends => exact absurd waits ends.not_waiting

theorem Sound.returned_inv {result : Result} (sound : Sound s)
    (at_ : s.background = some (.returns result)) (waits : s.post = .waiting) :
    Done result s.shared := by
  cases sound with
  | idle => cases at_
  | running program shared meets =>
    obtain rfl := Option.some.inj at_
    exact meets.returned
  | serving => cases waits
  | settled _ _ _ ends => exact absurd waits ends.not_waiting

theorem Sound.serving_inv {version : Version} (sound : Sound s) (at_ : s.post = .serving version) :
    Ready s.shared ∧ ∃ result, s.background = some (.returns result) := by
  cases sound with
  | idle => cases at_
  | running => cases at_
  | serving result shared _ ready => exact ⟨ready,result,rfl⟩
  | settled _ _ _ ends => exact absurd at_ (ends.not_serving version)

theorem Sound.step (usable : task.Usable) (sound : Sound s) (step : Step task false s s') :
    Sound s' := by
  cases step with
  | start idle waits =>
    rw [waits]
    exact .running _ _ (task.meets usable (sound.idle_inv idle waits))
  | skip idle waits cancelled =>
    refine .settled _ _ _ trivial ?_ ((sound.idle_inv idle waits).calm.over cancelled)
    intro program at_
    cases idle.symm.trans at_
  | run program program' shared at_ step =>
    cases sound with
    | idle => cases at_
    | running =>
      obtain rfl := Option.some.inj at_
      exact .running _ _ (Meets.step ‹_› step)
    | serving =>
      obtain rfl := Option.some.inj at_
      cases step
    | settled _ _ _ _ still =>
      obtain ⟨result,rfl⟩ := still program at_
      cases step
  | raised at_ waits => exact absurd at_ sound.reportsOnce.raises
  | onCancelled result at_ waits cancelled =>
    rw [at_]
    exact ((sound.returned_inv at_ waits).owing.calm.over cancelled).sound trivial
  | onPostExecute result at_ waits goes =>
    rw [at_]
    exact ((sound.returned_inv at_ waits).ready goes).onPostExecute task result
  | onReceive version code at_ number =>
    obtain ⟨ready,result,returned⟩ := sound.serving_inv at_
    rw [returned]
    exact (ready.onReceive version (number.resolve_left (by simp))).sound trivial
  | onReceiveAgain _ _ _ loses => cases loses
  | cancel =>
    cases sound with
    | idle shared owing => exact .idle _ owing.cancels
    | running program shared meets => exact .running _ _ (meets.disturbed (.single rfl))
    | serving result shared version ready =>
      exact .serving _ _ _ ⟨ready.failed,ready.finished,ready.downloaded⟩
    | settled _ _ _ ends still over_ => exact .settled _ _ _ ends still over_.cancels

theorem execute_sound (usable : task.Usable) : (execute task false).Invariant Sound := by
  refine ⟨?_,fun s s' _ sound step => sound.step usable step⟩
  rintro s rfl
  exact .idle _ owing_fresh

theorem answers_mono {losing : Bool} {query : Query} {answer : Answer query} {s s' : Shared}
    (answers : Answers false query s answer s') : Answers losing query s answer s' := by
  cases query with
  | isCancelled => exact answers
  | onFailed => exact answers
  | cancel => exact answers
  | awaits list maxTask =>
    obtain ⟨call,reached,rest⟩ := answers
    exact ⟨call,CancelledFiles.downloadMultipleFiles_mono reached,rest⟩
  | reads =>
    obtain ⟨same,loses⟩ := answers
    exact ⟨same,fun changed => absurd (loses changed).1 (by simp)⟩

theorem Step.mono {losing : Bool} (step : Step task false s s') : Step task losing s s' := by
  cases step with
  | start idle waits goes => exact .start s idle waits goes
  | skip idle waits cancelled => exact .skip s idle waits cancelled
  | run program program' shared at_ step =>
    cases step with
    | answered query next _ _ answer answers =>
      exact .run s _ _ shared at_ (.answered query next _ _ answer (answers_mono answers))
  | raised at_ waits => exact .raised s at_ waits
  | onCancelled result at_ waits cancelled => exact .onCancelled s result at_ waits cancelled
  | onPostExecute result at_ waits goes => exact .onPostExecute s result at_ waits goes
  | onReceive version code at_ number =>
    exact .onReceive s version code at_ (.inr (number.resolve_left (by simp)))
  | onReceiveAgain _ _ _ loses => cases loses
  | cancel => exact .cancel s

/-- The runs in which no download is lost are runs of the task. -/
theorem execute_mono {losing : Bool} (reached : (execute task false).Reachable s) :
    (execute task losing).Reachable s := by
  induction reached with
  | start s starts => exact .start s starts
  | step s s' _ steps before => exact .step s s' before (Step.mono steps)

theorem answered (losing : Bool) (query : Query) (s : Shared) :
    ∃ answer s', (environment losing).Answers query s answer s' := by
  cases query with
  | isCancelled => exact ⟨_,_,rfl,rfl⟩
  | onFailed => exact ⟨(),_,rfl⟩
  | cancel => exact ⟨(),_,rfl⟩
  | awaits list maxTask =>
    obtain ⟨call,reached,returned⟩ :=
      CancelledFiles.exists_call losing list maxTask s.cancelled s.byUser
    exact ⟨(_,_),_,call,reached,returned,rfl,rfl,rfl⟩
  | reads => exact ⟨false,s,rfl,nofun⟩

theorem steps_run {losing : Bool} {program program' : Background Result} {s s' : Shared}
    {post : Post} (steps : ReflTransGen (environment losing).Step (program,s) (program',s')) :
    ReflTransGen (Step task losing) ⟨some program,s,post⟩ ⟨some program',s',post⟩ := by
  refine steps.lift (fun (program,s) => (⟨some program,s,post⟩ : State)) ?_
  rintro ⟨program,s⟩ ⟨program',s'⟩ step
  exact .run _ program program' s' rfl step

theorem onPostExecute_over (task : Task) (result : Result) (s : Shared) :
    (task.onPostExecute result s).2.Over ∨
      ∃ version, (task.onPostExecute result s).2 = .serving version := by
  unfold Task.onPostExecute
  split
  · exact .inl trivial
  · exact .inl trivial
  · split
    · exact .inr ⟨_,rfl⟩
    · exact .inl trivial
  · exact .inl trivial
  · exact .inl trivial

theorem serving_ends {losing : Bool} {version : Version} (at_ : s.post = .serving version) :
    ∃ s', ReflTransGen (Step task losing) s s' ∧ s'.post.Over :=
  ⟨_,.single (.onReceive s version (some 0) at_ (.inr rfl)),trivial⟩

theorem running_ends {program : Background Result} {s : Shared}
    (meets : (environment false).Meets Modest Done program s) :
    ∃ s', ReflTransGen (Step task false) ⟨some program,s,.waiting⟩ s' ∧ s'.post.Over := by
  obtain ⟨result,after,yields⟩ := meets.yields (answered false)
  have runs := @steps_run task _ _ _ _ _ .waiting yields.run
  cases flag : after.cancelled with
  | true => exact ⟨_,runs.tail (.onCancelled _ result rfl rfl flag),trivial⟩
  | false =>
    have posts := runs.tail (.onPostExecute _ result rfl rfl flag)
    rcases onPostExecute_over task result after with over_ | ⟨version,serves⟩
    · exact ⟨_,posts,over_⟩
    · obtain ⟨last,received,over_⟩ := @serving_ends task
        ⟨some (.returns result),(task.onPostExecute result after).1,
          (task.onPostExecute result after).2⟩ false version serves
      exact ⟨last,posts.trans received,over_⟩

/-- A usable task can always come to its end. -/
theorem Sound.ends (usable : task.Usable) (sound : Sound s) :
    ∃ s', ReflTransGen (Step task false) s s' ∧ s'.post.Over := by
  cases sound with
  | idle s owing =>
    cases flag : s.cancelled with
    | true => exact ⟨_,.single (.skip _ rfl rfl flag),trivial⟩
    | false =>
      obtain ⟨last,runs,over_⟩ := @running_ends task _ _ (task.meets usable owing)
      exact ⟨last,.head (.start _ rfl rfl flag) runs,over_⟩
  | running program s meets => exact running_ends meets
  | serving result s version ready => exact serving_ends rfl
  | settled background s post ends => exact ⟨_,.refl,ends⟩

theorem exists_throws {losing : Bool}
    (raises : (environment losing).Raises task.doInBackground .fresh) :
    ∃ s, (execute task losing).Reachable s ∧ s.background = some .throws := by
  obtain ⟨s,steps⟩ := raises.run
  have idle : (execute task losing).Reachable ⟨none,.fresh,.waiting⟩ := .start _ rfl
  have begun := idle.step _ _ (.start _ rfl rfl rfl)
  exact ⟨_,begun.run (steps_run steps),rfl⟩

theorem usable_of_reportsOnce {losing : Bool}
    (once : ∀ s, (execute task losing).Reachable s → ReportsOnce s) : task.Usable := by
  apply @Task.usable_of_survives losing
  refine ⟨.fresh,fun raises => ?_⟩
  obtain ⟨s,reached,throws⟩ := exists_throws raises
  exact (once s reached).raises throws

/-- In all runs in which no download is lost the task reports once, and can come to its end, exactly
when it is usable. -/
theorem reportsOnce_iff (task : Task) :
    (∀ s, (execute task false).Reachable s →
      ReportsOnce s ∧ ∃ s', ReflTransGen (Step task false) s s' ∧ s'.post.Over) ↔ task.Usable := by
  constructor
  · intro once
    exact usable_of_reportsOnce fun s reached => (once s reached).1
  · intro usable s reached
    have sound := (execute_sound usable).reachable reached
    exact ⟨sound.reportsOnce,sound.ends usable⟩

/-- A device without a network. -/
def offline : MinecraftInstall where
  setting := ⟨.arm64,[],⟨false,0,0⟩,4,false⟩
  name := ("game" : String)
  gameVersionUrl := some ("https://launchermeta.mojang.com/1.12.2.json" : String)
  getVersionJson _ := .ioException
  getAssetIndexJson _ := .ioException
  parseVersion _ := .null
  parseAssetIndex _ := .null

theorem not_reportsOnce_offline :
    ¬∀ s, (execute (.minecraft offline) true).Reachable s → ReportsOnce s := by
  intro once
  obtain ⟨⟨_,_,_,answered,_⟩,_⟩ := usable_of_reportsOnce once
  cases answered

end Runs

end HmclPe.Download.InstallTask
