import HmclPe.Game.Version
import HmclPe.Lib.Links

/-! Resolving a version over its parents: the recursion ends over every finite provider, and
on a straight line of parents each field is the last one present from the first ancestor on. -/
namespace HmclPe.Game.Version
open HmclPe.Java HmclPe.Lib.Links

variable {getVersion : Text → Option Version}

section Equations

variable {v parent : Version} {resolvedSoFar : List Text} {inheritsFrom : Text}

theorem resolveFrom_last (ends : v.inheritsFrom = none) (fuel : Nat) :
    resolveFrom getVersion (fuel + 1) v resolvedSoFar = some (v.applyPatches v.withoutParent) := by
  rw [resolveFrom,ends]
  rfl

theorem resolveFrom_circle (inherits : v.inheritsFrom = some inheritsFrom)
    (again : v.id ∈ resolvedSoFar) (fuel : Nat) :
    resolveFrom getVersion (fuel + 1) v resolvedSoFar = some (v.applyPatches v.inCircle) := by
  rw [resolveFrom,inherits]
  simp only [if_pos again]
  rfl

theorem resolveFrom_missing (inherits : v.inheritsFrom = some inheritsFrom)
    (first : v.id ∉ resolvedSoFar) (missing : getVersion inheritsFrom = none) (fuel : Nat) :
    resolveFrom getVersion (fuel + 1) v resolvedSoFar = none := by
  rw [resolveFrom,inherits]
  simp only [if_neg first,missing]
  rfl

theorem resolveFrom_parent (inherits : v.inheritsFrom = some inheritsFrom)
    (first : v.id ∉ resolvedSoFar) (found : getVersion inheritsFrom = some parent) (fuel : Nat) :
    resolveFrom getVersion (fuel + 1) v resolvedSoFar =
      (resolveFrom getVersion fuel parent (v.id :: resolvedSoFar)).map fun parent =>
        v.applyPatches (v.merge parent false) := by
  rw [resolveFrom,inherits]
  simp only [if_neg first,found,Option.bind_some]
  cases resolveFrom getVersion fuel parent (v.id :: resolvedSoFar) <;> rfl

end Equations

theorem resolveFrom_of_visits {fuel : Nat} {v : Version} {resolvedSoFar asked : List Text}
    {result : Option Version}
    (returned : resolveVisits getVersion fuel v resolvedSoFar = some (result,asked)) :
    resolveFrom getVersion fuel v resolvedSoFar = result := by
  induction fuel generalizing v resolvedSoFar result asked with
  | zero => cases returned
  | succ fuel ih =>
    rw [resolveVisits] at returned
    cases inherits : v.inheritsFrom with
    | none =>
      rw [inherits] at returned
      rw [resolveFrom_last inherits]
      exact congrArg Prod.fst (Option.some.inj returned)
    | some inheritsFrom =>
      rw [inherits] at returned
      simp only at returned
      by_cases again : v.id ∈ resolvedSoFar
      · rw [if_pos again] at returned
        rw [resolveFrom_circle inherits again]
        exact congrArg Prod.fst (Option.some.inj returned)
      · rw [if_neg again] at returned
        cases found : getVersion inheritsFrom with
        | none =>
          rw [found] at returned
          rw [resolveFrom_missing inherits again found]
          exact congrArg Prod.fst (Option.some.inj returned)
        | some parent =>
          rw [found] at returned
          obtain ⟨above,later,same⟩ := Option.map_eq_some_iff.mp returned
          rw [resolveFrom_parent inherits again found,ih later]
          exact congrArg Prod.fst same

/-- Each id is put into the set before its parent is asked for. -/
theorem asked_fresh {fuel : Nat} {v : Version} {resolvedSoFar asked : List Text}
    {result : Option Version}
    (returned : resolveVisits getVersion fuel v resolvedSoFar = some (result,asked)) :
    asked.Nodup ∧ ∀ id ∈ asked, id ∉ resolvedSoFar := by
  induction fuel generalizing v resolvedSoFar result asked with
  | zero => cases returned
  | succ fuel ih =>
    rw [resolveVisits] at returned
    cases inherits : v.inheritsFrom with
    | none =>
      rw [inherits] at returned
      obtain ⟨_,rfl⟩ := Prod.mk.inj (Option.some.inj returned)
      simp
    | some inheritsFrom =>
      rw [inherits] at returned
      simp only at returned
      by_cases again : v.id ∈ resolvedSoFar
      · rw [if_pos again] at returned
        obtain ⟨_,rfl⟩ := Prod.mk.inj (Option.some.inj returned)
        simp
      · rw [if_neg again] at returned
        cases found : getVersion inheritsFrom with
        | none =>
          rw [found] at returned
          obtain ⟨_,rfl⟩ := Prod.mk.inj (Option.some.inj returned)
          simpa using again
        | some parent =>
          rw [found] at returned
          obtain ⟨above,later,same⟩ := Option.map_eq_some_iff.mp returned
          obtain ⟨_,rfl⟩ := Prod.mk.inj same
          obtain ⟨distinct,fresh⟩ := ih later
          refine ⟨List.nodup_cons.mpr ⟨?_,distinct⟩,?_⟩
          · exact fun inside => fresh v.id inside List.mem_cons_self
          · intro id inside
            cases List.mem_cons.mp inside with
            | inl same => exact same ▸ again
            | inr member => exact fun before => fresh id member (List.mem_cons_of_mem _ before)

/-- The set only ever holds ids of versions at hand. -/
theorem exists_visits {ids : List Text}
    (known : ∀ id parent, getVersion id = some parent → parent.id ∈ ids) {fuel : Nat}
    {v : Version} {resolvedSoFar : List Text} (own : v.id ∈ ids) (distinct : resolvedSoFar.Nodup)
    (inside : resolvedSoFar ⊆ ids) (enough : ids.length < resolvedSoFar.length + fuel) :
    ∃ result asked, resolveVisits getVersion fuel v resolvedSoFar = some (result,asked) := by
  induction fuel generalizing v resolvedSoFar with
  | zero =>
    have bound := (distinct.subperm inside).length_le
    exact absurd enough (by omega)
  | succ fuel ih =>
    rw [resolveVisits]
    cases v.inheritsFrom with
    | none => exact ⟨_,_,rfl⟩
    | some inheritsFrom =>
      by_cases again : v.id ∈ resolvedSoFar
      · exact ⟨_,_,if_pos again⟩
      · simp only [if_neg again]
        cases found : getVersion inheritsFrom with
        | none => exact ⟨_,_,rfl⟩
        | some parent =>
          obtain ⟨result,asked,later⟩ := ih (known inheritsFrom parent found)
            (List.nodup_cons.mpr ⟨again,distinct⟩) (List.cons_subset.mpr ⟨own,inside⟩)
            (by rw [List.length_cons]; omega)
          simp only [later]
          exact ⟨_,_,rfl⟩

/-- The parents of a version, itself first, to one that inherits from nothing. -/
inductive Lineage (getVersion : Text → Option Version) : Version → List Version → Prop
  | last {v : Version} (ends : v.inheritsFrom = none) : Lineage getVersion v [v]
  | child {v parent : Version} {inheritsFrom : Text} {ancestors : List Version}
      (inherits : v.inheritsFrom = some inheritsFrom) (found : getVersion inheritsFrom = some parent)
      (above : Lineage getVersion parent ancestors) : Lineage getVersion v (v :: ancestors)

def Parent (getVersion : Text → Option Version) (v parent : Version) : Prop :=
  ∃ inheritsFrom, v.inheritsFrom = some inheritsFrom ∧ getVersion inheritsFrom = some parent

/-- No id comes twice on the way along the parents, however far one follows it. -/
def Acyclic (getVersion : Text → Option Version) (v : Version) : Prop :=
  ∀ rest, (v :: rest).IsChain (Parent getVersion) → ((v :: rest).map (·.id)).Nodup

/-- What a version puts over its parents: a root without parents its patches only. -/
def contributions (v : Version) : List Version :=
  (if v.isRoot ∧ v.inheritsFrom = none then [] else [v]) ++ v.sortedPatches

/-- The contributions of a version and its parents from the first ancestor on. -/
def layers (lineage : List Version) : List Version := lineage.reverse.flatMap contributions

def lastPresent {α : Type} (field : Version → Option α) (versions : List Version) : Option α :=
  (versions.filterMap field).getLast?

/-- A field that a patch or child overrides where it has it. -/
structure Overriding {α : Type} (field : Version → Option α) : Prop where
  merge : ∀ (v parent : Version) (isPatch : Bool),
    field (v.merge parent isPatch) = (field v).or (field parent)
  setJar : ∀ (v : Version) (jar : Option Text), field (v.setJar jar) = field v
  setId : ∀ (v : Version) (id : Text), field (v.setId id) = field v
  bare : ∀ (id : Text) (patches : Option (List Version)),
    field ((ofId id).setPatches patches) = none

theorem overriding_mainClass : Overriding mainClass :=
  ⟨fun _ _ _ => rfl,fun _ _ => rfl,fun _ _ => rfl,fun _ _ => rfl⟩

theorem overriding_minecraftArguments : Overriding minecraftArguments :=
  ⟨fun _ _ _ => rfl,fun _ _ => rfl,fun _ _ => rfl,fun _ _ => rfl⟩

theorem lastPresent_append {α : Type} (field : Version → Option α) (front back : List Version) :
    lastPresent field (front ++ back) =
      (lastPresent field back).or (lastPresent field front) := by
  rw [lastPresent,List.filterMap_append,List.getLast?_append]
  rfl

theorem lastPresent_singleton {α : Type} (field : Version → Option α) (v : Version) :
    lastPresent field [v] = field v := by
  cases present : field v <;> simp [lastPresent,present]

/-- What all steps of the patches keep, and the field they end with. -/
theorem foldl_patches {α : Type} {field : Version → Option α} (overriding : Overriding field)
    (patches : List Version) (v : Version) :
    field (patches.foldl (fun v patch => (patch.setJar none).merge v true) v) =
        (lastPresent field patches).or (field v) ∧
      (patches.foldl (fun v patch => (patch.setJar none).merge v true) v).jar = v.jar ∧
      (v.inheritsFrom = none →
        (patches.foldl (fun v patch => (patch.setJar none).merge v true) v).inheritsFrom = none) := by
  induction patches generalizing v with
  | nil => exact ⟨rfl,rfl,fun none_ => none_⟩
  | cons patch rest ih =>
    obtain ⟨last,jar,inherits⟩ := ih ((patch.setJar none).merge v true)
    rw [List.foldl_cons]
    refine ⟨?_,jar,fun _ => inherits rfl⟩
    rw [last,overriding.merge,overriding.setJar,← List.singleton_append,lastPresent_append,
      lastPresent_singleton,Option.or_assoc]

structure Resolved (v : Version) (lineage : List Version) (result : Version) : Prop where
  id : result.id = v.id
  inheritsFrom : result.inheritsFrom = none
  jar : result.jar ≠ none
  field : ∀ {α : Type} (field : Version → Option α), Overriding field →
    field result = lastPresent field (layers lineage)

theorem layers_cons (v : Version) (ancestors : List Version) :
    layers (v :: ancestors) = layers ancestors ++ contributions v := by
  rw [layers,List.reverse_cons,List.flatMap_append,List.flatMap_singleton]
  rfl

theorem resolved_applyPatches {v thisVersion : Version} {lineage below : List Version}
    (stacked : layers lineage = below ++ v.sortedPatches)
    (inherits : thisVersion.inheritsFrom = none) (jar : thisVersion.jar ≠ none)
    (field : ∀ {α : Type} (field : Version → Option α), Overriding field →
      field thisVersion = lastPresent field below) :
    Resolved v lineage (v.applyPatches thisVersion) := by
  obtain ⟨_,keepsJar,keeps⟩ := foldl_patches overriding_mainClass v.sortedPatches thisVersion
  refine ⟨rfl,keeps inherits,?_,?_⟩
  · intro none_
    exact jar (keepsJar.symm.trans none_)
  · intro α f overriding
    rw [stacked,lastPresent_append,← field f overriding,applyPatches,overriding.setId]
    exact (foldl_patches overriding v.sortedPatches thisVersion).1

theorem resolved_last {v : Version} (ends : v.inheritsFrom = none) :
    Resolved v [v] (v.applyPatches v.withoutParent) := by
  cases root : v.isRoot with
  | true =>
    have own : v.withoutParent = ((ofId v.id).setPatches v.patches).setJar (some (v.jar.getD v.id)) := by
      rw [withoutParent,root]
      rfl
    have stacked : layers [v] = [] ++ v.sortedPatches := by
      rw [layers_cons,contributions,if_pos ⟨root,ends⟩]
      rfl
    refine resolved_applyPatches stacked ?_ ?_ ?_
    · rw [own]
      rfl
    · rw [own]
      exact Option.some_ne_none _
    · intro α f overriding
      rw [own,overriding.setJar,overriding.bare]
      rfl
  | false =>
    have own : v.withoutParent = v.setJar (some (v.jar.getD v.id)) := by
      rw [withoutParent,root]
      rfl
    have stacked : layers [v] = [v] ++ v.sortedPatches := by
      rw [layers_cons,contributions,if_neg (by simp [root])]
      rfl
    refine resolved_applyPatches stacked ?_ ?_ ?_
    · rw [own]
      exact ends
    · rw [own]
      exact Option.some_ne_none _
    · intro α f overriding
      rw [own,overriding.setJar,lastPresent_singleton]

theorem resolved_child {v parent above : Version} {ancestors : List Version} {inheritsFrom : Text}
    (inherits : v.inheritsFrom = some inheritsFrom) (upper : Resolved parent ancestors above) :
    Resolved v (v :: ancestors) (v.applyPatches (v.merge above false)) := by
  have stacked : layers (v :: ancestors) = (layers ancestors ++ [v]) ++ v.sortedPatches := by
    rw [layers_cons,contributions,if_neg (by simp [inherits]),List.append_assoc]
  refine resolved_applyPatches stacked rfl ?_ ?_
  · intro none_
    exact upper.jar (Option.or_eq_none_iff.mp none_).2
  · intro α f overriding
    rw [overriding.merge,upper.field f overriding,lastPresent_append,lastPresent_singleton]

theorem resolveFrom_resolved {fuel : Nat} {v result : Version} {resolvedSoFar : List Text}
    (straight : ∀ rest, (v :: rest).IsChain (Parent getVersion) →
      ((v :: rest).map (·.id)).Nodup ∧ ∀ id ∈ (v :: rest).map (·.id), id ∉ resolvedSoFar)
    (returned : resolveFrom getVersion fuel v resolvedSoFar = some result) :
    ∃ lineage, Lineage getVersion v lineage ∧ Resolved v lineage result := by
  induction fuel generalizing v resolvedSoFar result with
  | zero => cases returned
  | succ fuel ih =>
    cases inherits : v.inheritsFrom with
    | none =>
      rw [resolveFrom_last inherits,Option.some.injEq] at returned
      exact ⟨[v],.last inherits,returned ▸ resolved_last inherits⟩
    | some inheritsFrom =>
      have first : v.id ∉ resolvedSoFar := by
        have here := straight [] (List.isChain_singleton v)
        exact here.2 v.id List.mem_cons_self
      cases found : getVersion inheritsFrom with
      | none =>
        rw [resolveFrom_missing inherits first found] at returned
        cases returned
      | some parent =>
        rw [resolveFrom_parent inherits first found] at returned
        obtain ⟨above,later,rfl⟩ := Option.map_eq_some_iff.mp returned
        obtain ⟨ancestors,line,upper⟩ := ih (fun rest chain => by
          have whole := straight (parent :: rest)
            (List.isChain_cons_cons.mpr ⟨⟨inheritsFrom,inherits,found⟩,chain⟩)
          obtain ⟨fresh,distinct⟩ := List.nodup_cons.mp whole.1
          refine ⟨distinct,?_⟩
          intro id member before
          cases List.mem_cons.mp before with
          | inl same =>
            rw [same] at member
            exact fresh member
          | inr earlier => exact whole.2 id (List.mem_cons_of_mem _ member) earlier) later
        exact ⟨v :: ancestors,.child inherits found line,resolved_child inherits upper⟩

theorem sortedPatches_ascending (v : Version) : v.sortedPatches.Perm v.getPatches ∧
    v.sortedPatches.Pairwise fun patch later => patch.getPriority ≤ later.getPriority := by
  refine ⟨List.mergeSort_perm _ _,?_⟩
  have sorted : v.sortedPatches.Pairwise fun patch later =>
      decide (patch.getPriority ≤ later.getPriority) = true := by
    apply List.pairwise_mergeSort
    · intro a b c first second
      exact decide_eq_true (le_trans (of_decide_eq_true first) (of_decide_eq_true second))
    · intro a b
      simpa using le_total a.getPriority b.getPriority
  exact sorted.imp of_decide_eq_true

/-- What `resolve` may be relied on for. A resolved version is given back as it is. -/
structure Resolves (getVersion : Text → Option Version) (v result : Version) : Prop where
  resolved : result.resolved = true
  id : result.id = v.id
  same : v.resolved = true → result = v
  built : v.resolved = false → Acyclic getVersion v → ∃ lineage, Lineage getVersion v lineage ∧
    (∀ w ∈ lineage, w.sortedPatches.Perm w.getPatches ∧
      w.sortedPatches.Pairwise fun patch later => patch.getPriority ≤ later.getPriority) ∧
    result.inheritsFrom = none ∧ result.jar ≠ none ∧
    result.mainClass = lastPresent mainClass (layers lineage) ∧
    result.minecraftArguments = lastPresent minecraftArguments (layers lineage)

theorem resolveFrom_id {fuel : Nat} {v result : Version} {resolvedSoFar : List Text}
    (returned : resolveFrom getVersion fuel v resolvedSoFar = some result) : result.id = v.id := by
  cases fuel with
  | zero => cases returned
  | succ fuel =>
    cases inherits : v.inheritsFrom with
    | none =>
      rw [resolveFrom_last inherits,Option.some.injEq] at returned
      exact returned ▸ rfl
    | some inheritsFrom =>
      by_cases again : v.id ∈ resolvedSoFar
      · rw [resolveFrom_circle inherits again,Option.some.injEq] at returned
        exact returned ▸ rfl
      · cases found : getVersion inheritsFrom with
        | none =>
          rw [resolveFrom_missing inherits again found] at returned
          cases returned
        | some parent =>
          rw [resolveFrom_parent inherits again found] at returned
          obtain ⟨above,_,rfl⟩ := Option.map_eq_some_iff.mp returned
          rfl

theorem resolves {fuel : Nat} {v result : Version}
    (returned : resolve getVersion fuel v = some result) : Resolves getVersion v result := by
  rw [resolve] at returned
  split at returned
  next already =>
    obtain rfl := Option.some.inj returned
    exact ⟨already,rfl,fun _ => rfl,fun not_yet => absurd already (by simp [not_yet])⟩
  next not_yet =>
    obtain ⟨built,from_,rfl⟩ := Option.map_eq_some_iff.mp returned
    have own : built.id = v.id := resolveFrom_id from_
    refine ⟨rfl,own,fun already => absurd already not_yet,?_⟩
    intro _ acyclic
    obtain ⟨lineage,line,facts⟩ := resolveFrom_resolved
      (fun rest chain => ⟨acyclic rest chain,fun _ _ => List.not_mem_nil⟩) from_
    exact ⟨lineage,line,fun w _ => sortedPatches_ascending w,facts.inheritsFrom,facts.jar,
      facts.field mainClass overriding_mainClass,
      facts.field minecraftArguments overriding_minecraftArguments⟩

/-- Over every finite table of versions `resolve` comes back, with a result or for a version
not found, and has asked for the parent of no id twice. -/
theorem resolve_returns (provider : List (Text × Version)) (v : Version) :
    (∃ fuel result asked,
      resolveVisits (provider.lookup ·) fuel v [] = some (result,asked) ∧ asked.Nodup ∧
        resolve (provider.lookup ·) fuel v =
          if v.resolved then some v else result.map markAsResolved) ∧
    ∀ fuel result, resolve (provider.lookup ·) fuel v = some result →
      Resolves (provider.lookup ·) v result := by
  have known : ∀ id parent, provider.lookup id = some parent →
      parent.id ∈ v.id :: provider.map (·.2.id) := by
    intro id parent found
    exact List.mem_cons_of_mem _ (List.mem_map.mpr ⟨_,mem_of_lookup found,rfl⟩)
  refine ⟨?_,fun fuel result returned => resolves returned⟩
  obtain ⟨result,asked,visits⟩ := @exists_visits (provider.lookup ·) _ known
    (provider.length + 2) v [] List.mem_cons_self List.nodup_nil (List.nil_subset _) (by simp)
  refine ⟨_,result,asked,visits,(asked_fresh visits).1,?_⟩
  rw [resolve,resolveFrom_of_visits visits]

/-- A version marked root that inherits, under which there is one to inherit from. -/
def rootChild : Version :=
  { ofId ("child" : String) with
    inheritsFrom := some ("base" : String), mainClass := some ("ChildMain" : String) }

def rootBase : Version :=
  { ofId ("base" : String) with root := none, mainClass := some ("BaseMain" : String) }

/-- The child contributes its own main class although it is marked root, and a version that
is resolved already keeps what it inherits from and its missing jar. -/
theorem resolve_keeps_own_fields :
    (∃ result, rootChild.isRoot = true ∧
      resolve (List.lookup · [(("base" : String).toList,rootBase)]) 3 rootChild = some result ∧
      result.mainClass = some ("ChildMain" : String)) ∧
    ∃ result, resolve (List.lookup · [(("base" : String).toList,rootBase)]) 3
        rootChild.markAsResolved = some result ∧
      result.inheritsFrom ≠ none ∧ result.jar = none := by
  refine ⟨⟨_,rfl,rfl,?_⟩,⟨_,rfl,?_,?_⟩⟩ <;> decide +kernel

end HmclPe.Game.Version
