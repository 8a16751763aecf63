import Mathlib.Data.List.AList
import Mathlib.Data.Multiset.ZeroCons

/-! Finite stores of contents by place, and moves that replace what stands at the target. A move
keeps all contents exactly where nothing else stands there. -/
namespace HmclPe.Lib.Moving

variable {α β : Type} [DecidableEq α]

abbrev Store (α β : Type) := AList fun _ : α => β

def contents (s : Store α β) : Multiset β := ↑(s.entries.map Sigma.snd)

def move (source target : α) (s : Store α β) : Store α β :=
  match s.lookup source with
  | none => s
  | some content => if source = target then s else (s.erase source).insert target content

/-- What stood at the source stands at the target, which was free, and nothing else changed. -/
structure Renamed (source target : α) (s s' : Store α β) : Prop where
  present : s.lookup source ≠ none
  free : s.lookup target = none
  gone : s'.lookup source = none
  arrived : s'.lookup target = s.lookup source
  others : ∀ other, other ≠ source → other ≠ target → s'.lookup other = s.lookup other

/-- At most this one place was renamed, and no content was lost or added. -/
def Keeps (source : α) (s s' : Store α β) : Prop :=
  (s' = s ∨ ∃ target, Renamed source target s s') ∧ contents s' = contents s

theorem contents_erase {s : Store α β} {place : α} {content : β}
    (present : s.lookup place = some content) :
    contents s = content ::ₘ contents (s.erase place) := by
  have member : place ∈ s.entries.keys := by
    have isSome : (s.lookup place).isSome := by rw [present]; rfl
    exact AList.mem_keys.mp (AList.lookup_isSome.mp isSome)
  obtain ⟨other,before,after,absent,cut,rest⟩ := List.exists_of_kerase member
  have same : other = content := by
    have found := present
    rw [AList.lookup,cut,List.dlookup_append,List.dlookup_eq_none.mpr absent] at found
    simpa using found
  have erased : (s.erase place).entries = before ++ after := rest
  rw [contents,contents,cut,erased,same,List.map_append,List.map_cons,List.map_append]
  exact Multiset.coe_eq_coe.mpr List.perm_middle

theorem contents_erase_absent {s : Store α β} {place : α} (absent : s.lookup place = none) :
    contents (s.erase place) = contents s := by
  have missing : place ∉ s.entries.keys := AList.lookup_eq_none.mp absent
  have erased : (s.erase place).entries = s.entries := List.kerase_of_notMem_keys missing
  rw [contents,contents,erased]

theorem contents_insert (s : Store α β) (place : α) (content : β) :
    contents (s.insert place content) = content ::ₘ contents (s.erase place) := by
  rw [contents,AList.entries_insert,List.map_cons]
  rfl

theorem move_absent {s : Store α β} {source : α} (absent : s.lookup source = none) (target : α) :
    move source target s = s := by
  rw [move,absent]

theorem move_same (s : Store α β) (place : α) : move place place s = s := by
  rw [move]
  cases s.lookup place with
  | none => rfl
  | some content => exact if_pos rfl

theorem move_present {s : Store α β} {source target : α} {content : β}
    (present : s.lookup source = some content) (different : source ≠ target) :
    move source target s = (s.erase source).insert target content := by
  rw [move,present]
  exact if_neg different

theorem lookup_move_source {s : Store α β} {source target : α} (different : source ≠ target) :
    (move source target s).lookup source = none := by
  cases present : s.lookup source with
  | none => rw [move_absent present,present]
  | some content =>
    rw [move_present present different,AList.lookup_insert_ne different,AList.lookup_erase]

theorem lookup_move_target {s : Store α β} {source : α} (present : s.lookup source ≠ none)
    (target : α) : (move source target s).lookup target = s.lookup source := by
  obtain ⟨content,present⟩ := Option.ne_none_iff_exists'.mp present
  by_cases same : source = target
  · rw [same,move_same]
  · rw [move_present present same,AList.lookup_insert,present]

theorem lookup_move_other (s : Store α β) {source target other : α} (notSource : other ≠ source)
    (notTarget : other ≠ target) : (move source target s).lookup other = s.lookup other := by
  cases present : s.lookup source with
  | none => rw [move_absent present]
  | some content =>
    by_cases same : source = target
    · rw [same,move_same]
    · rw [move_present present same,AList.lookup_insert_ne notTarget,
        AList.lookup_erase_ne notSource]

theorem contents_move_free {s : Store α β} {source target : α} (free : s.lookup target = none) :
    contents (move source target s) = contents s := by
  cases present : s.lookup source with
  | none => rw [move_absent present]
  | some content =>
    by_cases same : source = target
    · rw [same,move_same]
    · have stillFree : (s.erase source).lookup target = none := by
        rw [AList.lookup_erase_ne (Ne.symm same),free]
      rw [move_present present same,contents_insert,contents_erase_absent stillFree,
        ← contents_erase present]

/-- The content that stood at the target is the one that is lost. -/
theorem contents_move_taken {s : Store α β} {source target : α} {lost : β}
    (present : s.lookup source ≠ none) (different : source ≠ target)
    (taken : s.lookup target = some lost) :
    contents s = lost ::ₘ contents (move source target s) := by
  obtain ⟨content,present⟩ := Option.ne_none_iff_exists'.mp present
  have stillTaken : (s.erase source).lookup target = some lost := by
    rw [AList.lookup_erase_ne different.symm,taken]
  rw [move_present present different,contents_insert,Multiset.cons_swap,
    ← contents_erase stillTaken,← contents_erase present]

def Clear (source target : α) (s : Store α β) : Prop :=
  s.lookup source = none ∨ target = source ∨ s.lookup target = none

theorem card_move_le (source target : α) (s : Store α β) :
    (contents (move source target s)).card ≤ (contents s).card := by
  cases taken : s.lookup target with
  | none => rw [contents_move_free taken]
  | some lost =>
    by_cases absent : s.lookup source = none
    · rw [move_absent absent]
    · by_cases same : source = target
      · rw [same,move_same]
      · rw [contents_move_taken absent same taken,Multiset.card_cons]
        exact Nat.le_succ _

theorem card_move_iff (source target : α) (s : Store α β) :
    (contents (move source target s)).card = (contents s).card ↔ Clear source target s := by
  constructor
  · intro kept
    by_contra unclear
    obtain ⟨present,other,notFree⟩ : s.lookup source ≠ none ∧ target ≠ source ∧
        s.lookup target ≠ none := by simpa [Clear] using unclear
    obtain ⟨lost,taken⟩ := Option.ne_none_iff_exists'.mp notFree
    rw [contents_move_taken present other.symm taken,Multiset.card_cons] at kept
    exact Nat.succ_ne_self _ kept.symm
  · rintro (absent | same | free)
    · rw [move_absent absent]
    · rw [same,move_same]
    · rw [contents_move_free free]

theorem keeps_move {source target : α} {s : Store α β} (clear : Clear source target s) :
    Keeps source s (move source target s) := by
  rcases clear with absent | same | free
  · rw [move_absent absent]
    exact ⟨.inl rfl,rfl⟩
  · rw [same,move_same]
    exact ⟨.inl rfl,rfl⟩
  · refine ⟨?_,contents_move_free free⟩
    by_cases absent : s.lookup source = none
    · rw [move_absent absent]
      exact .inl rfl
    · have different : source ≠ target := by
        intro same
        exact absent (same ▸ free)
      exact .inr ⟨target,⟨absent,free,lookup_move_source different,
        lookup_move_target absent target,fun _ => lookup_move_other s⟩⟩

theorem keeps_move_iff (source target : α) (s : Store α β) :
    Keeps source s (move source target s) ↔ Clear source target s := by
  constructor
  · intro keeps
    exact (card_move_iff source target s).mp (congrArg Multiset.card keeps.2)
  · exact keeps_move

section Shifting
variable {s s' s'' : Store α β} {source target last : α}

/-- What stood at the source stands at the target and only there, nothing else changed. -/
def Shifted (source target : α) (s s' : Store α β) : Prop :=
  ∀ place, s'.lookup place =
    if place = target then s.lookup source else if place = source then none else s.lookup place

theorem shifted_move (present : s.lookup source ≠ none) (target : α) :
    Shifted source target s (move source target s) := by
  intro place
  by_cases there : place = target
  · rw [there,if_pos rfl,lookup_move_target present]
  · rw [if_neg there]
    by_cases here : place = source
    · subst here
      rw [if_pos rfl,lookup_move_source there]
    · rw [if_neg here,lookup_move_other s here there]

theorem Shifted.trans (first : Shifted source target s s') (second : Shifted target last s' s'')
    (free : target = source ∨ s.lookup target = none) : Shifted source last s s'' := by
  intro place
  rw [second place,first target,if_pos rfl]
  by_cases there : place = last
  · rw [if_pos there,if_pos there]
  · rw [if_neg there,if_neg there]
    by_cases between : place = target
    · subst between
      rw [if_pos rfl]
      rcases free with rfl | free
      · rw [if_pos rfl]
      · rw [free,ite_self]
    · rw [if_neg between,first place,if_neg between]

theorem Shifted.congr {t : Store α β} (shifted : Shifted source target s' s'')
    (same : ∀ place, s'.lookup place = t.lookup place) : Shifted source target t s'' := by
  intro place
  rw [shifted place,same,same]

theorem Shifted.back (there : Shifted source target s s') (back : Shifted target source s' s'')
    (free : target = source ∨ s.lookup target = none) (place : α) :
    s''.lookup place = s.lookup place := by
  rw [there.trans back free place]
  by_cases here : place = source
  · rw [if_pos here,here]
  · rw [if_neg here,if_neg here]

theorem Shifted.other (shifted : Shifted source target s s') {place : α}
    (notTarget : place ≠ target) (notSource : place ≠ source) :
    s'.lookup place = s.lookup place := by
  rw [shifted place,if_neg notTarget,if_neg notSource]

end Shifting

end HmclPe.Lib.Moving
