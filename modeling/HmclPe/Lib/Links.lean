import Mathlib.Logic.Relation
import Mathlib.Data.List.Nodup
import Mathlib.Data.List.Perm.Subperm

/-! Following links from place to place, where several places may be one by their key. Over finitely
many keys the way comes to an end without coming to a key twice exactly where no key met on it comes
back. -/
namespace HmclPe.Lib.Links
open Relation

variable {α κ : Type}

def Follows (next : α → Option α) (a b : α) : Prop := next a = some b

/-- On the way from a place some key is come to twice. -/
def Revisits (next : α → Option α) (key : α → Option κ) (a : α) : Prop :=
  ∃ b c k, ReflTransGen (Follows next) a b ∧ TransGen (Follows next) b c ∧
    key b = some k ∧ key c = some k

/-- The places from one on to the last; none while that is further away than the fuel. -/
def trail (next : α → Option α) : Nat → α → Option (List α)
  | 0, _ => none
  | fuel + 1, a => match next a with
    | none => some [a]
    | some b => (trail next fuel b).map (a :: ·)

variable {next : α → Option α} {key : α → Option κ}

theorem trail_last {a : α} (ends : next a = none) (fuel : Nat) :
    trail next (fuel + 1) a = some [a] := by
  simp only [trail,ends]

theorem trail_next {a b : α} (goesOn : next a = some b) (fuel : Nat) :
    trail next (fuel + 1) a = (trail next fuel b).map (a :: ·) := by
  simp only [trail,goesOn]

theorem not_follows {a : α} (ends : next a = none) (b : α) : ¬TransGen (Follows next) a b := by
  intro way
  obtain ⟨c,first,-⟩ := TransGen.head'_iff.mp way
  exact Option.some_ne_none c (first.symm.trans ends)

theorem follows_iff {a b : α} (goesOn : next a = some b) (c : α) :
    TransGen (Follows next) a c ↔ ReflTransGen (Follows next) b c := by
  rw [TransGen.head'_iff]
  constructor
  · rintro ⟨d,first,way⟩
    obtain rfl := Option.some.inj (goesOn.symm.trans first)
    exact way
  · intro way
    exact ⟨b,goesOn,way⟩

theorem mem_trail_iff {fuel : Nat} {a : α} {places : List α}
    (ended : trail next fuel a = some places) (b : α) :
    b ∈ places ↔ ReflTransGen (Follows next) a b := by
  induction fuel generalizing a places with
  | zero => cases ended
  | succ fuel ih =>
    rw [reflTransGen_iff_eq_or_transGen]
    cases goesOn : next a with
    | none =>
      rw [trail_last goesOn,Option.some.injEq] at ended
      rw [← ended,List.mem_singleton,or_iff_left (not_follows goesOn b)]
    | some c =>
      rw [trail_next goesOn,Option.map_eq_some_iff] at ended
      obtain ⟨rest,later,rfl⟩ := ended
      rw [List.mem_cons,ih later,follows_iff goesOn]

theorem not_revisits_last {a : α} (ends : next a = none) : ¬Revisits next key a := by
  rintro ⟨b,c,k,way,back,-⟩
  rcases reflTransGen_iff_eq_or_transGen.mp way with rfl | way
  · exact not_follows ends c back
  · exact not_follows ends b way

theorem revisits_iff {a b : α} (goesOn : next a = some b) : Revisits next key a ↔
    (∃ c k, ReflTransGen (Follows next) b c ∧ key a = some k ∧ key c = some k) ∨
      Revisits next key b := by
  constructor
  · rintro ⟨c,d,k,way,back,here,there⟩
    rcases reflTransGen_iff_eq_or_transGen.mp way with rfl | way
    · exact .inl ⟨d,k,(follows_iff goesOn d).mp back,here,there⟩
    · exact .inr ⟨c,d,k,(follows_iff goesOn c).mp way,back,here,there⟩
  · rintro (⟨c,k,way,here,there⟩ | ⟨c,d,k,way,back,here,there⟩)
    · exact ⟨a,c,k,.refl,(follows_iff goesOn c).mpr way,here,there⟩
    · exact ⟨c,d,k,.head goesOn way,back,here,there⟩

/-- A way that ends comes to no key twice exactly where none comes back. -/
theorem trail_nodup_iff {fuel : Nat} {a : α} {places : List α}
    (ended : trail next fuel a = some places) :
    (places.filterMap key).Nodup ↔ ¬Revisits next key a := by
  induction fuel generalizing a places with
  | zero => cases ended
  | succ fuel ih =>
    cases goesOn : next a with
    | none =>
      rw [trail_last goesOn,Option.some.injEq] at ended
      rw [← ended]
      refine iff_of_true ?_ (not_revisits_last goesOn)
      cases here : key a with
      | none => simp [here]
      | some k => simp [here]
    | some b =>
      rw [trail_next goesOn,Option.map_eq_some_iff] at ended
      obtain ⟨rest,later,rfl⟩ := ended
      rw [revisits_iff goesOn,not_or,← ih later]
      cases here : key a with
      | none => simp [here]
      | some k =>
        rw [List.filterMap_cons_some here,List.nodup_cons]
        apply and_congr_left
        intro _
        rw [not_iff_not,List.mem_filterMap]
        constructor
        · rintro ⟨c,inside,there⟩
          exact ⟨c,k,(mem_trail_iff later c).mp inside,rfl,there⟩
        · rintro ⟨c,k',way,same,there⟩
          obtain rfl := Option.some.inj same
          exact ⟨c,(mem_trail_iff later c).mpr way,there⟩

/-- The keys met so far are known, all different, and do not come back from here. -/
theorem exists_trail_from {known : List κ}
    (finite : ∀ a b, next a = some b → ∃ k ∈ known, key a = some k) {fuel : Nat} {met : List κ}
    {a : α} (distinct : met.Nodup) (inside : met ⊆ known)
    (fresh : ∀ k ∈ met, ∀ c, ReflTransGen (Follows next) a c → key c ≠ some k)
    (enough : known.length < met.length + fuel) (straight : ¬Revisits next key a) :
    ∃ places, trail next fuel a = some places := by
  classical
  induction fuel generalizing met a with
  | zero =>
    have bound := (distinct.subperm inside).length_le
    exact absurd enough (by omega)
  | succ fuel ih =>
    cases goesOn : next a with
    | none => exact ⟨[a],trail_last goesOn fuel⟩
    | some b =>
      obtain ⟨k,listed,here⟩ := finite a b goesOn
      rw [revisits_iff goesOn,not_or] at straight
      obtain ⟨places,later⟩ : ∃ places, trail next fuel b = some places := by
        refine @ih (k :: met) b ?_ (List.cons_subset.mpr ⟨listed,inside⟩) ?_ ?_ straight.2
        · exact List.nodup_cons.mpr ⟨fun again => fresh k again a .refl here,distinct⟩
        · intro j member c way
          rcases List.mem_cons.mp member with rfl | before
          · exact fun there => straight.1 ⟨c,j,way,here,there⟩
          · exact fresh j before c (.head goesOn way)
        · rw [List.length_cons]
          omega
      exact ⟨a :: places,by rw [trail_next goesOn,later]; rfl⟩

theorem exists_trail_iff {known : List κ}
    (finite : ∀ a b, next a = some b → ∃ k ∈ known, key a = some k) (a : α) :
    (∃ fuel places, trail next fuel a = some places ∧ (places.filterMap key).Nodup) ↔
      ¬Revisits next key a := by
  constructor
  · rintro ⟨fuel,places,ended,distinct⟩
    exact (trail_nodup_iff ended).mp distinct
  · intro straight
    obtain ⟨places,ended⟩ := @exists_trail_from α κ next key known finite (known.length + 1) []
      a (by simp) (by simp) (by simp) (by simp) straight
    exact ⟨_,places,ended,(trail_nodup_iff ended).mpr straight⟩

theorem mem_of_lookup {β : Type} [BEq α] [LawfulBEq α] {table : List (α × β)} {a : α} {b : β}
    (found : table.lookup a = some b) : (a,b) ∈ table := by
  obtain ⟨before,after,split,_⟩ := List.lookup_eq_some_iff.mp found
  rw [split]
  exact List.mem_append_right before List.mem_cons_self

end HmclPe.Lib.Links
