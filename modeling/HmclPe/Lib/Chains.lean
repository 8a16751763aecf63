import Mathlib.Data.List.Nodup
import Mathlib.Logic.Function.Basic

/-! Chains of cells in a memory, each cell with the address of the next one. -/
namespace HmclPe.Lib.Chains

variable {κ γ : Type}

/-- The cells met on the way from one address to another. -/
def Linked (next : γ → Option κ) (memory : κ → Option γ) :
    Option κ → List (κ × γ) → Option κ → Prop
  | start, [], stop => start = stop
  | start, (address,cell) :: rest, stop =>
    start = some address ∧ memory address = some cell ∧ Linked next memory (next cell) rest stop

theorem linked_append (next : γ → Option κ) (memory : κ → Option γ)
    (start stop : Option κ) (before after : List (κ × γ)) :
    Linked next memory start (before ++ after) stop ↔
      ∃ middle, Linked next memory start before middle ∧
        Linked next memory middle after stop := by
  induction before generalizing start with
  | nil => exact ⟨fun linked => ⟨start,rfl,linked⟩,fun ⟨_,equal,linked⟩ => equal ▸ linked⟩
  | cons first before ih =>
    obtain ⟨address,cell⟩ := first
    constructor
    · intro ⟨here,held,later⟩
      obtain ⟨middle,left,right⟩ := (ih _).mp later
      exact ⟨middle,⟨here,held,left⟩,right⟩
    · intro ⟨middle,⟨here,held,left⟩,right⟩
      exact ⟨here,held,(ih _).mpr ⟨middle,left,right⟩⟩

theorem Linked.agree {next : γ → Option κ} {memory memory' : κ → Option γ}
    {start stop : Option κ} {cells : List (κ × γ)} (linked : Linked next memory start cells stop)
    (same : ∀ address ∈ cells.map Prod.fst, memory' address = memory address) :
    Linked next memory' start cells stop := by
  induction cells generalizing start with
  | nil => exact linked
  | cons first cells ih =>
    obtain ⟨address,cell⟩ := first
    obtain ⟨here,held,later⟩ := linked
    refine ⟨here,?_,ih later ?_⟩
    · rw [same address (by simp)]
      exact held
    · intro other member
      exact same other (List.mem_cons_of_mem _ member)

/-- A chain that ends without a next cell and takes up all of the memory. -/
structure Fills (next : γ → Option κ) (memory : κ → Option γ) (start : Option κ)
    (cells : List (κ × γ)) : Prop where
  linked : Linked next memory start cells none
  distinct : (cells.map Prod.fst).Nodup
  complete : ∀ address, memory address ≠ none → address ∈ cells.map Prod.fst

namespace Fills

variable {next : γ → Option κ} {memory : κ → Option γ} {start : Option κ}

theorem empty : Fills next (fun _ => none) none [] where
  linked := rfl
  distinct := List.nodup_nil
  complete := by
    intro address held
    exact absurd rfl held

theorem unheld {cells : List (κ × γ)} (fills : Fills next memory start cells) {address : κ}
    (absent : memory address = none) : address ∉ cells.map Prod.fst := by
  intro member
  obtain ⟨before,⟨_,cell⟩,after,rfl,rfl⟩ : ∃ before entry after,
      cells = before ++ entry :: after ∧ entry.1 = address := by
    obtain ⟨entry,inside,rfl⟩ := List.mem_map.mp member
    obtain ⟨before,after,cut⟩ := List.append_of_mem inside
    exact ⟨before,entry,after,cut,rfl⟩
  obtain ⟨_,-,-,held,-⟩ := (linked_append _ _ _ _ _ _).mp fills.linked
  exact Option.some_ne_none cell (held.symm.trans absent)

theorem start_eq {address : κ} {cell : γ} {rest : List (κ × γ)}
    (fills : Fills next memory start ((address,cell) :: rest)) : start = some address :=
  fills.linked.1

theorem first {address : κ} {cell : γ} {rest : List (κ × γ)}
    (fills : Fills next memory start ((address,cell) :: rest)) : memory address = some cell :=
  fills.linked.2.1

theorem last {before : List (κ × γ)} {address : κ} {cell : γ}
    (fills : Fills next memory start (before ++ [(address,cell)])) :
    memory address = some cell ∧ next cell = none := by
  obtain ⟨_,-,-,held,ends⟩ := (linked_append _ _ _ _ _ _).mp fills.linked
  exact ⟨held,ends⟩

variable [DecidableEq κ]

theorem single {address : κ} {cell : γ} (fills : Fills next memory start [])
    (ends : next cell = none) :
    Fills next (Function.update memory address (some cell)) (some address)
      [(address,cell)] where
  linked := ⟨rfl,Function.update_self ..,ends⟩
  distinct := List.nodup_singleton address
  complete := by
    intro other held
    by_contra absent
    have different : other ≠ address := by
      intro equal
      exact absent (by simp [equal])
    rw [Function.update_of_ne different] at held
    exact List.not_mem_nil (fills.complete other held)

/-- The chain may change its last cell, where that stays the last one. -/
theorem replace {before : List (κ × γ)} {address : κ} {cell cell' : γ}
    (fills : Fills next memory start (before ++ [(address,cell)])) (ends : next cell' = none) :
    Fills next (Function.update memory address (some cell')) start
      (before ++ [(address,cell')]) where
  linked := by
    obtain ⟨middle,left,here,-,-⟩ := (linked_append _ _ _ _ _ _).mp fills.linked
    apply (linked_append _ _ _ _ _ _).mpr
    refine ⟨middle,left.agree ?_,here,Function.update_self ..,ends⟩
    intro other member
    apply Function.update_of_ne
    have distinct := fills.distinct
    rw [List.map_append,List.nodup_append] at distinct
    exact distinct.2.2 other member address (by simp)
  distinct := by simpa using fills.distinct
  complete := by
    intro other held
    have same : (before ++ [(address,cell')]).map Prod.fst =
        (before ++ [(address,cell)]).map Prod.fst := by simp
    rw [same]
    rcases eq_or_ne other address with rfl | different
    · simp
    · rw [Function.update_of_ne different] at held
      exact fills.complete other held

/-- A new cell behind the last one. -/
theorem extend {before : List (κ × γ)} {last address : κ} {cell cell' fresh : γ}
    (fills : Fills next memory start (before ++ [(last,cell)])) (absent : memory address = none)
    (links : next cell' = some address) (ends : next fresh = none) :
    Fills next (Function.update (Function.update memory address (some fresh)) last (some cell'))
      start (before ++ [(last,cell')] ++ [(address,fresh)]) := by
  have outside := fills.unheld absent
  have apart : address ≠ last := by
    intro equal
    exact outside (by simp [equal])
  have distinct := fills.distinct
  rw [List.map_append,List.nodup_append] at distinct
  obtain ⟨middle,left,here,-,-⟩ := (linked_append _ _ _ _ _ _).mp fills.linked
  refine ⟨?_,?_,?_⟩
  · rw [List.append_assoc]
    apply (linked_append _ _ _ _ _ _).mpr
    refine ⟨middle,left.agree ?_,here,Function.update_self ..,links,?_,ends⟩
    · intro other member
      have before_last := distinct.2.2 other member last (by simp)
      rw [Function.update_of_ne before_last]
      apply Function.update_of_ne
      intro equal
      apply outside
      rw [← equal,List.map_append]
      exact List.mem_append_left _ member
    · rw [Function.update_of_ne apart]
      exact Function.update_self ..
  · have same : (before ++ [(last,cell')] ++ [(address,fresh)]).map Prod.fst =
        (before ++ [(last,cell)]).map Prod.fst ++ [address] := by simp
    rw [same]
    apply List.Nodup.append fills.distinct (List.nodup_singleton address)
    intro other member equal
    exact outside (List.mem_singleton.mp equal ▸ member)
  · intro other held
    rcases eq_or_ne other address with rfl | different
    · simp
    rcases eq_or_ne other last with rfl | differs
    · simp
    rw [Function.update_of_ne differs,Function.update_of_ne different] at held
    have member := fills.complete other held
    simp only [List.map_append,List.mem_append,List.map_cons,List.map_nil] at member ⊢
    exact Or.inl member

/-- The chain without its first cell. -/
theorem drop {address : κ} {cell : γ} {rest : List (κ × γ)}
    (fills : Fills next memory start ((address,cell) :: rest)) :
    Fills next (Function.update memory address none) (next cell) rest where
  linked := by
    apply fills.linked.2.2.agree
    intro other member
    apply Function.update_of_ne
    intro equal
    exact (List.nodup_cons.mp fills.distinct).1 (equal ▸ member)
  distinct := (List.nodup_cons.mp fills.distinct).2
  complete := by
    intro other held
    rcases eq_or_ne other address with rfl | different
    · exact absurd (Function.update_self ..) held
    · rw [Function.update_of_ne different] at held
      exact (List.mem_cons.mp (fills.complete other held)).resolve_left different

end Fills

end HmclPe.Lib.Chains
