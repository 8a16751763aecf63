import Mathlib.Data.List.Basic
import Mathlib.Tactic

/-! Steps under keys that are undone in the opposite order, and texts masked cell by cell. -/
namespace HmclPe.Lib.Ciphers
universe u v
variable {σ : Type u} {κ : Type v}

/-- One step back for each step, under the same key. -/
def Undoes (back step : σ → κ → σ) : Prop := ∀ s k, back (step s k) k = s

theorem Undoes.fold {back step : σ → κ → σ} (undoes : Undoes back step) (keys : List κ) (s : σ) :
    keys.reverse.foldl back (keys.foldl step s) = s := by
  induction keys generalizing s with
  | nil => rfl
  | cons k keys ih =>
    rw [List.foldl_cons,List.reverse_cons,List.foldl_append,ih]
    exact undoes s k

theorem Undoes.fold_reverse {back step : σ → κ → σ} (undoes : Undoes back step) (keys : List κ)
    (s : σ) : keys.foldl back (keys.reverse.foldl step s) = s := by
  have fold := undoes.fold keys.reverse s
  rwa [List.reverse_reverse] at fold

/-- The keys may come from anywhere. -/
theorem Undoes.comap {ι : Type v} {back step : σ → κ → σ} (undoes : Undoes back step)
    (key : ι → κ) : Undoes (fun s i => back s (key i)) fun s i => step s (key i) :=
  fun s i => undoes s (key i)

section Masks

variable {α : Type u} {mix : α → κ → α} {pad : Nat → κ}

/-- Each cell of a text mixed with the one of a pad at its place. -/
def masked (mix : α → κ → α) (pad : Nat → κ) (text : List α) : List α :=
  text.mapIdx fun i a => mix a (pad i)

@[simp] theorem length_masked (text : List α) : (masked mix pad text).length = text.length :=
  List.length_mapIdx

theorem masked_cons (a : α) (text : List α) : masked mix pad (a :: text) =
    mix a (pad 0) :: masked mix (fun i => pad (i + 1)) text := List.mapIdx_cons

theorem masked_append (front back : List α) : masked mix pad (front ++ back) =
    masked mix pad front ++ masked mix (fun i => pad (i + front.length)) back := by
  rw [masked,List.mapIdx_append]
  rfl

theorem masked_congr {other : Nat → κ} {text : List α}
    (same : ∀ i < text.length, pad i = other i) : masked mix pad text = masked mix other text := by
  apply List.ext_getElem
  · simp
  · intro i bound _
    rw [length_masked] at bound
    simp only [masked,List.getElem_mapIdx]
    rw [same i bound]

/-- A pad that changes nothing. -/
theorem masked_idle {text : List α} (idle : ∀ i < text.length, ∀ a, mix a (pad i) = a) :
    masked mix pad text = text := by
  apply List.ext_getElem
  · simp
  · intro i _ bound
    simp only [masked,List.getElem_mapIdx]
    exact idle i bound _

/-- A pad that is used twice drops out. -/
theorem masked_masked (involutive : ∀ a k, mix (mix a k) k = a) (text : List α) :
    masked mix pad (masked mix pad text) = text := by
  apply List.ext_getElem
  · simp
  · intro i bound _
    simp only [masked,List.getElem_mapIdx]
    exact involutive _ _

theorem take_masked (size : Nat) (text : List α) :
    (masked mix pad text).take size = masked mix pad (text.take size) := by
  apply List.ext_getElem
  · simp
  · intro i bound _
    simp only [masked,List.getElem_take,List.getElem_mapIdx]

/-- A text no longer than the pad that is written out. -/
theorem zipWith_eq_masked {cells : List κ} {text : List α} (short : text.length ≤ cells.length)
    (same : ∀ i (bound : i < cells.length), cells[i] = pad i) :
    List.zipWith (fun k a => mix a k) cells text = masked mix pad text := by
  apply List.ext_getElem
  · simp [short]
  · intro i bound bound'
    rw [length_masked] at bound'
    simp only [masked,List.getElem_mapIdx,List.getElem_zipWith]
    rw [same i (bound'.trans_le short)]

end Masks

end HmclPe.Lib.Ciphers
