import Mathlib.Data.List.Perm.Basic
import Mathlib.Data.List.Infix

/-! Logs of chunks that several parties take from a stream or put into one. -/
namespace HmclPe.Lib.Shares

variable {ι α : Type} [DecidableEq ι]

def whole (log : List (ι × List α)) : List α := (log.map Prod.snd).flatten

/-- The chunks of one party. -/
def share (log : List (ι × List α)) (party : ι) : List α :=
  whole (log.filter fun entry => entry.1 = party)

omit [DecidableEq ι] in
theorem whole_append (log log' : List (ι × List α)) :
    whole (log ++ log') = whole log ++ whole log' := by
  rw [whole,whole,whole,List.map_append,List.flatten_append]

omit [DecidableEq ι] in
@[simp] theorem whole_single (party : ι) (chunk : List α) : whole [(party,chunk)] = chunk :=
  List.append_nil chunk

theorem share_append (log log' : List (ι × List α)) (party : ι) :
    share (log ++ log') party = share log party ++ share log' party := by
  rw [share,List.filter_append,whole_append]
  rfl

@[simp] theorem share_single (party : ι) (chunk : List α) : share [(party,chunk)] party = chunk := by
  simp [share]

theorem share_other {party other : ι} (different : other ≠ party) (chunk : List α) :
    share [(party,chunk)] other = [] := by
  simp [share,different.symm,whole]

/-- A party that is alone has it all. -/
theorem share_alone {log : List (ι × List α)} {party : ι}
    (alone : ∀ entry ∈ log, entry.1 = party) : share log party = whole log := by
  rw [share,List.filter_eq_self.mpr (by simpa using alone)]

/-- Each element goes to one party, once. -/
theorem whole_perm {parties : List ι} (distinct : parties.Nodup) {log : List (ι × List α)}
    (known : ∀ entry ∈ log, entry.1 ∈ parties) :
    (parties.map (share log)).flatten.Perm (whole log) := by
  induction parties generalizing log with
  | nil =>
    have nothing : log = [] := by
      apply List.eq_nil_iff_forall_not_mem.mpr
      intro entry member
      exact List.not_mem_nil (known entry member)
    rw [nothing]
    rfl
  | cons party parties ih =>
    obtain ⟨absent,distinct⟩ := List.nodup_cons.mp distinct
    have rest : parties.map (share log) =
        parties.map (share (log.filter fun entry => ¬ entry.1 = party)) := by
      apply List.map_congr_left
      intro other member
      rw [share,share,List.filter_filter]
      congr 1
      apply List.filter_congr
      intro entry _
      have apart : other ≠ party := by
        rintro rfl
        exact absent member
      by_cases same : entry.1 = other
      · simp [same,apart]
      · simp [same]
    have later := @ih distinct (log.filter fun entry => ¬ entry.1 = party) (by
      intro entry member
      obtain ⟨inside,other⟩ := List.mem_filter.mp member
      exact (List.mem_cons.mp (known entry inside)).resolve_left (by simpa using other))
    rw [List.map_cons,List.flatten_cons,rest]
    have parts : (log.filter (fun entry => entry.1 = party) ++
        log.filter fun entry => ¬ entry.1 = party).Perm log := by
      simpa using List.filter_append_perm (fun entry => decide (entry.1 = party)) log
    have wholes := List.Perm.flatten (parts.map Prod.snd)
    rw [List.map_append,List.flatten_append] at wholes
    exact (later.append_left _).trans wholes

end HmclPe.Lib.Shares
