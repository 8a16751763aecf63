import Mathlib.Data.List.Infix
import Mathlib.Data.List.Count
import Mathlib.Tactic

/-! Replacing every occurrence of a word in a text. The text is cut into letters and marks
that stand for the word; for a word that does not overlap itself a replacement meets the marks
alone exactly where the text shows the word nowhere else. -/
namespace HmclPe.Lib.Replacement

variable {α : Type}

/-- A text of letters and marks, with a word written at each mark. -/
def fill (word : List α) : List (Option α) → List α
  | [] => []
  | none :: pieces => word ++ fill word pieces
  | some c :: pieces => c :: fill word pieces

def Unbordered (word : List α) : Prop :=
  ∀ start border stop, word = start ++ border → word = border ++ stop → start ≠ [] → border = []

@[simp] theorem fill_nil (word : List α) : fill word [] = [] := rfl

@[simp] theorem fill_mark (word : List α) (pieces : List (Option α)) :
    fill word (none :: pieces) = word ++ fill word pieces := rfl

@[simp] theorem fill_letter (word : List α) (c : α) (pieces : List (Option α)) :
    fill word (some c :: pieces) = c :: fill word pieces := rfl

theorem unbordered_concat {body : List α} {c : α} (free : c ∉ body) : Unbordered (body ++ [c]) := by
  intro start border stop atEnd atStart begun
  rcases List.eq_nil_or_concat border with empty | ⟨front,last,rfl⟩
  · exact empty
  · rw [List.concat_eq_append,← List.append_assoc] at atEnd
    obtain ⟨body_eq,same⟩ := List.append_inj' atEnd rfl
    obtain rfl := (List.cons.inj same).1
    rcases List.eq_nil_or_concat stop with rfl | ⟨later,other,rfl⟩
    · have lengths := congrArg List.length body_eq
      have whole := congrArg List.length atStart
      have positive := List.length_pos_iff.mpr begun
      simp only [List.length_append,List.length_concat,List.length_nil,List.length_cons]
        at lengths whole
      omega
    · rw [List.concat_eq_append,List.concat_eq_append,← List.append_assoc] at atStart
      have inside := (List.append_inj' atStart rfl).1
      exact absurd (by rw [inside]; simp) free

theorem fill_append (word : List α) (first second : List (Option α)) :
    fill word (first ++ second) = fill word first ++ fill word second := by
  induction first with
  | nil => rfl
  | cons piece first ih => cases piece <;> simp [ih]

@[simp] theorem fill_letters (word text : List α) : fill word (text.map some) = text := by
  induction text with
  | nil => rfl
  | cons c text ih => simp [ih]

theorem length_fill (word : List α) (pieces : List (Option α)) :
    (fill word pieces).length + pieces.countP Option.isNone =
      pieces.length + pieces.countP Option.isNone * word.length := by
  induction pieces with
  | nil => simp
  | cons piece pieces ih =>
    cases piece with
    | none =>
      simp only [fill_mark,List.length_append,List.length_cons,Option.isNone_none,
        List.countP_cons_of_pos,Nat.succ_mul]
      omega
    | some c =>
      simp only [fill_letter,List.length_cons,Option.isNone_some,Bool.false_eq_true,
        not_false_eq_true,List.countP_cons_of_neg]
      omega

/-- No mark stands inside a word that does not overlap itself. -/
theorem letters_of_fill {word : List α} (unbordered : Unbordered word)
    (seen unseen : List α) (split : word = seen ++ unseen) (begun : seen ≠ [])
    {rest : List α} {pieces : List (Option α)} (shown : fill word pieces = unseen ++ rest) :
    ∃ later, pieces = unseen.map some ++ later ∧ fill word later = rest := by
  induction unseen generalizing seen pieces with
  | nil => exact ⟨pieces,rfl,shown⟩
  | cons c unseen ih =>
    cases pieces with
    | nil => cases shown
    | cons piece pieces =>
      cases piece with
      | none =>
        have inside : c :: unseen <+: word ++ fill word pieces := ⟨rest,shown.symm⟩
        have short : (c :: unseen).length ≤ word.length := by
          rw [split,List.length_append]
          omega
        obtain ⟨stop,border⟩ := List.prefix_of_prefix_length_le inside
          (List.prefix_append word _) short
        have empty := unbordered seen (c :: unseen) stop split border.symm begun
        cases empty
      | some d =>
        obtain ⟨same,shown⟩ := List.cons.inj shown
        obtain ⟨later,letters,filled⟩ := ih (seen ++ [c]) (by simp [split]) (by simp) shown
        exact ⟨later,by rw [letters,same]; rfl,filled⟩

theorem letters_of_fill_whole {word : List α} (unbordered : Unbordered word)
    {c d : α} {tail rest : List α} {pieces : List (Option α)} (spelled : word = c :: tail)
    (shown : fill word (some d :: pieces) = word ++ rest) :
    ∃ later, some d :: pieces = word.map some ++ later ∧ fill word later = rest := by
  subst spelled
  obtain ⟨rfl,shown⟩ := List.cons.inj shown
  obtain ⟨later,letters,filled⟩ := letters_of_fill unbordered [d] tail rfl (by simp) shown
  exact ⟨later,by rw [letters]; rfl,filled⟩

/-- Two cuts of one text that stay equal under another word of the same length mark alike. -/
theorem fill_same_length {word value : List α} (unbordered : Unbordered word) (nonempty : word ≠ [])
    (long : value.length = word.length) {first second : List (Option α)}
    (before : fill word first = fill word second) (after : fill value first = fill value second) :
    value = word ∨ first.countP Option.isNone = second.countP Option.isNone := by
  obtain ⟨c,tail,spelled⟩ := List.exists_cons_of_ne_nil nonempty
  induction first generalizing second with
  | nil =>
    cases second with
    | nil => exact .inr rfl
    | cons piece second =>
      cases piece with
      | none => simp [spelled] at before
      | some d => cases before
  | cons piece first ih =>
    cases second with
    | nil =>
      cases piece with
      | none => simp [spelled] at before
      | some d => cases before
    | cons other second =>
      cases piece with
      | none =>
        cases other with
        | none =>
          cases ih (List.append_cancel_left before) (List.append_cancel_left after) with
          | inl same => exact .inl same
          | inr marks => exact .inr (by simp [marks])
        | some d =>
          obtain ⟨later,letters,-⟩ := letters_of_fill_whole unbordered spelled before.symm
          rw [letters,fill_append,fill_letters,fill_mark] at after
          exact .inl (List.append_inj_left after long)
      | some d =>
        cases other with
        | none =>
          obtain ⟨later,letters,-⟩ := letters_of_fill_whole unbordered spelled before
          rw [letters,fill_append,fill_letters,fill_mark] at after
          exact .inl (List.append_inj_left after.symm long)
        | some e =>
          have earlier := (List.cons.inj before).2
          cases ih earlier (List.cons.inj after).2 with
          | inl same => exact .inl same
          | inr marks => exact .inr (by simp [marks])

/-- A text of letters and of slots, each slot a word that stands for a value. -/
inductive Piece (α : Type) where
  | letter (c : α)
  | slot (word : List α)
  deriving DecidableEq, Repr

def substitute (value : List α → List α) : List (Piece α) → List α
  | [] => []
  | .letter c :: pieces => c :: substitute value pieces
  | .slot word :: pieces => value word ++ substitute value pieces

def slots : List (Piece α) → List (List α)
  | [] => []
  | .letter _ :: pieces => slots pieces
  | .slot word :: pieces => word :: slots pieces

theorem substitute_congr {first second : List α → List α} {pieces : List (Piece α)}
    (agree : ∀ word ∈ slots pieces, first word = second word) :
    substitute first pieces = substitute second pieces := by
  induction pieces with
  | nil => rfl
  | cons piece pieces ih =>
    cases piece with
    | letter c => exact congrArg (c :: ·) (ih agree)
    | slot word =>
      have here := agree word List.mem_cons_self
      have later := ih fun other inside => agree other (List.mem_cons_of_mem _ inside)
      rw [substitute,substitute,here,later]

theorem countP_letters (text : List α) : (text.map some).countP Option.isNone = 0 := by
  simp [List.countP_eq_zero]

variable [DecidableEq α]

/-- The marked text: a mark for each occurrence met from the left, the counter skips the rest of
an occurrence. -/
def mark (word : List α) : Nat → List α → List (Option α)
  | _, [] => []
  | skip + 1, _ :: text => mark word skip text
  | 0, c :: text =>
    if word.isPrefixOf (c :: text) then none :: mark word (word.length - 1) text
    else some c :: mark word 0 text

def replaceAll (word value text : List α) : List α := fill value (mark word 0 text)

def occurrences (word : List α) : List α → Nat
  | [] => 0
  | c :: text => (if word.isPrefixOf (c :: text) then 1 else 0) + occurrences word text

theorem mark_skip (word skipped text : List α) :
    mark word skipped.length (skipped ++ text) = mark word 0 text := by
  induction skipped with
  | nil => rfl
  | cons c skipped ih => exact ih

theorem mark_word {word : List α} (nonempty : word ≠ []) (text : List α) :
    mark word 0 (word ++ text) = none :: mark word 0 text := by
  obtain ⟨c,tail,rfl⟩ := List.exists_cons_of_ne_nil nonempty
  have shown : (c :: tail).isPrefixOf (c :: (tail ++ text)) = true := by
    rw [List.isPrefixOf_iff_prefix]
    exact List.prefix_append (c :: tail) text
  rw [List.cons_append,mark,if_pos shown]
  exact congrArg (none :: ·) (mark_skip (c :: tail) tail text)

theorem mark_other {word : List α} {c : α} {text : List α}
    (absent : ¬word <+: c :: text) : mark word 0 (c :: text) = some c :: mark word 0 text := by
  rw [mark,if_neg]
  rwa [List.isPrefixOf_iff_prefix]

theorem occurrences_other {word : List α} {c : α} {text : List α}
    (absent : ¬word <+: c :: text) : occurrences word (c :: text) = occurrences word text := by
  rw [occurrences,if_neg,Nat.zero_add]
  rwa [List.isPrefixOf_iff_prefix]

theorem occurrences_letter {word : List α} {c : α} {text : List α}
    (shown : word <+: c :: text) :
    occurrences word (c :: text) = occurrences word text + 1 := by
  rw [occurrences,if_pos,Nat.add_comm]
  rwa [List.isPrefixOf_iff_prefix]

theorem occurrences_le (word : List α) (c : α) (text : List α) :
    occurrences word text ≤ occurrences word (c :: text) :=
  Nat.le_add_left _ _

/-- Inside a word that does not overlap itself the word is not shown again. -/
theorem occurrences_rest {word : List α} (unbordered : Unbordered word)
    (seen unseen : List α) (split : word = seen ++ unseen) (begun : seen ≠ []) (text : List α) :
    occurrences word (unseen ++ text) = occurrences word text := by
  induction unseen generalizing seen with
  | nil => rfl
  | cons c unseen ih =>
    have absent : ¬word <+: c :: (unseen ++ text) := by
      intro shown
      have short : (c :: unseen).length ≤ word.length := by
        rw [split,List.length_append]
        omega
      obtain ⟨stop,border⟩ := List.prefix_of_prefix_length_le
        (List.prefix_append (c :: unseen) text) shown short
      have empty := unbordered seen (c :: unseen) stop split border.symm begun
      cases empty
    rw [List.cons_append,occurrences_other absent]
    exact ih (seen ++ [c]) (by simp [split]) (by simp)

theorem occurrences_word {word : List α} (unbordered : Unbordered word) (nonempty : word ≠ [])
    (text : List α) : occurrences word (word ++ text) = occurrences word text + 1 := by
  obtain ⟨c,tail,rfl⟩ := List.exists_cons_of_ne_nil nonempty
  have shown : c :: tail <+: c :: (tail ++ text) := List.prefix_append (c :: tail) text
  rw [List.cons_append,occurrences_letter shown,
    occurrences_rest unbordered [c] tail rfl (by simp)]

theorem marks_le_occurrences {word : List α} (unbordered : Unbordered word) (nonempty : word ≠ [])
    (pieces : List (Option α)) :
    pieces.countP Option.isNone ≤ occurrences word (fill word pieces) := by
  induction pieces with
  | nil => exact Nat.zero_le _
  | cons piece pieces ih =>
    cases piece with
    | none =>
      rw [fill_mark,occurrences_word unbordered nonempty,List.countP_cons_of_pos rfl]
      exact Nat.succ_le_succ ih
    | some c =>
      rw [fill_letter,List.countP_cons_of_neg (by simp)]
      exact ih.trans (occurrences_le word c _)

/-- Where the word is shown at the marks alone, marking the text finds the marks again. -/
theorem mark_fill {word : List α} (unbordered : Unbordered word) (nonempty : word ≠ [])
    {pieces : List (Option α)}
    (alone : occurrences word (fill word pieces) = pieces.countP Option.isNone) :
    mark word 0 (fill word pieces) = pieces := by
  induction pieces with
  | nil => rfl
  | cons piece pieces ih =>
    cases piece with
    | none =>
      rw [fill_mark,occurrences_word unbordered nonempty,List.countP_cons_of_pos rfl] at alone
      rw [fill_mark,mark_word nonempty,ih (Nat.succ.inj alone)]
    | some c =>
      rw [fill_letter,List.countP_cons_of_neg (by simp)] at alone
      have marks := marks_le_occurrences unbordered nonempty pieces
      by_cases shown : word <+: c :: fill word pieces
      · rw [occurrences_letter shown] at alone
        omega
      · rw [occurrences_other shown] at alone
        rw [fill_letter,mark_other shown,ih alone]

theorem fill_mark_self {word : List α} (nonempty : word ≠ []) (text : List α) :
    fill word (mark word 0 text) = text := by
  induction whole : text.length using Nat.strong_induction_on generalizing text with
  | _ size ih =>
    cases text with
    | nil => rfl
    | cons c text =>
      by_cases shown : word <+: c :: text
      · obtain ⟨rest,cut⟩ := shown
        have longer := congrArg List.length cut
        have positive := List.length_pos_iff.mpr nonempty
        rw [List.length_append] at longer
        rw [← cut,mark_word nonempty,fill_mark,ih rest.length (by omega) rest rfl]
      · rw [mark_other shown,fill_letter]
        rw [ih text.length (by rw [← whole]; exact Nat.lt_succ_self _) text rfl]

theorem marks_eq_occurrences {word : List α} (unbordered : Unbordered word) (nonempty : word ≠ [])
    (text : List α) : (mark word 0 text).countP Option.isNone = occurrences word text := by
  induction whole : text.length using Nat.strong_induction_on generalizing text with
  | _ size ih =>
    cases text with
    | nil => rfl
    | cons c text =>
      by_cases shown : word <+: c :: text
      · obtain ⟨rest,cut⟩ := shown
        have longer := congrArg List.length cut
        have positive := List.length_pos_iff.mpr nonempty
        rw [List.length_append] at longer
        rw [← cut,mark_word nonempty,occurrences_word unbordered nonempty,
          List.countP_cons_of_pos rfl,ih rest.length (by omega) rest rfl]
      · rw [mark_other shown,occurrences_other shown,List.countP_cons_of_neg (by simp)]
        exact ih text.length (by rw [← whole]; exact Nat.lt_succ_self _) text rfl

/-- A replacement changes the marks and nothing else exactly where it changes nothing at all or
the word is shown at the marks alone. -/
theorem replaceAll_fill_iff {word : List α} (unbordered : Unbordered word) (nonempty : word ≠ [])
    (value : List α) (pieces : List (Option α)) :
    replaceAll word value (fill word pieces) = fill value pieces ↔
      value = word ∨ occurrences word (fill word pieces) = pieces.countP Option.isNone := by
  constructor
  · intro after
    have before := fill_mark_self nonempty (fill word pieces)
    have shown := marks_eq_occurrences unbordered nonempty (fill word pieces)
    rw [← shown]
    by_cases long : value.length = word.length
    · exact fill_same_length unbordered nonempty long before after
    · right
      have oldMarked := length_fill word (mark word 0 (fill word pieces))
      have newMarked := length_fill value (mark word 0 (fill word pieces))
      have old := length_fill word pieces
      have new := length_fill value pieces
      rw [before] at oldMarked
      rw [show fill value (mark word 0 (fill word pieces)) = fill value pieces from after]
        at newMarked
      generalize (mark word 0 (fill word pieces)).countP Option.isNone = marked at *
      generalize pieces.countP Option.isNone = given at *
      by_contra different
      have crossed : ((marked : Int) - given) * (value.length - word.length) = 0 := by
        zify at oldMarked newMarked old new
        linarith
      rcases mul_eq_zero.mp crossed with same | same
      · exact different (by omega)
      · exact long (by omega)
  · rintro (rfl | alone)
    · exact fill_mark_self nonempty _
    · rw [replaceAll,mark_fill unbordered nonempty alone]

/-- The words whose turn has come have values, the others stand for themselves. -/
def among (done : List (List α)) (value : List α → List α) (word : List α) : List α :=
  if word ∈ done then value word else word

def inTurn (value : List α → List α) (order : List (List α)) (text : List α) : List α :=
  order.foldl (fun text word => replaceAll word (value word) text) text

def remaining (done : List (List α)) (word : List α) (pieces : List (Piece α)) : Nat :=
  if word ∈ done then 0 else (slots pieces).count word

def SinglePass (value : List α → List α) (order : List (List α)) (pieces : List (Piece α)) : Prop :=
  ∀ done rest, order = done ++ rest →
    inTurn value done (substitute id pieces) = substitute (among done value) pieces

def Clean (value : List α → List α) (order : List (List α)) (pieces : List (Piece α)) : Prop :=
  ∀ done word rest, order = done ++ word :: rest →
    value word = word ∨
      occurrences word (substitute (among done value) pieces) = remaining done word pieces

/-- The pieces with a mark for each slot whose turn it is. -/
def marks (value : List α → List α) (done : List (List α)) (word : List α) :
    List (Piece α) → List (Option α)
  | [] => []
  | .letter c :: pieces => some c :: marks value done word pieces
  | .slot other :: pieces =>
    if other ∈ done then (value other).map some ++ marks value done word pieces
    else if other = word then none :: marks value done word pieces
    else other.map some ++ marks value done word pieces

theorem substitute_among_all {value : List α → List α} {done : List (List α)}
    {pieces : List (Piece α)} (all : ∀ word ∈ slots pieces, word ∈ done) :
    substitute (among done value) pieces = substitute value pieces :=
  substitute_congr fun word inside => if_pos (all word inside)

theorem fill_marks_before (value : List α → List α) (done : List (List α)) (word : List α)
    (pieces : List (Piece α)) :
    fill word (marks value done word pieces) = substitute (among done value) pieces := by
  induction pieces with
  | nil => rfl
  | cons piece pieces ih =>
    cases piece with
    | letter c => exact congrArg (c :: ·) ih
    | slot other =>
      rw [marks,substitute,among]
      by_cases member : other ∈ done
      · rw [if_pos member,if_pos member,fill_append,fill_letters,ih]
      · rw [if_neg member,if_neg member]
        by_cases same : other = word
        · rw [if_pos same,fill_mark,ih,same]
        · rw [if_neg same,fill_append,fill_letters,ih]

theorem fill_marks_after (value : List α → List α) (done : List (List α)) (word : List α)
    (pieces : List (Piece α)) :
    fill (value word) (marks value done word pieces) =
      substitute (among (done ++ [word]) value) pieces := by
  induction pieces with
  | nil => rfl
  | cons piece pieces ih =>
    cases piece with
    | letter c => exact congrArg (c :: ·) ih
    | slot other =>
      rw [marks,substitute,among]
      by_cases member : other ∈ done
      · rw [if_pos member,if_pos (List.mem_append_left _ member),fill_append,fill_letters,ih]
      · rw [if_neg member]
        by_cases same : other = word
        · rw [if_pos same,if_pos (by simp [same]),fill_mark,ih,same]
        · rw [if_neg same,if_neg (by simp [member,same]),fill_append,fill_letters,ih]

theorem countP_marks (value : List α → List α) (done : List (List α)) (word : List α)
    (pieces : List (Piece α)) :
    (marks value done word pieces).countP Option.isNone = remaining done word pieces := by
  induction pieces with
  | nil => simp [marks,remaining,slots]
  | cons piece pieces ih =>
    cases piece with
    | letter c => exact ih
    | slot other =>
      rw [remaining] at ih ⊢
      rw [marks,slots]
      by_cases member : other ∈ done
      · rw [if_pos member,List.countP_append,countP_letters,ih,Nat.zero_add]
        by_cases done_word : word ∈ done
        · rw [if_pos done_word,if_pos done_word]
        · have different : other ≠ word := by
            intro same
            exact done_word (same ▸ member)
          rw [if_neg done_word,if_neg done_word,List.count_cons_of_ne different]
      · rw [if_neg member]
        by_cases same : other = word
        · subst same
          rw [if_pos rfl,List.countP_cons_of_pos rfl,ih,if_neg member,if_neg member,
            List.count_cons_self]
        · rw [if_neg same,List.countP_append,countP_letters,ih,Nat.zero_add,
            List.count_cons_of_ne same]

/-- One turn meets the slots of its word alone exactly where the text so far shows it nowhere
else. -/
theorem turn_iff {word : List α} (unbordered : Unbordered word) (nonempty : word ≠ [])
    (value : List α → List α) (done : List (List α)) (pieces : List (Piece α)) :
    replaceAll word (value word) (substitute (among done value) pieces) =
        substitute (among (done ++ [word]) value) pieces ↔
      value word = word ∨
        occurrences word (substitute (among done value) pieces) = remaining done word pieces := by
  rw [← fill_marks_before value done word pieces,← fill_marks_after value done word pieces,
    ← countP_marks value done word pieces]
  exact replaceAll_fill_iff unbordered nonempty _ _

theorem inTurn_concat (value : List α → List α) (done : List (List α)) (word text : List α) :
    inTurn value (done ++ [word]) text = replaceAll word (value word) (inTurn value done text) := by
  rw [inTurn,List.foldl_append]
  rfl

/-- Replacing word after word keeps to a single simultaneous pass at every turn exactly where
every turn is clean. -/
theorem singlePass_iff {order : List (List α)}
    (words : ∀ word ∈ order, Unbordered word ∧ word ≠ [])
    (value : List α → List α) (pieces : List (Piece α)) :
    SinglePass value order pieces ↔ Clean value order pieces := by
  constructor
  · intro single done word rest cut
    obtain ⟨unbordered,nonempty⟩ := words word (by rw [cut]; simp)
    have before := single done (word :: rest) cut
    have after := single (done ++ [word]) rest (by rw [cut]; simp)
    rw [inTurn_concat,before] at after
    exact (turn_iff unbordered nonempty value done pieces).mp after
  · intro clean done
    induction done using List.reverseRecOn with
    | nil =>
      intro rest cut
      exact substitute_congr fun word _ => (if_neg List.not_mem_nil).symm
    | append_singleton done word ih =>
      intro rest cut
      have split : order = done ++ word :: rest := by rw [cut]; simp
      obtain ⟨unbordered,nonempty⟩ := words word (by rw [split]; simp)
      rw [inTurn_concat,ih (word :: rest) split]
      exact (turn_iff unbordered nonempty value done pieces).mpr (clean done word rest split)

theorem inTurn_eq_substitute {order : List (List α)}
    (words : ∀ word ∈ order, Unbordered word ∧ word ≠ [])
    {value : List α → List α} {pieces : List (Piece α)}
    (all : ∀ word ∈ slots pieces, word ∈ order) (clean : Clean value order pieces) :
    inTurn value order (substitute id pieces) = substitute value pieces := by
  have single := (singlePass_iff words value pieces).mpr clean
  rw [single order [] (List.append_nil _).symm,substitute_among_all all]

end HmclPe.Lib.Replacement
