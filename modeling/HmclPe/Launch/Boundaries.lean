import HmclPe.Launch.Expansion

/-! Joining templates with blanks, replacing keys in the joined text and splitting it
again. What comes back is compared with the templates expanded one by one. -/
namespace HmclPe.Launch.Boundaries
open HmclPe.Java HmclPe.Launch.Expansion

section Blanks

theorem join_append {parts : List Text} (nonempty : parts ≠ []) (tail : List Text) :
    join (parts ++ tail) = join parts ++ tail.flatMap (' ' :: ·) := by
  induction parts with
  | nil => exact absurd rfl nonempty
  | cons q rest ih =>
    cases rest with
    | cons r rest =>
      rw [List.cons_append,List.cons_append,join_cons,join_cons,← List.cons_append,ih (by simp)]
      simp
    | nil =>
      clear ih
      induction tail generalizing q with
      | nil => simp
      | cons o tail ih =>
        have later := ih o (by simp)
        rw [List.singleton_append,join_singleton] at later
        rw [List.singleton_append,join_cons,later,join_singleton]
        simp

theorem splitOn_join {parts : List Text} (nonempty : parts ≠ []) :
    (join parts).splitOn ' ' = parts.flatMap fun q => q.splitOn ' ' := by
  induction parts with
  | nil => exact absurd rfl nonempty
  | cons q rest ih =>
    cases rest with
    | nil => simp
    | cons r rest =>
      rw [join_cons,List.splitOn_append_cons_self,ih (by simp)]
      rfl

theorem split_join {parts : List Text} (several : 2 ≤ parts.length)
    (free : ∀ q ∈ parts, ' ' ∉ q) : (join parts).split ' ' = parts.rdropWhile List.isEmpty := by
  have nonempty : parts ≠ [] := by
    intro empty
    simp [empty] at several
  have cut : (join parts).splitOn ' ' = parts := List.splitOn_intercalate ' ' free nonempty
  have blank : ' ' ∈ join parts := by
    by_contra absent
    rw [← cut,List.splitOn_eq_singleton absent] at several
    simp at several
  rw [Text.split,if_pos blank,cut]

theorem split_free {s : Text} (free : ' ' ∉ s) : s.split ' ' = [s] := if_neg free

theorem free_of_mem_split {s p : Text} (member : p ∈ s.split ' ') : ' ' ∉ p :=
  Text.free_of_mem_splitOn ((Text.split_prefix ' ' s).subset member)

theorem rdropWhile_isEmpty_eq_self {l : List Text} :
    l.rdropWhile List.isEmpty = l ↔ l.getLast? ≠ some [] := by
  rw [List.rdropWhile_eq_self_iff]
  cases l using List.reverseRecOn with
  | nil => simp
  | append_singleton l q => simp

theorem getLast?_rdropWhile (l : List Text) : (l.rdropWhile List.isEmpty).getLast? ≠ some [] :=
  rdropWhile_isEmpty_eq_self.mp (List.rdropWhile_idempotent _ l)

/-- The arguments that a text separated by blanks lists. -/
def words (s : Text) : List Text := (s.splitOn ' ').filter (· ≠ [])

theorem filter_rdropWhile (l : List Text) :
    (l.rdropWhile List.isEmpty).filter (· ≠ []) = l.filter (· ≠ []) := by
  induction l using List.reverseRecOn with
  | nil => rfl
  | append_singleton l q ih =>
    rw [List.rdropWhile_concat]
    split
    · rename_i empty
      rw [ih,List.filter_append,List.isEmpty_iff.mp empty]
      simp
    · rfl

theorem words_eq_filter_split (s : Text) : words s = (s.split ' ').filter (· ≠ []) := by
  unfold words Text.split
  split
  · rw [filter_rdropWhile]
  · rename_i free
    rw [List.splitOn_eq_singleton free]

theorem sum_filter_nonempty (weight : Text → Nat) (zero : weight [] = 0) (l : List Text) :
    ((l.filter (· ≠ [])).map weight).sum = (l.map weight).sum := by
  induction l with
  | nil => rfl
  | cons q l ih =>
    cases q with
    | nil => simpa [zero] using ih
    | cons c q => simpa using ih

theorem ink_words (s : Text) : ((words s).map ink).sum = ink s := by
  rw [words,sum_filter_nonempty ink rfl,← ink_join]
  exact congrArg ink (List.intercalate_splitOn ' ')

theorem blank_of_words {s : Text} (none : words s = []) : ∀ c ∈ s, c = ' ' := by
  have no_ink := ink_words s
  rw [none] at no_ink
  have count : s.countP (· ≠ ' ') = 0 := no_ink.symm
  simpa [List.countP_eq_zero] using count

theorem words_append_blank (a b : Text) : words (a ++ ' ' :: b) = words a ++ words b := by
  simp [words,List.splitOn_append_cons_self]

theorem words_free {s : Text} (free : ' ' ∉ s) : words s = [s].filter (· ≠ []) := by
  rw [words,List.splitOn_eq_singleton free]

/-- One word and no blank on either side: the text is that word. -/
theorem free_of_one_word {s : Text} (one : (words s).length ≤ 1) (first : s.head? ≠ some ' ')
    (last : s.getLast? ≠ some ' ') : ' ' ∉ s := by
  intro inside
  obtain ⟨b,whole,_,free⟩ := Text.splitAt_sep inside
  generalize s.takeWhile (· ≠ ' ') = a at whole free
  subst whole
  have front : a ≠ [] := by
    rintro rfl
    exact first rfl
  have back : words b ≠ [] := by
    intro none
    have blank := blank_of_words none
    cases b using List.reverseRecOn with
    | nil => simp at last
    | append_singleton b c =>
      apply last
      obtain rfl := blank c (by simp)
      rw [← List.cons_append,← List.append_assoc,List.getLast?_concat]
  have single : words a = [a] := by
    rw [words_free free,List.filter_eq_self]
    simpa using front
  have more := List.length_pos_iff.mpr back
  rw [words_append_blank,single,List.length_append,List.length_singleton] at one
  omega

end Blanks

section Templates

variable (value : Text → Text)

@[simp] theorem expandTemplate_nil : expandTemplate value [] = [] := rfl

theorem closed_nil : Closed [] := rfl

theorem expandTemplate_blank (s : Text) :
    expandTemplate value (' ' :: s) = ' ' :: expandTemplate value s := by
  simp [expandTemplate,scan,pending]

theorem blank_mem_expandTemplate (s : Text) : ' ' ∈ expandTemplate value (s ++ [' ']) := by
  have free : [' '].head? ≠ some '{' := by simp
  unfold expandTemplate
  rw [scan_append value _ _ _ free,pending_append _ _ _ free]
  cases at_end : pending .text s with
  | text => simp [scan]
  | opened => exact absurd at_end (pending_ne_opened s).1
  | key read => simp [pending,Mode.source]

theorem outer_of_free {s : Text} (free : ' ' ∉ expandTemplate value s) :
    s.head? ≠ some ' ' ∧ s.getLast? ≠ some ' ' := by
  constructor
  · intro first
    cases s with
    | nil => simp at first
    | cons c s =>
      obtain rfl : c = ' ' := by simpa using first
      rw [expandTemplate_blank] at free
      simp at free
  · intro last
    obtain ⟨front,rfl⟩ := List.getLast?_eq_some_iff.mp last
    exact free (blank_mem_expandTemplate value front)

/-- Templates that come through the joined text, each as one argument. -/
structure Kept (templates : List Text) : Prop where
  nonempty : templates ≠ []
  closed : ∀ t ∈ templates, Closed t
  free : ∀ t ∈ templates, ' ' ∉ expandTemplate value t
  last : (templates.map (expandTemplate value)).getLast? ≠ some []

theorem sum_ink_split (s : Text) : ((s.split ' ').map ink).sum = ink s := by
  rw [← ink_words,words_eq_filter_split,sum_filter_nonempty ink rfl]

theorem split_closed {templates : List Text} (nonempty : templates ≠ [])
    (closed : ∀ t ∈ templates, Closed t) (free : ∀ t ∈ templates, ' ' ∉ expandTemplate value t) :
    (scan value .text (join (templates ++ [[]]))).split ' ' =
      (templates.map (expandTemplate value)).rdropWhile List.isEmpty := by
  have all_closed (q : Text) (member : q ∈ templates ++ [[]]) : Closed q := by
    rcases List.mem_append.mp member with inside | last
    · exact closed q inside
    · rw [List.mem_singleton.mp last]
      exact closed_nil
  rw [scan_join_closed value all_closed,List.map_append,split_join]
  · exact List.rdropWhile_concat_pos _ _ _ rfl
  · have some_ := List.length_pos_iff.mpr nonempty
    rw [List.length_append,List.length_map,List.length_map,List.length_singleton]
    omega
  · intro q member
    rcases List.mem_append.mp member with inside | last
    · obtain ⟨t,here,rfl⟩ := List.mem_map.mp inside
      exact free t here
    · obtain rfl : q = [] := List.mem_singleton.mp last
      exact List.not_mem_nil

theorem split_eq_iff (keys : ∀ key, ' ' ∈ key → value key = []) (templates : List Text) :
    (scan value .text (join (templates ++ [[]]))).split ' ' = templates.map (expandTemplate value) ↔
      Kept value templates := by
  constructor
  · intro same
    have free (t : Text) (member : t ∈ templates) : ' ' ∉ expandTemplate value t := by
      apply free_of_mem_split
      rw [same]
      exact List.mem_map_of_mem member
    have nonempty : templates ≠ [] := by
      rintro rfl
      exact absurd same (by simp [scan,Text.split])
    have kept := sum_ink_split (scan value .text (join (templates ++ [[]])))
    rw [same,List.map_map] at kept
    have closed : ∀ t ∈ templates ++ [[]], Closed t := by
      apply closed_of_ink value keys
      rw [← kept]
      simp [ink,Function.comp_def]
    have closed (t : Text) (member : t ∈ templates) : Closed t :=
      closed t (List.mem_append_left _ member)
    rw [split_closed value nonempty closed free] at same
    exact ⟨nonempty,closed,free,rdropWhile_isEmpty_eq_self.mp same⟩
  · intro kept
    rw [split_closed value kept.nonempty kept.closed kept.free]
    exact rdropWhile_isEmpty_eq_self.mpr kept.last

/-- The low layout: words that come through, then entries that nothing expands. -/
structure KeptTail (text : Text) (tail : List Text) : Prop where
  closed : ∀ w ∈ words text, Closed w
  free : ∀ w ∈ words text, ' ' ∉ expandTemplate value w
  plain : ∀ o ∈ tail, expandTemplate value o = o
  tail_free : ∀ o ∈ tail, ' ' ∉ o
  alone : tail = [] → text.split ' ' = words text ∧
    (' ' ∈ text → ((words text).map (expandTemplate value)).getLast? ≠ some [])
  followed : tail ≠ [] → text.splitOn ' ' = words text ∧ tail.getLast? ≠ some []

def lowText (text : Text) (tail : List Text) : Text :=
  scan value .text text ++ tail.flatMap (' ' :: ·)

theorem mem_pieces {text q : Text} (member : q ∈ text.splitOn ' ') : q = [] ∨ q ∈ words text := by
  by_cases empty : q = []
  · exact Or.inl empty
  · exact Or.inr (List.mem_filter.mpr ⟨member,by simpa using empty⟩)

theorem lowText_eq_join {text : Text} (closed : ∀ w ∈ words text, Closed w) (tail : List Text) :
    lowText value text tail =
      join ((text.splitOn ' ').map (expandTemplate value) ++ tail) := by
  have pieces (q : Text) (member : q ∈ text.splitOn ' ') : Closed q := by
    rcases mem_pieces member with rfl | word
    · exact closed_nil
    · exact closed q word
  have nonempty : (text.splitOn ' ').map (expandTemplate value) ≠ [] := by
    simp [List.splitOn_ne_nil]
  rw [join_append nonempty,← scan_join_closed value pieces]
  have whole : join (text.splitOn ' ') = text := List.intercalate_splitOn ' '
  rw [whole,lowText]

theorem pieces_free {text : Text} (free : ∀ w ∈ words text, ' ' ∉ expandTemplate value w) :
    ∀ q ∈ (text.splitOn ' ').map (expandTemplate value), ' ' ∉ q := by
  intro q member
  obtain ⟨t,here,rfl⟩ := List.mem_map.mp member
  rcases mem_pieces here with rfl | word
  · exact List.not_mem_nil
  · exact free t word

theorem ink_flatMap_blank (tail : List Text) :
    ink (tail.flatMap (' ' :: ·)) = (tail.map ink).sum := by
  induction tail with
  | nil => rfl
  | cons o tail ih => simp [ih]

theorem ink_lowText (text : Text) (tail : List Text) :
    ink (lowText value text tail) = ink (scan value .text text) + (tail.map ink).sum := by
  rw [lowText,ink_append,ink_flatMap_blank]

theorem split_pieces_of_blank {text : Text} (inside : ' ' ∈ text) :
    2 ≤ (text.splitOn ' ').length := by
  obtain ⟨b,whole,_,free⟩ := Text.splitAt_sep inside
  rw [whole,List.splitOn_append_cons_self_of_not_mem free]
  have rest := List.length_pos_iff.mpr (List.splitOn_ne_nil ' ' b)
  simp only [List.length_cons]
  omega

/-- The pieces lose their trailing empty ones together with their expansions only where
no piece but those is empty. -/
theorem rdropWhile_of_map {f : Text → Text} (nil : f [] = []) {pieces : List Text}
    (same : (pieces.map f).rdropWhile List.isEmpty = (pieces.filter (· ≠ [])).map f) :
    pieces.rdropWhile List.isEmpty = pieces.filter (· ≠ []) := by
  induction pieces using List.reverseRecOn with
  | nil => rfl
  | append_singleton pieces w ih =>
    by_cases empty : w = []
    · subst empty
      have filtered : (pieces ++ [[]]).filter (· ≠ []) = pieces.filter (· ≠ []) := by
        rw [List.filter_append]
        simp
      rw [filtered] at same ⊢
      rw [List.rdropWhile_concat_pos _ _ _ rfl]
      apply ih
      rw [← same,List.map_append]
      exact (List.rdropWhile_concat_pos _ _ _ (by simp [nil])).symm
    · have filtered : (pieces ++ [w]).filter (· ≠ []) = pieces.filter (· ≠ []) ++ [w] := by
        rw [List.filter_append,List.filter_cons_of_pos (by simpa using empty)]
        rfl
      have last := getLast?_rdropWhile ((pieces ++ [w]).map f)
      rw [same,filtered,List.map_append,List.map_singleton,List.getLast?_concat] at last
      have shown : f w ≠ [] := fun none => last (congrArg some none)
      rw [filtered,List.map_append,List.map_append,List.map_singleton,
        List.rdropWhile_concat_neg _ _ _ (by simpa using shown)] at same
      have front := List.append_cancel_right same
      rw [filtered,List.rdropWhile_concat_neg _ _ _ (by simpa using empty)]
      have full : pieces.filter (· ≠ []) = pieces := by
        apply List.filter_eq_self.mpr
        apply List.length_filter_eq_length_iff.mp
        simpa using (congrArg List.length front).symm
      rw [full]

theorem shown_le_words {o : Text} (free : ' ' ∉ expandTemplate value o) :
    ([expandTemplate value o].filter (· ≠ [])).length ≤ (words o).length := by
  cases pieces : words o with
  | cons w rest => exact (List.length_filter_le _ _).trans (by simp)
  | nil =>
    have blank := blank_of_words pieces
    cases o with
    | nil => exact Nat.le_refl 0
    | cons c o =>
      obtain rfl := blank c (by simp)
      exact absurd rfl (outer_of_free value free).1

theorem plain_of_words {tail : List Text} (free : ∀ o ∈ tail, ' ' ∉ expandTemplate value o)
    (same : tail.flatMap words = (tail.map (expandTemplate value)).filter (· ≠ [])) :
    ∀ o ∈ tail, expandTemplate value o = o := by
  have fewer (l : List Text) (free : ∀ o ∈ l, ' ' ∉ expandTemplate value o) :
      ((l.map (expandTemplate value)).filter (· ≠ [])).length ≤ (l.flatMap words).length := by
    induction l with
    | nil => exact Nat.le_refl 0
    | cons o l ih =>
      have here := shown_le_words value (free o (by simp))
      have later := ih fun q member => free q (by simp [member])
      rw [List.map_cons,← List.singleton_append,List.filter_append,List.flatMap_cons,
        List.length_append,List.length_append]
      omega
  induction tail with
  | nil => simp
  | cons o tail ih =>
    have free_o := free o (by simp)
    have free_tail (q : Text) (member : q ∈ tail) := free q (List.mem_cons_of_mem o member)
    rw [List.map_cons,← @List.singleton_append _ (expandTemplate value o),List.filter_append,
      List.flatMap_cons] at same
    have total := congrArg List.length same
    rw [List.length_append,List.length_append] at total
    have here := shown_le_words value free_o
    have later := fewer tail free_tail
    obtain ⟨front,back⟩ := List.append_inj same (by omega)
    intro q member
    rcases List.mem_cons.mp member with rfl | inside
    · obtain ⟨first,last⟩ := outer_of_free value free_o
      have one : (words q).length ≤ 1 := by
        rw [front]
        exact List.length_filter_le _ _
      rw [words_free (free_of_one_word one first last)] at front
      cases q with
      | nil => rfl
      | cons c q =>
        by_cases empty : expandTemplate value (c :: q) = []
        · simp [empty] at front
        · simpa [empty,eq_comm] using front
    · exact ih free_tail back q inside

theorem split_lowText_of_kept {text : Text} {tail : List Text} (kept : KeptTail value text tail) :
    (lowText value text tail).split ' ' =
      (words text).map (expandTemplate value) ++ tail.map (expandTemplate value) := by
  have plain : tail.map (expandTemplate value) = tail := by
    simpa using List.map_congr_left kept.plain
  rw [lowText_eq_join value kept.closed,plain]
  have pieces := pieces_free value kept.free
  cases tail with
  | cons o tail =>
    obtain ⟨cut,last⟩ := kept.followed (by simp)
    have some_ := List.length_pos_iff.mpr (List.splitOn_ne_nil ' ' text)
    rw [split_join]
    · rw [cut]
      apply rdropWhile_isEmpty_eq_self.mpr
      rw [List.getLast?_append_of_ne_nil _ (by simp)]
      exact last
    · rw [List.length_append,List.length_map,List.length_cons]
      omega
    · intro q member
      rcases List.mem_append.mp member with inside | after
      · exact pieces q inside
      · exact kept.tail_free q after
  | nil =>
    obtain ⟨cut,last⟩ := kept.alone rfl
    rw [List.append_nil,List.append_nil]
    by_cases inside : ' ' ∈ text
    · have whole := @List.rdropWhile_append_rtakeWhile _ List.isEmpty (text.splitOn ' ')
      have empties (q : Text) (member : q ∈ (text.splitOn ' ').rtakeWhile List.isEmpty) : q = [] :=
        List.isEmpty_iff.mp (List.mem_rtakeWhile_imp member)
      rw [Text.split,if_pos inside] at cut
      rw [cut] at whole
      generalize (text.splitOn ' ').rtakeWhile List.isEmpty = rest at whole empties
      rw [split_join (by simpa using split_pieces_of_blank inside) pieces,← whole,List.map_append]
      clear whole
      induction rest using List.reverseRecOn with
      | nil =>
        rw [List.map_nil,List.append_nil]
        exact rdropWhile_isEmpty_eq_self.mpr (last inside)
      | append_singleton rest q ih =>
        obtain rfl := empties q (by simp)
        rw [List.map_append,← List.append_assoc,List.map_singleton,List.rdropWhile_concat_pos _ _ _ rfl]
        exact ih fun p member => empties p (List.mem_append_left _ member)
    · rw [split_free inside] at cut
      have free : ' ' ∉ expandTemplate value text := kept.free text (by simp [← cut])
      rw [List.splitOn_eq_singleton inside,← cut]
      rw [List.map_singleton,join_singleton]
      exact split_free free

theorem flatMap_splitOn_free {l : List Text} (free : ∀ q ∈ l, ' ' ∉ q) :
    l.flatMap (fun q => q.splitOn ' ') = l := by
  induction l with
  | nil => rfl
  | cons q l ih =>
    rw [List.flatMap_cons,List.splitOn_eq_singleton (free q (by simp)),
      ih fun p member => free p (List.mem_cons_of_mem q member)]
    rfl

theorem filter_map_filter {f : Text → Text} (nil : f [] = []) (l : List Text) :
    ((l.filter (· ≠ [])).map f).filter (· ≠ []) = (l.map f).filter (· ≠ []) := by
  induction l with
  | nil => rfl
  | cons q l ih =>
    cases q with
    | nil => simpa [nil] using ih
    | cons c q =>
      by_cases empty : f (c :: q) = []
      · simpa [empty] using ih
      · simpa [empty] using ih

/-- The nonempty words of the split text, where the words close their keys. -/
theorem tail_words {text : Text} {tail : List Text} (closed : ∀ w ∈ words text, Closed w)
    (free : ∀ w ∈ words text, ' ' ∉ expandTemplate value w)
    (same : (lowText value text tail).split ' ' =
      (words text).map (expandTemplate value) ++ tail.map (expandTemplate value)) :
    tail.flatMap words = (tail.map (expandTemplate value)).filter (· ≠ []) := by
  have read := words_eq_filter_split (lowText value text tail)
  have wrote : words (lowText value text tail) =
      ((words text).map (expandTemplate value)).filter (· ≠ []) ++ tail.flatMap words := by
    rw [lowText_eq_join value closed,words,splitOn_join (by simp [List.splitOn_ne_nil]),
      List.flatMap_append,flatMap_splitOn_free (pieces_free value free),List.filter_append,
      List.filter_flatMap,← filter_map_filter (expandTemplate_nil value)]
    rfl
  rw [wrote,same,List.filter_append] at read
  exact List.append_cancel_left read

theorem kept_of_split_lowText (keys : ∀ key, ' ' ∈ key → value key = []) {text : Text}
    {tail : List Text}
    (regular : (∀ w ∈ words text, Closed w) ∨ ∀ o ∈ tail, expandTemplate value o = o)
    (same : (lowText value text tail).split ' ' =
      (words text).map (expandTemplate value) ++ tail.map (expandTemplate value)) :
    KeptTail value text tail := by
  have free_all (q : Text) (member : q ∈ words text ++ tail) : ' ' ∉ expandTemplate value q := by
    apply free_of_mem_split
    rw [same,← List.map_append]
    exact List.mem_map_of_mem member
  have free (w : Text) (word : w ∈ words text) := free_all w (List.mem_append_left _ word)
  have tail_free (o : Text) (member : o ∈ tail) := free_all o (List.mem_append_right _ member)
  have closed : ∀ w ∈ words text, Closed w := by
    rcases regular with closed | plain
    · exact closed
    · have kept := sum_ink_split (lowText value text tail)
      have unchanged : tail.map (expandTemplate value) = tail := by
        simpa using List.map_congr_left plain
      have whole : join (text.splitOn ' ') = text := List.intercalate_splitOn ' '
      rw [same,unchanged,ink_lowText,List.map_append,List.sum_append,List.map_map] at kept
      have expanded := Nat.add_right_cancel kept
      rw [words,sum_filter_nonempty _ rfl,← whole] at expanded
      intro w word
      apply closed_of_ink value keys _ w (List.mem_of_mem_filter word)
      rw [← expanded,whole]
      rfl
  have pieces := pieces_free value free
  have plain : ∀ o ∈ tail, expandTemplate value o = o := by
    rcases regular with _ | plain
    · exact plain_of_words value tail_free (tail_words value closed free same)
    · exact plain
  have unchanged : tail.map (expandTemplate value) = tail := by
    simpa using List.map_congr_left plain
  have tail_free (o : Text) (member : o ∈ tail) : ' ' ∉ o := by
    rw [← plain o member]
    exact tail_free o member
  rw [lowText_eq_join value closed,unchanged] at same
  refine ⟨closed,free,plain,tail_free,?_,?_⟩
  · rintro rfl
    rw [List.append_nil,List.append_nil] at same
    by_cases inside : ' ' ∈ text
    · rw [split_join (by simpa using split_pieces_of_blank inside) pieces] at same
      refine ⟨?_,fun _ => ?_⟩
      · rw [Text.split,if_pos inside]
        exact rdropWhile_of_map (expandTemplate_nil value) same
      · rw [← same]
        exact getLast?_rdropWhile _
    · refine ⟨?_,fun member => absurd member inside⟩
      rw [split_free inside,words_free inside]
      cases text with
      | nil => exact absurd same (by simp [words,Text.split])
      | cons c text => rfl
  · intro more
    have some_ := List.length_pos_iff.mpr (List.splitOn_ne_nil ' ' text)
    have after := List.length_pos_iff.mpr more
    rw [split_join] at same
    · have last := getLast?_rdropWhile ((text.splitOn ' ').map (expandTemplate value) ++ tail)
      rw [same,List.getLast?_append_of_ne_nil _ more] at last
      have all : (text.splitOn ' ').map (expandTemplate value) ++ tail =
          (words text).map (expandTemplate value) ++ tail := by
        rw [← same]
        apply (rdropWhile_isEmpty_eq_self.mpr _).symm
        rw [List.getLast?_append_of_ne_nil _ more]
        exact last
      have lengths := congrArg List.length (List.append_cancel_right all)
      rw [List.length_map,List.length_map] at lengths
      refine ⟨?_,last⟩
      exact (List.filter_eq_self.mpr (List.length_filter_eq_length_iff.mp lengths.symm)).symm
    · rw [List.length_append,List.length_map]
      omega
    · intro q member
      rcases List.mem_append.mp member with inside | outside
      · exact pieces q inside
      · exact tail_free q outside

end Templates

end HmclPe.Launch.Boundaries
