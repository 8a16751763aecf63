import HmclPe.Java.Text

/-! The character machine that replaces the keys of launch arguments. It runs over the
joined text of all arguments, so an opening without its brace runs on into the next one. -/
namespace HmclPe.Launch.Expansion
open HmclPe.Java

inductive Mode where
  | text
  | opened
  | key (read : Text)
  deriving DecidableEq

section Machine

variable (value : Text → Text)

/-- A dollar before a brace opens a key; a key that is still open at the end is dropped. -/
def scan : Mode → Text → Text
  | _, [] => []
  | .text, c :: s =>
    if c = '$' ∧ s.head? = some '{' then scan .opened s else c :: scan .text s
  | .opened, _ :: s => scan (.key []) s
  | .key read, c :: s =>
    if c = '}' then value read ++ scan .text s else scan (.key (read ++ [c])) s

def pending : Mode → Text → Mode
  | mode, [] => mode
  | .text, c :: s => if c = '$' ∧ s.head? = some '{' then pending .opened s else pending .text s
  | .opened, _ :: s => pending (.key []) s
  | .key read, c :: s => if c = '}' then pending .text s else pending (.key (read ++ [c])) s

def Mode.source : Mode → Text
  | .text => []
  | .opened => ['$']
  | .key read => '$' :: '{' :: read

/-- One template with each key in it replaced; an opening without its brace is text. -/
def expandTemplate (t : Text) : Text := scan value .text t ++ (pending .text t).source

def Closed (t : Text) : Prop := pending .text t = .text

instance (t : Text) : Decidable (Closed t) := inferInstanceAs (Decidable (_ = _))

theorem scan_append (mode : Mode) (t s : Text) (free : s.head? ≠ some '{') :
    scan value mode (t ++ s) = scan value mode t ++ scan value (pending mode t) s := by
  induction t generalizing mode with
  | nil => cases mode <;> simp [scan,pending]
  | cons c t ih =>
    cases mode with
    | text =>
      have ahead : (t ++ s).head? = some '{' ↔ t.head? = some '{' := by
        cases t with
        | nil => simpa using free
        | cons d t => simp
      simp only [List.cons_append,scan,pending,ahead]
      split
      · exact ih .opened
      · rw [ih .text,List.cons_append]
    | opened => exact ih (.key [])
    | key read =>
      simp only [List.cons_append,scan,pending]
      split
      · rw [ih .text,List.append_assoc]
      · exact ih (.key (read ++ [c]))

theorem pending_append (mode : Mode) (t s : Text) (free : s.head? ≠ some '{') :
    pending mode (t ++ s) = pending (pending mode t) s := by
  induction t generalizing mode with
  | nil => cases mode <;> simp [pending]
  | cons c t ih =>
    cases mode with
    | text =>
      have ahead : (t ++ s).head? = some '{' ↔ t.head? = some '{' := by
        cases t with
        | nil => simpa using free
        | cons d t => simp
      simp only [List.cons_append,pending,ahead]
      split
      · exact ih .opened
      · exact ih .text
    | opened => exact ih (.key [])
    | key read =>
      simp only [List.cons_append,pending]
      split
      · exact ih .text
      · exact ih (.key (read ++ [c]))

/-- The machine never stops between a dollar and its brace. -/
theorem pending_ne_opened (t : Text) : pending .text t ≠ .opened ∧
    (∀ read, pending (.key read) t ≠ .opened) ∧ (t ≠ [] → pending .opened t ≠ .opened) := by
  induction t with
  | nil => simp [pending]
  | cons c t ih =>
    obtain ⟨text,key,opened⟩ := ih
    refine ⟨?_,fun read => ?_,fun _ => key []⟩
    · unfold pending
      split
      · rename_i opens
        apply opened
        intro empty
        simp [empty] at opens
      · exact text
    · unfold pending
      split
      · exact text
      · exact key (read ++ [c])

end Machine

section Ink

variable (value : Text → Text)

/-- How much of a text is not blank. -/
def ink (t : Text) : Nat := t.countP (· ≠ ' ')

@[simp] theorem ink_append (a b : Text) : ink (a ++ b) = ink a + ink b := List.countP_append

@[simp] theorem ink_blank (t : Text) : ink (' ' :: t) = ink t := by simp [ink]

theorem ink_source {mode : Mode} (open_ : mode ≠ .text) : 0 < ink mode.source := by
  cases mode with
  | text => exact absurd rfl open_
  | opened => decide
  | key read => simp [Mode.source,ink]

/-- What a key holds that began in an earlier argument. -/
def Blind (read : Text) : Prop := ∀ more, value (read ++ more) = []

/-- Wherever the machine is, a closing brace brings it back to the text. -/
theorem after_brace (mode : Mode) (notOpened : mode ≠ .opened) (b : Text) :
    pending mode ('}' :: b) = pending .text b ∧
      ∃ first, scan value mode ('}' :: b) = first ++ scan value .text b := by
  cases mode with
  | text => exact ⟨by simp [pending],['}'],by simp [scan]⟩
  | opened => exact absurd rfl notOpened
  | key read => exact ⟨by simp [pending],value read,by simp [scan]⟩

theorem scan_key_free (read : Text) {q : Text} (free : '}' ∉ q) :
    scan value (.key read) q = [] ∧ pending (.key read) q = .key (read ++ q) := by
  induction q generalizing read with
  | nil => simp [scan,pending]
  | cons c q ih =>
    have other : c ≠ '}' := fun same => free (by simp [same])
    obtain ⟨nothing,longer⟩ := ih (read ++ [c]) (fun member => free (by simp [member]))
    simp only [scan,pending,if_neg other]
    exact ⟨nothing,by simpa using longer⟩

/-- A key that runs into a template swallows it up to the first closing brace. -/
theorem scan_into {read : Text} (blind : Blind value read) (q : Text) :
    ink (scan value (.key read) q) ≤ ink (scan value .text q) ∧
      ((pending (.key read) q = .key (read ++ q) ∧ '}' ∉ q) ∨
        pending (.key read) q = pending .text q) := by
  by_cases member : '}' ∈ q
  · obtain ⟨b,whole,_,free⟩ := Text.splitAt_sep member
    generalize q.takeWhile (· ≠ '}') = a at whole free
    subst whole
    have head : ('}' :: b).head? ≠ some '{' := by simp
    obtain ⟨nothing,longer⟩ := scan_key_free value read free
    obtain ⟨plain,first,emitted⟩ := after_brace value (pending .text a) (pending_ne_opened a).1 b
    obtain ⟨closed,_⟩ := after_brace value (.key (read ++ a)) (by simp) b
    have blank : scan value (.key (read ++ a)) ('}' :: b) = scan value .text b := by
      simp [scan,blind a]
    rw [scan_append value _ _ _ head,scan_append value _ _ _ head,pending_append _ _ _ head,
      pending_append _ _ _ head,nothing,longer,blank,closed,plain,emitted]
    refine ⟨?_,Or.inr rfl⟩
    simp only [List.nil_append,ink_append]
    omega
  · obtain ⟨nothing,longer⟩ := scan_key_free value read member
    rw [nothing]
    exact ⟨Nat.zero_le _,Or.inl ⟨longer,member⟩⟩

def join (parts : List Text) : Text := [' '].intercalate parts

@[simp] theorem join_nil : join [] = [] := rfl

@[simp] theorem join_singleton (q : Text) : join [q] = q := by simp [join]

theorem join_cons (q r : Text) (rest : List Text) :
    join (q :: r :: rest) = q ++ ' ' :: join (r :: rest) := by simp [join]

theorem ink_join (parts : List Text) : ink (join parts) = (parts.map ink).sum := by
  induction parts with
  | nil => rfl
  | cons q rest ih =>
    cases rest with
    | nil => simp
    | cons r rest =>
      rw [join_cons,ink_append,ink_blank,ih]
      rfl

theorem scan_join_cons (mode : Mode) (q r : Text) (rest : List Text) :
    scan value mode (join (q :: r :: rest)) =
      scan value mode q ++ scan value (pending mode q) (' ' :: join (r :: rest)) := by
  rw [join_cons,scan_append value mode q _ (by simp)]

variable (keys : ∀ key, ' ' ∈ key → value key = [])

include keys

theorem blind_blank {read : Text} (blank : ' ' ∈ read) : Blind value read :=
  fun _ => keys _ (List.mem_append_left _ blank)

/-- A key that runs on over the blank between two arguments. -/
theorem scan_blank {mode : Mode} (notText : mode ≠ .text) (notOpened : mode ≠ .opened) :
    ∃ read, Blind value read ∧ ∀ s, scan value mode (' ' :: s) = scan value (.key read) s := by
  cases mode with
  | text => exact absurd rfl notText
  | opened => exact absurd rfl notOpened
  | key read => exact ⟨read ++ [' '],blind_blank value keys (by simp),fun s => by simp [scan]⟩

theorem ink_scan_join (parts : List Text) :
    ink (scan value .text (join parts)) ≤ (parts.map fun q => ink (expandTemplate value q)).sum ∧
      ∀ read, Blind value read →
        ink (scan value (.key read) (join parts)) ≤
          (parts.map fun q => ink (expandTemplate value q)).sum := by
  induction parts with
  | nil => simp [scan,ink]
  | cons q rest ih =>
    have own (q : Text) : ink (expandTemplate value q) =
        ink (scan value .text q) + ink (pending .text q).source := ink_append _ _
    cases rest with
    | nil =>
      simp only [join_singleton,List.map_cons,List.map_nil,List.sum_cons,List.sum_nil,own]
      refine ⟨by omega,fun read blind => ?_⟩
      have less := (scan_into value blind q).1
      omega
    | cons r rest =>
      obtain ⟨text,key⟩ := ih
      have onward (mode : Mode) (notOpened : mode ≠ .opened) :
          ink (scan value mode (' ' :: join (r :: rest))) ≤
            ((r :: rest).map fun q => ink (expandTemplate value q)).sum := by
        by_cases open_ : mode = .text
        · rw [open_]
          simpa [scan] using text
        · obtain ⟨read,blind,same⟩ := scan_blank value keys open_ notOpened
          rw [same]
          exact key read blind
      rw [List.map_cons,List.sum_cons,own]
      constructor
      · rw [scan_join_cons,ink_append]
        have later := onward _ (pending_ne_opened q).1
        omega
      · intro read blind
        rw [scan_join_cons,ink_append]
        have less := (scan_into value blind q).1
        have later := onward _ ((pending_ne_opened q).2.1 read)
        omega

/-- Nothing is lost only where every template closes its keys. -/
theorem closed_of_ink {parts : List Text}
    (kept : ink (scan value .text (join parts)) =
      (parts.map fun q => ink (expandTemplate value q)).sum) : ∀ q ∈ parts, Closed q := by
  induction parts with
  | nil => simp
  | cons q rest ih =>
    have own : ink (expandTemplate value q) =
        ink (scan value .text q) + ink (pending .text q).source := ink_append _ _
    rw [List.map_cons,List.sum_cons,own] at kept
    have closed : Closed q := by
      by_contra open_
      have lost := ink_source open_
      cases rest with
      | nil =>
        simp only [join_singleton,List.map_nil,List.sum_nil] at kept
        omega
      | cons r rest =>
        obtain ⟨read,blind,same⟩ := scan_blank value keys open_ (pending_ne_opened q).1
        have later := (ink_scan_join value keys (r :: rest)).2 read blind
        rw [scan_join_cons,ink_append,same] at kept
        omega
    intro t member
    rcases List.mem_cons.mp member with rfl | inside
    · exact closed
    · cases rest with
      | nil => simp at inside
      | cons r rest =>
        apply ih _ t inside
        unfold Closed at closed
        rw [scan_join_cons,ink_append,closed] at kept
        simp only [Mode.source,scan] at kept
        simpa [ink] using kept

omit keys

theorem scan_join_closed {parts : List Text} (closed : ∀ q ∈ parts, Closed q) :
    scan value .text (join parts) = join (parts.map (expandTemplate value)) := by
  have plain (q : Text) (inside : q ∈ parts) : expandTemplate value q = scan value .text q := by
    unfold expandTemplate
    rw [closed q inside,Mode.source,List.append_nil]
  induction parts with
  | nil => rfl
  | cons q rest ih =>
    cases rest with
    | nil => simp [plain q (by simp)]
    | cons r rest =>
      have here := closed q (by simp)
      unfold Closed at here
      have later := ih (fun t member => closed t (by simp [member]))
        (fun t member => plain t (by simp [member]))
      rw [scan_join_cons,here,List.map_cons,List.map_cons,join_cons,plain q (by simp)]
      rw [List.map_cons] at later
      rw [← later]
      simp [scan]

end Ink

end HmclPe.Launch.Expansion
