import HmclPe.Java.Text

/-! Paths as `java.io.File` keeps them. They are texts without doubled slashes; the segments `.` and
`..` stay, and are the system's matter. -/
namespace HmclPe.Java

structure File where
  path : Text
  deriving DecidableEq, Repr

namespace File

/-- A slash behind a slash is dropped. -/
def singleSlashes : Text → Text
  | [] => []
  | '/' :: '/' :: rest => singleSlashes ('/' :: rest)
  | c :: rest => c :: singleSlashes rest

/-- So is one at the end, but not the root. -/
def normalize (pathname : Text) : Text :=
  let path := singleSlashes pathname
  if path ≠ ['/'] ∧ path.getLast? = some '/' then path.dropLast else path

/-- A normalized path below another one; the root below it is the path itself. -/
def resolve (parent child : Text) : Text :=
  if child = [] ∨ child = ['/'] then parent
  else if child.head? = some '/' then if parent = ['/'] then child else parent ++ child
  else if parent = ['/'] then parent ++ child
  else parent ++ '/' :: child

/-- The constructor with a parent, which may be null. -/
def child (parent : Option File) (name : Text) : File :=
  match parent with
  | none => ⟨normalize name⟩
  | some parent => ⟨resolve (if parent.path = [] then ['/'] else parent.path) (normalize name)⟩

/-- The path up to its last slash, null where there is none or only the root. -/
def getParentFile (file : File) : Option File :=
  let before := (file.path.reverse.dropWhile (· ≠ '/')).reverse
  if before = [] then none
  else if before = ['/'] then if file.path = ['/'] then none else some ⟨['/']⟩
  else some ⟨before.dropLast⟩

theorem singleSlashes_plain {name : Text} (plain : '/' ∉ name) : singleSlashes name = name := by
  induction name with
  | nil => rfl
  | cons c name ih =>
    rw [List.mem_cons,not_or] at plain
    rw [singleSlashes,ih plain.2]
    rintro rest rfl
    exact absurd rfl plain.1

theorem normalize_plain {name : Text} (plain : '/' ∉ name) : normalize name = name := by
  rw [normalize,singleSlashes_plain plain,if_neg]
  rintro ⟨-,last⟩
  exact plain (List.mem_of_getLast? last)

/-- An entry of a directory. -/
def entry (directory name : Text) : File := ⟨directory ++ '/' :: name⟩

section Entries

variable {directory name : Text}

theorem getParentFile_entry (some_ : directory ≠ []) (plain : '/' ∉ name) :
    getParentFile (entry directory name) = some ⟨directory⟩ := by
  have skipped : ∀ c ∈ name.reverse, decide (c ≠ '/') = true := by
    intro c member
    rw [List.mem_reverse] at member
    rw [decide_eq_true_eq]
    rintro rfl
    exact plain member
  have before : ((directory ++ '/' :: name).reverse.dropWhile (· ≠ '/')).reverse =
      directory ++ ['/'] := by
    rw [List.reverse_append,List.reverse_cons,List.append_assoc,
      List.dropWhile_append_of_pos skipped]
    simp
  rw [getParentFile,entry]
  simp only [before]
  rw [if_neg (by simp),if_neg (by simpa using some_),List.dropLast_concat]

theorem child_entry (some_ : directory ≠ []) (below : directory ≠ ['/']) (named : name ≠ [])
    (plain : '/' ∉ name) : child (some ⟨directory⟩) name = entry directory name := by
  have relative : name.head? ≠ some '/' := fun first => plain (List.mem_of_head? first)
  have other : name ≠ ['/'] := by
    rintro rfl
    exact relative rfl
  rw [child]
  simp only [normalize_plain plain]
  rw [if_neg some_,resolve,if_neg (by simp [named,other]),if_neg relative,if_neg below,entry]

end Entries

example : child (some ⟨"/games/versions".toList⟩) "mirror//".toList =
    ⟨"/games/versions/mirror".toList⟩ := by decide

end File

end HmclPe.Java
