import HmclPe.Java.Search

/-! The list of Java runtimes, read from their `release` files, and what the lines of
such a file say. -/
namespace HmclPe.Setting.SettingUtils
open HmclPe.Java

inductive RuntimeException where
  | nullPointer
  | stringIndexOutOfBounds
  | arrayIndexOutOfBounds
deriving DecidableEq, Repr

/-- A folder of the runtimes' directory; a `release` file that is absent or cannot
be read has no text. -/
structure Runtime where
  name : Text
  release : Option Text
deriving DecidableEq, Repr

structure JavaListBean where
  name : Text
  version : Text
  osArch : Text
deriving DecidableEq, Repr

/-- What stands at the runtimes' directory. -/
inductive JavaDir where
  | missing
  | file
  | folder (runtimes : List Runtime)
deriving DecidableEq, Repr

def javaVersionStr : Text := ("JAVA_VERSION=\"" : String)
def osArchStr : Text := ("OS_ARCH=\"" : String)

/-- `releaseContent.substring(index, releaseContent.indexOf('"', index))` at the
place of a key. -/
def cut (releaseContent key : Text) : Except RuntimeException Text :=
  let index := releaseContent.indexOf key
  match releaseContent.substring index (releaseContent.indexOfChar '"' index) with
  | some piece => .ok piece
  | none => .error .stringIndexOutOfBounds

/-- An element of the array a split returns. -/
def piece (pieces : List Text) (i : Nat) : Except RuntimeException Text :=
  match pieces[i]? with
  | some p => .ok p
  | none => .error .arrayIndexOutOfBounds

def version (javaVersion : Text) : Except RuntimeException Text := do
  let javaVersionSplit := javaVersion.split '.'
  let first ← piece javaVersionSplit 0
  if first = ['1'] then piece javaVersionSplit 1 else piece javaVersionSplit 0

/-- One turn of the loop. -/
def javaListBean (runtime : Runtime) : Except RuntimeException JavaListBean :=
  match runtime.release with
  | some releaseContent => do
    let javaVersion ← cut releaseContent javaVersionStr
    let shown ← version javaVersion
    let osArch ← cut releaseContent osArchStr
    pure ⟨runtime.name,shown,osArch⟩
  | none => .ok ⟨runtime.name,("unknown version":String),[]⟩

/-- `list()` of a plain file is null and the loop over it throws. -/
def getJavaVersionInfo : JavaDir → Except RuntimeException (List JavaListBean)
  | .missing => .ok []
  | .file => .error .nullPointer
  | .folder runtimes => runtimes.mapM javaListBean

/-! ## What a release file says -/

def lines (text : Text) : List Text := text.splitOnP fun c => c = '\n' || c = '\r'

/-- The text has the line `key="value"`, written with the key up to its quote. -/
def Says (text key value : Text) : Prop := key ++ value ++ ['"'] ∈ lines text

instance (text key value : Text) : Decidable (Says text key value) :=
  inferInstanceAs (Decidable (_ ∈ lines text))

/-- The second dot-separated component when the first is `1`, the first one otherwise. -/
def component (v : Text) : Option Text :=
  let components := v.splitOn '.'
  if components[0]? = some ['1'] then components[1]? else components[0]?

/-- The bean shows the runtime as its release file describes it. -/
def Shows (runtime : Runtime) (bean : JavaListBean) : Prop :=
  bean.name = runtime.name ∧ ∀ text v a, runtime.release = some text → '"' ∉ v → '"' ∉ a →
    Says text javaVersionStr v → Says text osArchStr a →
    (∀ c, component v = some c → bean.version = c) ∧ bean.osArch = a

/-- Every runtime is listed, as its release file describes it. -/
def Detects (runtimes : List Runtime) : Prop :=
  ∃ beans, getJavaVersionInfo (.folder runtimes) = .ok beans ∧ List.Forall₂ Shows runtimes beans

def versionKey : Text := ("JAVA_VERSION=" : String)
def archKey : Text := ("OS_ARCH=" : String)

/-- Both keys stand in the text, and where it has the two lines they say no more than
the keys' own names. -/
def Harmless (text : Text) : Prop :=
  javaVersionStr <:+: text ∧ osArchStr <:+: text ∧
    ∀ v a, '"' ∉ v → '"' ∉ a → Says text javaVersionStr v → Says text osArchStr a →
      (∀ c, component v = some c → c = versionKey) ∧ a = archKey

/-! ## Where the code cuts -/

theorem cut_missing {text key : Text} (missing : ¬ key <:+: text) :
    cut text key = .error .stringIndexOutOfBounds := by
  simp only [cut]
  rw [Text.indexOf_missing missing,Text.substring_negative _ _ (by omega)]

/-- The search for the closing quote finds the opening one. -/
theorem cut_found {text key : Text} (free : '"' ∉ key) (found : key ++ ['"'] <:+: text) :
    cut text (key ++ ['"']) = .ok key := by
  obtain ⟨before,after,whole,index⟩ := Text.indexOf_found found
  have shape : text = before ++ key ++ '"' :: after := by
    rw [whole]
    simp
  have quote := Text.indexOfChar_after before after free
  have between := Text.substring_between before key ('"' :: after)
  rw [← shape] at quote between
  simp only [cut]
  rw [index,quote,between]

theorem version_free {s : Text} (free : '.' ∉ s) (other : s ≠ ['1']) : version s = .ok s := by
  have whole := Text.split_free free
  simp only [version,piece,whole,List.getElem?_cons_zero]
  change (if s = ['1'] then _ else Except.ok s) = _
  rw [if_neg other]

theorem cut_version {text : Text} (found : javaVersionStr <:+: text) :
    cut text javaVersionStr = .ok versionKey := @cut_found text versionKey (by decide) found

theorem cut_arch {text : Text} (found : osArchStr <:+: text) :
    cut text osArchStr = .ok archKey := @cut_found text archKey (by decide) found

theorem version_key : version versionKey = .ok versionKey := version_free (by decide) (by decide)

/-- A text with both keys is shown under the keys' names. -/
theorem javaListBean_found {name text : Text} (version_ : javaVersionStr <:+: text)
    (arch : osArchStr <:+: text) :
    javaListBean ⟨name,some text⟩ = .ok ⟨name,versionKey,archKey⟩ := by
  simp only [javaListBean,cut_version version_,cut_arch arch]
  change (version versionKey >>= fun shown => _) = _
  rw [version_key]
  rfl

theorem found_of_javaListBean {name text : Text} {bean : JavaListBean}
    (listed : javaListBean ⟨name,some text⟩ = .ok bean) :
    javaVersionStr <:+: text ∧ osArchStr <:+: text := by
  have version_ : javaVersionStr <:+: text := by
    by_contra missing
    simp only [javaListBean,cut_missing missing] at listed
    cases listed
  refine ⟨version_,?_⟩
  by_contra missing
  simp only [javaListBean,cut_missing missing,cut_version version_] at listed
  change (version versionKey >>= fun shown => _) = _ at listed
  rw [version_key] at listed
  cases listed

/-- A turn of the loop lists its runtime faithfully exactly when its text is harmless. -/
theorem shows_iff (runtime : Runtime) :
    (∃ bean, javaListBean runtime = .ok bean ∧ Shows runtime bean) ↔
      ∀ text, runtime.release = some text → Harmless text := by
  obtain ⟨name,release⟩ := runtime
  constructor
  · rintro ⟨bean,listed,shown⟩ text rfl
    obtain ⟨version_,arch⟩ := found_of_javaListBean listed
    rw [javaListBean_found version_ arch] at listed
    obtain rfl := Except.ok.inj listed
    refine ⟨version_,arch,?_⟩
    intro v a freeV freeA lineV lineA
    obtain ⟨sameV,sameA⟩ := shown.2 text v a rfl freeV freeA lineV lineA
    exact ⟨fun c of => (sameV c of).symm,sameA.symm⟩
  · intro harmless
    cases release with
    | none =>
      refine ⟨_,rfl,rfl,?_⟩
      intro text v a absent
      cases absent
    | some text =>
      obtain ⟨version_,arch,lines_⟩ := harmless text rfl
      refine ⟨_,javaListBean_found version_ arch,rfl,?_⟩
      intro text' v a same freeV freeA lineV lineA
      obtain rfl := Option.some.inj same
      obtain ⟨sameV,sameA⟩ := lines_ v a freeV freeA lineV lineA
      exact ⟨fun c of => (sameV c of).symm,sameA.symm⟩

/-! ## The whole list -/

theorem mapM_ok_iff {α β ε : Type} (f : α → Except ε β) (xs : List α) (ys : List β) :
    xs.mapM f = .ok ys ↔ List.Forall₂ (fun a b => f a = .ok b) xs ys := by
  induction xs generalizing ys with
  | nil =>
    rw [List.mapM_nil,List.forall₂_nil_left_iff]
    exact ⟨fun same => (Except.ok.inj same).symm,fun same => same ▸ rfl⟩
  | cons x xs ih =>
    rw [List.mapM_cons,List.forall₂_cons_left_iff]
    cases first : f x with
    | error e =>
      constructor
      · intro same
        cases same
      · rintro ⟨_,_,same,-⟩
        cases same
    | ok y =>
      cases later : xs.mapM f with
      | error e =>
        constructor
        · intro same
          cases same
        · rintro ⟨_,rest,-,each,-⟩
          rw [(ih rest).mpr each] at later
          cases later
      | ok rest =>
        constructor
        · intro same
          exact ⟨y,rest,rfl,(ih rest).mp later,(Except.ok.inj same).symm⟩
        · rintro ⟨y',rest',same,each,rfl⟩
          rw [(ih rest').mpr each] at later
          rw [Except.ok.inj same,Except.ok.inj later]
          rfl

/-- The runtimes are all detected exactly when every release text is harmless. -/
theorem detects_iff (runtimes : List Runtime) :
    Detects runtimes ↔
      ∀ runtime ∈ runtimes, ∀ text, runtime.release = some text → Harmless text := by
  rw [Detects]
  induction runtimes with
  | nil =>
    constructor
    · intro _ runtime member
      cases member
    · intro _
      exact ⟨[],rfl,.nil⟩
  | cons runtime runtimes ih =>
    rw [List.forall_mem_cons,← ih,← shows_iff]
    constructor
    · rintro ⟨beans,listed,shown⟩
      rw [getJavaVersionInfo,mapM_ok_iff] at listed
      obtain ⟨bean,rest,first,later,rfl⟩ := List.forall₂_cons_left_iff.mp shown
      obtain ⟨one,each⟩ := List.forall₂_cons.mp listed
      refine ⟨⟨bean,one,first⟩,rest,?_,later⟩
      rw [getJavaVersionInfo,mapM_ok_iff]
      exact each
    · rintro ⟨⟨bean,one,shown⟩,rest,each,later⟩
      rw [getJavaVersionInfo,mapM_ok_iff] at each
      refine ⟨bean :: rest,?_,.cons shown later⟩
      rw [getJavaVersionInfo,mapM_ok_iff]
      exact .cons one each

def java8 : Runtime :=
  ⟨("java-8":String),some ("JAVA_VERSION=\"1.8.0\"\nOS_ARCH=\"aarch64\"\n":String)⟩

/-- An ordinary release file is shown under the names of its keys. -/
theorem not_detects_java8 : ¬ Detects [java8] := by
  rw [detects_iff]
  intro harmless
  have said := (harmless java8 (List.mem_singleton.mpr rfl) _ rfl).2.2
    ("1.8.0":String) ("aarch64":String) (by decide) (by decide) (by decide +kernel)
    (by decide +kernel)
  exact absurd said.2 (by decide)

end HmclPe.Setting.SettingUtils
