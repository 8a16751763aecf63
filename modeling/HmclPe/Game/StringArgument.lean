import HmclPe.Game.Version
import HmclPe.Lib.Replacement

/-! Placeholders of the launch arguments. The matcher runs over the argument as written, the
values are put into the running result; every match replaces all the text it finds there. -/
namespace HmclPe.Game
open HmclPe.Java HmclPe.Lib.Replacement

/-- The keys of the map are whole placeholders, sign and braces included. -/
abbrev Keys := Text → Option Text

def Keys.getOrDefault (keys : Keys) (key default : Text) : Text := (keys key).getD default

structure StringArgument where
  argument : Text
  deriving DecidableEq, Repr

namespace StringArgument

/-- The shortest `.*?}` the text starts with. -/
def closing : Text → Option Text
  | [] => none
  | c :: s =>
    if c = '}' then some [c]
    else if c ∈ Text.lineTerminators then none
    else (closing s).map (c :: ·)

/-- The match of `\$\{(.*?)}` the text starts with. -/
def lookingAt : Text → Option Text
  | '$' :: '{' :: s => (closing s).map fun rest => '$' :: '{' :: rest
  | _ => none

/-- The groups of the matches one `m.find()` after the other gives. -/
def findFrom : Nat → Text → List Text
  | _, [] => []
  | skip + 1, _ :: s => findFrom skip s
  | 0, c :: s => match lookingAt (c :: s) with
    | some entry => entry :: findFrom (entry.length - 1) s
    | none => findFrom 0 s

def groups (s : Text) : List Text := findFrom 0 s

def toString (arg : StringArgument) (keys : Keys) (_features : List (Text × Bool)) : List Text :=
  [(groups arg.argument).foldl
    (fun res entry => Text.replace entry (keys.getOrDefault entry entry) res) arg.argument]

end StringArgument

def RuledArgument.toString (env : Platform) (arg : RuledArgument) (keys : Keys)
    (features : List (Text × Bool)) : List Text :=
  match arg.value with
  | some value =>
    if CompatibilityRule.appliesToCurrentEnvironment env arg.rules features then
      value.filterMap fun s => (StringArgument.toString ⟨s⟩ keys features)[0]?
    else []
  | none => []

def Argument.toString (env : Platform) (keys : Keys) (features : List (Text × Bool)) :
    Argument → List Text
  | .string argument => StringArgument.toString ⟨argument⟩ keys features
  | .ruled argument => argument.toString env keys features

def Arguments.parseArguments (env : Platform) (arguments : List (Option Argument)) (keys : Keys)
    (features : List (Text × Bool)) : List Text :=
  (arguments.filterMap id).flatMap (Argument.toString env keys features)

namespace StringArgument

/-- The argument as written: its placeholders are slots, everything else is letters. -/
def piecesFrom : Nat → Text → List (Piece Char)
  | _, [] => []
  | skip + 1, _ :: s => piecesFrom skip s
  | 0, c :: s => match lookingAt (c :: s) with
    | some entry => .slot entry :: piecesFrom (entry.length - 1) s
    | none => .letter c :: piecesFrom 0 s

def pieces (s : Text) : List (Piece Char) := piecesFrom 0 s

def value (keys : Keys) (entry : Text) : Text := keys.getOrDefault entry entry

theorem closing_spec {s rest : Text} (closed : closing s = some rest) :
    rest <+: s ∧ ∃ body, rest = body ++ ['}'] ∧ '}' ∉ body := by
  induction s generalizing rest with
  | nil => cases closed
  | cons c s ih =>
    rw [closing] at closed
    by_cases brace : c = '}'
    · rw [if_pos brace,Option.some.injEq] at closed
      subst brace closed
      exact ⟨List.prefix_append ['}'] s,[],rfl,List.not_mem_nil⟩
    · rw [if_neg brace] at closed
      by_cases ends : c ∈ Text.lineTerminators
      · rw [if_pos ends] at closed
        cases closed
      · rw [if_neg ends,Option.map_eq_some_iff] at closed
        obtain ⟨inner,later,rfl⟩ := closed
        obtain ⟨initial,body,rfl,free⟩ := ih later
        refine ⟨(List.cons_prefix_cons).mpr ⟨rfl,initial⟩,c :: body,rfl,?_⟩
        intro inside
        cases List.mem_cons.mp inside with
        | inl same => exact brace same.symm
        | inr deeper => exact free deeper

theorem lookingAt_spec {s entry : Text} (found : lookingAt s = some entry) :
    entry <+: s ∧ Unbordered entry ∧ entry ≠ [] := by
  unfold lookingAt at found
  split at found
  · rw [Option.map_eq_some_iff] at found
    obtain ⟨rest,closed,rfl⟩ := found
    obtain ⟨initial,body,rfl,free⟩ := closing_spec closed
    refine ⟨?_,?_,by simp⟩
    · exact List.cons_prefix_cons.mpr ⟨rfl,List.cons_prefix_cons.mpr ⟨rfl,initial⟩⟩
    · exact @unbordered_concat _ ('$' :: '{' :: body) '}' (by simp [free])
  · cases found

theorem slots_piecesFrom (skip : Nat) (s : Text) : slots (piecesFrom skip s) = findFrom skip s := by
  induction s generalizing skip with
  | nil => cases skip <;> rfl
  | cons c s ih =>
    cases skip with
    | succ skip => exact ih skip
    | zero =>
      rw [piecesFrom,findFrom]
      cases found : lookingAt (c :: s) with
      | none => exact ih 0
      | some entry => exact congrArg (entry :: ·) (ih _)

theorem slots_pieces (s : Text) : slots (pieces s) = groups s := slots_piecesFrom 0 s

theorem groups_words (s : Text) : ∀ entry ∈ groups s, Unbordered entry ∧ entry ≠ [] := by
  suffices every : ∀ skip, ∀ entry ∈ findFrom skip s, Unbordered entry ∧ entry ≠ [] from every 0
  induction s with
  | nil =>
    intro skip entry inside
    cases skip <;> cases inside
  | cons c s ih =>
    intro skip entry inside
    cases skip with
    | succ skip => exact ih skip entry inside
    | zero =>
      rw [findFrom] at inside
      cases found : lookingAt (c :: s) with
      | none =>
        rw [found] at inside
        exact ih 0 entry inside
      | some first =>
        rw [found] at inside
        cases List.mem_cons.mp inside with
        | inl same =>
          rw [same]
          exact (lookingAt_spec found).2
        | inr later => exact ih _ entry later

theorem substitute_piecesFrom (skip : Nat) (s : Text) :
    substitute id (piecesFrom skip s) = s.drop skip := by
  induction s generalizing skip with
  | nil => cases skip <;> rfl
  | cons c s ih =>
    cases skip with
    | succ skip => exact ih skip
    | zero =>
      rw [piecesFrom]
      cases found : lookingAt (c :: s) with
      | none => exact congrArg (c :: ·) (ih 0)
      | some entry =>
        obtain ⟨⟨rest,whole⟩,-,nonempty⟩ := lookingAt_spec found
        obtain ⟨first,tail,rfl⟩ := List.exists_cons_of_ne_nil nonempty
        obtain ⟨-,cut⟩ := List.cons.inj whole
        change (first :: tail) ++ substitute id (piecesFrom tail.length s) = c :: s
        have after : s.drop tail.length = rest := by
          rw [← cut]
          exact List.drop_left
        rw [ih,after]
        exact whole

theorem substitute_pieces (s : Text) : substitute id (pieces s) = s := substitute_piecesFrom 0 s

theorem replaceFrom_eq_fill (target replacement : Text) (skip : Nat) (s : Text) :
    Text.replaceFrom target replacement skip s = fill replacement (mark target skip s) := by
  induction s generalizing skip with
  | nil => cases skip <;> rfl
  | cons c s ih =>
    cases skip with
    | succ skip => exact ih skip
    | zero =>
      rw [Text.replaceFrom,mark]
      split
      · rw [ih]
        rfl
      · rw [ih]
        rfl

theorem replace_eq_replaceAll (target replacement s : Text) :
    Text.replace target replacement s = replaceAll target replacement s :=
  replaceFrom_eq_fill target replacement 0 s

theorem toString_eq_inTurn (arg : StringArgument) (keys : Keys) (features : List (Text × Bool)) :
    arg.toString keys features =
      [inTurn (value keys) (groups arg.argument) (substitute id (pieces arg.argument))] := by
  rw [substitute_pieces,inTurn,toString]
  congr 1
  congr 1
  funext res entry
  exact replace_eq_replaceAll entry _ res

/-- Gone through in this order the matches get their values in one pass: the result is the
argument with its placeholders filled in, and no turn reaches text that came from a value. -/
def Simultaneous (keys : Keys) (s : Text) (order : List Text) : Prop :=
  inTurn (value keys) order s = substitute (value keys) (pieces s) ∧
    SinglePass (value keys) order (pieces s)

theorem simultaneous_iff (keys : Keys) (s : Text) {order : List Text}
    (same : order.Perm (groups s)) :
    Simultaneous keys s order ↔ Clean (value keys) order (pieces s) := by
  have words : ∀ entry ∈ order, Unbordered entry ∧ entry ≠ [] := by
    intro entry inside
    exact groups_words s entry (same.mem_iff.mp inside)
  rw [← singlePass_iff words]
  constructor
  · exact And.right
  · intro single
    refine ⟨?_,single⟩
    have all : ∀ entry ∈ slots (pieces s), entry ∈ order := by
      intro entry inside
      rw [slots_pieces] at inside
      exact same.mem_iff.mpr inside
    have result := inTurn_eq_substitute words all ((singlePass_iff words _ _).mp single)
    rwa [substitute_pieces] at result

/-- An argument is filled in by one simultaneous pass exactly where every turn finds its match at
the placeholders still waiting for it alone; whatever the order, where that holds along every
order. -/
theorem toString_simultaneous_iff (arg : StringArgument) (keys : Keys)
    (features : List (Text × Bool)) :
    ((arg.toString keys features = [substitute (value keys) (pieces arg.argument)] ∧
        SinglePass (value keys) (groups arg.argument) (pieces arg.argument)) ↔
      Clean (value keys) (groups arg.argument) (pieces arg.argument)) ∧
    ((∀ order, order.Perm (groups arg.argument) → Simultaneous keys arg.argument order) ↔
      ∀ order, order.Perm (groups arg.argument) →
        Clean (value keys) order (pieces arg.argument)) := by
  constructor
  · rw [← simultaneous_iff keys arg.argument (List.Perm.refl _),toString_eq_inTurn,
      substitute_pieces,List.singleton_inj]
    exact Iff.rfl
  · constructor
    · intro every order same
      exact (simultaneous_iff keys _ same).mp (every order same)
    · intro every order same
      exact (simultaneous_iff keys _ same).mpr (every order same)

/-- A player whose name is spelled like a later placeholder. -/
def nameIsPlaceholder : Keys := fun key =>
  List.lookup key [(("${auth_player_name}" : String),(("${auth_uuid}" : String) : Text)),
    (("${auth_uuid}" : String),("1234" : String))]

theorem name_substituted_again :
    ¬∀ (arg : StringArgument) (keys : Keys) (features : List (Text × Bool)),
      arg.toString keys features = [substitute (value keys) (pieces arg.argument)] := by
  intro every
  have filled := every ⟨("${auth_player_name} ${auth_uuid}" : String)⟩ nameIsPlaceholder []
  revert filled
  decide +kernel

end StringArgument

end HmclPe.Game
