import HmclPe.Game.Library

/-! Artifacts are printed as their descriptors, in version files too, and read back. -/
namespace HmclPe.Game
open HmclPe.Java

inductive JsonPrimitive where
  | string (value : Text)
  | number (value : Text)
  | boolean (value : Bool)

def JsonPrimitive.getAsString : JsonPrimitive → Text
  | string value => value
  | number value => value
  | boolean true => ("true" : String)
  | boolean false => ("false" : String)

inductive JsonElement where
  | null
  | primitive (value : JsonPrimitive)
  | array (elements : List JsonElement)
  | object (members : List (Text × JsonElement))

namespace Artifact

namespace Serializer

def serialize : Option Artifact → JsonElement
  | none => .null
  | some src => .primitive (.string src.descriptor)

/-- The outer option is the exception for a malformed name. -/
def deserialize : JsonElement → Option (Option Artifact)
  | .primitive value => (fromDescriptor value.getAsString).map some
  | _ => some none

end Serializer

section RoundTrip

/-- The last part of a descriptor as it is printed. -/
def printed (last ext : Text) : Text :=
  last ++ if ext = ("jar" : String) then [] else '@' :: ext

/-- The extension that was cut is read back from the printed last part. -/
theorem cutExtension_printed {last before : Text} {ext : Option Text}
    (cut : cutExtension last = some (before,ext)) :
    ∃ again, cutExtension (printed before (ext.getD ("jar" : String))) = some (before,again) ∧
      again.getD ("jar" : String) = ext.getD ("jar" : String) := by
  unfold cutExtension at cut
  split at cut
  · rename_i first second parts
    simp only [Option.some.injEq,Prod.mk.injEq] at cut
    obtain ⟨rfl,rfl⟩ := cut
    obtain ⟨freeS,freeT,some_⟩ := Text.of_split_two parts
    unfold printed cutExtension
    rw [Option.getD_some]
    by_cases jar : second = ("jar" : String).toList
    · rw [if_pos jar,List.append_nil,Text.split_free freeS]
      exact ⟨none,rfl,by rw [jar]; rfl⟩
    · rw [if_neg jar,Text.split_two freeS freeT some_]
      exact ⟨some second,rfl,rfl⟩
  · simp at cut
  · rename_i other many
    simp only [Option.some.injEq,Prod.mk.injEq] at cut
    obtain ⟨rfl,rfl⟩ := cut
    refine ⟨none,?_,rfl⟩
    unfold printed cutExtension
    rw [Option.getD_none,if_pos rfl,List.append_nil]
    split
    · rename_i first second parts
      exact absurd parts (other first second)
    · rename_i a b c more parts
      exact absurd parts (many a b c more)
    · rfl

theorem printed_free {last before : Text} {ext : Option Text}
    (cut : cutExtension last = some (before,ext)) (free : ':' ∉ last) :
    ':' ∉ printed before (ext.getD ("jar" : String)) := by
  unfold cutExtension at cut
  split at cut
  · rename_i first second parts
    simp only [Option.some.injEq,Prod.mk.injEq] at cut
    obtain ⟨rfl,rfl⟩ := cut
    have pieces : first ∈ last.split '@' ∧ second ∈ last.split '@' := by simp [parts]
    have freeS : ':' ∉ first := fun inside => free (Text.mem_of_split pieces.1 inside)
    have freeT : ':' ∉ second := fun inside => free (Text.mem_of_split pieces.2 inside)
    unfold printed
    split <;> simp [freeS,freeT]
  · simp at cut
  · simp only [Option.some.injEq,Prod.mk.injEq] at cut
    obtain ⟨rfl,rfl⟩ := cut
    simpa [printed] using free

/-- The parts of a descriptor are free of colons, but for the last of four. -/
theorem splitLimit_parts {s : Text} {pieces : List Text} {last : Text}
    (cut : s.splitLimit ':' 4 = pieces ++ [last]) :
    (∀ piece ∈ pieces, ':' ∉ piece) ∧ (pieces.length < 3 → ':' ∉ last) := by
  obtain ⟨whole,bound⟩ := @Text.splitOn_of_splitLimit ':' 3 s pieces last cut
  refine ⟨?_,bound⟩
  intro piece member
  apply Text.free_of_mem_splitOn (s := s)
  rw [whole]
  exact List.mem_append_left _ member

theorem replaceChar_free {c old new : Char} {s : Text} (free : c ∉ s) (other : c ≠ new) :
    c ∉ s.replaceChar old new := by
  unfold Text.replaceChar
  intro member
  obtain ⟨d,inside,same⟩ := List.mem_map.mp member
  split at same
  · exact other same.symm
  · exact free (same ▸ inside)

theorem replaceChar_twice (s : Text) :
    (s.replaceChar '\\' '/').replaceChar '\\' '/' = s.replaceChar '\\' '/' := by
  unfold Text.replaceChar
  rw [List.map_map]
  apply List.map_congr_left
  intro c member
  by_cases slash : c = '\\' <;> simp [slash]

theorem fromDescriptor_three {group name last before : Text} {ext : Option Text}
    (freeG : ':' ∉ group) (freeN : ':' ∉ name) (freeL : ':' ∉ last)
    (cut : cutExtension last = some (before,ext)) :
    fromDescriptor (group ++ ':' :: (name ++ ':' :: last)) =
      some (make (group.replaceChar '\\' '/') name before none ext) := by
  unfold fromDescriptor
  rw [Text.splitLimit_cons freeG 2,Text.splitLimit_cons freeN 1,Text.splitLimit_free freeL]
  simp only
  rw [cut]
  rfl

theorem fromDescriptor_four {group name version last before : Text} {ext : Option Text}
    (freeG : ':' ∉ group) (freeN : ':' ∉ name) (freeV : ':' ∉ version)
    (cut : cutExtension last = some (before,ext)) :
    fromDescriptor (group ++ ':' :: (name ++ ':' :: (version ++ ':' :: last))) =
      some (make (group.replaceChar '\\' '/') name version (some before) ext) := by
  unfold fromDescriptor
  rw [Text.splitLimit_cons freeG 2,Text.splitLimit_cons freeN 1,Text.splitLimit_cons freeV 0,
    Text.splitLimit]
  simp only
  rw [cut]
  rfl

theorem make_congr {group name version : Text} {classifier ext again : Option Text}
    (same : again.getD ("jar" : String) = ext.getD ("jar" : String)) :
    make group name version classifier again = make group name version classifier ext := by
  unfold make
  rw [same]

theorem fromDescriptor_descriptor {s : Text} {a : Artifact} (accepted : fromDescriptor s = some a) :
    fromDescriptor a.descriptor = some a := by
  unfold fromDescriptor at accepted
  split at accepted
  · rename_i group name version limited
    obtain ⟨⟨before,ext⟩,cut,made⟩ := Option.bind_eq_some_iff.mp accepted
    obtain rfl := Option.some.inj made
    obtain ⟨frees,bound⟩ := @splitLimit_parts s [group,name] version limited
    obtain ⟨again,recut,same⟩ := cutExtension_printed cut
    have freeG : ':' ∉ group.replaceChar '\\' '/' :=
      replaceChar_free (frees group (by simp)) (by decide)
    have text : (make (group.replaceChar '\\' '/') name before none ext).descriptor =
        group.replaceChar '\\' '/' ++ ':' ::
          (name ++ ':' :: printed before (ext.getD ("jar" : String))) := by
      simp only [descriptor,make,printed,List.append_nil,List.append_assoc,List.cons_append]
      rfl
    rw [text,fromDescriptor_three freeG (frees name (by simp))
      (printed_free cut (bound (by simp))) recut,replaceChar_twice,make_congr same]
  · rename_i group name version classifier limited
    obtain ⟨⟨before,ext⟩,cut,made⟩ := Option.bind_eq_some_iff.mp accepted
    obtain rfl := Option.some.inj made
    obtain ⟨frees,_⟩ := @splitLimit_parts s [group,name,version] classifier limited
    obtain ⟨again,recut,same⟩ := cutExtension_printed cut
    have freeG : ':' ∉ group.replaceChar '\\' '/' :=
      replaceChar_free (frees group (by simp)) (by decide)
    have text : (make (group.replaceChar '\\' '/') name version (some before) ext).descriptor =
        group.replaceChar '\\' '/' ++ ':' ::
          (name ++ ':' :: (version ++ ':' :: printed before (ext.getD ("jar" : String)))) := by
      simp only [descriptor,make,printed,List.append_assoc,List.cons_append]
      rfl
    rw [text,fromDescriptor_four freeG (frees name (by simp)) (frees version (by simp)) recut,
      replaceChar_twice,make_congr same]
  · simp at accepted

/-- An accepted descriptor is printed as one that is read as the same artifact, and so
is an artifact of a version file that is written again. -/
theorem descriptor_roundTrip (s : Text) (json : JsonElement) :
    (∀ a ∈ fromDescriptor s, ∃ b ∈ fromDescriptor a.descriptor,
      b.group = a.group ∧ b.name = a.name ∧ b.version = a.version ∧
        b.classifier = a.classifier ∧ b.extension = a.extension ∧ b.path = a.path ∧
        b.fileName = a.fileName) ∧
      ∀ src ∈ Serializer.deserialize json,
        Serializer.deserialize (Serializer.serialize src) = some src := by
  constructor
  · intro a accepted
    exact ⟨a,fromDescriptor_descriptor accepted,rfl,rfl,rfl,rfl,rfl,rfl,rfl⟩
  · intro src read
    cases src with
    | none => rfl
    | some a =>
      cases json with
      | primitive value =>
        obtain ⟨b,accepted,same⟩ := Option.map_eq_some_iff.mp read
        obtain rfl := Option.some.inj same
        exact Option.map_eq_some_iff.mpr ⟨b,fromDescriptor_descriptor accepted,rfl⟩
      | null => cases read
      | array elements => cases read
      | object members => cases read

theorem descriptor_roundTrip_native :
    fromDescriptor ("org\\lwjgl:lwjgl:3.2.1:natives@zip" : String).toList =
        some (make ("org/lwjgl" : String) ("lwjgl" : String) ("3.2.1" : String)
          (some ("natives" : String).toList) (some ("zip" : String).toList)) ∧
      Serializer.deserialize (.primitive (.string ("a:b:1" : String).toList)) =
        some (some (make ("a" : String) ("b" : String) ("1" : String) none none)) ∧
      (∃ b ∈ fromDescriptor (make ("org/lwjgl" : String) ("lwjgl" : String) ("3.2.1" : String)
          (some ("natives" : String).toList) (some ("zip" : String).toList)).descriptor,
        b.extension = ("zip" : String).toList) ∧
      Serializer.deserialize (Serializer.serialize
          (some (make ("a" : String) ("b" : String) ("1" : String) none none))) =
        some (some (make ("a" : String) ("b" : String) ("1" : String) none none)) := by
  have accepted : fromDescriptor ("org\\lwjgl:lwjgl:3.2.1:natives@zip" : String).toList =
      some (make ("org/lwjgl" : String) ("lwjgl" : String) ("3.2.1" : String)
        (some ("natives" : String).toList) (some ("zip" : String).toList)) := by decide +kernel
  have read : Serializer.deserialize (.primitive (.string ("a:b:1" : String).toList)) =
      some (some (make ("a" : String) ("b" : String) ("1" : String) none none)) := by decide +kernel
  obtain ⟨b,printed,_,_,_,_,extension,_,_⟩ :=
    (descriptor_roundTrip ("org\\lwjgl:lwjgl:3.2.1:natives@zip" : String).toList .null).1 _ accepted
  exact ⟨accepted,read,⟨b,printed,extension⟩,(descriptor_roundTrip [] _).2 _ read⟩

end RoundTrip

end Artifact

end HmclPe.Game
