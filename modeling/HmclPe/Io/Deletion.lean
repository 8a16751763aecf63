import HmclPe.Io.DeleteTree

/-! The two deletions of a directory: what a followed link does to the places outside wherever other
links lead, and when both do what is asked of them. -/
namespace HmclPe.Io.Deletion
open HmclPe.Lib.Disks HmclPe.Lib.Folders HmclPe.Lib.SymbolicLinks
open HmclPe.Io.DeleteDirectory HmclPe.Io.DeleteFollowing HmclPe.Io.DeleteBeyond HmclPe.Io.DeleteTree

variable {ν : Type} [DecidableEq ν] {legal : ν → Prop}

section Leads

variable {d d' : Disk legal (Leaf ν Unit)} {place : List ν} {link : Link ν} {left left' : Nat}
  {way way' : Nat × List ν}

omit [DecidableEq ν] in
theorem lead_same (found : lead d left place link = some way)
    (found' : lead d left' place link = some way') : way'.2 = way.2 := by
  cases left with
  | zero => cases found
  | succ left =>
    cases left' with
    | zero => cases found'
    | succ left' =>
      have more := walk_more found left'
      have more' := walk_more found' left
      rw [Nat.add_comm] at more
      rw [more] at more'
      exact (congrArg Prod.snd (Option.some.inj more')).symm

omit [DecidableEq ν] in
/-- Where a link leads on fewer entries does not depend on how many links are left, as long as there
are enough. -/
theorem lead_transfer (sub : Sub d' d) (found : lead d' left place link = some way)
    (found' : lead d left' place link = some way') : lead d' left' place link = some way' := by
  cases left with
  | zero => cases found
  | succ left =>
    cases left' with
    | zero => cases found'
    | succ left' =>
      have above := sub.walk found
      rcases Nat.le_total left left' with less | less
      · obtain ⟨more,rfl⟩ := Nat.exists_eq_add_of_le less
        have all := walk_more above more
        have same : lead d (left + more + 1) place link = some (way.1 + more,way.2) := all
        rw [found'] at same
        cases same
        exact walk_more found more
      · obtain ⟨more,rfl⟩ := Nat.exists_eq_add_of_le less
        have all := walk_more found' more
        have same : walk d (left' + more) (link.start place.dropLast) link.target =
          some (way'.1 + more,way'.2) := all
        rw [above] at same
        cases same
        exact walk_fewer found

end Leads

section Escape

variable {sys : System legal} {d₀ d d' : Disk legal (Leaf ν Unit)} {path : List (Step ν)}
  {root place : List ν} {left : Nat} {success : Bool} {link : Link ν} {way : Nat × List ν}
  {names : List ν}

/-- A link in the tree that leads past it to a directory, and an entry below that, with nothing but
directories on the way: a file or an empty directory. It is looked up by way of the link, where the
link is. -/
structure Escape (sys : System legal) (d : Disk legal (Leaf ν Unit)) (left : Nat) (root place : List ν)
    (link : Link ν) (way : Nat × List ν) (names : List ν) : Prop where
  inside : root <+: place
  links : d.entries place = some (.file (.link link))
  leads : lead (d.prune root place) left place link = some way
  some_ : names ≠ []
  route : ∀ front rest, names = front ++ rest → rest ≠ [] →
    d.entries (way.2 ++ front) = some .folder ∧ sys.listable (way.2 ++ front) = true
  outside : ¬root <+: way.2 ++ names
  reaches : ∀ path left', sys.located d path = some (left',place) → sys.reaches path = true →
    sys.reaches (path ++ names.map .down) = true
  deletable : sys.deletable (way.2 ++ names) = true
  removable : d.entries (way.2 ++ names) = some (.file (.data ())) ∨
    d.entries (way.2 ++ names) = some .folder ∧ sys.listable (way.2 ++ names) = true ∧
      d.children (way.2 ++ names) = []

theorem Escape.opens (escape : Escape sys d left root place link way names) : Opens sys d way := by
  have first := escape.route [] names rfl escape.some_
  rw [List.append_nil] at first
  exact first

theorem Escape.there (escape : Escape sys d left root place link way names) {front rest : List ν}
    (split : names = front ++ rest) : d.entries (way.2 ++ front) ≠ none := by
  by_cases last : rest = []
  · rw [last,List.append_nil] at split
    rw [← split]
    rcases escape.removable with file | ⟨folder,-⟩
    · rw [file]
      exact Option.some_ne_none _
    · rw [folder]
      exact Option.some_ne_none _
  · rw [(escape.route front rest split last).1]
    exact Option.some_ne_none _

/-- The entries on the way are as they were. -/
theorem Escape.kept (escape : Escape sys d₀ left root place link way names) (trims : Trims root d₀ d)
    {front rest : List ν} (split : names = front ++ rest) :
    d.entries (way.2 ++ front) = d₀.entries (way.2 ++ front) := by
  apply trims.outside
  intro below
  apply escape.outside
  rw [split,← List.append_assoc]
  exact below.trans (List.prefix_append _ _)

/-- The entry is removed by the call for it. -/
theorem Escape.removed (escape : Escape sys d₀ left root place link way names) {turns used : Nat}
    {front : List ν} {name : ν} (split : names = front ++ [name]) (sub : Sub d d₀)
    (trims : Trims root d₀ d) (found : sys.way d path = some (used,way.2 ++ front))
    (reached : sys.reaches (path ++ [.down name]) = true)
    (deleted : DeleteFollowing.deleteDirectory sys turns (path ++ [.down name]) d =
      some (success,d')) : d'.entries (way.2 ++ names) = none := by
  have same := escape.kept trims (List.append_nil names).symm
  have deletable := escape.deletable
  have removable := escape.removable
  have place_ : way.2 ++ names = way.2 ++ front ++ [name] := by rw [split,List.append_assoc]
  rw [place_] at same deletable removable ⊢
  have real : ∀ link, d₀.entries (way.2 ++ front ++ [name]) ≠ some (.file (.link link)) := by
    intro link links
    rcases removable with file | ⟨folder,-⟩
    · rw [links] at file
      cases file
    · rw [links] at folder
      cases folder
  have there : d.entries (way.2 ++ front ++ [name]) ≠ none := by
    rw [same,← place_]
    exact escape.there (List.append_nil names).symm
  have here : sys.way d (path ++ [.down name]) = some (used,way.2 ++ front ++ [name]) := by
    obtain ⟨node,kind⟩ := Option.ne_none_iff_exists'.mp there
    rw [way_concat reached,found,Option.bind_some,walk_down _ _ kind,walk_nil]
    rintro link rfl
    exact real link (same.symm.trans kind)
  have gone (empty : d.children (way.2 ++ front ++ [name]) = []) :
      (sys.delete d (path ++ [.down name])).2.entries (way.2 ++ front ++ [name]) = none :=
    delete_gone List.getLast?_concat (located_child (resolved_of_way found) name) there deletable
      ⟨by simp,empty⟩
  cases turns with
  | zero => cases deleted
  | succ turns =>
    rcases deleteDirectory_cases deleted with ⟨absent,-,-⟩ | ⟨on,found',file,-,rfl⟩ |
      ⟨-,other,unlisted,-,-⟩ | ⟨left',target,between,found',folder,-,through,-,rfl⟩
    · rw [here] at absent
      cases absent
    · rw [here] at found'
      cases found'
      apply gone
      apply d.children_nil
      intro folder
      rw [FileSystem.not_isFile_of_folder folder] at file
      cases file
    · have folder := folder_of_unlisted here other
      rcases removable with file | ⟨-,listable,-⟩
      · rw [same,file] at folder
        cases folder
      · rw [listFiles_iff.mpr ⟨_,_,here,folder,listable,rfl⟩] at unlisted
        cases unlisted
    · rw [here] at found'
      cases found'
      rcases removable with file | ⟨-,-,empty⟩
      · rw [same,file] at folder
        cases folder
      · have none_ : d.children (way.2 ++ front ++ [name]) = [] := by
          rw [List.eq_nil_iff_forall_not_mem] at empty ⊢
          intro next member
          rw [Disk.mem_children] at member
          apply empty next
          rw [Disk.mem_children]
          exact fun absent => member (sub.absent absent)
        have nothing := sys.listing_perm d (way.2 ++ front ++ [name])
        rw [none_] at nothing
        rw [nothing.eq_nil] at through
        cases through
        exact gone none_

/-- A path that names a link leads to where the link leads to. -/
theorem way_of_lead {last : ν} {left' : Nat} (named : path.getLast? = some (.down last))
    (reached : sys.reaches path = true) (located : sys.located d path = some (left',place))
    (links : d.entries place = some (.file (.link link)))
    (leads : lead d left' place link = some way) : sys.way d path = some way := by
  cases path using List.reverseRecOn with
  | nil => cases named
  | append_singleton path step =>
    rw [List.getLast?_concat] at named
    cases named
    rw [located_concat] at located
    obtain ⟨parent,above,same⟩ := Option.map_eq_some_iff.mp located
    cases same
    rw [way_reached reached,resolved_concat,above,Option.bind_some,walk_lead links,leads]

omit [DecidableEq ν] in
/-- Each file of the loop gets its call. -/
theorem deleteFiles_visits
    {f : List (Step ν) → Disk legal (Leaf ν Unit) → Option (Bool × Disk legal (Leaf ν Unit))}
    (subs : ∀ path d success d', f path d = some (success,d') → Sub d' d) {files : List ν}
    (member : name ∈ files) (through : deleteFiles f path files d = some d') :
    ∃ d₁ success d₂, Sub d₁ d ∧ Sub d' d₁ ∧ Sub d' d₂ ∧
      f (path ++ [.down name]) d₁ = some (success,d₂) := by
  induction files generalizing d with
  | nil => cases member
  | cons next files ih =>
    have all := sub_deleteFiles subs through
    rw [deleteFiles] at through
    split at through
    · next success between first =>
      rcases List.mem_cons.mp member with rfl | later
      · exact ⟨d,success,between,Sub.refl,all,sub_deleteFiles subs through,first⟩
      · obtain ⟨d₁,success₁,d₂,sub,rest⟩ := ih later through
        exact ⟨d₁,success₁,d₂,sub.trans (subs _ _ _ _ first),rest⟩
    · cases through

/-- As long as the places outside are left alone, a path that names the link leads to the
directory. -/
theorem Escape.lead (escape : Escape sys d₀ left root place link way names)
    (trims : Trims root d₀ d) (there : d.entries place ≠ none) {left' : Nat} {found : Nat × List ν}
    (located : sys.located d path = some (left',place)) (path_found : sys.way d path = some found) :
    lead d left' place link = some found ∧ found.2 = way.2 := by
  have links := (trims.sub.eq there).trans escape.links
  rcases landing Sub.refl located path_found with here | ⟨link',links',leads⟩
  · have real := way_real path_found link
    rw [here] at real
    exact absurd links real
  · rw [links] at links'
    cases links'
    have past := lead_sub (prune_sub trims there) escape.leads
    exact ⟨leads,lead_same past leads⟩

/-- The calls go down to the entry, as long as the link stays. -/
theorem Escape.reached (escape : Escape sys d₀ left root place link way names) {turns used : Nat}
    {front rest : List ν} {name : ν} (split : names = front ++ name :: rest) (sub : Sub d d₀)
    (trims : Trims root d₀ d')
    (steady : ∀ e, Sub d' e → Sub e d₀ → sys.way e path = some (used,way.2 ++ front))
    (reached : sys.reaches (path ++ (name :: rest).map .down) = true)
    (deleted : DeleteFollowing.deleteDirectory sys turns (path ++ [.down name]) d =
      some (success,d')) : False := by
  have all := DeleteFollowing.sub_deleteDirectory deleted
  have before := trims_between all sub trims
  induction rest generalizing path front name turns d d' success with
  | nil =>
    have gone := escape.removed split sub before (steady d all sub) reached deleted
    rw [escape.kept trims (List.append_nil names).symm] at gone
    exact escape.there (List.append_nil names).symm gone
  | cons next rest ih =>
    have split' : names = (front ++ [name]) ++ next :: rest := by rw [split]; simp
    obtain ⟨folder,listable⟩ := escape.route _ _ split' (by simp)
    rw [← List.append_assoc] at folder listable
    rw [List.map_cons,List.append_cons] at reached
    have steady' : ∀ e, Sub d' e → Sub e d₀ →
        sys.way e (path ++ [.down name]) = some (used,way.2 ++ (front ++ [name])) := by
      intro e below above
      have same := escape.kept (trims_between below above trims) split'
      rw [← List.append_assoc,folder] at same
      rw [way_concat (reached_before reached),steady e below above,Option.bind_some,
        walk_down _ _ same (by simp),walk_nil,List.append_assoc]
    have here := steady' d all sub
    have same := escape.kept before split'
    rw [← List.append_assoc] at here same
    rw [folder] at same
    cases turns with
    | zero => cases deleted
    | succ turns =>
      rcases deleteDirectory_cases deleted with ⟨absent,-,-⟩ | ⟨on,found',file,-,-⟩ |
        ⟨-,other,unlisted,-,-⟩ | ⟨left',target,between,found',-,-,through,-,rfl⟩
      · rw [here] at absent
        cases absent
      · rw [here] at found'
        cases found'
        rw [FileSystem.not_isFile_of_folder same] at file
        cases file
      · rw [listFiles_iff.mpr ⟨_,_,here,same,listable,rfl⟩] at unlisted
        cases unlisted
      · rw [here] at found'
        cases found'
        have member : next ∈ sys.listing d (way.2 ++ front ++ [name]) := by
          have further : names = (front ++ [name] ++ [next]) ++ rest := by rw [split']; simp
          have there := escape.there further
          rw [← escape.kept before further,← List.append_assoc,← List.append_assoc] at there
          rw [(sys.listing_perm _ _).mem_iff,Disk.mem_children]
          exact there
        obtain ⟨d₁,success₁,d₂,sub₁,-,rest₂,call⟩ :=
          deleteFiles_visits (fun _ _ _ _ => DeleteFollowing.sub_deleteDirectory) member through
        have below : Sub (sys.delete between (path ++ [.down name])).2 d₂ := sub_delete.trans rest₂
        have sub₂ := DeleteFollowing.sub_deleteDirectory call
        have trims₂ := trims_between below (sub₂.trans (sub₁.trans sub)) trims
        exact ih split' (sub₁.trans sub) trims₂
          (fun e lower upper => steady' e (below.trans lower) upper) reached call sub₂
          (trims_between sub₂ (sub₁.trans sub) trims₂)

/-- The loop over the directory reaches the entry. -/
theorem Escape.loops (escape : Escape sys d₀ left root place link way names) {turns : Nat}
    (sub : Sub d d₀) (trims : Trims root d₀ d') {last : ν} {left' : Nat} {found : Nat × List ν}
    (named : path.getLast? = some (.down last)) (path_found : sys.way d path = some found)
    (located : sys.located d' path = some (left',place)) (there : d'.entries place ≠ none)
    (through : deleteFiles (DeleteFollowing.deleteDirectory sys turns) path
      (sys.listing d found.2) d = some d') : False := by
  have all := sub_deleteFiles (fun _ _ _ _ => DeleteFollowing.sub_deleteDirectory) through
  have before := all.eq there ▸ there
  obtain ⟨leads,same⟩ := escape.lead (trims_between all sub trims) before (located_sub all located)
    path_found
  obtain ⟨name,rest,split⟩ : ∃ name rest, names = name :: rest := by
    cases split : names with
    | nil => exact absurd split escape.some_
    | cons name rest => exact ⟨name,rest,rfl⟩
  have member : name ∈ sys.listing d found.2 := by
    have first : names = [name] ++ rest := split
    have there := escape.there first
    rw [← escape.kept (trims_between all sub trims) first] at there
    rw [(sys.listing_perm _ _).mem_iff,Disk.mem_children,same]
    exact there
  obtain ⟨d₁,success,d₂,sub₁,-,rest',call⟩ :=
    deleteFiles_visits (fun _ _ _ _ => DeleteFollowing.sub_deleteDirectory) member through
  have sub₂ := (DeleteFollowing.sub_deleteDirectory call).trans (sub₁.trans sub)
  -- the path still leads there when the turn of the entry comes
  have steady : ∀ e, Sub d₂ e → Sub e d₀ → sys.way e path = some (found.1,way.2 ++ []) := by
    intro e below above
    have there_e : e.entries place ≠ none := fun absent => there ((rest'.trans below).absent absent)
    have there₀ : d₀.entries place ≠ none := fun absent => there_e (above.absent absent)
    have trims_e := trims_between (rest'.trans below) above trims
    have pruned := lead_transfer (prune_sub Trims.refl there₀) escape.leads (lead_sub sub leads)
    have found_e := way_of_lead named (reached_of_way path_found)
      (located_sub (rest'.trans below) located)
      ((trims_e.sub.eq there_e).trans escape.links) (lead_sub (prune_sub trims_e there_e) pruned)
    rw [found_e,List.append_nil,← same]
  have reached := escape.reaches path left' (located_sub sub (located_sub all located))
    (reached_of_way path_found)
  rw [split] at reached
  exact escape.reached (show names = [] ++ name :: rest from split) (sub₁.trans sub)
    (trims_between rest' sub₂ trims) steady reached call

/-- As long as the places outside are left alone, such a link stays: the call that would remove it
goes through the directory first. -/
theorem escape_stays (escape : Escape sys d₀ left root place link way names) {turns : Nat}
    (sub : Sub d d₀) (trims : Trims root d₀ d')
    (deleted : DeleteFollowing.deleteDirectory sys turns path d = some (success,d'))
    (there : d.entries place ≠ none) : d'.entries place ≠ none := by
  induction turns generalizing path d success d' with
  | zero => cases deleted
  | succ turns ih =>
    have trims₁ := trims_between (DeleteFollowing.sub_deleteDirectory deleted) sub trims
    rcases deleteDirectory_cases deleted with ⟨-,-,rfl⟩ | ⟨found,path_found,file,-,rfl⟩ |
      ⟨-,-,-,-,rfl⟩ | ⟨left',target,between,path_found,-,-,through,-,rfl⟩
    · exact there
    · intro gone
      obtain ⟨left',place',located,rfl,-,-,-⟩ := delete_removes there gone
      obtain ⟨-,same⟩ := escape.lead trims₁ there located path_found
      have folder := (escape.kept trims₁ (List.nil_append names).symm).trans
        (escape.route [] names rfl escape.some_).1
      rw [List.append_nil] at folder
      rw [same,FileSystem.not_isFile_of_folder folder] at file
      cases file
    · exact there
    · have rest := sub_deleteFiles (fun _ _ _ _ => DeleteFollowing.sub_deleteDirectory) through
      have trims₂ := trims_between DeleteFollowing.sub_delete (rest.trans sub) trims
      have still := deleteFiles_keeps (fun _ _ _ _ => DeleteFollowing.sub_deleteDirectory)
        (fun _ _ _ _ before after deleted there => ih before.sub after deleted there) sub trims₂ through
        there
      intro gone
      obtain ⟨left₁,place',located,rfl,-,-,⟨last,named⟩⟩ := delete_removes still gone
      exact escape.loops sub trims₂ named path_found located still through

/-- What stands below a directory outside is removed by way of a link to it, or something is left. -/
theorem not_deletes_of_escape (escape : Escape sys d left root place link way names)
    (located : sys.located d path = some (left,root)) (listed : ¬Unlisted sys d path) :
    ¬Deletes sys d path (fileDeletes sys d path) := by
  intro deletes
  obtain ⟨turns,⟨success,d'⟩,run⟩ := deletes.ends
  cases success with
  | true =>
    have there : d.entries place ≠ none := by
      rw [escape.links]
      exact Option.some_ne_none _
    have stays := escape_stays escape Sub.refl (deletes_trims deletes located run) run there
    exact stays (gone_inside escape.inside (deletes.gone turns d' run left root located))
  | false => exact listed (unlisted_of_failure run)

end Escape

/-- The deletion that looks at links fails for a path to a link that leads nowhere or to an entry that
is not looked up, and only there. The other one needs a path that leads to something and either a
directory that can not be listed, or a tree of which all can be removed and nothing else, as long as
nothing that its links lead to leads back to it; and wherever other links lead, it fails where one of
them leads past the tree to a directory with a file or an empty directory below. -/
theorem deletes_iff (sys : System legal) (d : Disk legal (Leaf ν Unit)) (path : List (Step ν)) :
    (Deletes sys d path (ioDeletes sys d path) ↔
      ∀ left root, sys.located d path = some (left,root) → d.entries root ≠ none →
        sys.way d path ≠ none) ∧
    ((∀ left root, sys.located d path = some (left,root) →
        Unlisted sys d path ∨ Away sys d left root) →
      (Deletes sys d path (fileDeletes sys d path) ↔
        ∀ left root, sys.located d path = some (left,root) → d.entries root ≠ none →
          Ready sys d path left root)) ∧
    ∀ left root place link way names, sys.located d path = some (left,root) →
      ¬Unlisted sys d path → Escape sys d left root place link way names →
      ¬Deletes sys d path (fileDeletes sys d path) :=
  ⟨ioDeletes_iff sys d path,fileDeletes_iff sys d path,
    fun _ _ _ _ _ _ located listed escape => not_deletes_of_escape escape located listed⟩

section Example

/-- Everything can be looked up, listed and removed. -/
def ordinary : System fun _ : Char => True where
  reaches _ := true
  above _ _ _ := rfl
  deletable _ := true
  listable _ := true
  links := 40
  listing d place := d.children place
  listing_perm _ _ := List.Perm.refl _

/-- A directory `d` with a link `l` to another directory `o`, that has a file `f`. -/
def linked : Disk (fun _ : Char => True) (Leaf Char Unit) :=
  ((((Disk.blank _ _).put ['d'] .folder).put ['o'] .folder).put ['o','f'] (.file (.data ()))).put
    ['d','l'] (.file (.link ⟨true,[.down 'o']⟩))

/-- The file is deleted. -/
theorem not_deletes_linked :
    ¬(Deletes ordinary linked [.down 'd'] (ioDeletes ordinary linked [.down 'd']) ∧
      Deletes ordinary linked [.down 'd'] (fileDeletes ordinary linked [.down 'd'])) := by
  intro ⟨_,deletes⟩
  obtain ⟨d',run,gone⟩ : ∃ d', fileDeletes ordinary linked [.down 'd'] 3 = some (true,d') ∧
      d'.entries ['o','f'] = none := ⟨_,rfl,rfl⟩
  have kept := deletes.inside 3 true d' run ['o','f'] (by
    intro left root located
    have here : ordinary.located linked [.down 'd'] = some (40,['d']) := rfl
    rw [here] at located
    cases located
    decide)
  rw [gone] at kept
  cases kept

end Example

end HmclPe.Io.Deletion
