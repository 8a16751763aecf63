import HmclPe.Io.CopyConditions

/-! When the copying of a directory is reported. -/
namespace HmclPe.Io.CopyDirectory
open HmclPe.Lib.Disks HmclPe.Lib.Folders HmclPe.Lib.SymbolicLinks HmclPe.Lib.Courses

variable {ν β : Type} [DecidableEq ν] {legal : ν → Prop} [DecidablePred legal]

section Reported

variable {sys : System legal β} {src dest path : List ν} {d d' e e' : Disk legal (Leaf ν β)}
  {visited : Set (List ν)}

/-- What is found was there from the start. -/
theorem Settled.stays (settled : Settled sys src dest d) (came : Came sys src dest d visited e)
    (first : ∀ path ∈ visited, ∃ source, sys.found (src ++ path) d = some source)
    (met : Met sys src dest d path) {source : List ν}
    (found : sys.found (src ++ path) e = some source) :
    sys.found (src ++ path) d = some source := by
  obtain ⟨reaches,found⟩ := found_iff.mp found
  have extends_ := came.grown.toExtends
  have goal := target_of_leads found
  rw [extends_.target] at goal
  cases before : leads d sys.links (src ++ path) with
  | some place =>
    rw [extends_.leads_eq before found]
    exact found_iff.mpr ⟨reaches,before⟩
  | none =>
    obtain ⟨absent,apart⟩ := settled.met path met reaches before source goal
    rcases came.new (leads_there found) with there | ⟨other,member,spot,goal',part⟩
    · exact absurd absent there
    · obtain ⟨source',found'⟩ := first other member
      exact absurd part (apart other source' spot found' goal')

theorem Settled.first (settled : Settled sys src dest d) (came : Came sys src dest d visited e) :
    ∀ path ∈ visited, ∃ source, sys.found (src ++ path) d = some source := by
  induction came with
  | start => exact fun path member => absurd member (Set.notMem_empty path)
  | file came due copied ih =>
    obtain ⟨source,spot,content,found,-⟩ := copyFile_yes copied
    rintro path (rfl | member)
    · exact ⟨source,settled.stays came ih due.met found⟩
    · exact ih path member
  | folder came due folder made listed ih =>
    obtain ⟨source,found,-⟩ := isDirectory_iff.mp folder
    rintro path (rfl | member)
    · exact ⟨source,settled.stays came ih due.met found⟩
    · exact ih path member

theorem Settled.found (settled : Settled sys src dest d) (came : Came sys src dest d visited e)
    (met : Met sys src dest d path) {source : List ν}
    (found : sys.found (src ++ path) e = some source) :
    sys.found (src ++ path) d = some source :=
  settled.stays came (settled.first came) met found

theorem Settled.isFile (settled : Settled sys src dest d) (came : Came sys src dest d visited e)
    (met : Met sys src dest d path) (file : sys.isFile (src ++ path) e = true) :
    sys.isFile (src ++ path) d = true := by
  obtain ⟨source,content,found,-⟩ := isFile_iff.mp file
  rcases found_cases (settled.found came met found) with file' | folder
  · exact file'
  · rw [not_isFile (isDirectory_extends came.grown.toExtends folder)] at file
    cases file

theorem Settled.isDirectory (settled : Settled sys src dest d)
    (came : Came sys src dest d visited e) (met : Met sys src dest d path)
    (folder : sys.isDirectory (src ++ path) e = true) :
    sys.isDirectory (src ++ path) d = true := by
  obtain ⟨source,found,-⟩ := isDirectory_iff.mp folder
  rcases found_cases (settled.found came met found) with file | folder'
  · have file' := isFile_extends came.grown.toExtends file
    rw [not_isFile folder] at file'
    cases file'
  · exact folder'

/-- A disk with room for all that is to be copied has room for all that has been. -/
theorem Came.within (settled : Settled sys src dest d) {room : Disk legal (Leaf ν β)}
    (grown : Grown sys d room) (kinds : ∀ path source, sys.found (src ++ path) d = some source →
      ∃ spot, leads room sys.links (dest ++ path) = some spot ∧
        (room.entries spot = some .folder ↔ d.entries source = some .folder))
    (came : Came sys src dest d visited e) : Extends e room := by
  induction came with
  | start => exact grown.toExtends
  | @file visited e e' path came due copied ih =>
    obtain ⟨source,spot,content,-,file,-,opened,-,-,entries⟩ := copyFile_yes copied
    obtain ⟨source',content',found,data⟩ := isFile_iff.mp (settled.isFile came due.met file)
    obtain ⟨spot',leads_,kind⟩ := kinds path source' found
    have goal := (opened_iff.mp opened).1
    rw [← ih.target,target_of_leads leads_] at goal
    cases goal
    have there : ∃ content, room.entries spot = some (.file (.data content)) := by
      rcases leads_cases leads_ with folder | data'
      · rw [kind,data] at folder
        cases folder
      · exact data'
    refine ⟨?_,?_,?_⟩
    · intro other folder
      rw [entries] at folder
      split at folder
      · cases folder
      · exact ih.folder other folder
    · intro other before data'
      rw [entries] at data'
      split at data'
      · next here =>
        rw [here]
        exact there
      · exact ih.data other before data'
    · intro other link
      rw [entries]
      split
      · next here =>
        obtain ⟨before,there⟩ := there
        rw [here,there]
        simp
      · exact ih.link other link
  | @folder visited e e' path files came due folder made listed ih =>
    obtain ⟨source,found,folder'⟩ := isDirectory_iff.mp (settled.isDirectory came due.met folder)
    obtain ⟨spot,leads_,kind⟩ := kinds path source found
    have extends_ := (grown_of_destination made).toExtends
    have new : ∀ place, e'.entries place = e.entries place ∨
        e'.entries place = some .folder ∧ room.entries place = some .folder := by
      intro place
      rcases entries_destination made place with same | ⟨-,new,spot',leads',part⟩
      · exact .inl same
      · have goal := target_of_leads leads'
        rw [extends_.target,← ih.target,target_of_leads leads_] at goal
        cases goal
        refine .inr ⟨new,?_⟩
        by_cases here : place = spot
        · rw [here]
          exact kind.mpr folder'
        · exact Disk.folder_of_above part here (leads_there leads_)
    refine ⟨?_,?_,?_⟩
    · intro place there
      rcases new place with same | ⟨-,new⟩
      · exact ih.folder place (by rw [← same,there])
      · exact new
    · intro place content there
      rcases new place with same | ⟨new,-⟩
      · exact ih.data place content (by rw [← same,there])
      · rw [new] at there
        cases there
    · intro place link
      rcases new place with same | ⟨new,new'⟩
      · rw [same]
        exact ih.link place link
      · rw [new,new']

theorem copyFile_allowed {source spot : List ν} (found : sys.found src e = some source)
    (file : sys.isFile src e = true) (readable : sys.readable source = true)
    (opened : sys.opened dest e = some spot) (whole : sys.interrupted spot = none) :
    (sys.copyFile src dest e).1 = true := by
  obtain ⟨source',content,found',data⟩ := isFile_iff.mp file
  rw [found] at found'
  cases found'
  obtain ⟨content',data'⟩ :=
    (extends_put (opened_real opened) : Extends e (e.put spot (.file (.data sys.empty)))).data
      source content data
  rw [System.copyFile,found,opened]
  dsimp only
  rw [if_pos ⟨FileSystem.isFile_of_entries data,readable⟩,data',whole]

/-- A file can be opened again, and one that can be opened still can when more is there. -/
theorem opened_of_data {spot : List ν} {content : β} (leads_ : leads e sys.links path = some spot)
    (data : e.entries spot = some (.file (.data content))) (reaches : sys.reaches path = true)
    (writable : sys.writable spot = true) : sys.opened path e = some spot := by
  have some_ : spot ≠ [] := by
    rintro rfl
    rw [e.root] at data
    cases data
  have whole := List.dropLast_append_getLast some_
  obtain ⟨folder,good⟩ := e.closed spot.dropLast (spot.getLast some_)
    (by rw [whole,data]; exact Option.some_ne_none _)
  refine opened_iff.mpr ⟨target_of_leads leads_,reaches,writable,⟨some_,folder,?_,?_⟩,?_⟩
  · intro name last
    rw [List.getLast?_eq_getLast_of_ne_nil some_,Option.mem_some_iff] at last
    rw [← last]
    exact good
  · exact .inr ⟨FileSystem.isFile_of_entries data,by simp⟩
  · exact (extends_put (by rw [data]; simp) :
      Extends e (e.put spot (.file (.data sys.empty)))).leads leads_

theorem opened_extends {spot : List ν} (extends_ : Extends d e)
    (opened : sys.opened path d = some spot) (free : e.entries spot ≠ some .folder) :
    sys.opened path e = some spot := by
  obtain ⟨goal,reaches,writable,can,leads_⟩ := opened_iff.mp opened
  have can' : e.CanPut spot (.file (.data sys.empty)) := by
    refine ⟨can.some_,extends_.folder _ can.folder,can.good,?_⟩
    cases kind : e.entries spot with
    | none => exact .inl rfl
    | some node =>
      cases node with
      | folder => exact absurd kind free
      | file leaf => exact .inr ⟨FileSystem.isFile_of_entries kind,by simp⟩
  exact opened_iff.mpr ⟨by rw [extends_.target,goal],reaches,writable,can',
    (extends_.put can can').leads leads_⟩

/-- No link at the destination waits. -/
theorem link_cases (settled : Settled sys src dest d) (allowed : Allowed sys src dest d) {name : ν}
    {source place : List ν} {link : Link ν} (leads_ : leads d sys.links (dest ++ path) = some place)
    (there : d.entries (place ++ [name]) = some (.file (.link link)))
    (found : sys.found (src ++ (path ++ [name])) d = some source) :
    leads d sys.links (dest ++ (path ++ [name])) ≠ none ∨
      sys.isFile (src ++ (path ++ [name])) d = true ∧
        ∃ spot, sys.opened (dest ++ (path ++ [name])) d = some spot ∧ d.entries spot = none := by
  rcases settled.links path name place link leads_ there source found with
    already | opened | ⟨missing,waits,apart⟩
  · exact .inl already
  · exact .inr opened
  · obtain ⟨other,spot,different,met,reaches,goal,below⟩ := allowed.waits path name missing waits
    exact absurd below (apart other spot different met reaches goal)

/-- Where something of the source is copied to, something was there, or nothing at all. -/
theorem leads_or_absent (settled : Settled sys src dest d) (allowed : Allowed sys src dest d)
    {source : List ν} (found : sys.found (src ++ path) d = some source) :
    leads d sys.links (dest ++ path) ≠ none ∨
      ∃ spot, target d sys.links (dest ++ path) = some spot ∧ d.entries spot = none := by
  induction path using List.reverseRecOn generalizing source with
  | nil =>
    rw [List.append_nil]
    obtain ⟨⟨answer,made⟩,result⟩ : ∃ result, sys.destination dest d = result := ⟨_,rfl⟩
    have yes := allowed.made
    rw [result] at yes
    cases yes
    rcases destination_cases result with ⟨folder,-⟩ | ⟨spot,leads_,absent,-⟩
    · obtain ⟨spot,there,-⟩ := isDirectory_iff.mp folder
      rw [(found_iff.mp there).2]
      exact .inl (Option.some_ne_none _)
    · have goal := target_of_leads leads_
      rw [(grown_of_destination result).target] at goal
      exact .inr ⟨spot,goal,absent⟩
  | append_singleton path name ih =>
    have found' := found
    rw [← List.append_assoc] at found'
    obtain ⟨above,there,-,-⟩ := found_above found'
    rcases ih there with leads_ | ⟨spot,goal,absent⟩
    · obtain ⟨place,leads_⟩ := Option.ne_none_iff_exists'.mp leads_
      cases kind : d.entries (place ++ [name]) with
      | none =>
        refine .inr ⟨place ++ [name],?_,kind⟩
        rw [← List.append_assoc]
        exact target_concat (target_of_leads leads_) (by rw [kind]; simp)
      | some node =>
        by_cases real : ∀ link, node ≠ .file (.link link)
        · rw [← List.append_assoc,leads_concat leads_ kind real]
          exact .inl (Option.some_ne_none _)
        · push Not at real
          obtain ⟨link,rfl⟩ := real
          rcases link_cases settled allowed leads_ kind found with
            already | ⟨-,spot,opened,absent⟩
          · exact .inl already
          · exact .inr ⟨spot,(opened_iff.mp opened).1,absent⟩
    · have absent' : d.entries (spot ++ [name]) = none :=
        Disk.none_below (by simp) (by rw [absent]; simp)
      refine .inr ⟨spot ++ [name],?_,absent'⟩
      rw [← List.append_assoc]
      exact target_concat goal (by rw [absent']; simp)

/-- Where a link stands on the way to what something is copied to, the way is as it was. -/
theorem leads_to_link (settled : Settled sys src dest d) (allowed : Allowed sys src dest d)
    (extends_ : Extends d e) {name : ν} {source place : List ν} {link : Link ν}
    (found : sys.found (src ++ (path ++ [name])) d = some source)
    (leads_ : leads e sys.links (dest ++ path) = some place)
    (there : e.entries (place ++ [name]) = some (.file (.link link))) :
    leads d sys.links (dest ++ (path ++ [name])) ≠ none ∨
      sys.isFile (src ++ (path ++ [name])) d = true ∧
        ∃ spot, sys.opened (dest ++ (path ++ [name])) d = some spot ∧ d.entries spot = none := by
  have first := (extends_.link _ link).mpr there
  have folder := (d.closed place name (by rw [first]; exact Option.some_ne_none _)).1
  rw [← List.append_assoc] at found
  obtain ⟨above,there,-,-⟩ := found_above found
  rw [List.append_assoc] at found
  rcases leads_or_absent settled allowed there with already | ⟨spot,goal,absent⟩
  · obtain ⟨place',already⟩ := Option.ne_none_iff_exists'.mp already
    rw [← extends_.leads_eq already leads_] at already
    exact link_cases settled allowed already first found
  · have goal' := target_of_leads leads_
    rw [extends_.target,goal] at goal'
    cases goal'
    rw [folder] at absent
    cases absent

omit [DecidablePred legal] in
theorem legal_of_found {name : ν} {source : List ν}
    (found : sys.found (src ++ (path ++ [name])) d = some source) : legal name := by
  rw [← List.append_assoc] at found
  obtain ⟨above,-,-,there⟩ := found_above found
  exact (d.closed above name there).2

/-- What is due is copied. -/
theorem Due.copyFile (settled : Settled sys src dest d) (allowed : Allowed sys src dest d)
    (came : Came sys src dest d visited e) (due : Due sys src dest d visited e path)
    (file : sys.isFile (src ++ path) e = true) :
    (sys.copyFile (src ++ path) (dest ++ path) e).1 = true := by
  have extends_ := came.grown.toExtends
  have file' := settled.isFile came due.met file
  obtain ⟨source,content,found,data⟩ := isFile_iff.mp file'
  obtain ⟨readable,reaches⟩ := allowed.read path source found
  obtain ⟨room,grown,kinds⟩ := allowed.room
  have within := came.within settled grown kinds
  obtain ⟨spot,leads_,kind⟩ := kinds path source found
  have goal := target_of_leads leads_
  rw [grown.target] at goal
  obtain ⟨writable,whole⟩ := allowed.whole path spot file' goal
  have free : room.entries spot ≠ some .folder := by
    rw [Ne,kind,data]
    simp
  have free' : e.entries spot ≠ some .folder := fun folder => free (within.folder spot folder)
  apply copyFile_allowed (found_extends extends_ found) file readable _ whole
  have opens : ∀ place, leads e sys.links (dest ++ path) = some place →
      sys.opened (dest ++ path) e = some spot := by
    intro place here
    have goal' := target_of_leads here
    rw [extends_.target,goal] at goal'
    cases goal'
    rcases leads_cases here with folder | ⟨content,data⟩
    · exact absurd folder free'
    · exact opened_of_data here data reaches writable
  cases path using List.reverseRecOn with
  | nil =>
    rw [List.append_nil,not_isFile allowed.folder] at file'
    cases file'
  | append_singleton part name =>
    obtain ⟨place,there,folder⟩ := isDirectory_iff.mp (due.ready part name rfl)
    have above := (found_iff.mp there).2
    cases entry : e.entries (place ++ [name]) with
    | none =>
      rw [← List.append_assoc] at goal ⊢
      have goal' : target e sys.links (dest ++ part ++ [name]) = some (place ++ [name]) :=
        target_concat (target_of_leads above) (by rw [entry]; simp)
      rw [extends_.target,goal] at goal'
      cases goal'
      have can : e.CanPut (place ++ [name]) (.file (.data sys.empty)) := by
        refine ⟨by simp,by rw [List.dropLast_concat,folder],?_,.inl entry⟩
        intro last same
        rw [List.getLast?_concat,Option.mem_some_iff] at same
        rw [← same]
        exact legal_of_found found
      refine opened_iff.mpr ⟨by rw [extends_.target,goal],by rw [List.append_assoc,reaches],
        writable,can,?_⟩
      exact leads_concat ((extends_put (by rw [entry]; simp)).leads above)
        (Disk.entries_put_self can) (by simp)
    | some node =>
      by_cases real : ∀ link, node ≠ .file (.link link)
      · apply opens (place ++ [name])
        rw [← List.append_assoc]
        exact leads_concat above entry real
      · push Not at real
        obtain ⟨link,rfl⟩ := real
        rcases leads_to_link settled allowed extends_ found above entry with
          already | ⟨-,spot',opened,-⟩
        · obtain ⟨place',already⟩ := Option.ne_none_iff_exists'.mp already
          exact opens place' (extends_.leads already)
        · have goal' := (opened_iff.mp opened).1
          rw [goal] at goal'
          cases goal'
          exact opened_extends extends_ opened free'

theorem Due.destination (settled : Settled sys src dest d) (allowed : Allowed sys src dest d)
    (came : Came sys src dest d visited e) (due : Due sys src dest d visited e path)
    (directory : sys.isDirectory (src ++ path) e = true) :
    (sys.destination (dest ++ path) e).1 = true := by
  have extends_ := came.grown.toExtends
  have directory' := settled.isDirectory came due.met directory
  obtain ⟨source,found,folder⟩ := isDirectory_iff.mp directory'
  obtain ⟨-,reaches⟩ := allowed.read path source found
  obtain ⟨room,grown,kinds⟩ := allowed.room
  have within := came.within settled grown kinds
  obtain ⟨spot,leads_,kind⟩ := kinds path source found
  have room_folder := kind.mpr folder
  have goal := target_of_leads leads_
  rw [within.target] at goal
  have already : ∀ place, leads e sys.links (dest ++ path) = some place →
      (sys.destination (dest ++ path) e).1 = true := by
    intro place here
    have goal' := target_of_leads here
    rw [goal] at goal'
    cases goal'
    rw [System.destination,if_pos]
    rcases leads_cases here with folder | ⟨content,data⟩
    · exact isDirectory_iff.mpr ⟨spot,found_iff.mpr ⟨reaches,here⟩,folder⟩
    · obtain ⟨content',data'⟩ := within.data spot content data
      rw [room_folder] at data'
      cases data'
  cases path using List.reverseRecOn with
  | nil =>
    have start : e = d := by
      cases came with
      | start => rfl
      | @file visited _ _ other =>
        exact absurd List.nil_prefix (due.fresh other (Set.mem_insert _ _))
      | @folder visited _ _ other =>
        exact absurd List.nil_prefix (due.fresh other (Set.mem_insert _ _))
    rw [start,List.append_nil]
    exact allowed.made
  | append_singleton part name =>
    obtain ⟨place,there,folder'⟩ := isDirectory_iff.mp (due.ready part name rfl)
    have above := (found_iff.mp there).2
    cases entry : e.entries (place ++ [name]) with
    | none =>
      have name_legal := legal_of_found found
      rw [← List.append_assoc] at goal reaches ⊢
      have goal' : target e sys.links (dest ++ part ++ [name]) = some (place ++ [name]) :=
        target_concat (target_of_leads above) (by rw [entry]; simp)
      rw [goal] at goal'
      cases goal'
      have writable : sys.writable (place ++ [name]) = true := by
        rcases grown.new _ (by rw [room_folder]; exact Option.some_ne_none _) with before | writable
        · exact absurd entry (extends_.there before)
        · exact writable
      have made : (e.mkdirs sys.writable (place ++ [name])).entries (place ++ [name]) =
          some .folder := by
        apply Disk.mkdirs_folder
        · intro above' part'
          rcases List.prefix_concat_iff.mp part' with here | higher
          · rw [here]
            exact .inl ⟨entry,writable⟩
          · right
            by_cases here : above' = place
            · rw [here,folder']
            · exact Disk.folder_of_above higher here (by rw [folder']; exact Option.some_ne_none _)
        · intro other member
          rcases List.mem_append.mp member with higher | last
          · exact FileSystem.legal_of_entries (by rw [folder']; exact Option.some_ne_none _) other
              higher
          · rw [List.mem_singleton.mp last]
            exact name_legal
      have nothing := leads_concat_none above entry
      rw [System.destination]
      split
      · rfl
      · rw [System.mkdirs,if_pos ⟨reaches,by rw [nothing]; rfl⟩,canonical_concat above nothing]
        dsimp only
        rw [entry,FileSystem.isFolder_iff.mpr made]
        rfl
    | some node =>
      by_cases real : ∀ link, node ≠ .file (.link link)
      · apply already (place ++ [name])
        rw [← List.append_assoc]
        exact leads_concat above entry real
      · push Not at real
        obtain ⟨link,rfl⟩ := real
        rcases leads_to_link settled allowed extends_ found above entry with first | ⟨file,-⟩
        · obtain ⟨place',first⟩ := Option.ne_none_iff_exists'.mp first
          exact already place' (extends_.leads first)
        · rw [not_isFile directory'] at file
          cases file

theorem not_stuck (settled : Settled sys src dest d) (allowed : Allowed sys src dest d)
    (came : Came sys src dest d visited e) (due : Due sys src dest d visited e path) :
    ¬Stuck sys src dest e path := by
  intro stuck
  cases stuck with
  | file file failed =>
    rw [due.copyFile settled allowed came file] at failed
    cases failed
  | folder folder failed =>
    rw [due.destination settled allowed came folder] at failed
    cases failed
  | @listed e' folder made failed =>
    obtain ⟨place,here,there⟩ := isDirectory_iff.mp folder
    have extends_ := (grown_of_destination made).toExtends
    have readable := (allowed.read path place (settled.found came due.met here)).1
    have here' := found_extends extends_ here
    rw [listFiles_iff.mpr ⟨place,here',extends_.folder place there,readable,rfl⟩] at failed
    cases failed

theorem copies_reported (settled : Settled sys src dest d) (allowed : Allowed sys src dest d) :
    ∃ turns d', sys.copyDirectory turns src dest d = some (.yes,d') := by
  obtain ⟨turns,⟨answer,d'⟩,copied⟩ := copyDirectory_terminates sys src dest d
  rcases ends_copyDirectory allowed.folder copied with ⟨rfl,-⟩ | ⟨-,visited,e,path,came,due,stuck⟩
  · exact ⟨turns,d',copied⟩
  · exact absurd stuck (not_stuck settled allowed came due)

end Reported
end HmclPe.Io.CopyDirectory
