import Mathlib.Data.List.Induction
import Stencil.Files.FileTree

/-!
# Where paths lead

A path is followed part by part, from the root or from the current folder. Making folders changes where
a path leads only from the first missing name on, and nothing that was there is found below that name: a
path that leads to a file afterwards led there before, unless it goes back up behind a missing name.
Writing a file changes only where the paths of that file lead.

* `isGrown_makeFolder`: what making folders changes.
* `foldlM_of_grown`: following the same parts before and after folders are made.
* `resolve_file_of_climbs`: a path that goes up only from places that are there.
* `get?_eq_none_of_missing`: there is no content where nothing is.
* `read_of_write`: what is written at a path is read there.
-/

namespace Stencil

/-! ### Parts -/

namespace FilePath

variable {path name : String} {names : List String}

theorem not_mem_of_mem_splitOn {α : Type} [DecidableEq α] {a : α} {xs l : List α}
    (h : l ∈ xs.splitOn a) : a ∉ l := by
  induction xs generalizing l with
  | nil =>
    obtain rfl : l = [] := by simpa using h
    exact List.not_mem_nil
  | cons x xs ih =>
    rw [List.splitOn_cons_eq_if_modifyHead] at h
    split at h
    · rcases List.mem_cons.1 h with rfl | h
      · exact List.not_mem_nil
      · exact ih h
    · next hx =>
      obtain ⟨first, rest, hsplit⟩ := List.exists_cons_of_ne_nil (List.splitOn_ne_nil a xs)
      rw [hsplit, List.modifyHead_cons] at h
      rw [hsplit] at ih
      rcases List.mem_cons.1 h with rfl | h
      · have hne : a ≠ x := fun he => hx (by simp [he])
        exact List.not_mem_cons_of_ne_of_not_mem hne (ih List.mem_cons_self)
      · exact ih (List.mem_cons_of_mem _ h)

/-- A path has at least one part. -/
theorem parts_ne_nil (path : String) : parts path ≠ [] :=
  fun h => List.splitOn_ne_nil _ _ (List.map_eq_nil_iff.1 h)

/-- No slash stands inside a part. -/
theorem not_mem_of_mem_parts (h : name ∈ parts path) : '/' ∉ name.toList := by
  obtain ⟨l, hl, rfl⟩ := List.mem_map.1 h
  rw [String.toList_ofList]
  exact not_mem_of_mem_splitOn hl

/-- Names with slashes between them are taken apart again. -/
theorem parts_intercalate (h : ∀ name ∈ names, '/' ∉ name.toList) (hne : names ≠ []) :
    parts (String.intercalate "/" names) = names := by
  have hlists : ∀ l ∈ names.map String.toList, '/' ∉ l := by
    intro l hl
    obtain ⟨name, hname, rfl⟩ := List.mem_map.1 hl
    exact h name hname
  have hslash : "/".toList = ['/'] := rfl
  rw [parts, String.toList_intercalate, hslash, List.splitOn_intercalate '/' hlists (by simpa using hne),
    List.map_map]
  simp [Function.comp_def]

/-- The parts of a path make it up. -/
theorem intercalate_parts (path : String) : String.intercalate "/" (parts path) = path := by
  have hslash : "/".toList = ['/'] := rfl
  apply String.toList_inj.1
  rw [parts, String.toList_intercalate, hslash, List.map_map]
  simp [Function.comp_def, List.intercalate_splitOn]

end FilePath

namespace FileTree

open FilePath

variable {t u : FileTree} {path part : String} {parts : List String} {place next start : Place}

/-- A key stands for one list of names. -/
theorem key_inj {names other : List String} (h : ∀ name ∈ names, '/' ∉ name.toList)
    (hother : ∀ name ∈ other, '/' ∉ name.toList) (hne : names ≠ []) (hother' : other ≠ [])
    (hkey : key names = key other) : names = other := by
  rw [← parts_intercalate h hne, ← parts_intercalate hother hother']
  exact congrArg FilePath.parts hkey

/-! ### Steps -/

/-- **Where a part leads**: it takes a name in a folder, which the tree tells about, or it leads where it
does in every tree, and then on from the place itself or back up. -/
theorem step_cases (place : Place) (part : String) :
    (∃ names, place = .folder names ∧ ∀ t : FileTree, t.step place part = .ok (t.child names part)) ∨
    ∃ result, (∀ t : FileTree, t.step place part = result) ∧
      ∀ next, result = .ok next → next = place ∨
        ∃ names, place = .folder names ∧ part = ".." ∧ next = .folder names.dropLast := by
  have hrefused : ∀ {fault : FileFault} {next : Place},
      (Except.error fault : Except FileFault Place) ≠ .ok next := nofun
  cases place with
  | file key => exact .inr ⟨.error .notFolder, fun _ => rfl, fun _ h => absurd h hrefused⟩
  | missing names =>
    by_cases hpart : part = ""
    · refine .inr ⟨.ok (.missing names), fun t => by rw [step, if_pos hpart], fun next hnext => ?_⟩
      exact .inl (Except.ok.inj hnext).symm
    · exact .inr ⟨.error .notFound, fun t => by rw [step, if_neg hpart],
        fun _ h => absurd h hrefused⟩
  | folder names =>
    by_cases hhere : part = "" ∨ part = "."
    · refine .inr ⟨.ok (.folder names), fun t => by rw [step, if_pos hhere], fun next hnext => ?_⟩
      exact .inl (Except.ok.inj hnext).symm
    · by_cases hup : part = ".."
      · refine .inr ⟨_, fun t => by rw [step, if_neg hhere, if_pos hup], fun next hnext => ?_⟩
        exact .inr ⟨names, rfl, hup, (Except.ok.inj hnext).symm⟩
      · refine .inl ⟨names, rfl, fun t => ?_⟩
        rw [step, if_neg hhere, if_neg hup]

/-- **What a name in a folder stands for**: a file where the name is bound, else a folder or nothing. -/
theorem child_cases (t : FileTree) (names : List String) (name : String) :
    t.child names name = .file (key (names ++ [name])) ∧
      (t.files.get? (key (names ++ [name]))).isSome = true ∨
    t.files.get? (key (names ++ [name])) = none ∧
      (t.child names name = .folder (names ++ [name]) ∧ t.isFolder (names ++ [name]) = true ∨
        t.child names name = .missing (names ++ [name]) ∧ t.isFolder (names ++ [name]) = false) := by
  unfold child
  cases hfile : t.files.get? (key (names ++ [name])) with
  | some content => exact .inl ⟨by simp [Fields.contains, hfile], rfl⟩
  | none =>
    cases hfolder : t.isFolder (names ++ [name]) with
    | true => exact .inr ⟨rfl, .inl ⟨by simp [Fields.contains, hfile, hfolder], rfl⟩⟩
    | false => exact .inr ⟨rfl, .inr ⟨by simp [Fields.contains, hfile, hfolder], rfl⟩⟩

/-! ### Following a path -/

/-- The folder where a path starts, and the parts that lead on from there. -/
def origin (current : List String) : List String → List String × List String
  | "" :: parts => ([], parts)
  | parts => (current, parts)

section Origin

variable {current : List String}

/-- What is left behind the origin is the end of the path. -/
theorem origin_suffix (current parts : List String) : (origin current parts).2 <:+ parts := by
  unfold origin
  split
  · exact List.suffix_cons _ _
  · exact List.suffix_rfl

theorem origin_ne_nil (h : parts ≠ []) (hslash : parts ≠ [""]) : (origin current parts).2 ≠ [] := by
  unfold origin
  split
  · next rest =>
    rintro rfl
    exact hslash rfl
  · exact h

/-- A path starts from the root or from the current folder. -/
theorem origin_start (current parts : List String) :
    (origin current parts).1 = [] ∨ (origin current parts).1 = current := by
  unfold origin
  split
  · exact .inl rfl
  · exact .inr rfl

/-- A relative path starts from the current folder. -/
theorem origin_of_ne {first : String} (h : first ≠ "") (rest : List String) :
    origin current (first :: rest) = (current, first :: rest) := by
  rw [origin]
  exact fun _ hfirst => h (List.cons.inj hfirst).1

end Origin

/-- A path is followed part by part from its origin. -/
theorem resolve_eq_foldlM (h : FilePath.parts path ≠ [""]) : t.resolve path =
    (origin t.current (FilePath.parts path)).2.foldlM t.step
      (.folder (origin t.current (FilePath.parts path)).1) := by
  rw [resolve]
  split
  · next hparts => exact absurd hparts (parts_ne_nil path)
  · next hparts => exact absurd hparts h
  · next hparts => rw [hparts, origin]
  · next hslash => rw [origin]; exact hslash

/-- The last step comes after the others. -/
theorem foldlM_concat {front : List String} :
    (front ++ [part]).foldlM t.step start = .ok next ↔
      ∃ place, front.foldlM t.step start = .ok place ∧ t.step place part = .ok next := by
  rw [List.foldlM_append]
  cases front.foldlM t.step start with
  | error fault => simp [bind, Except.bind]
  | ok place =>
    cases hstep : t.step place part <;> simp [hstep, bind, Except.bind, pure, Except.pure]

/-- What holds of the start and is kept from part to part holds of where the parts lead. -/
theorem foldlM_induction {P : Place → Prop} (hstart : P start)
    (hstep : ∀ place next, ∀ part ∈ parts, P place → t.step place part = .ok next → P next)
    (h : parts.foldlM t.step start = .ok place) : P place := by
  induction parts using List.reverseRecOn generalizing place with
  | nil =>
    obtain rfl : start = place := by simpa [pure, Except.pure] using h
    exact hstart
  | append_singleton front part ih =>
    obtain ⟨mid, hfront, hlast⟩ := foldlM_concat.1 h
    have hmid : P mid := ih (fun place next p hp => hstep place next p (by simp [hp])) hfront
    exact hstep mid place part (by simp) hmid hlast

theorem parts_ne_of_resolve (h : t.resolve path = .ok place) : FilePath.parts path ≠ [""] := by
  intro hparts
  rw [resolve, hparts] at h
  cases h

/-- What holds of every folder and is kept from part to part holds of where a path leads. -/
theorem resolve_induction {P : Place → Prop} (hfolder : ∀ names, P (.folder names))
    (hstep : ∀ place next, ∀ part ∈ FilePath.parts path, P place → t.step place part = .ok next →
      P next) (h : t.resolve path = .ok place) : P place := by
  rw [resolve_eq_foldlM (parts_ne_of_resolve h)] at h
  refine foldlM_induction (hfolder _) (fun place next part hpart => ?_) h
  exact hstep place next part ((origin_suffix _ _).subset hpart)

/-! ### Nothing there -/

/-- From a place where there is nothing no step leads on, an empty part apart. -/
theorem step_missing {names : List String} (h : t.step (.missing names) part = .ok next) :
    part = "" ∧ next = .missing names := by
  rw [step] at h
  split at h
  · next hpart => exact ⟨hpart, (Except.ok.inj h).symm⟩
  · cases h

/-- **There is no content where nothing is.** -/
theorem get?_eq_none_of_missing {names : List String} (h : t.resolve path = .ok (.missing names)) :
    t.files.get? (key names) = none := by
  have hmissing : ∀ other, Place.missing names = .missing other → t.files.get? (key other) = none := by
    refine resolve_induction (P := fun place => ∀ other, place = .missing other →
      t.files.get? (key other) = none) nofun ?_ h
    rintro place next part - hplace hnext other rfl
    rcases step_cases place part with ⟨names, rfl, hchild⟩ | ⟨result, hresult, hplaces⟩
    · have he : t.child names part = .missing other := Except.ok.inj ((hchild t).symm.trans hnext)
      rcases t.child_cases names part with ⟨hfile, -⟩ | ⟨hnone, ⟨hfolder, -⟩ | ⟨hmissing, -⟩⟩
      · cases hfile.symm.trans he
      · cases hfolder.symm.trans he
      · obtain rfl := Place.missing.inj (hmissing.symm.trans he)
        exact hnone
    · rcases hplaces _ ((hresult t).symm.trans hnext) with he | ⟨_, _, _, he⟩
      · exact hplace other he.symm
      · cases he
  exact hmissing names rfl

/-! ### Folders that are made -/

/-- **A tree with more folders**, and the same files, seen from the same folder. -/
structure IsGrown (t u : FileTree) : Prop where
  current : u.current = t.current
  files : u.files = t.files
  folders : t.folders ⊆ u.folders

/-- No file is kept below the names. -/
def IsBare (t : FileTree) (names : List String) : Prop :=
  names ≠ [] ∧ ∀ path ∈ t.files.keys, ¬ (key names ++ "/").toList <+: path.toList

/-- A folder or a missing place below which no file is kept. -/
def LeadsNowhere (t : FileTree) (place : Place) : Prop :=
  ∃ names, t.IsBare names ∧ (place = .folder names ∨ place = .missing names)

/-- A folder is made, or lies on the way to one or to a file. -/
theorem isFolder_eq_true_iff {names : List String} : t.isFolder names = true ↔
    (∃ folder ∈ t.current :: t.folders, names.isPrefixOf folder = true) ∨
      ∃ path ∈ t.files.keys, (key names ++ "/").toList <+: path.toList := by
  simp [isFolder, String.isPrefixOf, String.startsWith_string_iff]

theorem isBare_of_not_isFolder {names : List String} (h : t.isFolder names = false) :
    t.IsBare names := by
  have hnot := mt isFolder_eq_true_iff.2 (Bool.eq_false_iff.1 h)
  refine ⟨?_, fun path hpath hprefix => hnot (.inr ⟨path, hpath, hprefix⟩)⟩
  rintro rfl
  exact hnot (.inl ⟨t.current, List.mem_cons_self, rfl⟩)

theorem key_concat {names : List String} (hne : names ≠ []) (name : String) :
    key (names ++ [name]) = key names ++ "/" ++ name := by
  rw [key, String.intercalate_append_of_ne_nil hne (by simp), String.intercalate_singleton, key]

/-- What is below a bare folder is bare, and is no file. -/
theorem IsBare.child {names : List String} (hbare : t.IsBare names) (name : String) :
    t.files.get? (key (names ++ [name])) = none ∧ t.IsBare (names ++ [name]) := by
  obtain ⟨hne, hbelow⟩ := hbare
  rw [IsBare, key_concat hne]
  constructor
  · by_contra hfile
    have hmem := Fields.mem_keys_iff.2 (Option.isSome_iff_ne_none.2 hfile)
    exact hbelow _ hmem (by simp)
  · refine ⟨by simp, fun path hpath hprefix => hbelow path hpath ?_⟩
    exact List.IsPrefix.trans ⟨(name ++ "/").toList, by simp [String.append_assoc]⟩ hprefix

/-- A folder is still one when more files and folders are there. -/
theorem isFolder_of_subset {names : List String} (hcurrent : u.current = t.current)
    (hkeys : t.files.keys ⊆ u.files.keys) (hfolders : t.folders ⊆ u.folders)
    (h : t.isFolder names = true) : u.isFolder names = true := by
  rw [isFolder_eq_true_iff] at h ⊢
  rcases h with ⟨folder, hmem, hprefix⟩ | ⟨path, hmem, hprefix⟩
  · refine .inl ⟨folder, ?_, hprefix⟩
    rw [hcurrent]
    exact List.cons_subset_cons _ hfolders hmem
  · exact .inr ⟨path, hkeys hmem, hprefix⟩

/-- Growing takes no folder away. -/
theorem IsGrown.isFolder {names : List String} (hgrown : IsGrown t u) (h : t.isFolder names = true) :
    u.isFolder names = true := by
  refine isFolder_of_subset hgrown.current ?_ hgrown.folders h
  rw [hgrown.files]
  exact List.Subset.refl _

/-- Where a name leads when folders have been made: where it led before, or to a place that is new and
below which no file is kept. -/
theorem IsGrown.child (hgrown : IsGrown t u) (names : List String) (name : String) :
    u.child names name = t.child names name ∨
      t.child names name = .missing (names ++ [name]) ∧ LeadsNowhere t (u.child names name) := by
  rcases t.child_cases names name with ⟨hfile, hsome⟩ | ⟨hnone, ⟨hfolder, hthere⟩ | ⟨hmissing, hnot⟩⟩
  · rcases u.child_cases names name with ⟨hfile', -⟩ | ⟨hnone, -⟩
    · exact .inl (hfile'.trans hfile.symm)
    · rw [hgrown.files] at hnone
      rw [hnone] at hsome
      cases hsome
  · rcases u.child_cases names name with ⟨-, hsome⟩ | ⟨-, ⟨hfolder', -⟩ | ⟨-, hnot⟩⟩
    · rw [hgrown.files, hnone] at hsome
      cases hsome
    · exact .inl (hfolder'.trans hfolder.symm)
    · rw [hgrown.isFolder hthere] at hnot
      cases hnot
  · have hbare : t.IsBare (names ++ [name]) := isBare_of_not_isFolder hnot
    rcases u.child_cases names name with ⟨-, hsome⟩ | ⟨-, ⟨hplace, -⟩ | ⟨hplace, -⟩⟩
    · rw [hgrown.files, hnone] at hsome
      cases hsome
    · exact .inr ⟨hmissing, _, hbare, .inl hplace⟩
    · exact .inr ⟨hmissing, _, hbare, .inr hplace⟩

/-- Behind a place that leads nowhere, only a way back up leads to a file. -/
theorem LeadsNowhere.step (hgrown : IsGrown t u) (hplace : LeadsNowhere t place) (hpart : part ≠ "..")
    (h : u.step place part = .ok next) : LeadsNowhere t next := by
  rcases step_cases place part with ⟨names, rfl, hchild⟩ | ⟨result, hresult, hplaces⟩
  · obtain ⟨other, hbare, he | he⟩ := hplace
    · obtain rfl := Place.folder.inj he
      obtain ⟨hnone, hbelow⟩ := hbare.child part
      obtain rfl : u.child names part = next := Except.ok.inj ((hchild u).symm.trans h)
      rcases u.child_cases names part with ⟨-, hsome⟩ | ⟨-, ⟨hnext, -⟩ | ⟨hnext, -⟩⟩
      · rw [hgrown.files, hnone] at hsome
        cases hsome
      · exact ⟨_, hbelow, .inl hnext⟩
      · exact ⟨_, hbelow, .inr hnext⟩
    · cases he
  · rcases hplaces _ ((hresult u).symm.trans h) with rfl | ⟨-, -, hup, -⟩
    · exact hplace
    · exact absurd hup hpart

/-- **The same parts before and after folders are made**, none of which leads up from a place that was
not there: either they lead to the same place, or to nothing before and nowhere after. -/
theorem foldlM_of_grown (hgrown : IsGrown t u)
    (hclimb : ∀ front back, parts = front ++ ".." :: back →
      ∃ place, front.foldlM t.step start = .ok place ∧ ∀ names, place ≠ .missing names)
    (h : parts.foldlM u.step start = .ok place) : parts.foldlM t.step start = .ok place ∨
      LeadsNowhere t place ∧
        ∀ other, parts.foldlM t.step start = .ok other → ∃ names, other = .missing names := by
  -- from the last part on, so that the place in front of it is known
  induction parts using List.reverseRecOn generalizing place with
  | nil => exact .inl h
  | append_singleton front part ih =>
    obtain ⟨mid, hfront, hlast⟩ := foldlM_concat.1 h
    have hfrontClimb : ∀ a b, front = a ++ ".." :: b →
        ∃ place, a.foldlM t.step start = .ok place ∧ ∀ names, place ≠ .missing names := by
      rintro a b rfl
      exact hclimb a (b ++ [part]) (by simp)
    rcases ih hfrontClimb hfront with hsame | ⟨hnowhere, hmissing⟩
    · rcases step_cases mid part with ⟨names, rfl, hchild⟩ | ⟨result, hresult, -⟩
      · obtain rfl : u.child names part = place := Except.ok.inj ((hchild u).symm.trans hlast)
        rcases hgrown.child names part with hsame' | ⟨hgone, hnowhere⟩
        · rw [hsame']
          exact .inl (foldlM_concat.2 ⟨_, hsame, hchild t⟩)
        · refine .inr ⟨hnowhere, fun other hother => ?_⟩
          rw [foldlM_concat.2 ⟨_, hsame, hchild t⟩, hgone] at hother
          exact ⟨_, (Except.ok.inj hother).symm⟩
      · exact .inl (foldlM_concat.2 ⟨_, hsame, (hresult t).trans ((hresult u).symm.trans hlast)⟩)
    · -- no part leads up again from a place that was not there
      have hpart : part ≠ ".." := by
        rintro rfl
        obtain ⟨there, hthere, hnot⟩ := hclimb front [] rfl
        obtain ⟨names, rfl⟩ := hmissing there hthere
        exact hnot names rfl
      refine .inr ⟨hnowhere.step hgrown hpart hlast, fun other hother => ?_⟩
      obtain ⟨before, hbefore, hstep⟩ := foldlM_concat.1 hother
      obtain ⟨names, rfl⟩ := hmissing before hbefore
      exact ⟨names, (step_missing hstep).2⟩

/-- **A path that goes up only from places that are there**: in front of every way up is the start of the
path, or what leads to such a place. -/
def ClimbsFromPlaces (t : FileTree) (path : String) : Prop :=
  ∀ front back, FilePath.parts path = front ++ ".." :: back →
    front = [] ∨ front = [""] ∨ t.hasPath (String.intercalate "/" front) = true

/-- A path that does not go up does so from no place at all. -/
theorem climbsFromPlaces_of_not_mem (h : ".." ∉ FilePath.parts path) : t.ClimbsFromPlaces path :=
  fun _ _ hparts => absurd (by simp [hparts]) h

/-- There is something at a path that leads to a file or a folder. -/
theorem hasPath_eq_true_iff : t.hasPath path = true ↔
    ∃ place, t.resolve path = .ok place ∧ ∀ names, place ≠ .missing names := by
  unfold hasPath
  split
  · next names hpath => simp [hpath]
  · next place hnot hpath => simp [hpath]; exact hnot
  · next fault hpath => simp [hpath]

/-- The first parts of a path are followed in the same way. -/
theorem resolve_intercalate {front back : List String} (hne : front ≠ []) (hslash : front ≠ [""])
    (hparts : FilePath.parts path = front ++ back) : t.resolve (String.intercalate "/" front) =
      (origin t.current front).2.foldlM t.step (.folder (origin t.current front).1) := by
  have hnames : ∀ name ∈ front, '/' ∉ name.toList := by
    intro name hname
    have hpart : name ∈ FilePath.parts path := by simp [hparts, hname]
    exact not_mem_of_mem_parts hpart
  have hfront := parts_intercalate hnames hne
  rw [resolve_eq_foldlM (by rwa [hfront]), hfront]

/-- In front of a way up that is not at the start of such a path, there is a place. -/
theorem ClimbsFromPlaces.exists_place_of_split (hclimb : t.ClimbsFromPlaces path)
    {front back : List String} (hne : front ≠ []) (hslash : front ≠ [""])
    (hparts : FilePath.parts path = front ++ ".." :: back) :
    ∃ place, (origin t.current front).2.foldlM t.step (.folder (origin t.current front).1) =
      .ok place ∧ ∀ names, place ≠ .missing names := by
  rcases hclimb front back hparts with he | he | hthere
  · exact absurd he hne
  · exact absurd he hslash
  · obtain ⟨place, hplace, hnot⟩ := hasPath_eq_true_iff.1 hthere
    rw [resolve_intercalate hne hslash hparts] at hplace
    exact ⟨place, hplace, hnot⟩

/-- In front of every way up, the parts of such a path lead to a place that is there. -/
theorem ClimbsFromPlaces.exists_place (hclimb : t.ClimbsFromPlaces path) {front back : List String}
    (h : (origin t.current (FilePath.parts path)).2 = front ++ ".." :: back) :
    ∃ place, front.foldlM t.step (.folder (origin t.current (FilePath.parts path)).1) = .ok place ∧
      ∀ names, place ≠ .missing names := by
  by_cases hempty : front = []
  · subst hempty
    exact ⟨_, rfl, nofun⟩
  obtain ⟨first, rest, hparts⟩ := List.exists_cons_of_ne_nil (parts_ne_nil path)
  rw [hparts] at h ⊢
  -- an absolute path begins with an empty part, which is not followed
  by_cases hfirst : first = ""
  · subst hfirst
    rw [origin] at h ⊢
    have hslash : "" :: front ≠ [""] := fun he => hempty (List.cons.inj he).2
    have hthere := hclimb.exists_place_of_split (List.cons_ne_nil _ _) hslash
      (hparts.trans (congrArg ("" :: ·) h))
    rwa [origin] at hthere
  · rw [origin_of_ne hfirst] at h ⊢
    obtain ⟨name, front, rfl⟩ := List.exists_cons_of_ne_nil hempty
    obtain ⟨rfl, -⟩ := List.cons.inj h
    have hslash : first :: front ≠ [""] := fun he => hfirst (List.cons.inj he).1
    have hthere := hclimb.exists_place_of_split (List.cons_ne_nil _ _) hslash (hparts.trans h)
    rwa [origin_of_ne hfirst] at hthere

/-- **Such a path leads to no other file** than before folders were made. -/
theorem resolve_file_of_climbs {k : String} (hgrown : IsGrown t u) (hclimb : t.ClimbsFromPlaces path)
    (h : u.resolve path = .ok (.file k)) : t.resolve path = .ok (.file k) := by
  have hne := parts_ne_of_resolve h
  rw [resolve_eq_foldlM hne] at h ⊢
  rw [hgrown.current] at h
  rcases foldlM_of_grown hgrown (fun front back hparts => hclimb.exists_place hparts) h with
    hsame | ⟨⟨names, -, he | he⟩, -⟩
  · exact hsame
  · cases he
  · cases he

theorem IsGrown.refl (t : FileTree) : IsGrown t t := ⟨rfl, rfl, List.Subset.refl _⟩

/-- Making folders along a path changes no file. -/
theorem isGrown_makeAlong {names : List String} (h : t.makeAlong place names = .ok u) :
    IsGrown t u := by
  induction names generalizing t place with
  | nil =>
    obtain rfl : t = u := by simpa [makeAlong] using h
    exact .refl t
  | cons name names ih =>
    rw [makeAlong] at h
    split at h
    · cases h
    · cases h
    · next path _ =>
      obtain ⟨hcurrent, hfiles, hfolders⟩ := ih h
      exact ⟨hcurrent, hfiles, List.Subset.trans (List.subset_cons_self path _) hfolders⟩
    · exact ih h

/-- **Making folders** adds folders and changes nothing else. -/
theorem isGrown_makeFolder {p : FilePath} (h : t.makeFolder p = .ok u) : IsGrown t u :=
  isGrown_makeAlong h

/-! ### Files that are written -/

/-- A place where a file can be written: it is that file, or nothing is there yet. -/
def IsSiteOf (k : String) : Place → Prop
  | .file path => path = k
  | .missing names => key names = k
  | .folder _ => False

/-- What is written stands at a place where its path leads. -/
theorem target_eq_ok {k : String} (h : t.target path = .ok k) :
    withoutSlashes path = path ∧ ∃ place, t.resolve path = .ok place ∧ IsSiteOf k place := by
  have hnonempty : path ≠ "" := by
    rintro rfl
    cases h
  rw [target] at h
  by_cases hplain : withoutSlashes path = path
  · refine ⟨hplain, ?_⟩
    simp only [hplain, if_neg hnonempty, if_true] at h
    cases hplace : t.resolve path with
    | error fault => simp [hplace, bind, Except.bind] at h
    | ok place =>
      refine ⟨place, rfl, ?_⟩
      cases place <;> simp [hplace, bind, Except.bind] at h
      · exact h
      · exact h
  · exfalso
    simp only [if_neg hplain] at h
    cases hplace : t.resolve (if withoutSlashes path = "" then path else withoutSlashes path) with
    | error fault => simp [hplace, bind, Except.bind] at h
    | ok place => cases place <;> simp [hplace, bind, Except.bind] at h

/-- **Nothing is overwritten** where nothing was, by a path that goes up only from places that were
there before folders were made. -/
theorem get?_target_eq_none {k : String} (hgrown : IsGrown t u) (hclimb : t.ClimbsFromPlaces path)
    (hnothing : t.hasPath path = false) (h : u.target path = .ok k) : t.files.get? k = none := by
  obtain ⟨-, place, hplace, hsite⟩ := target_eq_ok h
  cases place with
  | file key =>
    have hthere : t.hasPath path = true :=
      hasPath_eq_true_iff.2 ⟨_, resolve_file_of_climbs hgrown hclimb hplace, nofun⟩
    rw [hnothing] at hthere
    cases hthere
  | missing names =>
    obtain rfl : key names = k := hsite
    rw [← hgrown.files]
    exact get?_eq_none_of_missing hplace
  | folder names => exact hsite.elim

/-- The last part of a path is a name, unless the path ends with a slash. -/
theorem last_part_ne_empty {front : List String} {last : String} (hne : path ≠ "")
    (hplain : withoutSlashes path = path) (hparts : FilePath.parts path = front ++ [last]) :
    last ≠ "" := by
  rintro rfl
  have hpath := intercalate_parts path
  rw [hparts] at hpath
  by_cases hfront : front = []
  · subst hfront
    exact hne (by rw [← hpath]; rfl)
  · rw [String.intercalate_append_of_ne_nil hfront (by simp), String.intercalate_singleton,
      String.append_empty] at hpath
    -- what is left of the path is shorter than the path
    have hlists := congrArg String.toList hplain
    have hslash : path.toList.reverse = '/' :: (String.intercalate "/" front).toList.reverse := by
      rw [← hpath]
      simp
    rw [withoutSlashes, String.toList_ofList, hslash, List.dropWhile_cons_of_pos (by rfl),
      ← List.reverse_reverse path.toList, hslash] at hlists
    have hlength := congrArg List.length hlists
    rw [List.length_reverse, List.length_reverse, List.length_cons] at hlength
    have hle := (List.dropWhile_sublist (· == '/')
      (l := (String.intercalate "/" front).toList.reverse)).length_le
    omega

/-- Names in which no slash stands. -/
def SlashFree (names : List String) : Prop := ∀ name ∈ names, '/' ∉ name.toList

/-- The names of the places on a path have no slashes. -/
theorem slashFree_of_foldlM {names : List String} (hparts : SlashFree parts)
    (hstart : ∀ names, start = .folder names → SlashFree names)
    (h : parts.foldlM t.step start = .ok (.folder names)) : SlashFree names := by
  refine foldlM_induction (P := fun place => ∀ names, place = .folder names → SlashFree names)
    hstart ?_ h names rfl
  rintro place next part hpart hplace hnext other rfl
  rcases step_cases place part with ⟨names, rfl, hchild⟩ | ⟨result, hresult, hplaces⟩
  · have he : t.child names part = .folder other := Except.ok.inj ((hchild t).symm.trans hnext)
    rcases t.child_cases names part with ⟨hfile, -⟩ | ⟨-, ⟨hfolder, -⟩ | ⟨hmissing, -⟩⟩
    · cases hfile.symm.trans he
    · obtain rfl := Place.folder.inj (hfolder.symm.trans he)
      exact List.forall_mem_append.2 ⟨hplace names rfl, List.forall_mem_singleton.2 (hparts part hpart)⟩
    · cases hmissing.symm.trans he
  · rcases hplaces _ ((hresult t).symm.trans hnext) with he | ⟨names, rfl, -, he⟩
    · exact hplace other he.symm
    · obtain rfl := Place.folder.inj he
      exact fun name hname => hplace names rfl name (List.dropLast_subset names hname)

/-- **A tree with one file written**, seen from the same folder. -/
structure IsWritten (t u : FileTree) (k : String) : Prop where
  current : u.current = t.current
  here : (u.files.get? k).isSome = true
  elsewhere : ∀ other, other ≠ k → u.files.get? other = t.files.get? other
  folders : t.folders ⊆ u.folders

section Written

variable {k : String}

/-- Writing changes what is at one place. -/
theorem isWritten_insert (t : FileTree) (k : String) (content : ByteArray) :
    IsWritten t { t with files := t.files.insert k content } k where
  current := rfl
  here := by rw [Fields.get?_insert, if_pos rfl]; rfl
  elsewhere other hne := by rw [Fields.get?_insert, if_neg hne]
  folders := List.Subset.refl _

/-- Writing takes no folder away. -/
theorem IsWritten.isFolder {names : List String} (hwritten : IsWritten t u k)
    (h : t.isFolder names = true) : u.isFolder names = true := by
  refine isFolder_of_subset hwritten.current ?_ hwritten.folders h
  intro path hmem
  rw [Fields.mem_keys_iff] at hmem ⊢
  by_cases hpath : path = k
  · rw [hpath]
    exact hwritten.here
  · rwa [hwritten.elsewhere path hpath]

/-- A name stands for the file that was written, where it is that of the file. -/
theorem IsWritten.child_self (hwritten : IsWritten t u k) {names : List String} {name : String}
    (hkey : key (names ++ [name]) = k) : u.child names name = .file k := by
  rcases u.child_cases names name with ⟨hfile, -⟩ | ⟨hnone, -⟩
  · rw [hfile, hkey]
  · have hhere := hwritten.here
    rw [← hkey, hnone] at hhere
    cases hhere

/-- Any other name stands for what it stood for before. -/
theorem IsWritten.child (hwritten : IsWritten t u k) {names : List String} {name : String}
    (hkey : key (names ++ [name]) ≠ k) (hthere : ∀ other, t.child names name ≠ .missing other) :
    u.child names name = t.child names name := by
  have hsame := hwritten.elsewhere _ hkey
  rcases t.child_cases names name with ⟨hfile, hsome⟩ | ⟨hnone, ⟨hfolder, hisFolder⟩ | ⟨hmissing, -⟩⟩
  · rcases u.child_cases names name with ⟨hfile', -⟩ | ⟨hnone, -⟩
    · rw [hfile', hfile]
    · rw [← hsame, hnone] at hsome
      cases hsome
  · rcases u.child_cases names name with ⟨-, hsome⟩ | ⟨-, ⟨hfolder', -⟩ | ⟨-, hnot⟩⟩
    · rw [hsame, hnone] at hsome
      cases hsome
    · rw [hfolder', hfolder]
    · rw [hwritten.isFolder hisFolder] at hnot
      cases hnot
  · exact absurd hmissing (hthere _)

/-- **The same parts before and after a file is written**, as long as the names of the file stand for no
folder and the parts lead to a place that is there. -/
theorem IsWritten.foldlM (hwritten : IsWritten t u k) (hparts : SlashFree parts)
    (hstart : ∀ names, start = .folder names → SlashFree names)
    (hfree : ∀ names name, SlashFree (names ++ [name]) → key (names ++ [name]) = k →
      ∀ other, t.child names name ≠ .folder other)
    (h : parts.foldlM t.step start = .ok place) (hthere : ∀ names, place ≠ .missing names) :
    parts.foldlM u.step start = .ok place := by
  -- from the last part on: in front of a place that is there, each place is
  induction parts using List.reverseRecOn generalizing place with
  | nil => exact h
  | append_singleton front part ih =>
    obtain ⟨hfrontFree, hpartFree⟩ := List.forall_mem_append.1 hparts
    obtain ⟨mid, hfront, hlast⟩ := foldlM_concat.1 h
    have hmid : ∀ names, mid ≠ .missing names := by
      rintro names rfl
      exact hthere names (step_missing hlast).2
    refine foldlM_concat.2 ⟨mid, ih hfrontFree hfront hmid, ?_⟩
    rcases step_cases mid part with ⟨names, rfl, hchild⟩ | ⟨result, hresult, -⟩
    · have hnames := slashFree_of_foldlM hfrontFree hstart hfront
      obtain rfl : t.child names part = place := Except.ok.inj ((hchild t).symm.trans hlast)
      rw [hchild u]
      by_cases hkey : key (names ++ [part]) = k
      · rw [hwritten.child_self hkey]
        rcases t.child_cases names part with ⟨hfile, -⟩ | ⟨-, ⟨hfolder, -⟩ | ⟨hmissing, -⟩⟩
        · rw [hfile, hkey]
        · exact absurd hfolder (hfree names part (List.forall_mem_append.2 ⟨hnames, hpartFree⟩) hkey _)
        · exact absurd hmissing (hthere _)
      · rw [hwritten.child hkey hthere]
    · rw [hresult u, ← hlast, hresult t]

/-- A file can be written where a name in a folder leads, if that is no folder. -/
theorem exists_folder_of_step {name : String} (hsite : IsSiteOf k next) (hname : name ≠ "")
    (h : t.step place name = .ok next) : ∃ names, place = .folder names ∧
      (∀ t : FileTree, t.step place name = .ok (t.child names name)) ∧
      key (names ++ [name]) = k ∧ ∀ other, t.child names name ≠ .folder other := by
  rcases step_cases place name with ⟨names, hplace, hchild⟩ | ⟨result, hresult, hplaces⟩
  · obtain rfl : t.child names name = next := Except.ok.inj ((hchild t).symm.trans h)
    refine ⟨names, hplace, hchild, ?_, fun other hother => ?_⟩
    · rcases t.child_cases names name with ⟨hfound, -⟩ | ⟨-, ⟨hfound, -⟩ | ⟨hfound, -⟩⟩
      · rw [hfound] at hsite
        exact hsite
      · rw [hfound] at hsite
        exact hsite.elim
      · rw [hfound] at hsite
        exact hsite
    · rw [hother] at hsite
      exact hsite
  · exfalso
    rcases hplaces _ ((hresult t).symm.trans h) with rfl | ⟨names, -, -, rfl⟩
    · cases next with
      | file key => cases h
      | missing names => exact hname (step_missing h).1
      | folder names => exact hsite
    · exact hsite

/-- The name that a path leads to when a file can be written there. -/
theorem exists_name_of_target (h : t.target path = .ok k) : ∃ front names name,
    (origin t.current (FilePath.parts path)).2 = front ++ [name] ∧
      front.foldlM t.step (.folder (origin t.current (FilePath.parts path)).1) =
        .ok (.folder names) ∧
      (∀ t : FileTree, t.step (.folder names) name = .ok (t.child names name)) ∧
      key (names ++ [name]) = k ∧ ∀ other, t.child names name ≠ .folder other := by
  obtain ⟨hplain, place, hresolve, hsite⟩ := target_eq_ok h
  have hslash := parts_ne_of_resolve hresolve
  have hempty : path ≠ "" := by
    rintro rfl
    exact hslash rfl
  rw [resolve_eq_foldlM hslash] at hresolve
  rcases List.eq_nil_or_concat (origin t.current (FilePath.parts path)).2 with hnil | ⟨front, name, hlast⟩
  · exact absurd hnil (origin_ne_nil (parts_ne_nil path) hslash)
  · rw [List.concat_eq_append] at hlast
    have hname : name ≠ "" := by
      obtain ⟨before, hbefore⟩ := origin_suffix t.current (FilePath.parts path)
      rw [hlast, ← List.append_assoc] at hbefore
      exact last_part_ne_empty hempty hplain hbefore.symm
    rw [hlast] at hresolve
    obtain ⟨mid, hfront, hstep⟩ := foldlM_concat.1 hresolve
    obtain ⟨names, rfl, hchild, hkey, hnot⟩ := exists_folder_of_step hsite hname hstep
    exact ⟨front, names, name, hlast, hfront, hchild, hkey, hnot⟩

/-- **A path leads to the file that was written at its target.** -/
theorem IsWritten.resolve_target (hwritten : IsWritten t u k) (h : t.target path = .ok k) :
    u.resolve path = .ok (.file k) := by
  obtain ⟨front, names, name, hparts, hfront, hchild, hkey, hnot⟩ := exists_name_of_target h
  have hslash : FilePath.parts path ≠ [""] := by
    intro he
    rw [he] at hparts
    exact absurd hparts (by simp [origin])
  have hfree : SlashFree (front ++ [name]) := by
    intro part hpart
    rw [← hparts] at hpart
    exact not_mem_of_mem_parts ((origin_suffix _ _).subset hpart)
  obtain ⟨hfrontFree, hnameFree⟩ := List.forall_mem_append.1 hfree
  have hstart : ∀ names, Place.folder (origin t.current (FilePath.parts path)).1 = .folder names →
      SlashFree names := by
    intro names hnames
    obtain rfl := Place.folder.inj hnames
    rcases origin_start t.current (FilePath.parts path) with he | he
    · rw [he]
      exact List.forall_mem_nil _
    · rw [he]
      exact fun name hname => (t.current_isName name hname).2
  have hnames : SlashFree (names ++ [name]) :=
    List.forall_mem_append.2 ⟨slashFree_of_foldlM hfrontFree hstart hfront, hnameFree⟩
  rw [resolve_eq_foldlM hslash, hwritten.current, hparts]
  -- the folders on the way are as before, and the name in the last of them is that of the file
  refine foldlM_concat.2 ⟨.folder names, hwritten.foldlM hfrontFree hstart ?_ hfront nofun, ?_⟩
  · intro other last hother hsame
    have he := key_inj hother hnames (by simp) (by simp) (hsame.trans hkey.symm)
    obtain ⟨rfl, hlast⟩ := List.append_inj' he rfl
    obtain rfl := List.singleton_inj.1 hlast
    exact hnot
  · rw [hchild u, hwritten.child_self hkey]

end Written

/-- Writing succeeds where the path has a target, and puts the content there. -/
theorem write_eq_ok_iff {content : ByteArray} : t.write path content = .ok u ↔
    ∃ k, t.target path = .ok k ∧ u = { t with files := t.files.insert k content } := by
  rw [write]
  cases htarget : t.target path with
  | error fault => simp [bind, Except.bind]
  | ok k => simp [bind, Except.bind, pure, Except.pure, eq_comm]

/-- **What is written is read** at the same path. -/
theorem read_of_write {content : ByteArray} (h : t.write path content = .ok u) :
    u.read path = .ok content := by
  obtain ⟨k, htarget, rfl⟩ := write_eq_ok_iff.1 h
  exact read_write h ((isWritten_insert t k content).resolve_target htarget) htarget

end FileTree

end Stencil
