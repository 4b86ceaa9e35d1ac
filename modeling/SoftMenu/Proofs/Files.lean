import Mathlib.Data.List.Basic
import Mathlib.Logic.Function.Iterate
import SoftMenu.CommandLine.FileSystem
import SoftMenu.Proofs.Stages

/-!
# Reading and writing files

When a file can be read and written is said here in terms of where its path leads
(`readText_eq_ok_iff`, `writeTarget_eq_ok_iff`). For writing this takes an argument: the target is
found by following all names but the last, and the last one is refused if it stands for a folder.
That a path which leads to something else than a folder is never refused rests on the fact that
every location that names lead to has folders above it (`FileSystem.Grounded`).

Writing changes what stands at one location and nothing else (`entryAt?_put`), and all paths lead
where they have led before (`resolve_of_others`, `CanWrite.writeText`).
-/

namespace SoftMenu

/-! ## Names of a path -/

theorem splitSlashes_ne_nil (chars : List Char) : splitSlashes chars ≠ [] := by
  cases chars with
  | nil => exact List.cons_ne_nil _ _
  | cons c chars =>
    rw [splitSlashes]
    split_ifs
    · exact List.cons_ne_nil _ _
    · split
      · exact List.cons_ne_nil _ _
      · exact List.cons_ne_nil _ _

theorem slash_notMem_of_mem_splitSlashes {chars piece : List Char}
    (h : piece ∈ splitSlashes chars) : '/' ∉ piece := by
  induction chars generalizing piece with
  | nil =>
    obtain rfl := List.mem_singleton.1 h
    exact List.not_mem_nil
  | cons c chars ih =>
    rw [splitSlashes] at h
    split_ifs at h with hc
    · rcases List.mem_cons.1 h with rfl | h
      · exact List.not_mem_nil
      · exact ih h
    · cases hsplit : splitSlashes chars with
      | nil => exact absurd hsplit (splitSlashes_ne_nil chars)
      | cons first pieces =>
        rw [hsplit] at h ih
        rcases List.mem_cons.1 h with rfl | h
        · intro hmem
          rcases List.mem_cons.1 hmem with hslash | hmem
          · exact hc hslash.symm
          · exact ih List.mem_cons_self hmem
        · exact ih (List.mem_cons_of_mem _ h)

theorem pathNames_ne_nil (path : String) : pathNames path ≠ [] := by
  rw [pathNames, Ne, List.map_eq_nil_iff]
  exact splitSlashes_ne_nil _

theorem ne_slash_of_mem_pathNames {path name : String} (h : name ∈ pathNames path) :
    name ≠ "/" := by
  obtain ⟨piece, hpiece, rfl⟩ := List.mem_map.1 h
  intro hslash
  have hchars : piece = ['/'] := by
    rw [← String.toList_ofList (l := piece), hslash]
    rfl
  apply slash_notMem_of_mem_splitSlashes hpiece
  rw [hchars]
  exact List.mem_singleton_self _

namespace FileSystem

variable {files : FileSystem}

/-! ## Following names -/

theorem requireFolder_eq_ok_iff {location : Location} {done : Unit} :
    files.requireFolder location = .ok done ↔ files.entryAt? location = some .folder := by
  unfold requireFolder
  cases hentry : files.entryAt? location with
  | none => simp
  | some entry => cases entry <;> simp

theorem follow_cons_eq_ok_iff {location target : Location} {name : String} {names : List String} :
    files.follow location (name :: names) = .ok target ↔
      files.entryAt? location = some .folder ∧ requireLength nameLimit name = .ok () ∧
        files.follow (location.enter name) names = .ok target := by
  rw [follow, bind_eq_ok_iff]
  simp only [requireFolder_eq_ok_iff, bind_eq_ok_iff]
  constructor
  · rintro ⟨_, hfolder, _, hlength, hrest⟩
    exact ⟨hfolder, hlength, hrest⟩
  · rintro ⟨hfolder, hlength, hrest⟩
    exact ⟨(), hfolder, (), hlength, hrest⟩

theorem follow_concat_eq_ok_iff {location target : Location} {names : List String} {name : String} :
    files.follow location (names ++ [name]) = .ok target ↔
      ∃ folder, files.follow location names = .ok folder ∧ files.entryAt? folder = some .folder ∧
        requireLength nameLimit name = .ok () ∧ folder.enter name = target := by
  induction names generalizing location with
  | nil =>
    rw [List.nil_append, follow_cons_eq_ok_iff]
    simp [follow]
  | cons first names ih =>
    rw [List.cons_append, follow_cons_eq_ok_iff, ih]
    simp only [follow_cons_eq_ok_iff]
    constructor
    · rintro ⟨hfolder, hlength, last, hlast, hrest⟩
      exact ⟨last, ⟨hfolder, hlength, hlast⟩, hrest⟩
    · rintro ⟨last, ⟨hfolder, hlength, hlast⟩, hrest⟩
      exact ⟨hfolder, hlength, last, hlast, hrest⟩

/-- All folders above a location are there. -/
def Grounded (files : FileSystem) (location : Location) : Prop :=
  ∀ levels, files.entryAt? (Location.parent^[levels + 1] location) = some .folder

theorem isStanding_parent {location : Location} (h : location.isStanding = true) :
    location.parent.isStanding = true := by
  rw [Location.isStanding, Bool.or_eq_true, decide_eq_true_eq] at h
  rcases h with hdots | rfl
  · have hlast : location.parent = location ++ [".."] := by
      unfold Location.parent
      cases hlast : location.getLast? with
      | none => rfl
      | some name =>
        have hname := List.all_eq_true.1 hdots name (List.mem_of_getLast? hlast)
        rw [decide_eq_true_eq] at hname
        rw [hname]
        rfl
    rw [hlast, Location.isStanding, List.all_append, hdots]
    rfl
  · rfl

theorem grounded_of_isStanding {location : Location} (h : location.isStanding = true) :
    files.Grounded location := by
  intro levels
  have hstanding : (Location.parent^[levels + 1] location).isStanding = true := by
    induction levels + 1 with
    | zero => exact h
    | succ levels ih =>
      rw [Function.iterate_succ_apply']
      exact isStanding_parent ih
  exact if_pos hstanding

theorem Grounded.enter {location : Location} {name : String} (h : files.Grounded location)
    (hfolder : files.entryAt? location = some .folder) (hname : name ≠ "/") :
    files.Grounded (location.enter name) := by
  intro levels
  unfold Location.enter
  split_ifs with hempty hup
  · exact h levels
  · rw [← Function.iterate_succ_apply]
    exact h (levels + 1)
  · have hparent : Location.parent (location ++ [name]) = location := by
      unfold Location.parent
      rw [List.getLast?_concat, List.dropLast_concat]
      split
      · cases ‹_›
      · exact absurd (Option.some.inj ‹_›) hup
      · exact absurd (Option.some.inj ‹_›) hname
      · rfl
    rw [Function.iterate_succ_apply, hparent]
    cases levels with
    | zero => exact hfolder
    | succ levels => exact h levels

theorem Grounded.follow {location target : Location} {names : List String}
    (h : files.Grounded location) (hnames : ∀ name ∈ names, name ≠ "/")
    (hfollow : files.follow location names = .ok target) : files.Grounded target := by
  induction names generalizing location with
  | nil =>
    obtain rfl := Except.ok.inj hfollow
    exact h
  | cons name names ih =>
    obtain ⟨hname, hrest⟩ := List.forall_mem_cons.1 hnames
    obtain ⟨hfolder, -, hfollow⟩ := follow_cons_eq_ok_iff.1 hfollow
    exact ih (h.enter hfolder hname) hrest hfollow

/-! ## Reading -/

/-- The path leads to a file with this text, and to read it is not refused. -/
def HasText (files : FileSystem) (path text : String) : Prop :=
  files.readRefusal path = none ∧ ∃ location, files.resolve path = .ok location ∧
    files.entryAt? location = some (.file text.toUTF8)

theorem decodeText_eq_ok_iff {content : ByteArray} {text : String} :
    decodeText content = .ok text ↔ content = text.toUTF8 := by
  unfold decodeText String.fromUTF8?
  constructor
  · intro h
    split_ifs at h
    obtain rfl := Except.ok.inj h
    rfl
  · rintro rfl
    have hvalid : text.toUTF8.IsValidUTF8 := text.isValidUTF8
    rw [dif_pos hvalid]
    rfl

theorem permit_eq_ok_iff {refusal : Option FileFault} {done : Unit} :
    permit refusal = .ok done ↔ refusal = none := by
  cases refusal <;> simp [permit]

theorem readBytes_eq_ok_iff {path : String} {content : ByteArray} :
    files.readBytes path = .ok content ↔ files.readRefusal path = none ∧
      ∃ location, files.resolve path = .ok location ∧
        files.entryAt? location = some (.file content) := by
  rw [readBytes, bind_eq_ok_iff]
  constructor
  · rintro ⟨location, hlocation, h⟩
    split at h
    · rename_i found hentry
      obtain ⟨_, hpermit, h⟩ := bind_eq_ok_iff.1 h
      obtain rfl := Except.ok.inj h
      exact ⟨permit_eq_ok_iff.1 hpermit, location, hlocation, hentry⟩
    · cases h
    · cases h
  · rintro ⟨hrefusal, location, hlocation, hentry⟩
    refine ⟨location, hlocation, ?_⟩
    rw [hentry, hrefusal]
    rfl

/-- A file is read as a text exactly if it holds the bytes of the text. -/
theorem readText_eq_ok_iff {path text : String} :
    files.readText path = .ok text ↔ files.HasText path text := by
  rw [readText, bind_eq_ok_iff]
  simp only [decodeText_eq_ok_iff, readBytes_eq_ok_iff]
  constructor
  · rintro ⟨content, hread, rfl⟩
    exact hread
  · intro hread
    exact ⟨_, hread, rfl⟩

/-! ## Writing -/

/-- The path leads to this location, which is not a folder, and to write there is not refused. -/
structure CanWrite (files : FileSystem) (path : String) (target : Location) : Prop where
  resolve : files.resolve path = .ok target
  notFolder : files.entryAt? target ≠ some .folder
  permitted : files.writeRefusal path = none

/-- Without the names at its end that are empty, a list is shorter or ends in a name. -/
theorem dropWhile_concat (names : List String) (name : String) :
    name = "" ∧
        (((names ++ [name]).reverse.dropWhile (· = "")).reverse).length < (names ++ [name]).length ∨
      name ≠ "" ∧ ((names ++ [name]).reverse.dropWhile (· = "")).reverse = names ++ [name] := by
  by_cases hname : name = ""
  · left
    refine ⟨hname, ?_⟩
    subst hname
    have hle : (names.reverse.dropWhile (· = "")).length ≤ names.reverse.length :=
      (List.dropWhile_sublist _).length_le
    rw [List.reverse_append, List.reverse_singleton, List.singleton_append, List.dropWhile_cons,
      if_pos (by simp), List.length_reverse, List.length_append, List.length_singleton]
    rw [List.length_reverse] at hle
    omega
  · right
    refine ⟨hname, ?_⟩
    rw [List.reverse_append, List.reverse_singleton, List.singleton_append, List.dropWhile_cons,
      if_neg (by simpa using hname), List.reverse_cons, List.reverse_reverse]

theorem targetIn_eq_ok_iff {path : String} {folder target : Location} {name : String} :
    files.targetIn path folder name = .ok target ↔ requireLength nameLimit name = .ok () ∧
      files.entryAt? (folder ++ [name]) ≠ some .folder ∧ files.writeRefusal path = none ∧
        folder ++ [name] = target := by
  rw [targetIn, bind_eq_ok_iff]
  constructor
  · rintro ⟨_, hlength, h⟩
    split at h
    · cases h
    · obtain ⟨_, hpermit, h⟩ := bind_eq_ok_iff.1 h
      exact ⟨hlength, ‹_›, permit_eq_ok_iff.1 hpermit, Except.ok.inj h⟩
  · rintro ⟨hlength, hentry, hrefusal, htarget⟩
    refine ⟨(), hlength, ?_⟩
    split
    · exact absurd ‹_› hentry
    · rw [hrefusal, ← htarget]
      rfl

/-- The target of a path is found in the folder that all names but the last lead to. -/
theorem writeTarget_eq_ok_iff_of_startOf {path : String} {start target : Location}
    {names : List String} {name : String} (hstart : startOf path = .ok (start, names ++ [name])) :
    files.writeTarget path = .ok target ↔ name ≠ "" ∧ name ≠ "." ∧ name ≠ ".." ∧
      ∃ folder, files.follow start names = .ok folder ∧ files.entryAt? folder = some .folder ∧
        files.targetIn path folder name = .ok target := by
  rw [writeTarget, hstart]
  show (Bind.bind (files.follow start _) _ : Except FileFault Location) = _ ↔ _
  simp only [bind_eq_ok_iff, requireFolder_eq_ok_iff]
  rcases dropWhile_concat names name with ⟨hempty, hshorter⟩ | ⟨hname, hproper⟩
  · constructor
    · rintro ⟨folder, -, _, -, h⟩
      split at h
      · cases h
      · rw [decide_eq_true hshorter] at h
        cases h
    · rintro ⟨hname, -⟩
      exact absurd hempty hname
  · rw [hproper, List.dropLast_concat, List.getLast?_concat]
    simp only [lt_irrefl, decide_false, Bool.false_or]
    constructor
    · rintro ⟨folder, hfollow, _, hfolder, h⟩
      split_ifs at h with hdots
      rw [Bool.or_eq_true, not_or, decide_eq_true_eq, decide_eq_true_eq] at hdots
      exact ⟨hname, hdots.1, hdots.2, folder, hfollow, hfolder, h⟩
    · rintro ⟨-, hdot, hdots, folder, hfollow, hfolder, h⟩
      refine ⟨folder, hfollow, (), hfolder, ?_⟩
      rw [if_neg (by simp [hdot, hdots])]
      exact h

theorem startOf_eq_ok_iff {path : String} {start : Location} {names : List String} :
    startOf path = .ok (start, names) ↔ requireLength pathLimit path = .ok () ∧
      (if path.toList.head? = some '/' then ["/"] else []) = start ∧ pathNames path = names := by
  rw [startOf, bind_eq_ok_iff]
  constructor
  · rintro ⟨_, hlength, h⟩
    cases h
    exact ⟨hlength, rfl, rfl⟩
  · rintro ⟨hlength, rfl, rfl⟩
    exact ⟨(), hlength, rfl⟩

theorem exists_last_of_startOf {path : String} {start : Location} {all : List String}
    (h : startOf path = .ok (start, all)) : ∃ names name, all = names ++ [name] := by
  obtain ⟨-, -, rfl⟩ := startOf_eq_ok_iff.1 h
  exact ⟨_, _, (List.dropLast_append_getLast (pathNames_ne_nil path)).symm⟩

theorem resolve_eq_ok_iff {path : String} {target : Location} :
    files.resolve path = .ok target ↔ ∃ start names name,
      startOf path = .ok (start, names ++ [name]) ∧
        files.follow start (names ++ [name]) = .ok target := by
  rw [resolve, bind_eq_ok_iff]
  constructor
  · rintro ⟨⟨start, all⟩, hstart, hfollow⟩
    obtain ⟨names, name, rfl⟩ := exists_last_of_startOf hstart
    exact ⟨start, names, name, hstart, hfollow⟩
  · rintro ⟨start, names, name, hstart, hfollow⟩
    exact ⟨_, hstart, hfollow⟩

/-- What a path leads to is not a folder only if its last name is a proper one. -/
theorem proper_of_not_folder {path : String} {start folder : Location} {names : List String}
    {name : String} (hstart : startOf path = .ok (start, names ++ [name]))
    (hfollow : files.follow start names = .ok folder)
    (hfolder : files.entryAt? folder = some .folder)
    (h : files.entryAt? (folder.enter name) ≠ some .folder) :
    name ≠ "" ∧ name ≠ "." ∧ name ≠ ".." := by
  have hgrounded : files.Grounded folder := by
    obtain ⟨-, rfl, hnames⟩ := startOf_eq_ok_iff.1 hstart
    refine Grounded.follow (grounded_of_isStanding ?_) ?_ hfollow
    · split_ifs <;> rfl
    · intro other hother
      have hmem : other ∈ pathNames path := by
        rw [hnames]
        exact List.mem_append_left _ hother
      exact ne_slash_of_mem_pathNames hmem
  refine ⟨?_, ?_, ?_⟩
  · rintro rfl
    exact h hfolder
  · rintro rfl
    exact h hfolder
  · rintro rfl
    exact h (hgrounded 0)

theorem enter_of_proper {folder : Location} {name : String} (hempty : name ≠ "")
    (hdot : name ≠ ".") (hdots : name ≠ "..") : folder.enter name = folder ++ [name] := by
  rw [Location.enter, if_neg (by simp [hempty, hdot]), if_neg hdots]

/-- A path that does not lead to a folder leads to a proper name in the folder that the names before
it lead to. -/
theorem exists_folder_of_resolve {path : String} {location : Location}
    (h : files.resolve path = .ok location) (hentry : files.entryAt? location ≠ some .folder) :
    ∃ start names name folder, startOf path = .ok (start, names ++ [name]) ∧
      files.follow start names = .ok folder ∧ files.entryAt? folder = some .folder ∧
      requireLength nameLimit name = .ok () ∧ (name ≠ "" ∧ name ≠ "." ∧ name ≠ "..") ∧
      folder ++ [name] = location := by
  obtain ⟨start, names, name, hstart, hall⟩ := resolve_eq_ok_iff.1 h
  obtain ⟨folder, hfollow, hfolder, hlength, rfl⟩ := follow_concat_eq_ok_iff.1 hall
  obtain ⟨hempty, hdot, hdots⟩ := proper_of_not_folder hstart hfollow hfolder hentry
  exact ⟨start, names, name, folder, hstart, hfollow, hfolder, hlength, ⟨hempty, hdot, hdots⟩,
    (enter_of_proper hempty hdot hdots).symm⟩

/-- A path has a target exactly if it leads there, what stands there is not a folder, and to write
there is not refused. -/
theorem writeTarget_eq_ok_iff {path : String} {target : Location} :
    files.writeTarget path = .ok target ↔ files.CanWrite path target := by
  constructor
  · intro h
    obtain ⟨⟨start, all⟩, hstart, -⟩ := bind_eq_ok_iff.1 h
    obtain ⟨names, name, rfl⟩ := exists_last_of_startOf hstart
    obtain ⟨hempty, hdot, hdots, folder, hfollow, hfolder, h⟩ :=
      (writeTarget_eq_ok_iff_of_startOf hstart).1 h
    obtain ⟨hlength, hentry, hrefusal, rfl⟩ := targetIn_eq_ok_iff.1 h
    refine ⟨resolve_eq_ok_iff.2 ⟨start, names, name, hstart, ?_⟩, hentry, hrefusal⟩
    exact follow_concat_eq_ok_iff.2
      ⟨folder, hfollow, hfolder, hlength, enter_of_proper hempty hdot hdots⟩
  · rintro ⟨hresolve, hentry, hrefusal⟩
    obtain ⟨start, names, name, folder, hstart, hfollow, hfolder, hlength, ⟨hempty, hdot, hdots⟩,
      rfl⟩ := exists_folder_of_resolve hresolve hentry
    exact (writeTarget_eq_ok_iff_of_startOf hstart).2 ⟨hempty, hdot, hdots, folder, hfollow,
      hfolder, targetIn_eq_ok_iff.2 ⟨hlength, hentry, hrefusal, rfl⟩⟩

/-! ## What writing leaves behind -/

theorem not_isStanding_of_not_folder {target : Location}
    (h : files.entryAt? target ≠ some .folder) : target.isStanding = false := by
  rw [← Bool.not_eq_true]
  intro hstanding
  exact h (if_pos hstanding)

theorem lookup_filter_ne {target location : Location} (hne : location ≠ target)
    (entries : List (Location × FileEntry)) :
    (entries.filter fun other => other.1 ≠ target).lookup location = entries.lookup location := by
  induction entries with
  | nil => rfl
  | cons first entries ih =>
    obtain ⟨place, entry⟩ := first
    rw [List.filter_cons]
    split_ifs with hplace
    · rw [List.lookup_cons, List.lookup_cons, ih]
    · obtain rfl : place = target := by simpa using hplace
      rw [ih, List.lookup_cons, beq_false_of_ne hne]

theorem entryAt?_put {target : Location} (h : target.isStanding = false) (entry : FileEntry)
    (location : Location) : (files.put target entry).entryAt? location =
      if location = target then some entry else files.entryAt? location := by
  unfold FileSystem.entryAt? put
  split_ifs with hstanding heq heq
  · rw [heq, h] at hstanding
    cases hstanding
  · rfl
  · rw [heq, List.lookup_cons, beq_self_eq_true]
  · rw [List.lookup_cons, beq_false_of_ne heq]
    exact lookup_filter_ne heq files.entries

/-- Names lead to the same location if all folders are still there. -/
theorem follow_of_folders {after : FileSystem}
    (h : ∀ location, files.entryAt? location = some .folder →
      after.entryAt? location = some .folder)
    {location last : Location} {names : List String}
    (hfollow : files.follow location names = .ok last) :
    after.follow location names = .ok last := by
  induction names generalizing location with
  | nil => exact hfollow
  | cons name names ih =>
    obtain ⟨hfolder, hlength, hfollow⟩ := follow_cons_eq_ok_iff.1 hfollow
    exact follow_cons_eq_ok_iff.2 ⟨h location hfolder, hlength, ih hfollow⟩

/-- From one file system to another, a path has been written to: it leads to the target, a file with
just the text, and nothing else is different. -/
structure Written (before after : FileSystem) (path text : String) (target : Location) : Prop where
  resolve : after.resolve path = .ok target
  content : after.entryAt? target = some (.file text.toUTF8)
  others : ∀ location ≠ target, after.entryAt? location = before.entryAt? location

/-- Paths lead to the same locations when a file has been written. -/
theorem resolve_of_others {after : FileSystem} {target : Location}
    (hothers : ∀ location ≠ target, after.entryAt? location = files.entryAt? location)
    (htarget : files.entryAt? target ≠ some .folder) {path : String} {location : Location}
    (h : files.resolve path = .ok location) : after.resolve path = .ok location := by
  obtain ⟨start, names, name, hstart, hfollow⟩ := resolve_eq_ok_iff.1 h
  refine resolve_eq_ok_iff.2 ⟨start, names, name, hstart, follow_of_folders ?_ hfollow⟩
  intro folder hfolder
  have hne : folder ≠ target := by
    rintro rfl
    exact htarget hfolder
  rw [hothers folder hne]
  exact hfolder

/-- A text can be written to a path only if the path can be written to. -/
theorem canWrite_of_writeText {after : FileSystem} {path text : String}
    (h : files.writeText path text = .ok after) : ∃ target, files.CanWrite path target := by
  obtain ⟨target, htarget, -⟩ := bind_eq_ok_iff.1 h
  exact ⟨target, writeTarget_eq_ok_iff.1 htarget⟩

theorem CanWrite.writeText {path : String} {target : Location} (h : files.CanWrite path target)
    (text : String) :
    ∃ after, files.writeText path text = .ok after ∧ files.Written after path text target := by
  have hstanding := not_isStanding_of_not_folder h.notFolder
  have hothers : ∀ location ≠ target,
      (files.put target (.file text.toUTF8)).entryAt? location = files.entryAt? location := by
    intro location hne
    rw [entryAt?_put hstanding, if_neg hne]
  refine ⟨files.put target (.file text.toUTF8), ?_, ?_, ?_, hothers⟩
  · rw [FileSystem.writeText, writeTarget_eq_ok_iff.2 h]
    rfl
  · exact resolve_of_others hothers h.notFolder h.resolve
  · rw [entryAt?_put hstanding, if_pos rfl]

end FileSystem

end SoftMenu
