import SoftMenu.Proofs.Parsing
import SoftMenu.Proofs.Statements
import SoftMenu.Proofs.ToolRuns
import SoftMenu.Proofs.WordRuns

/-!
# What a run does to its own source

Without a given output, a run writes beside its source: the output has the last name of the source
with the extension `asm`. So it is written over the source if the last name is left as it is, and
nowhere else (`FileSystem.location_eq_iff`). This is so exactly if the source has this extension
already (`renamed_eq_self_iff`). The exceptions are names like `.asm`, which have no extension, and
`..asm`, where `..` would be left to write to.

A source that is written over is always changed: the output begins with a comment, and no menu
definition does (`assembly_ne_source`).
-/

namespace SoftMenu

/-! ## Names with another extension -/

theorem fileStem_append {stem extension : List Char} (hstem : stem ≠ [])
    (hextension : '.' ∉ extension) : fileStem (stem ++ '.' :: extension) = stem := by
  have hreverse :
      (stem ++ '.' :: extension).reverse = extension.reverse ++ '.' :: stem.reverse := by
    simp
  rw [fileStem, hreverse, dropWhile_ne_append (by simpa using hextension)]
  split
  · cases ‹_›
  · rename_i hnil
    exact absurd (List.reverse_eq_nil_iff.1 (List.cons.inj hnil).2) hstem
  · rename_i hrest
    rw [← (List.cons.inj hrest).2, List.reverse_reverse]

section LastMark

variable {α : Type} [DecidableEq α] {mark first : α} {chars rest : List α}

/-- A list is made of what goes up to the last of some marks and what comes after it. -/
theorem eq_append_lastMark (mark : α) (chars : List α) :
    chars = (chars.reverse.dropWhile (· ≠ mark)).reverse ++
      (chars.reverse.takeWhile (· ≠ mark)).reverse := by
  rw [← List.reverse_append, List.takeWhile_append_dropWhile, List.reverse_reverse]

theorem head_dropWhile_ne (h : chars.dropWhile (· ≠ mark) = first :: rest) : first = mark := by
  have hhead := List.head?_dropWhile_not (· ≠ mark) chars
  rw [h] at hhead
  simpa using hhead

end LastMark

/-- A name is its own stem, or it goes on with a dot and an extension. -/
theorem fileStem_cases (name : List Char) :
    fileStem name = name ∨ fileStem name ≠ [] ∧
      ∃ extension, name = fileStem name ++ '.' :: extension := by
  have hname := eq_append_lastMark '.' name
  unfold fileStem
  split
  · exact .inl rfl
  · exact .inl rfl
  · rename_i first stem hstem hdrop
    right
    obtain rfl := head_dropWhile_ne hdrop
    rw [hdrop, List.reverse_cons, List.append_assoc] at hname
    exact ⟨fun hnil => hstem (List.reverse_eq_nil_iff.1 hnil), _, hname⟩

theorem mem_of_mem_fileStem {name : List Char} {c : Char} (h : c ∈ fileStem name) : c ∈ name := by
  rcases fileStem_cases name with hname | ⟨-, extension, hname⟩
  · rwa [hname] at h
  · rw [hname]
    exact List.mem_append_left _ h

/-- The last name of a path with another extension. -/
def renamed (name : List Char) (extension : String) : List Char :=
  if fileStem name = ['.'] then name.take 2 else fileStem name ++ '.' :: extension.toList

theorem renamed_of_dot {name : List Char} (h : fileStem name = ['.']) (extension : String) :
    renamed name extension = ['.'] ∨ renamed name extension = ['.', '.'] := by
  rw [renamed, if_pos h]
  rcases fileStem_cases name with hname | ⟨-, rest, hname⟩
  · rw [← hname, h]
    exact .inl rfl
  · rw [hname, h]
    exact .inr rfl

/-- A name with another extension is the same name exactly if it has had this extension. -/
theorem renamed_eq_self_iff {name : List Char} {extension : String}
    (hextension : '.' ∉ extension.toList) (hdot : fileStem name ≠ ['.']) :
    renamed name extension = name ↔
      ∃ stem, stem ≠ [] ∧ stem ≠ ['.'] ∧ name = stem ++ '.' :: extension.toList := by
  rw [renamed, if_neg hdot]
  constructor
  · intro h
    refine ⟨fileStem name, ?_, hdot, h.symm⟩
    rcases fileStem_cases name with hname | ⟨hne, -⟩
    · intro hnil
      rw [hnil] at h hname
      rw [← hname] at h
      cases h
    · exact hne
  · rintro ⟨stem, hne, -, rfl⟩
    rw [fileStem_append hne hextension]

/-! ## Paths with another last name -/

theorem splitSlashes_append_slash (front rest : List Char) :
    splitSlashes (front ++ '/' :: rest) = splitSlashes front ++ splitSlashes rest := by
  induction front with
  | nil => simp [splitSlashes]
  | cons c front ih =>
    rw [List.cons_append, splitSlashes, splitSlashes, ih]
    split_ifs with hc
    · rfl
    · cases hsplit : splitSlashes front with
      | nil => exact absurd hsplit (splitSlashes_ne_nil front)
      | cons piece pieces => rfl

theorem splitSlashes_of_notMem {name : List Char} (h : '/' ∉ name) :
    splitSlashes name = [name] := by
  induction name with
  | nil => rfl
  | cons c name ih =>
    rw [List.mem_cons, not_or] at h
    rw [splitSlashes, if_neg (Ne.symm h.1), ih h.2]

/-- The path is made of what leads to a folder, up to a slash, and of a name after it. -/
structure PathSplit (path : String) (folder name : List Char) : Prop where
  toList_eq : path.toList = folder ++ name
  folder : folder = [] ∨ ∃ front, folder = front ++ ['/']
  name : '/' ∉ name

theorem pathSplit_splitPath (path : String) :
    PathSplit path (splitPath path).1 (splitPath path).2 := by
  have hpath := eq_append_lastMark '/' path.toList
  have htake : ∀ {chars folder name : List Char}, chars = folder ++ name.reverse →
      chars.take (chars.length - name.length) = folder := by
    rintro _ folder name rfl
    simp
  have hfolder : (splitPath path).1 = (path.toList.reverse.dropWhile (· ≠ '/')).reverse :=
    htake hpath
  refine ⟨?_, ?_, ?_⟩
  · rw [hfolder]
    exact hpath
  · rw [hfolder]
    cases hdrop : path.toList.reverse.dropWhile (· ≠ '/') with
    | nil => exact .inl rfl
    | cons c rest =>
      obtain rfl := head_dropWhile_ne hdrop
      exact .inr ⟨rest.reverse, List.reverse_cons⟩
  · intro hslash
    have hne := List.mem_takeWhile_imp (List.mem_reverse.1 hslash)
    simp at hne

theorem pathSplit_withExtension (path : String) {extension : String}
    (h : '/' ∉ extension.toList) :
    PathSplit (withExtension path extension) (splitPath path).1
      (renamed (splitPath path).2 extension) := by
  have hsplit := pathSplit_splitPath path
  refine ⟨?_, hsplit.folder, ?_⟩
  · simp only [withExtension, renamed]
    split_ifs
    · exact String.toList_ofList
    · simp
  · intro hslash
    apply hsplit.name
    rw [renamed] at hslash
    split_ifs at hslash
    · exact List.mem_of_mem_take hslash
    · rcases List.mem_append.1 hslash with hstem | hrest
      · exact mem_of_mem_fileStem hstem
      · rw [List.mem_cons] at hrest
        exact absurd (hrest.resolve_left (by decide)) h

namespace PathSplit

variable {path : String} {folder name : List Char}

theorem pathNames_eq (h : PathSplit path folder name) :
    pathNames path = (splitSlashes folder).dropLast.map String.ofList ++ [String.ofList name] := by
  rw [pathNames, h.toList_eq]
  obtain rfl | ⟨front, rfl⟩ := h.folder
  · rw [List.nil_append, splitSlashes_of_notMem h.name]
    rfl
  · rw [List.append_assoc, List.singleton_append, splitSlashes_append_slash,
      splitSlashes_append_slash, splitSlashes_of_notMem h.name, splitSlashes, List.dropLast_concat,
      List.map_append]
    rfl

theorem head?_eq_slash_iff (h : PathSplit path folder name) :
    path.toList.head? = some '/' ↔ folder.head? = some '/' := by
  rw [h.toList_eq]
  cases folder with
  | cons c folder => rfl
  | nil =>
    have hname : name.head? ≠ some '/' := fun hhead => h.name (List.mem_of_mem_head? hhead)
    simpa using hname

/-- Where a path begins, and the names that it goes through, only depend on its part before the last
name. -/
theorem startOf_eq (h : PathSplit path folder name) {start : Location} {names : List String}
    {last : String} (hstart : FileSystem.startOf path = .ok (start, names ++ [last])) :
    start = (if folder.head? = some '/' then ["/"] else []) ∧
      names = (splitSlashes folder).dropLast.map String.ofList ∧ last = String.ofList name := by
  obtain ⟨-, hhead, hnames⟩ := FileSystem.startOf_eq_ok_iff.1 hstart
  simp only [h.head?_eq_slash_iff] at hhead
  rw [h.pathNames_eq] at hnames
  obtain ⟨hinit, hlast⟩ := List.append_inj' hnames rfl
  exact ⟨hhead.symm, hinit.symm, (List.singleton_inj.1 hlast).symm⟩

end PathSplit

/-! ## Where paths lead -/

namespace FileSystem

variable {files : FileSystem}

/-- What stands where a path leads. -/
def entryOf (files : FileSystem) (path : String) : Except FileFault (Option FileEntry) :=
  (files.resolve path).map files.entryAt?

theorem entryOf_of_resolve {path : String} {location : Location}
    (h : files.resolve path = .ok location) :
    files.entryOf path = .ok (files.entryAt? location) := by
  rw [entryOf, h]
  rfl

/-- Two paths that differ at most in their last names, and do not lead to folders, lead to the same
location exactly if their last names are the same. -/
theorem location_eq_iff {path other : String} {folder name otherName : List Char}
    (hpath : PathSplit path folder name) (hother : PathSplit other folder otherName)
    {location target : Location} (hlocation : files.resolve path = .ok location)
    (hentry : files.entryAt? location ≠ some .folder) (htarget : files.resolve other = .ok target)
    (hnew : files.entryAt? target ≠ some .folder) : target = location ↔ otherName = name := by
  obtain ⟨start, names, last, place, hstart, hfollow, -, -, -, rfl⟩ :=
    exists_folder_of_resolve hlocation hentry
  obtain ⟨start', names', last', place', hstart', hfollow', -, -, -, rfl⟩ :=
    exists_folder_of_resolve htarget hnew
  obtain ⟨rfl, rfl, rfl⟩ := hpath.startOf_eq hstart
  obtain ⟨rfl, rfl, rfl⟩ := hother.startOf_eq hstart'
  obtain rfl := Except.ok.inj (hfollow.symm.trans hfollow')
  rw [List.append_cancel_left_eq, List.singleton_inj, String.ofList_inj]

end FileSystem

/-! ## The text that is written -/

/-- A word that has begun is the beginning of the first word. -/
theorem exists_wordsFrom (before : List Char) {word : List Char} (h : word ≠ [])
    (chars : List Char) :
    ∃ more place rest,
      wordsFrom before word chars = ⟨String.ofList (word ++ more), place⟩ :: rest := by
  induction chars generalizing word with
  | nil =>
    rw [wordsFrom, wordAfter, if_neg h]
    exact ⟨[], _, [], by rw [List.append_nil]⟩
  | cons c chars ih =>
    rw [wordsFrom]
    split_ifs
    · obtain ⟨more, place, rest, hwords⟩ := ih (List.append_ne_nil_of_left_ne_nil h [c])
      exact ⟨c :: more, place, rest, by rw [hwords, List.append_assoc, List.singleton_append]⟩
    · rw [wordAfter, if_neg h]
      exact ⟨[], _, _, by rw [List.append_nil]; rfl⟩

/-- A text that begins with a semicolon is no menu definition. -/
theorem head?_ne_semicolon_of_parse {source : String} {parsed : Parsed}
    (h : parse source = .ok parsed) : source.toList.head? ≠ some ';' := by
  intro hhead
  obtain ⟨tree, hwords, -⟩ := words_of_parse h
  obtain ⟨rest, hsource⟩ := List.head?_eq_some_iff.1 hhead
  obtain ⟨more, place, tokens, htokens⟩ := exists_wordsFrom [] (List.cons_ne_nil ';' []) rest
  have htokenize : tokenize source = ⟨String.ofList ([';'] ++ more), place⟩ :: tokens := by
    rw [tokenize_eq_wordsFrom, hsource, ← htokens]
    rfl
  rw [htokenize] at hwords
  have hfirst : "MenuConfig" = String.ofList (';' :: more) := (List.cons.inj hwords).1
  have hhead : some 'M' = (String.ofList (';' :: more)).toList.head? :=
    congrArg (fun word => word.toList.head?) hfirst
  rw [String.toList_ofList] at hhead
  exact absurd (Option.some.inj hhead) (by decide)

/-- What is written is never the source that it is made from. -/
theorem assembly_ne_source {options : CompileOptions} {source : String} {compilation : Compilation}
    (h : compile options source = .ok compilation) : compilation.assembly ≠ source := by
  rintro rfl
  obtain ⟨parsed, hparsed, -⟩ := passes_of_compile h
  apply head?_ne_semicolon_of_parse hparsed
  rw [assembly_of_compile h]
  rfl

/-! ## Runs without a given output -/

/-- The last name of the path is a stem and the extension `asm`. A name without a stem has no
extension, and a single dot is no stem either. -/
def IsAssemblyPath (path : String) : Prop :=
  ∃ stem, stem ≠ "" ∧ stem ≠ "." ∧ (pathNames path).getLast? = some (stem ++ ".asm")

namespace Request

variable {request : Request} {files : FileSystem} {source : String} {compilation : Compilation}
  {target location : Location}

theorem outputPath_of_none (h : request.output = none) :
    request.outputPath = withExtension request.file "asm" := by
  rw [outputPath, h]
  rfl

/-- Where the stem is a single dot, the output would have to be written to a folder. -/
theorem fileStem_ne_dot_of_canWrite {path : String}
    (h : files.CanWrite (withExtension path "asm") target) :
    fileStem (splitPath path).2 ≠ ['.'] := by
  intro hstem
  have hsplit := pathSplit_withExtension path (by decide : '/' ∉ "asm".toList)
  obtain ⟨start, names, last, -, hstart, -, -, -, ⟨-, hdot, hdots⟩, -⟩ :=
    FileSystem.exists_folder_of_resolve h.resolve h.notFolder
  obtain ⟨-, -, rfl⟩ := hsplit.startOf_eq hstart
  rcases renamed_of_dot hstem "asm" with hname | hname
  · rw [hname] at hdot
    exact hdot rfl
  · rw [hname] at hdots
    exact hdots rfl

theorem isAssemblyPath_iff {path : String} : IsAssemblyPath path ↔
    ∃ stem, stem ≠ [] ∧ stem ≠ ['.'] ∧ (splitPath path).2 = stem ++ '.' :: "asm".toList := by
  have hlast : (pathNames path).getLast? = some (String.ofList (splitPath path).2) := by
    rw [(pathSplit_splitPath path).pathNames_eq, List.getLast?_concat]
  rw [IsAssemblyPath, hlast]
  constructor
  · rintro ⟨stem, hempty, hdot, hname⟩
    have hchars := congrArg String.toList (Option.some.inj hname)
    rw [String.toList_ofList, String.toList_append] at hchars
    exact ⟨stem.toList, mt String.toList_eq_nil_iff.1 hempty,
      fun hstem => hdot (String.toList_inj.1 hstem), hchars⟩
  · rintro ⟨stem, hempty, hdot, hname⟩
    refine ⟨String.ofList stem, ?_, ?_, ?_⟩
    · exact fun hstem => hempty (String.ofList_inj.1 hstem)
    · exact fun hstem => hdot (String.ofList_inj.1 hstem)
    · rw [hname, String.ofList_append]
      rfl

/-- The output is written over the source exactly if the source is named like an output. -/
theorem Possible.target_eq_iff (h : request.Possible files source compilation target)
    (houtput : request.output = none) (hlocation : files.resolve request.file = .ok location)
    (hentry : files.entryAt? location = some (.file source.toUTF8)) :
    target = location ↔ IsAssemblyPath request.file := by
  have hwritable := h.writable
  rw [outputPath_of_none houtput] at hwritable
  have hnotFolder : files.entryAt? location ≠ some .folder := by
    rw [hentry]
    intro hfolder
    cases hfolder
  rw [FileSystem.location_eq_iff (pathSplit_splitPath request.file)
    (pathSplit_withExtension request.file (by decide)) hlocation hnotFolder hwritable.resolve
    hwritable.notFolder, isAssemblyPath_iff]
  exact renamed_eq_self_iff (by decide) (fileStem_ne_dot_of_canWrite hwritable)

theorem Possible.entryOf_file (h : request.Possible files source compilation target) :
    files.entryOf request.file = .ok (some (.file source.toUTF8)) := by
  obtain ⟨-, location, hlocation, hentry⟩ := h.readable
  rw [FileSystem.entryOf_of_resolve hlocation, hentry]

/-- A run puts its output in the place of a source that is named like an output. -/
theorem Possible.entryOf_run_of_isAssemblyPath
    (h : request.Possible files source compilation target) (houtput : request.output = none)
    (hpath : IsAssemblyPath request.file) (terminal : Bool) :
    (request.run terminal files).2.entryOf request.file =
      .ok (some (.file compilation.assembly.toUTF8)) := by
  obtain ⟨-, location, hlocation, hentry⟩ := h.readable
  have hwritten : files.Written (request.run terminal files).2 _ _ _ := (run_of_possible h).2
  obtain rfl := (h.target_eq_iff houtput hlocation hentry).2 hpath
  have hafter := FileSystem.resolve_of_others hwritten.others h.writable.notFolder hlocation
  rw [FileSystem.entryOf_of_resolve hafter, hwritten.content]

theorem Possible.entryOf_run_ne (h : request.Possible files source compilation target)
    (houtput : request.output = none) (hpath : IsAssemblyPath request.file) (terminal : Bool) :
    (request.run terminal files).2.entryOf request.file ≠ files.entryOf request.file := by
  rw [h.entryOf_run_of_isAssemblyPath houtput hpath, h.entryOf_file, Ne, Except.ok.injEq,
    Option.some.injEq, FileEntry.file.injEq]
  exact fun hbytes => assembly_ne_source h.compiles (String.toByteArray_inj.1 hbytes)

/-- A run keeps a source that is not named like an output. -/
theorem Possible.entryOf_run_of_not_isAssemblyPath
    (h : request.Possible files source compilation target) (houtput : request.output = none)
    (hpath : ¬ IsAssemblyPath request.file) (terminal : Bool) :
    (request.run terminal files).2.entryOf request.file = files.entryOf request.file := by
  obtain ⟨-, location, hlocation, hentry⟩ := h.readable
  have hwritten : files.Written (request.run terminal files).2 _ _ _ := (run_of_possible h).2
  have hne : location ≠ target := fun heq =>
    hpath ((h.target_eq_iff houtput hlocation hentry).1 heq.symm)
  have hafter := FileSystem.resolve_of_others hwritten.others h.writable.notFolder hlocation
  rw [FileSystem.entryOf_of_resolve hafter, FileSystem.entryOf_of_resolve hlocation,
    hwritten.others location hne]

/-- What a run for a request leaves of its source. -/
structure SourceSpec (request : Request) (before : FileSystem) (plan : Plan)
    (after : FileSystem) : Prop where
  /-- The source is kept exactly if the run fails or the source is not named like an output. -/
  kept_iff : after.entryOf request.file = before.entryOf request.file ↔
    ¬ (plan.exit = 0 ∧ IsAssemblyPath request.file)
  /-- Otherwise the output stands in its place. -/
  replaced : plan.exit = 0 → IsAssemblyPath request.file →
    ∃ source compilation, before.HasText request.file source ∧
      compile request.compileOptions source = .ok compilation ∧
      after.entryOf request.file = .ok (some (.file compilation.assembly.toUTF8))

end Request

/-- Without a given output, a run keeps its source unless it goes well and the source is named like
an output. In that case the output takes the place of the source. -/
theorem sourceSpec_of_parseArguments {arguments : List String} {request : Request}
    (h : parseArguments arguments = .ok request) (houtput : request.output = none)
    (terminal : Bool) (files : FileSystem) :
    request.SourceSpec files (runTool arguments terminal files).1
      (runTool arguments terminal files).2 := by
  have hrun : runTool arguments terminal files = request.run terminal files := by
    simp only [runTool, h]
  rw [hrun]
  -- A run that cannot do what it is asked for leaves all files as they are.
  by_cases hpossible :
      ∃ source compilation target, request.Possible files source compilation target
  · obtain ⟨source, compilation, target, hpossible⟩ := hpossible
    have hexit : (request.run terminal files).1.exit = 0 := (Request.run_of_possible hpossible).1
    refine ⟨⟨?_, ?_⟩, ?_⟩
    · rintro hkept ⟨-, hpath⟩
      exact hpossible.entryOf_run_ne houtput hpath terminal hkept
    · intro hnot
      exact hpossible.entryOf_run_of_not_isAssemblyPath houtput
        (fun hpath => hnot ⟨hexit, hpath⟩) terminal
    · intro _ hpath
      exact ⟨source, compilation, hpossible.readable, hpossible.compiles,
        hpossible.entryOf_run_of_isAssemblyPath houtput hpath terminal⟩
  · have hexit : (request.run terminal files).1.exit = 1 :=
      (Request.run_of_not_possible hpossible).1
    have hne : (request.run terminal files).1.exit ≠ 0 := by
      rw [hexit]
      exact Nat.one_ne_zero
    rw [(Request.run_of_not_possible hpossible).2]
    exact ⟨⟨fun _ hboth => hne hboth.1, fun _ => rfl⟩, fun hzero => absurd hzero hne⟩

/-- The name of a source has no part in whether it compiles. -/
theorem exists_compile_nestedMenu_of_name (name : String) :
    ∃ compilation, compile ⟨name, .strict, false⟩ nestedMenu = .ok compilation := by
  obtain ⟨compilation, hcompile⟩ := exists_compile_nestedMenu
  obtain ⟨parsed, hparsed, hpasses, -⟩ := passes_of_compile hcompile
  exact exists_compile_of_passes hparsed hpasses

/-- An extension before the last one does not matter: the output is written beside the source. -/
theorem sourceSpec_of_parseArguments_beside :
    ∃ request,
      parseArguments ["menus/main.asm.txt", "--duplicate-names", "strict"] = .ok request ∧
      request.output = none ∧
      (runTool ["menus/main.asm.txt", "--duplicate-names", "strict"] false
        (FileSystem.addFile {} "menus/main.asm.txt" nestedMenu.toUTF8)).1.exit = 0 ∧
      (runTool ["menus/main.asm.txt", "--duplicate-names", "strict"] false
        (FileSystem.addFile {} "menus/main.asm.txt" nestedMenu.toUTF8)).2.entryOf request.file =
          .ok (some (.file nestedMenu.toUTF8)) := by
  have harguments : parseArguments ["menus/main.asm.txt", "--duplicate-names", "strict"] =
      .ok { file := "menus/main.asm.txt", duplicateNames := .strict } := by decide +kernel
  obtain ⟨compilation, hcompile⟩ :=
    exists_compile_nestedMenu_of_name (fileName "menus/main.asm.txt")
  have hpossible : Request.Possible { file := "menus/main.asm.txt", duplicateNames := .strict }
      (FileSystem.addFile {} "menus/main.asm.txt" nestedMenu.toUTF8) nestedMenu compilation
      ["menus", "main.asm.asm"] := by
    refine ⟨⟨rfl, ["menus", "main.asm.txt"], rfl, rfl⟩, hcompile, rfl, ?_, rfl⟩
    intro hfolder
    cases hfolder
  have hpath : ¬ IsAssemblyPath "menus/main.asm.txt" := by
    rintro ⟨stem, -, -, hname⟩
    have hlast : some 't' = (stem ++ ".asm").toList.getLast? :=
      congrArg (fun name => name.toList.getLast?) (Option.some.inj hname)
    rw [String.toList_append, List.getLast?_append] at hlast
    exact absurd (Option.some.inj hlast) (by decide)
  have hspec := sourceSpec_of_parseArguments harguments rfl false
    (FileSystem.addFile {} "menus/main.asm.txt" nestedMenu.toUTF8)
  refine ⟨_, harguments, rfl, ?_, ?_⟩
  · simp only [runTool, harguments]
    exact (Request.run_of_possible hpossible).1
  · rw [hspec.kept_iff.2 fun hboth => hpath hboth.2]
    exact hpossible.entryOf_file

/-- A source that is named like an output is lost. -/
theorem source_overwritten :
    ∃ request, parseArguments ["menu.asm", "--duplicate-names", "strict"] = .ok request ∧
      request.output = none ∧
      (runTool ["menu.asm", "--duplicate-names", "strict"] false
        (FileSystem.addFile {} "menu.asm" nestedMenu.toUTF8)).2.entryOf request.file ≠
          (FileSystem.addFile {} "menu.asm" nestedMenu.toUTF8).entryOf request.file := by
  have harguments : parseArguments ["menu.asm", "--duplicate-names", "strict"] =
      .ok { file := "menu.asm", duplicateNames := .strict } := by decide +kernel
  obtain ⟨compilation, hcompile⟩ := exists_compile_nestedMenu_of_name (fileName "menu.asm")
  have hpossible : Request.Possible { file := "menu.asm", duplicateNames := .strict }
      (FileSystem.addFile {} "menu.asm" nestedMenu.toUTF8) nestedMenu compilation
      ["menu.asm"] := by
    refine ⟨⟨rfl, ["menu.asm"], rfl, rfl⟩, hcompile, rfl, ?_, rfl⟩
    intro hfolder
    cases hfolder
  have hpath : IsAssemblyPath "menu.asm" := ⟨"menu", by decide, by decide, by decide⟩
  refine ⟨_, harguments, rfl, ?_⟩
  simp only [runTool, harguments]
  exact hpossible.entryOf_run_ne rfl hpath false

end SoftMenu
