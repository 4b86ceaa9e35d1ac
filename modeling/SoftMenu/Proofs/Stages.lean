import SoftMenu.Compile
import SoftMenu.Proofs.Names
import SoftMenu.Proofs.Numbering
import SoftMenu.Proofs.Padding

/-!
# The stages of a compilation

A menu definition that has been read compiles exactly if every stage goes through
(`passes_of_compile`, `exists_compile_of_passes`). Each stage sees the tree that the stage before
has left. What it decides on is kept by all of them, however, so the conditions can be stated for
the tree that was read (`passes_iff_acceptable`).
-/

namespace SoftMenu

theorem bind_eq_ok_iff {ε α β : Type} {result : Except ε α} {f : α → Except ε β} {b : β} :
    (result >>= f) = .ok b ↔ ∃ a, result = .ok a ∧ f a = .ok b := by
  cases result <;> simp [bind, Except.bind]

theorem bind_eq_error_iff {ε α β : Type} {result : Except ε α} {f : α → Except ε β} {error : ε} :
    (result >>= f) = .error error ↔
      result = .error error ∨ ∃ a, result = .ok a ∧ f a = .error error := by
  cases result <;> simp [bind, Except.bind]

/-- A result in which evaluation finds a value is a value. -/
theorem exists_ok_of_isSome {ε α : Type} {result : Except ε α}
    (h : result.toOption.isSome = true) : ∃ a, result = .ok a := by
  cases result with
  | error error => cases h
  | ok a => exact ⟨a, rfl⟩

/-- What evaluation finds about the value of a result is true of that value. -/
theorem exists_ok_of_map {ε α β : Type} {result : Except ε α} {f : α → β} {b : β}
    (h : result.toOption.map f = some b) : ∃ a, result = .ok a ∧ f a = b := by
  cases result with
  | error error => cases h
  | ok a => exact ⟨a, rfl, Option.some.inj h⟩

theorem toExcept_eq_ok_iff {σ ε α : Type} {outcome : Outcome σ ε α} {result : α × σ} :
    outcome.toExcept = .ok result ↔
      outcome.halt = none ∧ result = (outcome.value, outcome.state) := by
  unfold Outcome.toExcept
  cases outcome.halt <;> simp [eq_comm]

theorem toExcept_eq_error_iff {σ ε α : Type} {outcome : Outcome σ ε α} {error : ε} :
    outcome.toExcept = .error error ↔ outcome.halt = some error := by
  unfold Outcome.toExcept
  cases outcome.halt <;> simp

/-- The menu that the stages make of a menu that has been read. -/
def finishedMenu (policy : DuplicatePolicy) (declared : MenuFile) : MenuFile :=
  (explodeNames (assignIds policy (validate declared).value).value).value

/-- All stages go through for a menu that has been read. -/
structure Passes (policy : DuplicatePolicy) (declared : MenuFile) : Prop where
  shape : (validate declared).halt = none
  ids : (assignIds policy (validate declared).value).halt = none
  names : (explodeNames (assignIds policy (validate declared).value).value).halt = none
  pool : ∃ names, namePool (finishedMenu policy declared).root = .ok names

theorem ofFile_eq_ok_iff {file : MenuFile} {table : Table} : Table.ofFile file = .ok table ↔
    namePool file.root = .ok table.names ∧
      table.entries = file.root.events.map (Event.entry file.config) := by
  obtain ⟨entries, names⟩ := table
  simp only [Table.ofFile, bind_eq_ok_iff, pure, Except.pure, Except.ok.injEq, Table.mk.injEq]
  constructor
  · rintro ⟨pool, hpool, hentries, rfl⟩
    exact ⟨hpool, hentries.symm⟩
  · rintro ⟨hpool, hentries⟩
    exact ⟨names, hpool, hentries.symm, rfl⟩

theorem ofFile_eq_error_iff {file : MenuFile} {error : CompileError} :
    Table.ofFile file = .error error ↔ namePool file.root = .error error := by
  rw [Table.ofFile, bind_eq_error_iff]
  refine or_iff_left ?_
  rintro ⟨names, -, hnames⟩
  cases hnames

theorem passes_of_compile {options : CompileOptions} {source : String} {compilation : Compilation}
    (h : compile options source = .ok compilation) :
    ∃ parsed, parse source = .ok parsed ∧ Passes options.duplicateNames parsed.file ∧
      compilation.file = finishedMenu options.duplicateNames parsed.file ∧
      compilation.registry =
        (assignIds options.duplicateNames (validate parsed.file).value).state ∧
      Table.ofFile compilation.file = .ok compilation.table := by
  simp only [compile, bind_eq_ok_iff, toExcept_eq_ok_iff] at h
  obtain ⟨parsed, hparsed, _, ⟨hshape, rfl⟩, _, ⟨hids, rfl⟩, _, ⟨hnames, rfl⟩, table, htable, h⟩ :=
    h
  obtain rfl := Except.ok.inj h
  have hpool := (ofFile_eq_ok_iff.1 htable).1
  exact ⟨parsed, hparsed, ⟨hshape, hids, hnames, _, hpool⟩, rfl, rfl, htable⟩

theorem exists_compile_of_passes {options : CompileOptions} {source : String} {parsed : Parsed}
    (hparsed : parse source = .ok parsed) (h : Passes options.duplicateNames parsed.file) :
    ∃ compilation, compile options source = .ok compilation := by
  obtain ⟨names, hpool⟩ := h.pool
  have htable : Table.ofFile (finishedMenu options.duplicateNames parsed.file) = .ok ⟨_, names⟩ :=
    ofFile_eq_ok_iff.2 ⟨hpool, rfl⟩
  simp only [compile, bind_eq_ok_iff, toExcept_eq_ok_iff]
  exact ⟨_, parsed, hparsed, _, ⟨h.shape, rfl⟩, _, ⟨h.ids, rfl⟩, _, ⟨h.names, rfl⟩, _, htable, rfl⟩

/-! ## What all stages keep -/

/-- The conditions for a menu to compile, stated for the tree that was read. -/
structure Node.Acceptable (policy : DuplicatePolicy) (root : Node) : Prop where
  wellShaped : ∀ node ∈ root.flatten, node.WellShaped
  size_le : 1 + rowSlots * root.rowCount ≤ maxNodeId.toNat
  compatible : (active Node.isBlank root.flatten).Pairwise (Compatible policy)
  spelled : ∀ node ∈ root.flatten, node.wording.Spelled
  names_le : (root.flatten.flatMap Node.poolNames).length ≤ maxNameId.toNat

theorem wording_assignIds (policy : DuplicatePolicy) (file : MenuFile) :
    (assignIds policy file).value.root.flatten.map Node.wording =
      file.root.flatten.map Node.wording :=
  map_part (content_assignIds policy file) fun content =>
    Wording.mk content.1.text (content.2.2.1.map DisplayName.text)

theorem wording_explodeNames (file : MenuFile) :
    (explodeNames file).value.root.flatten.map Node.wording =
      file.root.flatten.map Node.wording := by
  have hwording := map_part (bare_explodeNames file) fun face =>
    Wording.mk face.info.name.text (face.altName.map DisplayName.text)
  simp only [Face.bare, Option.map_map] at hwording
  exact hwording

/-- Compatibility is a matter of what padding keeps. -/
theorem pairwise_compatible_iff {policy : DuplicatePolicy} {nodes : List Node} :
    nodes.Pairwise (Compatible policy) ↔ (nodes.map Node.frame).Pairwise fun first second =>
      first.1.label ≠ second.1.label ∧
        (first.1.name.text = second.1.name.text → policy.MayShare first.2.1 second.2.1) := by
  rw [List.pairwise_map]
  exact List.Pairwise.iff fun first second => ⟨fun h => ⟨h.label, h.name⟩, fun h => ⟨h.1, h.2⟩⟩

/-- Apart from blanks, the names of a menu are those that were declared. -/
theorem named_validate {file : MenuFile} (h : (validate file).halt = none) :
    named ((validate file).value.root.flatten.map Node.wording) =
      named (file.root.flatten.map Node.wording) := by
  rw [← map_active_isBlank, ← map_active_isBlank]
  exact map_part (frame_validate_of_halt h) fun frame =>
    Wording.mk frame.1.name.text (frame.2.2.1.map DisplayName.text)

theorem spelled_iff_named {wordings : List Wording} :
    (∀ wording ∈ wordings, wording.Spelled) ↔ ∀ wording ∈ named wordings, wording.Spelled := by
  constructor
  · intro h wording hwording
    exact h wording (List.mem_of_mem_filter hwording)
  · intro h wording hwording
    by_cases hblank : wording.name = blankMark
    · exact ⟨fun hne => absurd hblank hne, fun hne => absurd hblank hne⟩
    · exact h wording (List.mem_filter.2 ⟨hwording, by simpa using hblank⟩)

section Stages

variable {policy : DuplicatePolicy} {file : MenuFile}

theorem assignIds_validate_halt_iff (h : (validate file).halt = none) :
    (assignIds policy (validate file).value).halt = none ↔
      1 + rowSlots * file.root.rowCount ≤ maxNodeId.toNat ∧
        (active Node.isBlank file.root.flatten).Pairwise (Compatible policy) := by
  rw [assignIds_halt_iff, ← length_flatten_validate h, pairwise_compatible_iff,
    ← frame_validate_of_halt h, ← pairwise_compatible_iff]
  exact ⟨fun hall => ⟨hall.length_le, hall.pairwise⟩, fun hall => ⟨hall.1, hall.2⟩⟩

theorem explodeNames_validate_halt_iff (h : (validate file).halt = none) :
    (explodeNames (assignIds policy (validate file).value).value).halt = none ↔
      ∀ node ∈ file.root.flatten, node.wording.Spelled := by
  rw [explodeNames_halt_iff, wording_assignIds, spelled_iff_named, named_validate h,
    ← spelled_iff_named, List.forall_mem_map]

theorem namePool_finishedMenu_iff (h : (validate file).halt = none) :
    (∃ names, namePool (finishedMenu policy file).root = .ok names) ↔
      (file.root.flatten.flatMap Node.poolNames).length ≤ maxNameId.toNat := by
  rw [namePool_eq_ok_iff, finishedMenu, length_poolNames, wording_explodeNames, wording_assignIds,
    named_validate h, ← length_poolNames]

/-- All stages go through exactly if the tree that was read is acceptable. -/
theorem passes_iff_acceptable : Passes policy file ↔ file.root.Acceptable policy := by
  constructor
  · intro h
    obtain ⟨hsize, hcompatible⟩ := (assignIds_validate_halt_iff h.shape).1 h.ids
    exact ⟨(validate_halt_iff file).1 h.shape, hsize, hcompatible,
      (explodeNames_validate_halt_iff h.shape).1 h.names,
      (namePool_finishedMenu_iff h.shape).1 h.pool⟩
  · intro h
    have hshape := (validate_halt_iff file).2 h.wellShaped
    exact ⟨hshape, (assignIds_validate_halt_iff hshape).2 ⟨h.size_le, h.compatible⟩,
      (explodeNames_validate_halt_iff hshape).2 h.spelled,
      (namePool_finishedMenu_iff hshape).2 h.names_le⟩

end Stages

/-- With five slots to a row there are ids for 50 rows. -/
theorem size_le_iff {rows : Nat} : 1 + rowSlots * rows ≤ maxNodeId.toNat ↔ rows ≤ 50 := by
  have hmax : maxNodeId.toNat = 254 := rfl
  rw [hmax, rowSlots]
  omega

/-! ## The finished menu -/

section Finished

variable {policy : DuplicatePolicy} {file : MenuFile}

/-- The ids of a finished menu are 1, 2, 3, … in hybrid order. As every row has five slots, there
are at most 251 of them. -/
theorem ids_finishedMenu (h : Passes policy file) :
    ∃ count, count ≤ 251 ∧
      (finishedMenu policy file).root.flatten.map (fun node => node.id.toNat) =
        List.range' 1 count := by
  have hle : (validate file).value.root.flatten.length ≤ 251 := by
    have hrows := size_le_iff.1 ((assignIds_validate_halt_iff h.shape).1 h.ids).1
    rw [length_flatten_validate h.shape, rowSlots]
    omega
  refine ⟨(validate file).value.root.flatten.length, hle, ?_⟩
  exact (map_part (bare_explodeNames (assignIds policy (validate file).value).value)
    fun face => face.info.id.toNat).trans (toNat_ids_assignIds h.ids)

theorem full_finishedMenu (h : Passes policy file) :
    ∀ node ∈ (finishedMenu policy file).root.flatten, node.face.Full := by
  have hlayout : (finishedMenu policy file).root.flatten.map
      (fun node => (node.face.kind, node.face.layout)) =
        (validate file).value.root.flatten.map fun node => (node.face.kind, node.face.layout) :=
    (map_part (bare_explodeNames _) fun face => (face.kind, face.layout)).trans
      (map_part (content_assignIds policy _) fun content => (content.2.1, content.2.2.2))
  intro node hnode
  have hmem :=
    List.mem_map_of_mem (f := fun node : Node => (node.face.kind, node.face.layout)) hnode
  rw [hlayout, List.mem_map] at hmem
  obtain ⟨padded, hpadded, heq⟩ := hmem
  have hfull := full_of_mem_validate h.shape padded hpadded
  have hkind : padded.face.kind = node.face.kind := congrArg Prod.fst heq
  have hrows : padded.face.layout = node.face.layout := congrArg Prod.snd heq
  exact ⟨fun hgroup => hrows ▸ hfull.rows (hkind.trans hgroup), fun entry hentry =>
    hfull.slots entry (hrows ▸ hentry)⟩

/-- In a finished menu every slot carries the id of its group, and the root carries the null id. -/
theorem linked_finishedMenu (h : Passes policy file) :
    (finishedMenu policy file).root.parentId = nullId ∧ (finishedMenu policy file).root.Linked := by
  obtain ⟨hroot, hlinked⟩ := linked_assignIds h.ids
  exact ⟨(parentId_explodeNames _).trans hroot, linked_explodeNames hlinked⟩

end Finished

end SoftMenu
