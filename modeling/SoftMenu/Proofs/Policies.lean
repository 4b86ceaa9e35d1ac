import SoftMenu.Proofs.Lockstep
import SoftMenu.Proofs.Stages

/-!
# Policies for duplicate names

The policies form a chain: what one of them allows, a laxer one allows too. Numbering asks the
policy for nothing but a permission, so under two policies it goes on in lockstep
(`holds_visitor_of_laxity_le`) until the stricter one refuses a name. All that a compilation shows
is therefore the same under both, unless the stricter policy ends it with a duplicate name
(`matched_compile_of_laxity_le`).
-/

namespace SoftMenu

/-! ## The chain of policies -/

/-- The position of a policy in the chain, from the strictest to the laxest. -/
def DuplicatePolicy.laxity : DuplicatePolicy → Nat
  | .strict => 0
  | .sameKindLeaves => 1
  | .anyLeaves => 2

theorem DuplicatePolicy.allows_of_laxity_le {first second : DuplicatePolicy}
    (h : first.laxity ≤ second.laxity) {previous new : Kind} (hallows : first.allows previous new) :
    second.allows previous new := by
  rw [allows_iff] at hallows ⊢
  cases first with
  | strict => exact hallows.elim
  | sameKindLeaves =>
    cases second with
    | strict => exact absurd h (by decide)
    | sameKindLeaves => exact hallows
    | anyLeaves => exact ⟨hallows.2, hallows.1 ▸ hallows.2⟩
  | anyLeaves =>
    cases second with
    | strict => exact absurd h (by decide)
    | sameKindLeaves => exact absurd h (by decide)
    | anyLeaves => exact hallows

/-! ## Numbering under two policies -/

/-- Two registries that know the same under two policies. Under the first policy numbering may also
give up at a duplicate name. -/
def policyComparison (first second : DuplicatePolicy) :
    Comparison Registry Registry CompileError CompileError where
  state registry registry' :=
    registry.policy = first ∧ registry' = { registry with policy := second }
  reason := id
  alone error := error.code = .duplicateName

section Numbering

variable {first second : DuplicatePolicy} {registry : Registry}

theorem holds_number (hpolicy : registry.policy = first) (parentId : UInt8) (node : Node) :
    (policyComparison first second).Holds (Node.relocate id) (registry.number parentId node)
      (({ registry with policy := second } : Registry).number parentId node) := by
  unfold Registry.number
  split_ifs
  · exact .together (relocate_id _).symm ⟨hpolicy, rfl⟩ rfl
  · exact .together (relocate_id _).symm ⟨hpolicy, rfl⟩ rfl
  · exact .together (relocate_id _).symm ⟨hpolicy, rfl⟩ rfl

/-- A laxer policy notes the same of a node, unless the stricter one refuses its name. -/
theorem note_of_laxity_le (hpolicy : registry.policy = first)
    (hlaxity : first.laxity ≤ second.laxity) (node : Node) :
    (∃ error, error.code = .duplicateName ∧ (registry.note node).2 = some error) ∨
      (registry.note node).1.policy = first ∧
        ({ registry with policy := second } : Registry).note node =
          ({ (registry.note node).1 with policy := second }, (registry.note node).2) := by
  unfold Registry.note
  have hkind : ({ registry with policy := second } : Registry).kindOfName? node.name =
      registry.kindOfName? node.name := rfl
  rw [hkind]
  cases registry.kindOfName? node.name with
  | none => exact .inr ⟨hpolicy, rfl⟩
  | some previous =>
    by_cases hallows : first.allows previous node.kind
    · have hallows' := DuplicatePolicy.allows_of_laxity_le hlaxity hallows
      refine .inr ?_
      simp only [hpolicy, hallows, hallows', if_true, true_and]
      rfl
    · simp only [hpolicy, hallows]
      exact .inl ⟨_, rfl, rfl⟩

theorem holds_visitor_of_laxity_le (hlaxity : first.laxity ≤ second.laxity) (parentId : UInt8)
    (node : Node) (registry registry' : Registry)
    (h : (policyComparison first second).state registry registry') :
    (policyComparison first second).Holds (Node.relocate id)
      (Registry.visitor parentId node registry)
      (Registry.visitor parentId (node.relocate id) registry') := by
  obtain ⟨hpolicy, rfl⟩ := h
  rw [relocate_id]
  unfold Registry.visitor
  by_cases hblank : node.isBlank
  · rw [if_pos hblank, if_pos hblank]
    exact holds_number hpolicy parentId node
  · rw [if_neg hblank, if_neg hblank]
    have hnote := note_of_laxity_le hpolicy hlaxity node
    generalize registry.note node = noted at hnote
    obtain ⟨noted, clash⟩ := noted
    obtain ⟨error, hcode, rfl⟩ | ⟨hpolicy', hnote⟩ := hnote
    · exact .alone error rfl hcode
    · rw [hnote]
      cases clash with
      | none => exact holds_number hpolicy' parentId node
      | some error => exact .together (relocate_id _).symm ⟨hpolicy', rfl⟩ rfl

end Numbering

theorem MenuFile.relocate_id (file : MenuFile) : file.relocate id = file := by
  rw [relocate, SoftMenu.relocate_id]

theorem holds_assignIds {first second : DuplicatePolicy} (h : first.laxity ≤ second.laxity)
    (file : MenuFile) :
    (policyComparison first second).Holds (MenuFile.relocate id) (assignIds first file)
      (assignIds second file) := by
  have hstate : (policyComparison first second).state { policy := first } { policy := second } :=
    ⟨rfl, rfl⟩
  have hwalk := Comparison.holds_walkFile (holds_visitor_of_laxity_le h) file hstate
  rw [MenuFile.relocate_id] at hwalk
  exact hwalk

/-! ## Compiling under two policies -/

/-- Two compilations show the same. -/
structure Compilation.SameOutput (first second : Compilation) : Prop where
  file : first.file = second.file
  table : first.table = second.table
  assembly : first.assembly = second.assembly
  warnings : first.warnings = second.warnings
  nodeCount : first.registry.nodeCount = second.registry.nodeCount
  idOfLabel? : ∀ label, first.registry.idOfLabel? label = second.registry.idOfLabel? label
  kindOfName? : ∀ name, first.registry.kindOfName? name = second.registry.kindOfName? name

theorem Compilation.SameOutput.symm {first second : Compilation} (h : first.SameOutput second) :
    second.SameOutput first :=
  ⟨h.file.symm, h.table.symm, h.assembly.symm, h.warnings.symm, h.nodeCount.symm,
    fun label => (h.idOfLabel? label).symm, fun name => (h.kindOfName? name).symm⟩

/-- Under the stricter policy the compilation ends with a duplicate name, or it ends like the one
under the laxer policy. -/
theorem matched_compile_of_laxity_le {first second : CompileOptions}
    (hname : first.sourceName = second.sourceName)
    (hlaxity : first.duplicateNames.laxity ≤ second.duplicateNames.laxity) (source : String) :
    Matched id (fun error : CompileError => error.code = .duplicateName) Compilation.SameOutput
      (compile first source) (compile second source) := by
  unfold compile
  refine (matched_self _ (parse source)).bind ?_
  rintro parsed _ rfl
  refine (matched_self _ (validate parsed.file).toExcept).bind ?_
  rintro ⟨padded, _⟩ _ rfl
  refine (holds_assignIds hlaxity padded).matched.bind ?_
  rintro ⟨numbered, registry⟩ ⟨_, _⟩ ⟨rfl, -, rfl⟩
  rw [MenuFile.relocate_id]
  refine (matched_self _ (explodeNames numbered).toExcept).bind ?_
  rintro ⟨file, _⟩ _ rfl
  refine (matched_self _ (Table.ofFile file)).bind ?_
  rintro table _ rfl
  rw [hname]
  exact .values ⟨rfl, rfl, rfl, rfl, rfl, fun _ => rfl, fun _ => rfl⟩

/-- What compiles under a policy compiles under a laxer one, and the policy does not show in what
comes out. An error other than a duplicate name is met under every laxer policy, and under every
stricter policy unless a duplicate name is met there. -/
theorem compile_under_policies (first second : CompileOptions)
    (hname : first.sourceName = second.sourceName) (source : String) :
    (∀ compilation compilation', compile first source = .ok compilation →
      compile second source = .ok compilation' → compilation.SameOutput compilation') ∧
    (first.duplicateNames.laxity ≤ second.duplicateNames.laxity →
      (∀ compilation, compile first source = .ok compilation →
        ∃ compilation', compile second source = .ok compilation') ∧
      ∀ error : CompileError, error.code ≠ .duplicateName →
        (compile first source = .error error → compile second source = .error error) ∧
        (compile second source = .error error → compile first source = .error error ∨
          ∃ clash : CompileError, clash.code = .duplicateName ∧
            compile first source = .error clash)) := by
  constructor
  · intro compilation compilation' hfirst hsecond
    rcases Nat.le_total first.duplicateNames.laxity second.duplicateNames.laxity with hle | hle
    · have hmatched := matched_compile_of_laxity_le hname hle source
      rw [hfirst, hsecond] at hmatched
      cases hmatched with
      | values h => exact h
    · have hmatched := matched_compile_of_laxity_le hname.symm hle source
      rw [hfirst, hsecond] at hmatched
      cases hmatched with
      | values h => exact h.symm
  · intro hlaxity
    have hmatched := matched_compile_of_laxity_le hname hlaxity source
    generalize compile first source = result, compile second source = result' at hmatched
    cases hmatched with
    | alone hcode second =>
      refine ⟨fun _ h => (by cases h), fun error hother => ⟨fun h => ?_, fun _ => ?_⟩⟩
      · obtain rfl := Except.error.inj h
        exact absurd hcode hother
      · exact .inr ⟨_, hcode, rfl⟩
    | errors error =>
      exact ⟨fun _ h => (by cases h), fun _ _ => ⟨fun h => h, fun h => .inl h⟩⟩
    | values h =>
      exact ⟨fun _ _ => ⟨_, rfl⟩, fun _ _ => ⟨fun h => (by cases h), fun h => (by cases h)⟩⟩

/-- A menu with two items of the same name. -/
def twinMenu (label : String) : String :=
  "MenuConfig [ ] MenuGroup Top T [ MenuRow [ MenuItem A a MenuItem A " ++ label ++ " ] ]"

/-- Twins with labels of their own compile unless the policy is strict. Twins with one label do not
compile, and the strict policy reports their name instead. -/
theorem compile_under_policies_twins :
    (∃ compilation compilation',
      compile ⟨"menu", .sameKindLeaves, false⟩ (twinMenu "b") = .ok compilation ∧
      compile ⟨"menu", .anyLeaves, true⟩ (twinMenu "b") = .ok compilation' ∧
      compilation.SameOutput compilation') ∧
    ∃ error : CompileError, error.code = .duplicateLabel ∧
      compile ⟨"menu", .sameKindLeaves, false⟩ (twinMenu "a") = .error error ∧
      compile ⟨"menu", .anyLeaves, true⟩ (twinMenu "a") = .error error ∧
      (compile ⟨"menu", .strict, false⟩ (twinMenu "a") = .error error ∨
        ∃ clash : CompileError, clash.code = .duplicateName ∧
          compile ⟨"menu", .strict, false⟩ (twinMenu "a") = .error clash) := by
  constructor
  · obtain ⟨hsame, hlaxer⟩ := compile_under_policies ⟨"menu", .sameKindLeaves, false⟩
      ⟨"menu", .anyLeaves, true⟩ rfl (twinMenu "b")
    have hsome :
        (compile ⟨"menu", .sameKindLeaves, false⟩ (twinMenu "b")).toOption.isSome = true := by
      decide +kernel
    obtain ⟨compilation, hcompile⟩ := exists_ok_of_isSome hsome
    obtain ⟨compilation', hcompile'⟩ := (hlaxer (by decide)).1 compilation hcompile
    exact ⟨compilation, compilation', hcompile, hcompile', hsame _ _ hcompile hcompile'⟩
  · have hlaxer := (compile_under_policies ⟨"menu", .sameKindLeaves, false⟩
      ⟨"menu", .anyLeaves, true⟩ rfl (twinMenu "a")).2 (by decide)
    have hstricter := (compile_under_policies ⟨"menu", .strict, false⟩
      ⟨"menu", .sameKindLeaves, false⟩ rfl (twinMenu "a")).2 (by decide)
    have hcode :
        ((compile ⟨"menu", .sameKindLeaves, false⟩ (twinMenu "a")).map fun _ => ()).mapError
          CompileError.code = .error .duplicateLabel := by
      decide +kernel
    cases hcompile : compile ⟨"menu", .sameKindLeaves, false⟩ (twinMenu "a") with
    | ok compilation => rw [hcompile] at hcode; cases hcode
    | error error =>
      rw [hcompile] at hcode
      have hcode : error.code = .duplicateLabel := Except.error.inj hcode
      have hother : error.code ≠ .duplicateName := by
        rw [hcode]
        decide
      exact ⟨error, hcode, rfl, (hlaxer.2 error hother).1 hcompile,
        (hstricter.2 error hother).2 hcompile⟩

end SoftMenu
