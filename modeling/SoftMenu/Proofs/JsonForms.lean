import Mathlib.Data.List.Nodup
import SoftMenu.Menu.Json
import SoftMenu.Proofs.Invariants
import SoftMenu.Proofs.JsonText

/-!
# The JSON forms are lossless

What is written as JSON text is read back as it was (`ofText?_toText_iff`), except that lines and
offsets have to fit in 64 bits, which is what the reader of numbers can hold. By the time the text
has become a JSON value again (`Json.read?_write`) what is left are the forms of the parts, from
spans and names up to whole trees.

A part that is not set is left out of its object, and the reader takes a part that is left out as
not set. A part that is set is never written as `null`, so the two do not get mixed up. No field is
written twice, which the reader would not accept.
-/

namespace SoftMenu

namespace Json

/-! ## Fields that may be left out -/

theorem given?_cons_of_ne {key name : String} (h : name ≠ key) (value : Json)
    (fields : List (String × Json)) : given? key ((name, value) :: fields) = given? key fields := by
  rw [given?, if_neg h]

/-- A field whose key is not there is left out. -/
theorem given?_of_notMem {fields : List (String × Json)} {key : String}
    (h : key ∉ fields.map Prod.fst) : given? key fields = some none := by
  induction fields with
  | nil => rfl
  | cons field fields ih =>
    rw [List.map_cons, List.mem_cons, not_or] at h
    rw [given?_cons_of_ne (Ne.symm h.1), ih h.2]

theorem given?_cons_self {fields : List (String × Json)} {key : String}
    (h : key ∉ fields.map Prod.fst) (value : Json) :
    given? key ((key, value) :: fields) = some (some value) := by
  have hany : (fields.any fun field => field.1 = key) = false := by
    rw [List.any_eq_false]
    intro field hfield heq
    exact h (List.mem_map.2 ⟨field, hfield, of_decide_eq_true heq⟩)
  rw [given?, if_pos rfl, hany]
  rfl

/-- The keys of the fields that are present are among the keys of all fields, in the same order. -/
theorem sublist_present (fields : List (String × Option Json)) :
    ((present fields).map Prod.fst).Sublist (fields.map Prod.fst) := by
  induction fields with
  | nil => exact .slnil
  | cons field fields ih =>
    obtain ⟨name, value?⟩ := field
    cases value? with
    | none => exact ih.cons name
    | some value => exact ih.cons_cons name

/-- A field that is left out is not given, and no other field is taken in its place. -/
theorem given?_present {fields : List (String × Option Json)} (h : (fields.map Prod.fst).Nodup)
    {field : String × Option Json} (hfield : field ∈ fields) :
    given? field.1 (present fields) = some field.2 := by
  induction fields with
  | nil => cases hfield
  | cons first fields ih =>
    obtain ⟨name, value?⟩ := first
    rw [List.map_cons, List.nodup_cons] at h
    have hnotMem : name ∉ (present fields).map Prod.fst :=
      fun hmem => h.1 ((sublist_present fields).subset hmem)
    rcases List.mem_cons.1 hfield with rfl | hrest
    · cases value? with
      | none => exact given?_of_notMem hnotMem
      | some value => exact given?_cons_self hnotMem value
    · cases value? with
      | none => exact ih h.2 hrest
      | some value =>
        have hne : name ≠ field.1 := fun heq => h.1 (List.mem_map.2 ⟨field, hrest, heq.symm⟩)
        exact (given?_cons_of_ne hne value _).trans (ih h.2 hrest)

/-- A list is decoded item by item, if each of its items is. -/
theorem mapM_map {α β γ : Type} {encode : α → β} {decode : β → Option γ} {result : α → γ}
    {values : List α} (h : ∀ value ∈ values, decode (encode value) = some (result value)) :
    (values.map encode).mapM decode = some (values.map result) := by
  induction values with
  | nil => rfl
  | cons value values ih =>
    obtain ⟨hvalue, hvalues⟩ := List.forall_mem_cons.1 h
    rw [List.map_cons, List.mapM_cons, hvalue, ih hvalues]
    rfl

/-- An object is read as a record of the fields that it may have. -/
theorem record?_present {names : List String} {fields : List (String × Option Json)}
    (hnames : fields.map Prod.fst = names) (h : names.Nodup) :
    (Json.obj (present fields)).record? names =
      some (fields.map fun field => field.2.getD .null) := by
  subst hnames
  refine mapM_map fun field hfield => ?_
  rw [given?_present h hfield]
  rfl

/-- An object with all its fields is read as the record of their values. -/
theorem record?_obj {names : List String} {fields : List (String × Json)}
    (hnames : fields.map Prod.fst = names) (h : names.Nodup) :
    (Json.obj fields).record? names = some (fields.map Prod.snd) := by
  -- An object of which every field is present.
  have hpresent : present (fields.map fun field => (field.1, some field.2)) = fields := by
    simp [present, List.filterMap_map]
  have hkeys : (fields.map fun field => (field.1, some field.2)).map Prod.fst = names := by
    rwa [List.map_map]
  have hrecord := record?_present hkeys h
  rw [hpresent, List.map_map] at hrecord
  exact hrecord

/-- What may be left out is read back if it is read back where it is set, as it is never written as
`null`. -/
theorem nullable?_getD_iff {α : Type} {encode : α → Json} {decode : Json → Option α}
    (hnull : ∀ value, encode value ≠ .null) (value? : Option α) :
    ((value?.map encode).getD .null).nullable? decode = some value? ↔
      ∀ value ∈ value?, decode (encode value) = some value := by
  cases value? with
  | none => simp [nullable?]
  | some value =>
    have hsome : (encode value).nullable? decode = (decode (encode value)).map some := by
      unfold nullable?
      split
      · exact absurd ‹_› (hnull value)
      · rfl
    simp [hsome]

theorem strings?_map (texts : List String) : (Json.arr (texts.map .str)).strings? = some texts := by
  have hmap : (texts.map Json.str).mapM str? = some (texts.map id) := mapM_map fun _ _ => rfl
  rwa [List.map_id] at hmap

theorem nullable?_strings (texts? : Option (List String)) :
    ((texts?.map fun texts => Json.arr (texts.map .str)).getD .null).nullable? strings? =
      some texts? :=
  (nullable?_getD_iff (by simp) texts?).2 fun texts _ => strings?_map texts

theorem nullable?_str (text? : Option String) :
    ((text?.map Json.str).getD .null).nullable? str? = some text? :=
  (nullable?_getD_iff (by simp) text?).2 fun _ _ => rfl

/-- A number is read back exactly if it fits in 64 bits. -/
theorem word64?_nat_iff {n : Nat} : (Json.nat n).word64? = some n ↔ n < UInt64.size := by
  show (if n < UInt64.size then some n else none) = some n ↔ _
  split_ifs with h <;> simp [h]

theorem byte?_nat (byte : UInt8) : (Json.nat byte.toNat).byte? = some byte := by
  show (if byte.toNat < 256 then some (UInt8.ofNat byte.toNat) else none) = some byte
  rw [if_pos byte.toNat_lt, UInt8.ofNat_toNat]

end Json

/-! ## Places -/

/-- Both bounds fit in 64 bits. -/
structure Span.Fits (span : Span) : Prop where
  start : span.start < UInt64.size
  stop : span.stop < UInt64.size

/-- The line and the bounds of the span fit in 64 bits. -/
structure Place.Fits (place : Place) : Prop where
  line : place.line < UInt64.size
  span : place.span.Fits

theorem Span.ofJson?_toJson_iff {span : Span} :
    Span.ofJson? span.toJson = some span ↔ span.Fits := by
  have hrecord : span.toJson.record? ["start", "end"] =
      some [.nat span.start, .nat span.stop] := Json.record?_obj rfl (by decide)
  have hread : Span.ofJson? span.toJson = (Json.nat span.start).word64?.bind fun start =>
      (Json.nat span.stop).word64?.bind fun stop => some ⟨start, stop⟩ := by
    rw [Span.ofJson?, hrecord]
    rfl
  rw [hread, Option.bind_eq_some_iff]
  constructor
  · rintro ⟨start, hstart, h⟩
    obtain ⟨stop, hstop, h⟩ := Option.bind_eq_some_iff.1 h
    obtain rfl := Option.some.inj h
    exact ⟨Json.word64?_nat_iff.1 hstart, Json.word64?_nat_iff.1 hstop⟩
  · rintro ⟨hstart, hstop⟩
    refine ⟨_, Json.word64?_nat_iff.2 hstart, ?_⟩
    exact Option.bind_eq_some_iff.2 ⟨_, Json.word64?_nat_iff.2 hstop, rfl⟩

theorem Place.ofJson?_toFields_iff {place : Place} :
    Place.ofJson? (.nat place.line) place.span.toJson = some place ↔ place.Fits := by
  have hread : Place.ofJson? (.nat place.line) place.span.toJson =
      (Json.nat place.line).word64?.bind fun line =>
        (Span.ofJson? place.span.toJson).bind fun span => some ⟨line, span⟩ := rfl
  rw [hread, Option.bind_eq_some_iff]
  constructor
  · rintro ⟨line, hline, h⟩
    obtain ⟨span, hspan, h⟩ := Option.bind_eq_some_iff.1 h
    obtain rfl := Option.some.inj h
    exact ⟨Json.word64?_nat_iff.1 hline, Span.ofJson?_toJson_iff.1 hspan⟩
  · rintro ⟨hline, hspan⟩
    refine ⟨_, Json.word64?_nat_iff.2 hline, ?_⟩
    exact Option.bind_eq_some_iff.2 ⟨_, Span.ofJson?_toJson_iff.2 hspan, rfl⟩

/-! ## Names and settings -/

theorem DisplayName.ofJson?_toJson (name : DisplayName) :
    DisplayName.ofJson? name.toJson = some name := by
  have hrecord : name.toJson.record? ["text", "exploded"] = some [.str name.text,
      (name.exploded.map fun operands => Json.arr (operands.map .str)).getD .null] :=
    Json.record?_present rfl (by decide)
  rw [DisplayName.ofJson?, hrecord]
  simp [Json.str?, Json.nullable?_strings]

theorem Config.ofJson?_toJson (config : Config) : Config.ofJson? config.toJson = some config := by
  have hrecord : config.toJson.record?
      ["item_name", "item_name_id", "item_handler", "group_handler"] =
        some [(config.itemName.map .str).getD .null, (config.itemNameId.map .str).getD .null,
          (config.itemHandler.map .str).getD .null, (config.groupHandler.map .str).getD .null] :=
    Json.record?_present rfl (by decide)
  rw [Config.ofJson?, hrecord]
  simp [Json.nullable?_str]

/-! ## Trees -/

theorem NodeInfo.ofJson?_toJson_iff {info : NodeInfo} :
    NodeInfo.ofJson? info.toJson = some info ↔ info.place.Fits := by
  have hrecord : info.toJson.record? ["name", "label", "id", "parent_id", "line", "span"] =
      some [info.name.toJson, .str info.label, .nat info.id.toNat, .nat info.parentId.toNat,
        .nat info.place.line, info.place.span.toJson] := Json.record?_obj rfl (by decide)
  have hread : NodeInfo.ofJson? info.toJson =
      (Place.ofJson? (.nat info.place.line) info.place.span.toJson).map fun place =>
        { info with place } := by
    rw [NodeInfo.ofJson?, hrecord]
    simp [DisplayName.ofJson?_toJson, Json.str?, Json.byte?_nat, Option.map_eq_bind]
  rw [hread, Option.map_eq_some_iff, ← Place.ofJson?_toFields_iff]
  constructor
  · rintro ⟨place, hplace, h⟩
    rw [hplace, ← congrArg NodeInfo.place h]
  · intro hplace
    exact ⟨info.place, hplace, rfl⟩

/-- The places of a node and of its rows fit in 64 bits. -/
structure Face.Fits (face : Face) : Prop where
  node : face.info.place.Fits
  row : ∀ entry ∈ face.layout, entry.2.Fits

/-- Whatever the kind of the group a node is in, its form is read back exactly if its places fit. -/
def Node.ReadsBack (node : Node) : Prop :=
  ∀ inner, Node.ofJson? inner node.toJson = some node ↔ node.All Face.Fits

theorem slotsOfItems?_iff {slots : List Node} (h : ∀ slot ∈ slots, slot.ReadsBack) :
    slotsOfItems? (slotsToJson slots) = some slots ↔ ∀ slot ∈ slots, slot.All Face.Fits := by
  induction slots with
  | nil => simp [slotsToJson, slotsOfItems?]
  | cons slot slots ih =>
    obtain ⟨hslot, hslots⟩ := List.forall_mem_cons.1 h
    rw [List.forall_mem_cons, ← ih hslots, ← hslot true, slotsToJson, slotsOfItems?]
    simp only [Option.bind_eq_bind, Option.bind_eq_some_iff, Option.pure_def, Option.some.injEq,
      List.cons.injEq]
    constructor
    · rintro ⟨slot', hslot', slots', hslots', rfl, rfl⟩
      exact ⟨hslot', hslots'⟩
    · rintro ⟨hslot', hslots'⟩
      exact ⟨slot, hslot', slots, hslots', rfl, rfl⟩

theorem rowOfJson?_iff {row : Row Node} (h : ∀ slot ∈ row.slots, slot.ReadsBack) :
    rowOfJson? (rowToJson row) = some row ↔
      row.place.Fits ∧ ∀ slot ∈ row.slots, slot.All Face.Fits := by
  obtain ⟨slots, place⟩ := row
  have hread : rowOfJson? (rowToJson ⟨slots, place⟩) =
      (slotsOfItems? (slotsToJson slots)).bind fun slots =>
        (Place.ofJson? (.nat place.line) place.span.toJson).bind fun place =>
          some ⟨slots, place⟩ := by
    simp [rowToJson, rowOfJson?, Place.toFields, slotsOfField?, slotsOfJson?, Json.field?,
      Json.given?]
  rw [hread, ← slotsOfItems?_iff h, ← Place.ofJson?_toFields_iff]
  simp only [Option.bind_eq_some_iff, Option.some.injEq, Row.mk.injEq]
  constructor
  · rintro ⟨slots', hslots, place', hplace, rfl, rfl⟩
    exact ⟨hplace, hslots⟩
  · rintro ⟨hplace, hslots⟩
    exact ⟨slots, hslots, place, hplace, rfl, rfl⟩

theorem rowsOfItems?_iff {rows : List (Row Node)}
    (h : ∀ row ∈ rows, ∀ slot ∈ row.slots, slot.ReadsBack) :
    rowsOfItems? (rowsToJson rows) = some rows ↔
      ∀ row ∈ rows, row.place.Fits ∧ ∀ slot ∈ row.slots, slot.All Face.Fits := by
  induction rows with
  | nil => simp [rowsToJson, rowsOfItems?]
  | cons row rows ih =>
    obtain ⟨hrow, hrows⟩ := List.forall_mem_cons.1 h
    rw [List.forall_mem_cons, ← ih hrows, ← rowOfJson?_iff hrow, rowsToJson, rowsOfItems?]
    simp only [Option.bind_eq_bind, Option.bind_eq_some_iff, Option.pure_def, Option.some.injEq,
      List.cons.injEq]
    constructor
    · rintro ⟨row', hrow', rows', hrows', rfl, rfl⟩
      exact ⟨hrow', hrows'⟩
    · rintro ⟨hrow', hrows'⟩
      exact ⟨row, hrow', rows, hrows', rfl, rfl⟩

theorem readsBack_item (info : NodeInfo) : (Node.item info).ReadsBack := by
  intro inner
  have hread : Node.ofJson? inner (Node.item info).toJson =
      (NodeInfo.ofJson? info.toJson).bind fun info => some (.item info) := by
    simp [Node.toJson, Node.ofJson?, Kind.ofJson?, Kind.ofTag?, Kind.tag, Json.field?,
      Json.given?]
  rw [hread, Option.bind_eq_some_iff, Node.all_iff]
  constructor
  · rintro ⟨info', hinfo, h⟩
    obtain rfl := Node.item.inj (Option.some.inj h)
    exact ⟨⟨NodeInfo.ofJson?_toJson_iff.1 hinfo, List.forall_mem_nil _⟩, List.forall_mem_nil _⟩
  · rintro ⟨hface, -⟩
    exact ⟨info, NodeInfo.ofJson?_toJson_iff.2 hface.node, rfl⟩

theorem readsBack_altItem (info : NodeInfo) (altName : DisplayName) :
    (Node.altItem info altName).ReadsBack := by
  intro inner
  have hread : Node.ofJson? inner (Node.altItem info altName).toJson =
      (NodeInfo.ofJson? info.toJson).bind fun info => some (.altItem info altName) := by
    simp [Node.toJson, Node.ofJson?, Kind.ofJson?, Kind.ofTag?, Kind.tag, Json.field?,
      Json.given?, DisplayName.ofJson?_toJson]
  rw [hread, Option.bind_eq_some_iff, Node.all_iff]
  constructor
  · rintro ⟨info', hinfo, h⟩
    obtain ⟨rfl, -⟩ := Node.altItem.inj (Option.some.inj h)
    exact ⟨⟨NodeInfo.ofJson?_toJson_iff.1 hinfo, List.forall_mem_nil _⟩, List.forall_mem_nil _⟩
  · rintro ⟨hface, -⟩
    exact ⟨info, NodeInfo.ofJson?_toJson_iff.2 hface.node, rfl⟩

theorem readsBack_group (info : NodeInfo) {rows : List (Row Node)}
    (h : ∀ row ∈ rows, ∀ slot ∈ row.slots, slot.ReadsBack) : (Node.group info rows).ReadsBack := by
  intro inner
  have hread : Node.ofJson? inner (Node.group info rows).toJson =
      (NodeInfo.ofJson? info.toJson).bind fun info =>
        (rowsOfItems? (rowsToJson rows)).bind fun rows => some (.group info rows) := by
    simp [Node.toJson, Node.ofJson?, Kind.ofJson?, Kind.ofTag?, Kind.tag, Json.field?,
      Json.given?, rowsOfField?, rowsOfJson?]
  rw [hread, Option.bind_eq_some_iff, Node.all_iff]
  constructor
  · rintro ⟨info', hinfo, hgroup⟩
    obtain ⟨rows', hrows, hgroup⟩ := Option.bind_eq_some_iff.1 hgroup
    obtain ⟨rfl, rfl⟩ := Node.group.inj (Option.some.inj hgroup)
    have hfits := (rowsOfItems?_iff h).1 hrows
    refine ⟨⟨NodeInfo.ofJson?_toJson_iff.1 hinfo, fun entry hentry => ?_⟩, fun slot hslot => ?_⟩
    · obtain ⟨row, hrow, rfl⟩ := List.mem_map.1 hentry
      exact (hfits row hrow).1
    · obtain ⟨row, hrow, hslot⟩ := List.mem_flatMap.1 hslot
      exact (hfits row hrow).2 slot hslot
  · rintro ⟨hface, hslots⟩
    refine ⟨info, NodeInfo.ofJson?_toJson_iff.2 hface.node, ?_⟩
    refine Option.bind_eq_some_iff.2 ⟨rows, (rowsOfItems?_iff h).2 fun row hrow => ?_, rfl⟩
    refine ⟨hface.row _ (List.mem_map_of_mem hrow), fun slot hslot => ?_⟩
    exact hslots slot (Node.mem_slots_of_mem_rows hrow hslot)

/-- A tree is read back exactly if all its places fit, by induction on its slots. -/
theorem Node.readsBack (node : Node) : node.ReadsBack := by
  induction node using Node.slotInduction with
  | step node ih =>
    cases node with
    | item info => exact readsBack_item info
    | altItem info altName => exact readsBack_altItem info altName
    | group info rows =>
      refine readsBack_group info fun row hrow slot hslot => ih slot ?_
      exact Node.mem_slots_of_mem_rows hrow hslot

/-- A menu is read back from its form exactly if all its places fit. -/
theorem MenuFile.ofJson?_toJson_iff {file : MenuFile} :
    MenuFile.ofJson? file.toJson = some file ↔ file.root.All Face.Fits := by
  have hrecord : file.toJson.record? ["config", "root"] =
      some [file.config.toJson, file.root.toJson] := Json.record?_obj rfl (by decide)
  have hread : MenuFile.ofJson? file.toJson =
      (Node.ofJson? false file.root.toJson).bind fun root => some ⟨file.config, root⟩ := by
    rw [MenuFile.ofJson?, hrecord]
    simp [Config.ofJson?_toJson]
  rw [hread, Option.bind_eq_some_iff, ← file.root.readsBack false]
  constructor
  · rintro ⟨root, hroot, h⟩
    rw [hroot, ← congrArg MenuFile.root (Option.some.inj h)]
  · intro hroot
    exact ⟨file.root, hroot, rfl⟩

/-! ## Diagnostics -/

/-- A key beyond all others goes to the end. -/
theorem insertPair_of_lt {key value : String} {pairs : List (String × String)}
    (h : ∀ pair ∈ pairs, pair.1 < key) : insertPair key value pairs = pairs ++ [(key, value)] := by
  induction pairs with
  | nil => rfl
  | cons pair pairs ih =>
    obtain ⟨hpair, hrest⟩ := List.forall_mem_cons.1 h
    have hless : ¬ key < pair.1 := fun hlt => String.lt_irrefl _ (String.lt_trans hlt hpair)
    have hne : key ≠ pair.1 := by
      rintro rfl
      exact String.lt_irrefl _ hpair
    rw [insertPair, if_neg hless, if_neg hne, ih hrest]
    rfl

/-- Details that are put together again from their pairs are the same. -/
theorem Context.ofPairs_pairs (context : Context) : Context.ofPairs context.pairs = context := by
  have hfold : ∀ (pairs : List (String × String)) (first : Context),
      (first.pairs ++ pairs).Pairwise (fun a b => a.1 < b.1) →
      (pairs.foldl (fun context pair => context.insert pair.1 pair.2) first).pairs =
        first.pairs ++ pairs := by
    intro pairs
    induction pairs with
    | nil =>
      intro first _
      exact (List.append_nil _).symm
    | cons pair pairs ih =>
      intro first hascending
      have hbelow : ∀ other ∈ first.pairs, other.1 < pair.1 := by
        intro other hother
        exact (List.pairwise_append.1 hascending).2.2 other hother pair List.mem_cons_self
      have hinsert : (first.insert pair.1 pair.2).pairs = first.pairs ++ [pair] :=
        insertPair_of_lt hbelow
      rw [List.foldl_cons, ih, hinsert, List.append_assoc]
      · rfl
      · rw [hinsert, List.append_assoc]
        exact hascending
  have hpairs : (Context.ofPairs context.pairs).pairs = context.pairs :=
    hfold context.pairs {} context.ascending
  obtain ⟨pairs, ascending⟩ := context
  generalize Context.ofPairs pairs = result at hpairs
  obtain ⟨pairs', ascending'⟩ := result
  subst hpairs
  rfl

theorem Context.ofJson?_toJson (context : Context) :
    Context.ofJson? context.toJson = some context := by
  have hpairs : (context.pairs.map fun pair => (pair.1, Json.str pair.2)).mapM
      (fun field : String × Json => field.2.str?.map (field.1, ·)) = some (context.pairs.map id) :=
    Json.mapM_map fun _ _ => rfl
  show (List.mapM _ _ >>= fun pairs => pure (Context.ofPairs pairs)) = _
  rw [hpairs, List.map_id]
  exact congrArg some context.ofPairs_pairs

theorem Severity.ofWord?_word (severity : Severity) :
    Severity.ofWord? severity.word = some severity := by
  cases severity <;> rfl

/-- A diagnostic is read back from its form exactly if its span fits. -/
theorem Diagnostic.ofJson?_toJson_iff {diagnostic : Diagnostic} :
    Diagnostic.ofJson? diagnostic.toJson = some diagnostic ↔
      ∀ span ∈ diagnostic.span, span.Fits := by
  have hrecord : diagnostic.toJson.record? ["id", "severity", "message", "span", "context"] =
      some [.str diagnostic.id, .str diagnostic.severity.word, .str diagnostic.message,
        (diagnostic.span.map Span.toJson).getD .null,
        (diagnostic.context.map Context.toJson).getD .null] :=
    Json.record?_present rfl (by decide)
  have hcontext : ((diagnostic.context.map Context.toJson).getD .null).nullable?
      Context.ofJson? = some diagnostic.context :=
    (Json.nullable?_getD_iff (by simp [Context.toJson]) _).2 fun context _ =>
      context.ofJson?_toJson
  have hspan : ((diagnostic.span.map Span.toJson).getD .null).nullable? Span.ofJson? =
      some diagnostic.span ↔ ∀ span ∈ diagnostic.span, span.Fits := by
    rw [Json.nullable?_getD_iff (by simp [Span.toJson])]
    simp only [Span.ofJson?_toJson_iff]
  have hread : Diagnostic.ofJson? diagnostic.toJson =
      (((diagnostic.span.map Span.toJson).getD .null).nullable? Span.ofJson?).bind fun span =>
        some { diagnostic with span } := by
    rw [Diagnostic.ofJson?, hrecord]
    simp [Json.str?, Json.choice?, Severity.ofWord?_word, hcontext]
  rw [hread, Option.bind_eq_some_iff, ← hspan]
  constructor
  · rintro ⟨span, hspan, h⟩
    rw [hspan, ← congrArg Diagnostic.span (Option.some.inj h)]
  · intro hspan
    exact ⟨diagnostic.span, hspan, rfl⟩

/-! ## Texts -/

namespace Json

theorem whole_nat (n : Nat) : (Json.nat n).Whole := .int _

theorem whole_present {fields : List (String × Option Json)}
    (h : ∀ field ∈ fields, ∀ value ∈ field.2, value.Whole) : (Json.obj (present fields)).Whole := by
  refine .obj fun field hfield => ?_
  obtain ⟨⟨key, value?⟩, hmem, hvalue⟩ := List.mem_filterMap.1 hfield
  obtain ⟨value, rfl, rfl⟩ := Option.map_eq_some_iff.1 hvalue
  exact h _ hmem value rfl

theorem whole_strings (texts : List String) : (Json.arr (texts.map .str)).Whole := by
  refine .arr fun item hitem => ?_
  obtain ⟨text, -, rfl⟩ := List.mem_map.1 hitem
  exact .str text

end Json

theorem Span.whole_toJson (span : Span) : span.toJson.Whole := by
  refine .obj ?_
  simp [Json.whole_nat]

theorem DisplayName.whole_toJson (name : DisplayName) : name.toJson.Whole := by
  refine Json.whole_present ?_
  simp [Json.Whole.str, Json.whole_strings]

theorem NodeInfo.whole_toJson (info : NodeInfo) : info.toJson.Whole := by
  refine .obj ?_
  simp [Place.toFields, Json.whole_nat, Json.Whole.str, Span.whole_toJson,
    DisplayName.whole_toJson]

theorem Config.whole_toJson (config : Config) : config.toJson.Whole := by
  refine Json.whole_present ?_
  simp [Json.Whole.str]

theorem slotsToJson_eq_map (slots : List Node) : slotsToJson slots = slots.map Node.toJson := by
  induction slots with
  | nil => rfl
  | cons slot slots ih => rw [slotsToJson, ih, List.map_cons]

theorem rowsToJson_eq_map (rows : List (Row Node)) : rowsToJson rows = rows.map rowToJson := by
  induction rows with
  | nil => rfl
  | cons row rows ih => rw [rowsToJson, ih, List.map_cons]

theorem whole_rowToJson {row : Row Node} (h : ∀ slot ∈ row.slots, slot.toJson.Whole) :
    (rowToJson row).Whole := by
  obtain ⟨slots, place⟩ := row
  have hslots : (Json.arr (slotsToJson slots)).Whole := by
    refine .arr fun item hitem => ?_
    rw [slotsToJson_eq_map] at hitem
    obtain ⟨slot, hslot, rfl⟩ := List.mem_map.1 hitem
    exact h slot hslot
  refine .obj ?_
  simp [Place.toFields, hslots, Json.whole_nat, Span.whole_toJson]

/-- All numbers in the form of a tree are integers. -/
theorem Node.whole_toJson (node : Node) : node.toJson.Whole := by
  induction node using Node.slotInduction with
  | step node ih =>
    cases node with
    | item info =>
      refine .obj ?_
      simp [Json.Whole.str, NodeInfo.whole_toJson]
    | altItem info altName =>
      refine .obj ?_
      simp [Json.Whole.str, NodeInfo.whole_toJson, DisplayName.whole_toJson]
    | group info rows =>
      have hrows : (Json.arr (rowsToJson rows)).Whole := by
        refine .arr fun item hitem => ?_
        rw [rowsToJson_eq_map] at hitem
        obtain ⟨row, hrow, rfl⟩ := List.mem_map.1 hitem
        exact whole_rowToJson fun slot hslot => ih slot (Node.mem_slots_of_mem_rows hrow hslot)
      refine .obj ?_
      simp [Json.Whole.str, NodeInfo.whole_toJson, hrows]

theorem MenuFile.whole_toJson (file : MenuFile) : file.toJson.Whole := by
  refine .obj ?_
  simp [Config.whole_toJson, Node.whole_toJson]

theorem Context.whole_toJson (context : Context) : context.toJson.Whole := by
  refine .obj fun field hfield => ?_
  obtain ⟨pair, -, rfl⟩ := List.mem_map.1 hfield
  exact .str pair.2

theorem Diagnostic.whole_toJson (diagnostic : Diagnostic) : diagnostic.toJson.Whole := by
  refine Json.whole_present ?_
  simp [Json.Whole.str, Span.whole_toJson, Context.whole_toJson]

/-- The text of a menu is read back as that menu, and the text of a diagnostic in either layout as
that diagnostic, exactly if their lines and offsets fit in 64 bits. Nothing else is asked of them:
spans may be reversed, names and labels may be any strings, and what is set to nothing stays apart
from what is not set. -/
theorem ofText?_toText_iff (file : MenuFile) (diagnostic : Diagnostic) (layout : Json.Layout) :
    (MenuFile.ofText? file.toText = some file ↔ file.root.All Face.Fits) ∧
      (Diagnostic.ofText? (diagnostic.toJson.write layout) = some diagnostic ↔
        ∀ span ∈ diagnostic.span, span.Fits) := by
  constructor
  · rw [MenuFile.ofText?, MenuFile.toText, Json.read?_write file.whole_toJson]
    exact MenuFile.ofJson?_toJson_iff
  · rw [Diagnostic.ofText?, Json.read?_write diagnostic.whole_toJson]
    exact Diagnostic.ofJson?_toJson_iff

end SoftMenu
