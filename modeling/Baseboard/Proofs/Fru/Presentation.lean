import Mathlib.Data.List.Forall2
import Mathlib.Data.List.ReduceOption
import Baseboard.Fru.Area.Board
import Baseboard.Fru.Area.Chassis
import Baseboard.Fru.Area.Product

/-!
# Baseboard.Proofs.Fru.Presentation

The two ways to read the fields of an area agree, whatever its fields are.

A program asks for the named fields one at a time, and for the maker's own fields as a
list.  A reader sees the report.  Both are the same values in the order of the area: the
named fields that are there, then the maker's own (`Presents.values_eq`), and the report
has one line for each of them, under the name it is asked for by
(`Presents.exists_lines`).

The three areas differ in their slots, in the language their fields are read in and in
the line that stands before the fields.  `Area.presents` is the argument once for all of
them.  Main statement: `areas_present`.
-/

namespace Baseboard.Fru

/-! ## The accessors of named fields -/

/-- The named fields of a chassis area, each with what its accessor gives. -/
def ChassisArea.named (a : ChassisArea) : List (String × Option Value) :=
  [("Chassis Part Number", a.partNumber?),
    ("Chassis Serial", a.serialNumber?)]

/-- The named fields of a board area, each with what its accessor gives. -/
def BoardArea.named (a : BoardArea) : List (String × Option Value) :=
  [("Board Mfg", a.manufacturer?),
    ("Board Product", a.productName?),
    ("Board Serial", a.serialNumber?),
    ("Board Part Number", a.partNumber?),
    ("Board FRU File ID", a.fruFileId?)]

/-- The named fields of a product area, each with what its accessor gives. -/
def ProductArea.named (a : ProductArea) : List (String × Option Value) :=
  [("Product Manufacturer", a.manufacturer?),
    ("Product Name", a.name?),
    ("Product Part Number", a.partNumber?),
    ("Product Version", a.productVersion?),
    ("Product Serial", a.serialNumber?),
    ("Product Asset Tag", a.assetTag?),
    ("Product FRU File ID", a.fruFileId?)]

/-! ## Lines of a report -/

/-- A line that shows a text behind a label of 22 columns; a longer label is not cut. -/
def IsLine (label text line : String) : Prop :=
  ∃ blanks : String, line = "  " ++ label ++ blanks ++ ": " ++ text ++ "\n" ∧
    (∀ c ∈ blanks.toList, c = ' ') ∧ (label ++ blanks).length = max 22 label.length

theorem isLine_reportLine (label text : String) : IsLine label text (reportLine label text) := by
  refine ⟨String.ofList (List.replicate (22 - label.length) ' '), ?_, ?_, ?_⟩
  · simp only [reportLine, column, String.append_assoc]
  · intro c hc
    rw [String.toList_ofList] at hc
    exact List.eq_of_mem_replicate hc
  · rw [String.length_append, String.length_ofList, List.length_replicate]
    omega

/-- The line at an index shows a value behind a label. -/
def ShownAt (i : Nat) (label : String) (value : Value) (lines : List String) : Prop :=
  ∃ line, lines[i]? = some line ∧ IsLine label value.display line

/-! ## What agrees -/

/-- An area with some fields, read in a language, presents them: `named` are the names and
results of its accessors, `custom` is the list of the maker's own fields, and its report is
`report`, with the labels and texts of `heading` before the fields. -/
structure Presents (kind : AreaKind) (language : UInt8) (fields : List Field)
    (named : List (String × Option Value)) (custom : List Value)
    (heading : List (String × String)) (report : String) : Prop where
  /-- The accessors stand in the order of the slots. -/
  names_eq : named.map (·.1) = kind.slots
  /-- An accessor gives the field in its slot, and nothing when the area ends before it. -/
  values_getElem? : ∀ i < named.length,
    (named.map (·.2))[i]? = some (fields[i]?.map (·.value language))
  /-- The accessors and the list give every field once, in order. -/
  values_eq : (named.map (·.2)).reduceOption ++ custom = fields.map (·.value language)
  /-- Every field has its line: a named field under its name, behind them the maker's own
  under their numbers. -/
  exists_lines : ∃ head lines : List String, report = String.join (head ++ lines) ∧
    List.Forall₂ (fun entry line => IsLine entry.1 entry.2 line) heading head ∧
    lines.length = fields.length ∧
    (∀ (i : Nat) name value, named[i]? = some (name, some value) →
      ShownAt i name value lines) ∧
    (∀ (i : Nat) value, custom[i]? = some value →
      ShownAt (named.length + i) s!"Custom Field #{i + 1}" value lines)

/-! ## Every area -/

/-- The elements of a list at its first indices are its front. -/
theorem reduceOption_map_getElem? {α : Type} (xs : List α) (n : Nat) :
    ((List.range n).map (xs[·]?)).reduceOption = xs.take n := by
  induction n with
  | zero => rfl
  | succ n ih =>
      rw [List.range_succ, List.map_append, List.reduceOption_append, ih, List.map_singleton,
        List.reduceOption_singleton, List.take_add_one]

namespace Area

variable (kind : AreaKind) (language : UInt8) (a : Area)

theorem value?_eq_getElem? (i : Nat) :
    a.value? language i = (a.fields.map (·.value language))[i]? :=
  List.getElem?_map.symm

theorem custom_eq_drop (count : Nat) :
    a.custom count language = (a.fields.map (·.value language)).drop count :=
  List.map_drop

/-- The values at the first indices and the fields behind them are all the values. -/
theorem values_eq (count : Nat) :
    ((List.range count).map (a.value? language)).reduceOption ++ a.custom count language =
      a.fields.map (·.value language) := by
  rw [funext (a.value?_eq_getElem? language), reduceOption_map_getElem?, custom_eq_drop,
    List.take_append_drop]

/-- The lines of the fields of an area. -/
def lines : List String :=
  (a.entries kind language).map fun entry => reportLine entry.1 entry.2.display

theorem length_lines : (a.lines kind language).length = a.fields.length := by
  rw [lines, entries, List.length_map, List.length_map, List.length_zipIdx]

/-- The line at an index shows the value at that index under the label of that index. -/
theorem shownAt_lines {i : Nat} {value : Value} (h : a.value? language i = some value) :
    ShownAt i (label kind i) value (a.lines kind language) := by
  obtain ⟨field, hfield, rfl⟩ := Option.map_eq_some_iff.mp h
  refine ⟨_, ?_, isLine_reportLine ..⟩
  rw [lines, entries, List.getElem?_map, List.getElem?_map, List.getElem?_zipIdx, hfield,
    Nat.zero_add]
  rfl

variable {kind language a}

theorem label_of_slot {i : Nat} {slot : String} (h : kind.slots[i]? = some slot) :
    label kind i = slot := by
  rw [label, h, Option.getD_some]

theorem label_add (i : Nat) :
    label kind (kind.slots.length + i) = s!"Custom Field #{i + 1}" := by
  rw [label, List.getElem?_eq_none (Nat.le_add_right ..), Option.getD_none, Nat.add_sub_cancel_left]

/-- An area presents its fields when its accessors have the names of the slots and give the
values in them, as many fields are left out of the maker's own, and its report is that of
its fields behind some heading. -/
theorem presents {named : List (String × Option Value)} {count : Nat}
    {heading : List (String × String)} {report : String}
    (hnames : named.map (·.1) = kind.slots)
    (hvalues : named.map (·.2) = (List.range kind.slots.length).map (a.value? language))
    (hcount : count = kind.slots.length)
    (hreport : report = String.join (heading.map fun entry => reportLine entry.1 entry.2) ++
      a.report kind language) :
    Presents kind language a.fields named (a.custom count language) heading report := by
  subst hcount
  have hlength : named.length = kind.slots.length := by rw [← hnames, List.length_map]
  have hget (i : Nat) (hi : i < named.length) :
      (named.map (·.2))[i]? = some (a.value? language i) := by
    rw [hvalues, List.getElem?_map, List.getElem?_range (hlength ▸ hi), Option.map_some]
  refine ⟨hnames, hget, ?_, heading.map fun entry => reportLine entry.1 entry.2,
    a.lines kind language, ?_, ?_, a.length_lines kind language, ?_, ?_⟩
  · rw [hvalues, values_eq]
  · rw [hreport, String.join_append]
    rfl
  · exact List.forall₂_map_right_iff.mpr
      (List.forall₂_same.mpr fun entry _ => isLine_reportLine entry.1 entry.2)
  -- In a slot the accessor gives the value of the line, behind the slots the list does.
  · intro i name value hentry
    have hvalue := hget i (List.getElem?_eq_some_iff.mp hentry).1
    rw [List.getElem?_map, hentry, Option.map_some] at hvalue
    have hslot : kind.slots[i]? = some name := by
      rw [← hnames, List.getElem?_map, hentry, Option.map_some]
    rw [← label_of_slot hslot]
    exact a.shownAt_lines kind language (Option.some.inj hvalue).symm
  · intro i value hvalue
    rw [custom_eq_drop, List.getElem?_drop, ← value?_eq_getElem?] at hvalue
    rw [hlength, ← label_add]
    exact a.shownAt_lines kind language hvalue

end Area

theorem join_heading (label text : String) :
    String.join ([(label, text)].map fun entry => reportLine entry.1 entry.2) =
      reportLine label text := by
  rw [List.map_singleton, String.join_cons, String.join_nil, String.append_empty]

/-- Whatever its fields, an area presents them: a chassis in English behind its type, a
board in its language behind its date of manufacture, a product in its language. -/
theorem areas_present :
    (∀ a : ChassisArea, Presents .chassis 0 a.fields a.named a.custom
      [("Chassis Type", chassisTypeName a.chassisType)] a.report) ∧
    (∀ a : BoardArea, Presents .board a.language a.fields a.named a.custom
      [("Board Mfg Date", a.manufacturedAt.text)] a.report) ∧
    (∀ a : ProductArea, Presents .product a.language a.fields a.named a.custom [] a.report) := by
  refine ⟨fun a => Area.presents rfl rfl rfl ?_, fun a => Area.presents rfl rfl rfl ?_,
    fun a => Area.presents rfl rfl rfl ?_⟩
  · rw [join_heading]
    rfl
  · rw [join_heading]
    rfl
  · rw [List.map_nil, String.join_nil, String.empty_append]
    rfl

end Baseboard.Fru
