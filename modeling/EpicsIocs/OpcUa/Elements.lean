import EpicsIocs.Lib.Fields
import EpicsIocs.OpcUa.Item
import EpicsIocs.OpcUa.Link
import Mathlib.Data.List.Infix

/-! # Elements of structures

A path names a field of a structure, a field of that, and so on.  `elementOf` looks the fields
up; `withElement` rebuilds the structures on the way from the definitions of their types
(`item.rs`).  The reader passes over empty names, the writer takes them for names of fields.

    what is written is what is read, and all else stays, if no name is empty   (element_round_trip_iff)
-/

namespace OpcUa

inductive StructureType where
  | struct
  | structWithOptionalFields
  | union
  deriving DecidableEq, Repr

/-- The definition of a structure. -/
structure StructTypeInfo where
  nodeId : Nat
  structureType : StructureType
  /-- The names of its fields. -/
  fields : List String
  deriving DecidableEq, Repr

/-- Of two fields with one name, the last. -/
def StructTypeInfo.indexByName (typeDef : StructTypeInfo) (name : String) : Option Nat :=
  ((typeDef.fields.zipIdx.filter fun field => field.1 = name).getLast?).map (·.2)

/-- A structure, or a union with the number of its active field, from 1. -/
structure DynamicStructure (V : Type) where
  typeDef : StructTypeInfo
  discriminant : Nat
  data : List V

def DynamicStructure.getFieldByName {V : Type} (s : DynamicStructure V) (name : String) :
    Option V :=
  (s.typeDef.indexByName name).bind fun index =>
    if s.typeDef.structureType = .union then
      if s.discriminant = index + 1 then s.data[0]? else none
    else s.data[index]?

/-- Values, as far as elements go. -/
inductive Variant (S : Type) where
  | empty
  | other (value : S)
  | extensionObject (s : DynamicStructure (Variant S))

inductive ElementError where
  /-- The structure has no such element. -/
  | unmapped
  /-- The rebuilt structure did not encode. -/
  | encode (message : String)
  deriving DecidableEq, Repr

variable {S : Type}

/-- The types the session loaded. -/
structure DataTypeTree (S : Type) where
  getStructType : Nat → Option StructTypeInfo
  /-- What is wrong with a structure or a union that is to be made. -/
  refuses : DynamicStructure (Variant S) → Option String

def asStructure : Variant S → Option (DynamicStructure (Variant S))
  | .extensionObject s => some s
  | _ => none

/-- One name of a path; an empty one is passed over. -/
def elementStep (current : Variant S) (name : String) : Option (Variant S) :=
  if name.isEmpty then some current
  else (asStructure current).bind fun s => s.getFieldByName name

def elementOf (value : Variant S) (path : List String) : Option (Variant S) :=
  path.foldlM elementStep value

/-- `new_struct` and `new_union`. -/
def DataTypeTree.newDynamic (tree : DataTypeTree S) (s : DynamicStructure (Variant S)) :
    Except ElementError (Variant S) :=
  match tree.refuses s with
  | none => .ok (.extensionObject s)
  | some message => .error (.encode message)

def withElement (tree : DataTypeTree S) (value : Variant S) :
    Variant S → List String → Except ElementError (Variant S)
  | _, [] => .ok value
  | base, name :: rest =>
    match asStructure base with
    | none => .error .unmapped
    | some s =>
      match tree.getStructType s.typeDef.nodeId with
      | none => .error .unmapped
      | some typeDef =>
        match typeDef.indexByName name with
        | none => .error .unmapped
        | some index =>
          if typeDef.structureType = .union then
            -- Writing a member selects it.
            (withElement tree value ((s.getFieldByName name).getD .empty) rest).bind fun field =>
              tree.newDynamic ⟨typeDef, index + 1, [field]⟩
          else
            match s.data[index]? with
            | none => .error .unmapped
            | some field =>
              (withElement tree value field rest).bind fun field =>
                tree.newDynamic ⟨typeDef, 0, s.data.set index field⟩

/-- What items see of these values. -/
def elements (tree : DataTypeTree S) : Elements (Variant S) where
  empty := .empty
  elementOf := elementOf
  withElement base path value := (withElement tree value base path).toOption

/-! ## Fields by their names -/

/-- Each structure in the value has the definition that the tree has of its type, and is no
union. -/
inductive Typed (tree : DataTypeTree S) : Variant S → Prop
  | empty : Typed tree .empty
  | other (value : S) : Typed tree (.other value)
  | object {s : DynamicStructure (Variant S)}
      (hdef : tree.getStructType s.typeDef.nodeId = some s.typeDef)
      (hkind : s.typeDef.structureType ≠ .union) (hdata : ∀ v ∈ s.data, Typed tree v) :
      Typed tree (.extensionObject s)

theorem fields_indexByName {typeDef : StructTypeInfo} {name : String} {index : Nat}
    (h : typeDef.indexByName name = some index) : typeDef.fields[index]? = some name := by
  obtain ⟨field, hlast, rfl⟩ := Option.map_eq_some_iff.1 h
  obtain ⟨hmem, hname⟩ := List.mem_filter.1 (List.mem_of_getLast? hlast)
  rw [decide_eq_true_eq] at hname
  rw [← hname]
  exact List.mem_zipIdx_iff_getElem?.1 hmem

/-- A field by its name. -/
def field? (value : Variant S) (name : String) : Option (Variant S) :=
  (asStructure value).bind fun s => s.getFieldByName name

/-- The structure with a field replaced, if the tree has its definition. -/
def setField (tree : DataTypeTree S) (value : Variant S) (name : String) (field : Variant S) :
    Option (Variant S) :=
  (asStructure value).bind fun s =>
    if tree.getStructType s.typeDef.nodeId = some s.typeDef ∧ s.typeDef.structureType ≠ .union then
      (s.typeDef.indexByName name).bind fun index =>
        if index < s.data.length then
          (tree.newDynamic ⟨s.typeDef, 0, s.data.set index field⟩).toOption
        else none
    else none

theorem DataTypeTree.newDynamic_ok {tree : DataTypeTree S} {s : DynamicStructure (Variant S)}
    {value : Variant S} (h : (tree.newDynamic s).toOption = some value) :
    value = .extensionObject s := by
  unfold DataTypeTree.newDynamic at h
  split at h
  · cases h
    rfl
  · cases h

theorem DataTypeTree.newDynamic_cases (tree : DataTypeTree S)
    (s : DynamicStructure (Variant S)) :
    (∃ value, tree.newDynamic s = .ok value) ∨
      ∃ message, tree.newDynamic s = .error (.encode message) := by
  unfold DataTypeTree.newDynamic
  split
  · exact Or.inl ⟨_, rfl⟩
  · exact Or.inr ⟨_, rfl⟩

theorem setField_some {tree : DataTypeTree S} {value field value' : Variant S} {name : String}
    (h : setField tree value name field = some value') :
    ∃ s index, value = .extensionObject s ∧ s.typeDef.structureType ≠ .union ∧
      s.typeDef.indexByName name = some index ∧ index < s.data.length ∧
      value' = .extensionObject ⟨s.typeDef, 0, s.data.set index field⟩ := by
  obtain ⟨s, hs, h⟩ := Option.bind_eq_some_iff.1 h
  obtain ⟨hcond, h⟩ := Option.ite_none_right_eq_some.1 h
  obtain ⟨index, hindex, h⟩ := Option.bind_eq_some_iff.1 h
  obtain ⟨hlt, h⟩ := Option.ite_none_right_eq_some.1 h
  refine ⟨s, index, ?_, hcond.2, hindex, hlt, DataTypeTree.newDynamic_ok h⟩
  cases value with
  | extensionObject s' =>
    cases hs
    rfl
  | empty => cases hs
  | other x => cases hs

/-- A structure as a value with fields. -/
def structureFields (tree : DataTypeTree S) : Fields (Variant S) String where
  get := field?
  set := setField tree
  get_set := by
    intro value name field value' h
    obtain ⟨s, index, -, hkind, hindex, hlt, rfl⟩ := setField_some h
    show (s.typeDef.indexByName name).bind _ = some field
    rw [hindex, Option.bind_some, if_neg hkind, List.getElem?_set_self hlt]
  get_set_ne := by
    intro value name field value' other h hne
    obtain ⟨s, index, rfl, hkind, hindex, hlt, rfl⟩ := setField_some h
    show (s.typeDef.indexByName other).bind _ = (s.typeDef.indexByName other).bind _
    cases hother : s.typeDef.indexByName other with
    | none => rfl
    | some j =>
      have hj : index ≠ j := by
        rintro rfl
        have hname := fields_indexByName hindex
        rw [fields_indexByName hother] at hname
        exact hne (Option.some.inj hname)
      rw [Option.bind_some, Option.bind_some, if_neg hkind, if_neg hkind,
        List.getElem?_set_ne hj]

/-! ## Reading and writing along a path -/

/-- The path without its empty names. -/
def named (path : List String) : List String := path.filter fun name => !name.isEmpty

/-- Neither is on the way of the other. -/
def Unrelated (path other : List String) : Prop :=
  ¬named path <+: named other ∧ ¬named other <+: named path

/-- What the fields lead to when empty names are names of fields too. -/
def fieldAt (tree : DataTypeTree S) : Variant S → List String → Option (Variant S) :=
  (structureFields tree).walk

theorem named_of_not_mem {path : List String} (h : "" ∉ path) : named path = path := by
  refine List.filter_eq_self.2 fun name hname => ?_
  rw [Bool.not_eq_true', ← Bool.not_eq_true, String.isEmpty_iff]
  rintro rfl
  exact h hname

theorem not_mem_named (path : List String) : "" ∉ named path := by
  intro hmem
  have hname := (List.mem_filter.1 hmem).2
  cases hname

/-- The reader follows the fields of the names that are not empty. -/
theorem elementOf_eq (tree : DataTypeTree S) (value : Variant S) (path : List String) :
    elementOf value path = fieldAt tree value (named path) := by
  induction path generalizing value with
  | nil => rfl
  | cons name path ih =>
    rw [elementOf, List.foldlM_cons, elementStep]
    by_cases hname : name.isEmpty = true
    · rw [if_pos hname, named, List.filter_cons_of_neg (by simp [hname])]
      exact ih value
    · rw [if_neg hname, named, List.filter_cons_of_pos (by simp [hname])]
      exact congrArg _ (funext ih)

/-- A structure is more than its field. -/
theorem sizeOf_lt_of_setField {tree : DataTypeTree S} {value field value' : Variant S}
    {name : String} (h : setField tree value name field = some value') :
    sizeOf field < sizeOf value' := by
  obtain ⟨s, index, -, -, -, hlt, rfl⟩ := setField_some h
  have hmem : field ∈ s.data.set index field := List.mem_set hlt field
  have hsize := List.sizeOf_lt_of_mem hmem
  simp only [Variant.extensionObject.sizeOf_spec, DynamicStructure.mk.sizeOf_spec]
  omega

/-- The writer along fields there are: it replaces what they lead to, or a structure on the way
does not encode. -/
theorem withElement_of_fieldAt {tree : DataTypeTree S} {base : Variant S} (h : Typed tree base)
    (value : Variant S) {path : List String} (hfield : (fieldAt tree base path).isSome) :
    (∃ updated, withElement tree value base path = .ok updated ∧
      (structureFields tree).replace value base path = some updated) ∨
      ∃ message, withElement tree value base path = .error (.encode message) := by
  induction path generalizing base with
  | nil => exact Or.inl ⟨value, rfl, rfl⟩
  | cons name path ih =>
    obtain ⟨element, hwalk⟩ := Option.isSome_iff_exists.1 hfield
    obtain ⟨field, hget, hrest⟩ := Option.bind_eq_some_iff.1 hwalk
    cases h with
    | empty => cases hget
    | other x => cases hget
    | @object s hdef hkind hdata =>
      obtain ⟨index, hindex, hget'⟩ := Option.bind_eq_some_iff.1
        (show (s.typeDef.indexByName name).bind _ = some field from hget)
      rw [if_neg hkind] at hget'
      obtain ⟨hlt, -⟩ := List.getElem?_eq_some_iff.1 hget'
      have hwrite : withElement tree value (.extensionObject s) (name :: path) =
          (withElement tree value field path).bind fun field =>
            tree.newDynamic ⟨s.typeDef, 0, s.data.set index field⟩ := by
        simp only [withElement, asStructure, hdef, hindex, if_neg hkind, hget']
      have hreplace : (structureFields tree).replace value (.extensionObject s) (name :: path) =
          ((structureFields tree).replace value field path).bind fun field' =>
            setField tree (.extensionObject s) name field' := by
        rw [Fields.replace, hget]
        rfl
      have hset : ∀ field', setField tree (.extensionObject s) name field' =
          (tree.newDynamic ⟨s.typeDef, 0, s.data.set index field'⟩).toOption := by
        intro field'
        show (if _ then (s.typeDef.indexByName name).bind _ else none) = _
        rw [if_pos ⟨hdef, hkind⟩, hindex, Option.bind_some, if_pos hlt]
      rcases ih (hdata field (List.mem_of_getElem? hget')) (by rw [fieldAt, hrest]; rfl) with
        ⟨field', hok, hfield'⟩ | ⟨message, herror⟩
      · rw [hwrite, hok, hreplace, hfield', Option.bind_some, hset]
        show (∃ updated, tree.newDynamic _ = .ok updated ∧ _) ∨
          ∃ message, tree.newDynamic _ = .error (.encode message)
        rcases tree.newDynamic_cases ⟨s.typeDef, 0, s.data.set index field'⟩ with
          ⟨updated, hnew⟩ | ⟨message, hnew⟩
        · rw [hnew]
          exact Or.inl ⟨updated, rfl, rfl⟩
        · exact Or.inr ⟨message, hnew⟩
      · right
        exact ⟨message, by rw [hwrite, herror]; rfl⟩

/-- Where a field is missing the writer says so. -/
theorem withElement_of_none {tree : DataTypeTree S} {base : Variant S} (h : Typed tree base)
    (value : Variant S) {path : List String} (hfield : fieldAt tree base path = none) :
    withElement tree value base path = .error .unmapped := by
  induction path generalizing base with
  | nil => cases hfield
  | cons name path ih =>
    cases h with
    | empty => rfl
    | other x => rfl
    | @object s hdef hkind hdata =>
      cases hindex : s.typeDef.indexByName name with
      | none => simp only [withElement, asStructure, hdef, hindex]
      | some index =>
        have hget : field? (.extensionObject s) name = s.data[index]? := by
          show (s.typeDef.indexByName name).bind _ = _
          rw [hindex, Option.bind_some, if_neg hkind]
        cases hdat : s.data[index]? with
        | none => simp only [withElement, asStructure, hdef, hindex, if_neg hkind, hdat]
        | some field =>
          have hrest : fieldAt tree field path = none := by
            rw [fieldAt, Fields.walk] at hfield
            show (structureFields tree).walk field path = none
            rw [show (structureFields tree).get (.extensionObject s) name = some field from
              hget.trans hdat] at hfield
            exact hfield
          simp only [withElement, asStructure, hdef, hindex, if_neg hkind, hdat,
            ih (hdata field (List.mem_of_getElem? hdat)) hrest]
          rfl

/-- What a write along a path does to what is read along others. -/
theorem elementOf_replace_ne {tree : DataTypeTree S} {base updated value : Variant S}
    {path q : List String} (h : (structureFields tree).replace value base path = some updated)
    (h1 : ¬path <+: named q) (h2 : ¬named q <+: path) :
    elementOf updated q = elementOf base q := by
  rw [elementOf_eq tree, elementOf_eq tree]
  exact Fields.walk_replace_ne h h1 h2

/-- **Reader and writer agree** along a path without empty names.  With one the writer fails,
unless the structures have fields without a name: then it writes one of these, and it looks right
only if nothing was to be changed. -/
theorem element_round_trip_iff (tree : DataTypeTree S) {base : Variant S}
    (hbase : Typed tree base) {path : List String} {old value : Variant S}
    (hread : elementOf base path = some old)
    (hencodes : ∀ message, withElement tree value base path ≠ .error (.encode message)) :
    (∃ updated, withElement tree value base path = .ok updated ∧
      elementOf updated path = some value ∧
        ∀ q, Unrelated path q → elementOf updated q = elementOf base q) ↔
      "" ∉ path ∨ (fieldAt tree base path).isSome ∧ ¬named path <+: path ∧ value = old := by
  have hokay : ∀ {x : Variant S}, fieldAt tree base path = some x → ∃ updated,
      withElement tree value base path = .ok updated ∧
        (structureFields tree).replace value base path = some updated := by
    intro x hx
    rcases withElement_of_fieldAt hbase value (by rw [hx]; rfl) with hok | ⟨message, herror⟩
    · exact hok
    · exact absurd herror (hencodes message)
  have hwalk : fieldAt tree base (named path) = some old := by rw [← elementOf_eq, hread]
  constructor
  · rintro ⟨updated, hok, hvalue, -⟩
    by_cases hempty : "" ∈ path
    · right
      cases hfield : fieldAt tree base path with
      | none =>
        rw [withElement_of_none hbase value hfield] at hok
        cases hok
      | some x =>
        obtain ⟨updated', hok', hreplace⟩ := hokay hfield
        obtain rfl : updated' = updated := Except.ok.inj (hok'.symm.trans hok)
        rw [elementOf_eq tree] at hvalue
        have hnotpre : ¬named path <+: path := by
          rintro ⟨rest, heq⟩
          rw [← heq] at hreplace
          obtain ⟨field, field', -, hrest, hat⟩ := Fields.walk_replace_append hreplace
          have hne : rest ≠ [] := by
            rintro rfl
            rw [List.append_nil] at heq
            rw [← heq] at hempty
            exact not_mem_named path hempty
          have hlt := Fields.lt_of_replace (fun _ _ _ _ hset => sizeOf_lt_of_setField hset) hrest
            hne
          obtain rfl : field' = value := Option.some.inj (hat.symm.trans hvalue)
          omega
        have hpre : ¬path <+: named path := fun hpre =>
          not_mem_named path (hpre.subset hempty)
        have hsame := Fields.walk_replace_ne hreplace hpre hnotpre
        refine ⟨rfl, hnotpre, ?_⟩
        rw [← Option.some.injEq, ← hvalue, ← hwalk]
        exact hsame
    · exact Or.inl hempty
  · rintro (hnames | ⟨hfield, hnotpre, rfl⟩)
    · have hnamed := named_of_not_mem hnames
      rw [hnamed] at hwalk
      obtain ⟨updated, hok, hreplace⟩ := hokay hwalk
      refine ⟨updated, hok, ?_, fun q hq => ?_⟩
      · rw [elementOf_eq tree, hnamed]
        exact Fields.walk_replace hreplace
      · rw [Unrelated, hnamed] at hq
        exact elementOf_replace_ne hreplace hq.1 hq.2
    · obtain ⟨x, hx⟩ := Option.isSome_iff_exists.1 hfield
      obtain ⟨updated, hok, hreplace⟩ := hokay hx
      have hempty : "" ∈ path := by
        by_contra hnames
        apply hnotpre
        rw [named_of_not_mem hnames]
      have hbeside : ∀ q, ¬named q <+: named path → ¬path <+: named q ∧ ¬named q <+: path := by
        intro q hq
        refine ⟨fun hpre => not_mem_named q (hpre.subset hempty), fun hpre => hq ?_⟩
        have hfilter := hpre.filter fun name => !name.isEmpty
        rw [show (named q).filter (fun name => !name.isEmpty) = named q from
          named_of_not_mem (not_mem_named q)] at hfilter
        exact hfilter
      refine ⟨updated, hok, ?_, fun q hq => ?_⟩
      · have hpre : ¬path <+: named path := fun hpre => not_mem_named path (hpre.subset hempty)
        rw [elementOf_replace_ne hreplace hpre hnotpre, hread]
      · obtain ⟨h1, h2⟩ := hbeside q hq.2
        exact elementOf_replace_ne hreplace h1 h2

/-! ## A structure of two fields -/

def tankType : StructTypeInfo := ⟨1, .struct, ["level", "unit"]⟩

def tank : Variant Nat := .extensionObject ⟨tankType, 0, [.other 3, .other 1]⟩

def tankTree : DataTypeTree Nat where
  getStructType id := if id = 1 then some tankType else none
  refuses _ := none

theorem tank_typed : Typed tankTree tank := by
  refine .object rfl (by decide) fun v hv => ?_
  rcases List.mem_cons.1 hv with rfl | hv
  · exact .other 3
  · rw [List.mem_singleton.1 hv]
    exact .other 1

/-- The element `level.` is read, and cannot be written. -/
theorem level_dot_unwritable :
    ∃ path, path = (splitEscaped "level.".toList '.').map String.ofList ∧
      elementOf tank path = some (.other 3) ∧ Typed tankTree tank ∧
        withElement tankTree (.other 5) tank path = .error .unmapped :=
  ⟨["level", ""], by decide +kernel, rfl, tank_typed, rfl⟩

theorem element_round_trip_level :
    ∃ updated, withElement tankTree (.other 5) tank ["level"] = .ok updated ∧
      elementOf updated ["level"] = some (.other 5) ∧
        elementOf updated ["unit", ""] = some (.other 1) := by
  obtain ⟨updated, hok, hvalue, hrest⟩ := (element_round_trip_iff tankTree tank_typed
    (show elementOf tank ["level"] = some (.other 3) from rfl)
    (show ∀ message, withElement tankTree (.other 5) tank ["level"] ≠ .error (.encode message) from
      fun message h => by cases h)).2 (Or.inl (by decide))
  refine ⟨updated, hok, hvalue, ?_⟩
  rw [hrest ["unit", ""] ⟨by decide, by decide⟩]
  rfl

end OpcUa
