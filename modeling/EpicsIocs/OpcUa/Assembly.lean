import EpicsIocs.Lib.Fallible
import EpicsIocs.OpcUa.Elements
import Mathlib.Data.List.Pairwise

/-! # Elements put together

`take_outgoing` replaces the elements of the dirty leaves one after the other, each in what came
of the one before it.  For paths that are apart the order does not matter:

    an element is what was taken from its leaf, if it goes in, else what it was   (assemble_patched)
-/

namespace OpcUa

variable {S : Type}

/-! ## Values that the tree knows -/

/-- Where the tree has a definition of a structure in the value, it is the structure's own. -/
inductive Known (tree : DataTypeTree S) : Variant S → Prop
  | empty : Known tree .empty
  | other (value : S) : Known tree (.other value)
  | object {s : DynamicStructure (Variant S)}
      (hdef : ∀ typeDef, tree.getStructType s.typeDef.nodeId = some typeDef →
        typeDef = s.typeDef)
      (hdata : ∀ v ∈ s.data, Known tree v) : Known tree (.extensionObject s)

def IsUnion (value : Variant S) : Prop :=
  ∃ s, value = .extensionObject s ∧ s.typeDef.structureType = .union

/-- The paths go to different members of a union. -/
inductive PartAtUnion : Variant S → List String → List String → Prop
  | here {value : Variant S} {name other : String} {path path' : List String}
      (hkind : IsUnion value) (hne : name ≠ other) :
      PartAtUnion value (name :: path) (other :: path')
  | inside {value field : Variant S} {name : String} {path path' : List String}
      (hget : field? value name = some field) (h : PartAtUnion field path path') :
      PartAtUnion value (name :: path) (name :: path')

/-- One field is replaced; a union keeps no other. -/
structure Replaces (base updated : Variant S) (name : String) (field field' : Variant S) :
    Prop where
  new : field? updated name = some field'
  old : field? base name = some field ∨ field = .empty
  beside : ∀ other, other ≠ name → field? updated other = none ∧ IsUnion base ∨
    field? updated other = field? base other ∧ ¬IsUnion base
  kind : IsUnion updated → IsUnion base

section
variable {tree : DataTypeTree S} {value base updated : Variant S} {name : String}
  {path rest : List String}

theorem isUnion_iff {s : DynamicStructure (Variant S)} :
    IsUnion (.extensionObject s) ↔ s.typeDef.structureType = .union := by
  constructor
  · rintro ⟨s', heq, hkind⟩
    cases heq
    exact hkind
  · intro hkind
    exact ⟨s, rfl, hkind⟩

theorem elementOf_cons (hname : name ≠ "") (value : Variant S) (path : List String) :
    elementOf value (name :: path) =
      (field? value name).bind fun field => elementOf field path := by
  have hne : ¬name.isEmpty = true := by
    rw [String.isEmpty_iff]
    exact hname
  rw [elementOf, List.foldlM_cons, elementStep, if_neg hne]
  rfl

theorem indexByName_inj {typeDef : StructTypeInfo} {name other : String} {index : Nat}
    (h : typeDef.indexByName name = some index) (h' : typeDef.indexByName other = some index) :
    name = other := by
  have hname := fields_indexByName h
  rw [fields_indexByName h'] at hname
  exact (Option.some.inj hname).symm

/-- A member of a union that is made. -/
theorem replaces_union {s : DynamicStructure (Variant S)} {index : Nat} {field' : Variant S}
    (hkind : s.typeDef.structureType = .union) (hindex : s.typeDef.indexByName name = some index) :
    Replaces (.extensionObject s) (.extensionObject ⟨s.typeDef, index + 1, [field']⟩) name
      ((s.getFieldByName name).getD .empty) field' where
  new := by
    show (s.typeDef.indexByName name).bind _ = some field'
    rw [hindex, Option.bind_some, if_pos hkind, if_pos rfl]
    rfl
  old := by
    show s.getFieldByName name = _ ∨ _
    cases s.getFieldByName name with
    | none => exact .inr rfl
    | some field => exact .inl rfl
  beside other hne := by
    refine .inl ⟨?_, isUnion_iff.2 hkind⟩
    show (s.typeDef.indexByName other).bind _ = none
    cases hother : s.typeDef.indexByName other with
    | none => rfl
    | some i =>
      have hi : index + 1 ≠ i + 1 := by
        intro heq
        obtain rfl := Nat.succ.inj heq
        exact hne (indexByName_inj hother hindex)
      rw [Option.bind_some, if_pos hkind, if_neg hi]
  kind _ := isUnion_iff.2 hkind

/-- A field of a structure that is made. -/
theorem replaces_struct {s : DynamicStructure (Variant S)} {index : Nat}
    {field field' : Variant S} (hkind : s.typeDef.structureType ≠ .union)
    (hindex : s.typeDef.indexByName name = some index) (hget : s.data[index]? = some field) :
    Replaces (.extensionObject s) (.extensionObject ⟨s.typeDef, 0, s.data.set index field'⟩) name
      field field' where
  new := by
    obtain ⟨hlt, -⟩ := List.getElem?_eq_some_iff.1 hget
    show (s.typeDef.indexByName name).bind _ = some field'
    rw [hindex, Option.bind_some, if_neg hkind, List.getElem?_set_self hlt]
  old := by
    left
    show (s.typeDef.indexByName name).bind _ = some field
    rw [hindex, Option.bind_some, if_neg hkind, hget]
  beside other hne := by
    refine .inr ⟨?_, fun hunion => hkind (isUnion_iff.1 hunion)⟩
    show (s.typeDef.indexByName other).bind _ = (s.typeDef.indexByName other).bind _
    cases hother : s.typeDef.indexByName other with
    | none => rfl
    | some i =>
      have hi : index ≠ i := by
        rintro rfl
        exact hne (indexByName_inj hother hindex)
      rw [Option.bind_some, Option.bind_some, if_neg hkind, if_neg hkind, List.getElem?_set_ne hi]
  kind hunion := absurd (isUnion_iff.1 hunion) hkind

/-- What a write along a path does to the structure where the path starts. -/
theorem withElement_cons (hbase : Known tree base)
    (h : withElement tree value base (name :: rest) = .ok updated) :
    ∃ field field', withElement tree value field rest = .ok field' ∧
      Replaces base updated name field field' ∧ Known tree field ∧
        (Known tree field' → Known tree updated) := by
  cases hbase with
  | empty => cases h
  | other x => cases h
  | @object s hdef hdata =>
    rw [withElement] at h
    dsimp only [asStructure] at h
    cases htype : tree.getStructType s.typeDef.nodeId with
    | none =>
      rw [htype] at h
      cases h
    | some typeDef =>
      obtain rfl := hdef typeDef htype
      rw [htype] at h
      dsimp only at h
      cases hindex : s.typeDef.indexByName name with
      | none =>
        rw [hindex] at h
        cases h
      | some index =>
        rw [hindex] at h
        dsimp only at h
        by_cases hkind : s.typeDef.structureType = .union
        · rw [if_pos hkind] at h
          obtain ⟨field', hfield, hnew⟩ := Fallible.of_bind h
          obtain rfl := DataTypeTree.newDynamic_ok
            (show (tree.newDynamic _).toOption = some updated by rw [hnew]; rfl)
          refine ⟨_, field', hfield, replaces_union hkind hindex, ?_, fun hknown => ?_⟩
          · cases hget : s.getFieldByName name with
            | none => exact .empty
            | some field =>
              rw [DynamicStructure.getFieldByName, hindex, Option.bind_some, if_pos hkind] at hget
              obtain ⟨-, hget⟩ := Option.ite_none_right_eq_some.1 hget
              exact hdata field (List.mem_of_getElem? hget)
          · refine .object hdef fun v hv => ?_
            rw [List.mem_singleton.1 hv]
            exact hknown
        · rw [if_neg hkind] at h
          cases hget : s.data[index]? with
          | none =>
            rw [hget] at h
            cases h
          | some field =>
            rw [hget] at h
            obtain ⟨field', hfield, hnew⟩ := Fallible.of_bind h
            obtain rfl := DataTypeTree.newDynamic_ok
              (show (tree.newDynamic _).toOption = some updated by rw [hnew]; rfl)
            refine ⟨field, field', hfield, replaces_struct hkind hindex hget,
              hdata field (List.mem_of_getElem? hget), fun hknown => ?_⟩
            refine .object hdef fun v hv => ?_
            rcases List.mem_or_eq_of_mem_set hv with hv | rfl
            · exact hdata v hv
            · exact hknown

theorem withElement_empty (h : withElement tree value .empty path = .ok updated) : path = [] := by
  cases path with
  | nil => rfl
  | cons name rest => cases h

theorem known_withElement (hbase : Known tree base) (hvalue : Known tree value)
    (h : withElement tree value base path = .ok updated) : Known tree updated := by
  induction path generalizing base updated with
  | nil =>
    cases h
    exact hvalue
  | cons name rest ih =>
    obtain ⟨field, field', hfield, -, hknown, hup⟩ := withElement_cons hbase h
    exact hup (ih hknown hfield)

/-- What is written is found. -/
theorem elementOf_withElement (hbase : Known tree base) (hnames : "" ∉ path)
    (h : withElement tree value base path = .ok updated) : elementOf updated path = some value := by
  induction path generalizing base updated with
  | nil =>
    cases h
    rfl
  | cons name rest ih =>
    rw [List.mem_cons, not_or] at hnames
    obtain ⟨field, field', hfield, hreplaces, hknown, -⟩ := withElement_cons hbase h
    rw [elementOf_cons (Ne.symm hnames.1), hreplaces.new]
    exact ih hknown hnames.2 hfield

/-- What is not on the way, and in no union that changes its member, is as it was. -/
theorem elementOf_withElement_ne {q : List String} (hbase : Known tree base) (hnames : "" ∉ q)
    (h1 : ¬path <+: q) (h2 : ¬q <+: path) (hpart : ¬PartAtUnion base path q)
    (h : withElement tree value base path = .ok updated) :
    elementOf updated q = elementOf base q := by
  induction path generalizing base updated q with
  | nil => exact absurd List.nil_prefix h1
  | cons name rest ih =>
    cases q with
    | nil => exact absurd List.nil_prefix h2
    | cons other q =>
      rw [List.mem_cons, not_or] at hnames
      obtain ⟨field, field', hfield, hreplaces, hknown, -⟩ := withElement_cons hbase h
      rw [elementOf_cons (Ne.symm hnames.1), elementOf_cons (Ne.symm hnames.1)]
      by_cases hother : other = name
      · subst hother
        rcases hreplaces.old with hold | rfl
        · rw [hreplaces.new, hold]
          apply ih hknown hnames.2 _ _ _ hfield
          · exact fun hpre => h1 (List.cons_prefix_cons.2 ⟨rfl, hpre⟩)
          · exact fun hpre => h2 (List.cons_prefix_cons.2 ⟨rfl, hpre⟩)
          · exact fun hbelow => hpart (.inside hold hbelow)
        · -- A member that is not selected is written whole.
          obtain rfl := withElement_empty hfield
          exact absurd (List.cons_prefix_cons.2 ⟨rfl, List.nil_prefix⟩) h1
      · rcases hreplaces.beside other hother with ⟨-, hunion⟩ | ⟨hsame, -⟩
        · exact absurd (.here hunion (Ne.symm hother)) hpart
        · rw [hsame]

/-- Nothing parts at a union that did not before. -/
theorem partAtUnion_withElement {q r : List String} (hbase : Known tree base)
    (hq : path <+: q → q = path) (hr : path <+: r → r = path)
    (h : withElement tree value base path = .ok updated) (hpart : PartAtUnion updated q r) :
    PartAtUnion base q r := by
  induction path generalizing base updated q r with
  | nil =>
    obtain rfl := hq List.nil_prefix
    cases hpart
  | cons name rest ih =>
    obtain ⟨field, field', hfield, hreplaces, hknown, -⟩ := withElement_cons hbase h
    cases hpart with
    | here hkind hne => exact .here (hreplaces.kind hkind) hne
    | @inside _ member other q r hget hbelow =>
      by_cases hother : other = name
      · subst hother
        rw [hreplaces.new] at hget
        cases hget
        have hq' : rest <+: q → q = rest := fun hpre =>
          (List.cons.inj (hq (List.cons_prefix_cons.2 ⟨rfl, hpre⟩))).2
        have hr' : rest <+: r → r = rest := fun hpre =>
          (List.cons.inj (hr (List.cons_prefix_cons.2 ⟨rfl, hpre⟩))).2
        rcases hreplaces.old with hold | rfl
        · exact .inside hold (ih hknown hq' hr' hfield hbelow)
        · obtain rfl := withElement_empty hfield
          rw [hq' List.nil_prefix] at hbelow
          cases hbelow
      · rcases hreplaces.beside other hother with ⟨hnone, -⟩ | ⟨hsame, -⟩
        · rw [hnone] at hget
          cases hget
        · rw [hsame] at hget
          exact .inside hget hbelow

end

/-! ## What a Write takes from the leaves -/

/-- The paths do not go to one another, nor to different members of a union. -/
structure Apart (value : Variant S) (p q : List String) : Prop where
  left : ¬p <+: q
  right : ¬q <+: p
  union : ¬PartAtUnion value p q

/-- The value with elements at the paths `ps` replaced. -/
structure Patched (tree : DataTypeTree S) (ps : List (List String)) (value value' : Variant S) :
    Prop where
  known : Known tree value'
  beside : ∀ q, "" ∉ q → (∀ p ∈ ps, Apart value p q) → elementOf value' q = elementOf value q
  part : ∀ q r, (∀ p ∈ ps, p <+: q → q = p) → (∀ p ∈ ps, p <+: r → r = p) →
    PartAtUnion value' q r → PartAtUnion value q r

/-- `element_paths`: of the records bound to an element. -/
def elementPaths (links : List LinkInfo) : List (List String) :=
  (links.map (·.elementPath)).filter (· ≠ [])

section
variable (tree : DataTypeTree S) (lastValue : Option (Variant S))

/-- What the next element is replaced in. -/
def baseOf (result : Option (Variant S)) : Variant S := (result.or lastValue).getD .empty

def assembleStep (result : Option (Variant S)) (leaf : Leaf (Variant S)) : Option (Variant S) :=
  match leaf.takeOutgoing.1 with
  | none => result
  | some value => some (Item.assemble (elements tree) lastValue result leaf.link value)

/-- The value that is taken from the leaf, if it goes into the structure. -/
def carriedStep (result : Option (Variant S)) (leaf : Leaf (Variant S)) : Option (Variant S) :=
  leaf.takeOutgoing.1.filter fun value =>
    ((elements tree).withElement (baseOf lastValue result) leaf.link.elementPath value).isSome

def carriedFrom (result : Option (Variant S)) :
    List (Leaf (Variant S)) → List (Option (Variant S))
  | [] => []
  | leaf :: leaves =>
    carriedStep tree lastValue result leaf ::
      carriedFrom (assembleStep tree lastValue result leaf) leaves

end

section
variable {tree : DataTypeTree S} {lastValue result : Option (Variant S)} {value value' : Variant S}
  {p : List String} {ps : List (List String)}

theorem Patched.refl (h : Known tree value) (ps : List (List String)) :
    Patched tree ps value value where
  known := h
  beside _ _ _ := rfl
  part _ _ _ _ h := h

/-- One path more. -/
theorem Patched.cons {value'' : Variant S} (h : Patched tree [p] value value')
    (h' : Patched tree ps value' value'') (hps : ∀ q ∈ ps, ¬p <+: q) :
    Patched tree (p :: ps) value value'' where
  known := h'.known
  beside q hnames hq := by
    rw [h'.beside q hnames, h.beside q hnames]
    · intro p' hp'
      rw [List.mem_singleton.1 hp']
      exact hq p List.mem_cons_self
    · intro p' hp'
      have hapart := hq p' (List.mem_cons_of_mem _ hp')
      refine ⟨hapart.left, hapart.right, fun hpart => hapart.union (h.part p' q ?_ ?_ hpart)⟩
      · intro p'' hp'' hpre
        rw [List.mem_singleton.1 hp''] at hpre
        exact absurd hpre (hps p' hp')
      · intro p'' hp'' hpre
        rw [List.mem_singleton.1 hp''] at hpre
        exact absurd hpre (hq p List.mem_cons_self).left
  part q r hq hr hpart := by
    apply h.part q r
    · intro p' hp'
      rw [List.mem_singleton.1 hp']
      exact hq p List.mem_cons_self
    · intro p' hp'
      rw [List.mem_singleton.1 hp']
      exact hr p List.mem_cons_self
    · apply h'.part q r _ _ hpart
      · exact fun p' hp' => hq p' (List.mem_cons_of_mem _ hp')
      · exact fun p' hp' => hr p' (List.mem_cons_of_mem _ hp')

theorem Patched.of_withElement {element : Variant S} (hvalue : Known tree value)
    (helement : Known tree element) (h : withElement tree element value p = .ok value') :
    Patched tree [p] value value' where
  known := known_withElement hvalue helement h
  beside q hnames hq := by
    obtain ⟨h1, h2, hpart⟩ := hq p List.mem_cons_self
    exact elementOf_withElement_ne hvalue hnames h1 h2 hpart h
  part q r hq hr hpart :=
    partAtUnion_withElement hvalue (hq p List.mem_cons_self) (hr p List.mem_cons_self) h hpart

/-- What a leaf of an element does to the value that is assembled. -/
theorem assembleStep_patched {leaf : Leaf (Variant S)} (hbase : Known tree (baseOf lastValue result))
    (hpath : leaf.link.elementPath ≠ []) (hnames : "" ∉ leaf.link.elementPath)
    (houtgoing : ∀ v, leaf.outgoing = some v → Known tree v) :
    Patched tree [leaf.link.elementPath] (baseOf lastValue result)
        (baseOf lastValue (assembleStep tree lastValue result leaf)) ∧
      elementOf (baseOf lastValue (assembleStep tree lastValue result leaf)) leaf.link.elementPath =
        (carriedStep tree lastValue result leaf).or
          (elementOf (baseOf lastValue result) leaf.link.elementPath) := by
  cases htaken : leaf.takeOutgoing.1 with
  | none =>
    have hstep : assembleStep tree lastValue result leaf = result := by
      rw [assembleStep, htaken]
    rw [hstep, carriedStep, htaken]
    exact ⟨.refl hbase _, rfl⟩
  | some v =>
    have hknown : Known tree v := by
      apply houtgoing
      rw [Leaf.takeOutgoing] at htaken
      split at htaken
      · exact htaken
      · cases htaken
    have hstep : baseOf lastValue (assembleStep tree lastValue result leaf) =
        ((withElement tree v (baseOf lastValue result) leaf.link.elementPath).toOption).getD
          (baseOf lastValue result) := by
      rw [assembleStep, htaken]
      show Item.assemble (elements tree) lastValue result leaf.link v = _
      rw [Item.assemble, if_neg hpath]
      rfl
    rw [hstep, carriedStep, htaken]
    show Patched tree _ _ ((withElement tree v _ _).toOption.getD _) ∧ _ =
      ((some v).filter fun value => (withElement tree value (baseOf lastValue result)
        leaf.link.elementPath).toOption.isSome).or _
    cases hwrite : withElement tree v (baseOf lastValue result) leaf.link.elementPath with
    | error e =>
      refine ⟨.refl hbase _, ?_⟩
      rw [Option.filter_some, hwrite]
      rfl
    | ok updated =>
      refine ⟨.of_withElement hbase hknown hwrite, ?_⟩
      rw [Option.filter_some, hwrite]
      exact elementOf_withElement hbase hnames hwrite

theorem PartAtUnion.symm {q r : List String} (h : PartAtUnion value q r) :
    PartAtUnion value r q := by
  induction h with
  | here hkind hne => exact .here hkind hne.symm
  | inside hget _ ih => exact .inside hget ih

theorem Apart.symm {q r : List String} (h : Apart value q r) : Apart value r q :=
  ⟨h.right, h.left, fun hpart => h.union hpart.symm⟩

theorem Apart.patched {q r : List String} (h : Apart value q r) (hvalue : Patched tree [p] value value')
    (hq : ¬p <+: q) (hr : ¬p <+: r) : Apart value' q r where
  left := h.left
  right := h.right
  union hpart := by
    refine h.union (hvalue.part q r ?_ ?_ hpart)
    · intro p' hp' hpre
      rw [List.mem_singleton.1 hp'] at hpre
      exact absurd hpre hq
    · intro p' hp' hpre
      rw [List.mem_singleton.1 hp'] at hpre
      exact absurd hpre hr

theorem mem_elementPaths {links : List LinkInfo} {link : LinkInfo} (h : link ∈ links)
    (hpath : link.elementPath ≠ []) : link.elementPath ∈ elementPaths links := by
  apply List.mem_filter.2
  refine ⟨List.mem_map.2 ⟨link, h, rfl⟩, ?_⟩
  rw [decide_eq_true_iff]
  exact hpath

/-- What the leaves do to it, one after the other. -/
theorem assemble_patched {leaves : List (Leaf (Variant S))}
    (hbase : Known tree (baseOf lastValue result))
    (hnames : ∀ leaf ∈ leaves, "" ∉ leaf.link.elementPath)
    (hnode : ∀ leaf ∈ leaves, leaf.link.elementPath = [] → leaf.takeOutgoing.1 = none)
    (houtgoing : ∀ leaf ∈ leaves, ∀ v, leaf.outgoing = some v → Known tree v)
    (hapart : (elementPaths (leaves.map (·.link))).Pairwise (Apart (baseOf lastValue result))) :
    Patched tree (elementPaths (leaves.map (·.link))) (baseOf lastValue result)
        (baseOf lastValue (leaves.foldl (assembleStep tree lastValue) result)) ∧
      ∀ (j : Nat) (leaf : Leaf (Variant S)), leaves[j]? = some leaf → leaf.link.elementPath ≠ [] →
        elementOf (baseOf lastValue (leaves.foldl (assembleStep tree lastValue) result))
            leaf.link.elementPath =
          ((carriedFrom tree lastValue result leaves).getD j none).or
            (elementOf (baseOf lastValue result) leaf.link.elementPath) := by
  induction leaves generalizing result with
  | nil =>
    refine ⟨.refl hbase _, fun j leaf hleaf => ?_⟩
    cases hleaf
  | cons leaf leaves ih =>
    have hmem : ∀ other ∈ leaves, other ∈ leaf :: leaves := fun _ => List.mem_cons_of_mem _
    rw [List.foldl_cons]
    by_cases hpath : leaf.link.elementPath = []
    · have hsame : assembleStep tree lastValue result leaf = result := by
        rw [assembleStep, hnode leaf List.mem_cons_self hpath]
      have hpaths : elementPaths ((leaf :: leaves).map (·.link)) =
          elementPaths (leaves.map (·.link)) := by
        rw [elementPaths, List.map_cons, List.map_cons, List.filter_cons_of_neg (by simp [hpath])]
        rfl
      rw [hpaths] at hapart ⊢
      obtain ⟨hpatched, helements⟩ := ih (hsame.symm ▸ hbase) (fun l hl => hnames l (hmem l hl))
        (fun l hl => hnode l (hmem l hl)) (fun l hl => houtgoing l (hmem l hl))
        (hsame.symm ▸ hapart)
      rw [hsame] at hpatched helements ⊢
      refine ⟨hpatched, fun j other hother hne => ?_⟩
      cases j with
      | zero =>
        cases hother
        exact absurd hpath hne
      | succ j =>
        rw [helements j other hother hne, carriedFrom, hsame, List.getD_cons_succ]
    · have hpaths : elementPaths ((leaf :: leaves).map (·.link)) =
          leaf.link.elementPath :: elementPaths (leaves.map (·.link)) := by
        rw [elementPaths, List.map_cons, List.map_cons, List.filter_cons_of_pos (by simp [hpath])]
        rfl
      rw [hpaths, List.pairwise_cons] at hapart
      obtain ⟨hfirst, hrest⟩ := hapart
      obtain ⟨hstep, helement⟩ := @assembleStep_patched S tree lastValue result leaf hbase hpath
        (hnames leaf List.mem_cons_self) (houtgoing leaf List.mem_cons_self)
      have hrest' : (elementPaths (leaves.map (·.link))).Pairwise
          (Apart (baseOf lastValue (assembleStep tree lastValue result leaf))) :=
        hrest.imp_of_mem fun hq hr h =>
          h.patched hstep (hfirst _ hq).left (hfirst _ hr).left
      obtain ⟨hpatched, helements⟩ := ih hstep.known (fun l hl => hnames l (hmem l hl))
        (fun l hl => hnode l (hmem l hl)) (fun l hl => houtgoing l (hmem l hl)) hrest'
      rw [hpaths]
      refine ⟨hstep.cons hpatched fun q hq => (hfirst q hq).left, fun j other hother hne => ?_⟩
      cases j with
      | zero =>
        cases hother
        rw [carriedFrom, List.getD_cons_zero, ← helement]
        apply hpatched.beside _ (hnames leaf List.mem_cons_self)
        intro q hq
        have happart := (hfirst q hq).symm
        refine ⟨happart.left, happart.right, fun hpart => happart.union ?_⟩
        apply hstep.part q leaf.link.elementPath _ _ hpart
        · intro p hp hpre
          rw [List.mem_singleton.1 hp] at hpre
          exact absurd hpre happart.right
        · intro p hp _
          exact (List.mem_singleton.1 hp).symm
      | succ j =>
        have hother' : leaves[j]? = some other := hother
        have hbeside : elementOf (baseOf lastValue (assembleStep tree lastValue result leaf))
            other.link.elementPath =
              elementOf (baseOf lastValue result) other.link.elementPath := by
          apply hstep.beside _ (hnames other (List.mem_of_getElem? hother))
          intro p hp
          rw [List.mem_singleton.1 hp]
          exact hfirst _ (mem_elementPaths
            (List.mem_map.2 ⟨other, List.mem_of_getElem? hother', rfl⟩) hne)
        rw [helements j other hother' hne, carriedFrom, List.getD_cons_succ, hbeside]

theorem Apart.empty {q r : List String} {value : Variant S} (h : Apart value q r) :
    Apart (.empty : Variant S) q r where
  left := h.left
  right := h.right
  union hpart := by
    cases hpart with
    | here hkind _ =>
      obtain ⟨s, heq, -⟩ := hkind
      cases heq
    | inside hget _ => cases hget

/-- Between paths of a list in which none goes to another. -/
theorem eq_of_prefix {value : Variant S} {paths : List (List String)}
    (h : paths.Pairwise (Apart value)) {p q : List String} (hp : p ∈ paths) (hq : q ∈ paths)
    (hpre : p <+: q) : q = p := by
  by_contra hne
  have hsymm : Std.Symm (Apart value) := ⟨fun _ _ => Apart.symm⟩
  exact (h.forall hp hq (Ne.symm hne)).left hpre

theorem Patched.apart {value value' : Variant S} {paths : List (List String)}
    (h : Patched tree paths value value') (hapart : paths.Pairwise (Apart value)) :
    paths.Pairwise (Apart value') := by
  refine hapart.imp_of_mem fun hq hr hqr => ⟨hqr.left, hqr.right, fun hpart => hqr.union ?_⟩
  exact h.part _ _ (fun p hp hpre => eq_of_prefix hapart hp hq hpre)
    (fun p hp hpre => eq_of_prefix hapart hp hr hpre) hpart

end

end OpcUa
