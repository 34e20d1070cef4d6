import Mathlib.Algebra.Group.Basic
import Mathlib.Algebra.Order.Group.Int
import Mathlib.Data.List.Nodup
import Mathlib.Order.MinMax
import EpicsIocs.Lib.Fallible
import EpicsIocs.Lib.Filling

/-! # Coordinated deferred moves

`cs_groups.rs`: the groups of coordinate system axes, and the line for PROG 101 that moves the
deferred axes of one coordinate system and holds its other axes where they are.

The line is made from two maps by letter, one for the deferred axes and one for the held ones.
Nothing compares the letters, within the first map or between the two, and nothing asks whether a
demand is relative. `commanded_iff`: each letter gets its axis's demand, once, exactly if the
letters of the deferred axes differ among themselves and from those of the held axes, no relative
move starts away from 0, and not every move time is negative. -/

namespace Pmac

open Std (TreeMap)
open Filling Fallible

/-! ## The code -/

/-- The Q variable that PROG 101 reads the demand of a letter from. -/
def axisLetterToQ (letter : Char) : Option Nat :=
  match letter with
  | 'A' => some 71
  | 'B' => some 72
  | 'C' => some 73
  | 'U' => some 74
  | 'V' => some 75
  | 'W' => some 76
  | 'X' => some 77
  | 'Y' => some 78
  | 'Z' => some 79
  | _ => none

def qMoveTime : Nat := 70
def coordMoveProg : Nat := 101

structure CsAxisDef where
  definition : String
  coordSys : Int
  deriving DecidableEq, Repr

structure CsGroup where
  name : String
  axisDefs : TreeMap Int CsAxisDef

/-- A demand in counts, and the move's estimated time. -/
structure DeferredMove (R : Type) where
  position : R
  relative : Bool
  timeMs : R
  deriving DecidableEq, Repr

structure AxisPoll (R : Type) where
  position : R
  moving : Bool
  deriving DecidableEq, Repr

structure CsGroups where
  groups : TreeMap Int CsGroup
  current : Int

/-- The letter of a definition that is one character. -/
def singleLetter (defn : String) : Option Char :=
  match defn.toList with
  | [c] => some c
  | _ => none

/-- What a coordinated release sends: the abort, and then the line, none if no axis is deferred. -/
structure CoordRelease where
  abort : Option String
  line : Except String (Option String)

/-- The line for PROG 101, before it is text. -/
structure CoordLine (R : Type) where
  coordSys : Int
  maxTimeMs : R
  /-- Q variables with their demands, in the order of the line. -/
  demands : List (Nat × R)
  deriving DecidableEq, Repr

/-- `fixed` is `CFloat` with its number of decimals. -/
def CoordLine.text {R : Type} (fixed : Nat → R → String) (l : CoordLine R) : String :=
  let moveStr := String.join (l.demands.map fun d => s!" Q{d.1}={fixed 6 d.2}")
  s!"&{l.coordSys} Q{qMoveTime}={fixed 6 l.maxTimeMs} {moveStr} B{coordMoveProg}R"

/-- What the loop over the deferred moves carries. -/
structure Moves (R : Type) where
  coordSys : Int
  maxTimeMs : R
  moves : TreeMap Char (Nat × R)

namespace CsGroups

def new : CsGroups := ⟨∅, 0⟩

def addGroup (g : CsGroups) (id : Int) (name : String) : CsGroups :=
  { g with groups := g.groups.insert id ⟨name, ∅⟩ }

def addAxis (g : CsGroups) (id axis : Int) (definition : String) (coordSys : Int) :
    Except String CsGroups :=
  match g.groups[id]? with
  | none => .error s!"coordinate system group {id} has not been created"
  | some group =>
    let axisDefs := group.axisDefs.insert axis ⟨definition, coordSys⟩
    .ok { g with groups := g.groups.insert id { group with axisDefs } }

def select (g : CsGroups) (id : Int) : CsGroups := { g with current := id }

def currentDefs (g : CsGroups) : TreeMap Int CsAxisDef :=
  match g.groups[g.current]? with
  | some group => group.axisDefs
  | none => ∅

def axisCoordSys (g : CsGroups) (axis : Int) : Int :=
  match g.currentDefs[axis]? with
  | some d => d.coordSys
  | none => 0

def definition (g : CsGroups) (axis : Int) : Option String :=
  (g.currentDefs[axis]?).map CsAxisDef.definition

def switchCommands (g : CsGroups) (id : Int) : Except String (List String) :=
  match g.groups[id]? with
  | none => .error s!"invalid coordinate system group number {id}"
  | some group =>
    .ok (group.axisDefs.toList.map fun x => s!"&{x.2.coordSys} #{x.1}->{x.2.definition}")

def abortCommand (g : CsGroups) (axis : Int) : Option String :=
  if g.axisCoordSys axis = 0 then none else some s!"&{g.axisCoordSys axis}A"

end CsGroups

/-- The single letter of a definition, with its Q variable. -/
def letterQ (defn : String) : Option (Char × Nat) :=
  (singleLetter defn).bind fun l => (axisLetterToQ l).map fun q => (l, q)

section
variable {R : Type} [AddCommGroup R] [LinearOrder R]

/-- `poll.get(axis)`, or the default. -/
def lastPoll (poll : TreeMap Int (AxisPoll R)) (axis : Int) : AxisPoll R :=
  poll[axis]?.getD ⟨0, false⟩

namespace CsGroups

/-- One deferred move: `relative` is not read. -/
def move (g : CsGroups) (s : Moves R) (axis : Int) (m : DeferredMove R) : Except String (Moves R) :=
  let cs := g.axisCoordSys axis
  if s.coordSys = 0 ∧ cs = 0 then
    .error s!"deferred coordinated move on real axis {axis} not in a coordinate system"
  else if s.coordSys ≠ 0 ∧ cs ≠ s.coordSys then
    .error s!"deferred coordinated move on multiple coordinate systems {s.coordSys} and {cs}"
  else
    let defn := (g.definition axis).getD ""
    match letterQ defn with
    | none => .error (s!"illegal deferred coordinated move on real axis {axis} defined as " ++
        s!"{defn} in CS {cs}")
    | some (letter, q) =>
      .ok ⟨cs, max s.maxTimeMs m.timeMs, s.moves.insert letter (q, m.position)⟩

/-- One axis of the current group: if it is in the coordinate system and not deferred, it is held.
An expression is no single letter, and is passed over. -/
def hold (coordSys : Int) (deferred : TreeMap Int (DeferredMove R))
    (poll : TreeMap Int (AxisPoll R)) (holds : TreeMap Char (Nat × R)) (axis : Int)
    (d : CsAxisDef) : Except String (TreeMap Char (Nat × R)) :=
  if d.coordSys ≠ coordSys ∨ axis ∈ deferred then .ok holds
  else if (lastPoll poll axis).moving then
    .error (s!"illegal deferred coordinated move - real axis {axis} in CS " ++
      s!"{coordSys} is already moving")
  else
    match letterQ d.definition with
    | some (letter, q) => .ok (holds.insert letter (q, (lastPoll poll axis).position))
    | none => .ok holds

/-- `coord_move_line`, before it is text. -/
def coordMove (g : CsGroups) (deferred : TreeMap Int (DeferredMove R))
    (poll : TreeMap Int (AxisPoll R)) : Except String (CoordLine R) :=
  (deferred.foldlM g.move ⟨0, 0, ∅⟩).bind fun s =>
  (g.currentDefs.foldlM (hold s.coordSys deferred poll) ∅).map fun holds =>
    ⟨s.coordSys, s.maxTimeMs, s.moves.toList.map Prod.snd ++ holds.toList.map Prod.snd⟩

def coordMoveLine (fixed : Nat → R → String) (g : CsGroups)
    (deferred : TreeMap Int (DeferredMove R)) (poll : TreeMap Int (AxisPoll R)) :
    Except String String :=
  (g.coordMove deferred poll).map (CoordLine.text fixed)

def coordMoveCommands (fixed : Nat → R → String) (g : CsGroups)
    (deferred : TreeMap Int (DeferredMove R)) (poll : TreeMap Int (AxisPoll R)) : CoordRelease where
  abort := deferred.toList.head?.bind fun x => g.abortCommand x.1
  line := if deferred.isEmpty then .ok none
    else (coordMoveLine fixed g deferred poll).map some

end CsGroups

/-- The line of the uncoordinated release jogs each axis, by its distance if the move is relative. -/
def fastDeferredCommand (fixed : Nat → R → String) (deferred : TreeMap Int (DeferredMove R)) :
    String :=
  String.join (deferred.toList.map fun x =>
    let op := if x.2.relative then "J^" else "J="
    s!" #{x.1}{op}{fixed 2 x.2.position}")

def deferredFastMoves : Int := 1
def deferredCoordinatedMoves : Int := 2

/-- What the controller keeps of deferred moves. -/
structure Deferral (R : Type) where
  csGroups : CsGroups
  deferred : TreeMap Int (DeferredMove R)
  pollCache : TreeMap Int (AxisPoll R)
  movesDeferred : Int

namespace Deferral

def deferMove (s : Deferral R) (axis : Int) (m : DeferredMove R) : Deferral R :=
  { s with deferred := s.deferred.insert axis m }

def clearDeferred (s : Deferral R) (axis : Int) : Deferral R :=
  { s with deferred := s.deferred.erase axis }

def recordPoll (s : Deferral R) (axis : Int) (poll : AxisPoll R) : Deferral R :=
  { s with pollCache := s.pollCache.insert axis poll }

/-- The commands of a release: a coordinated one aborts also if it is then refused. -/
def release (fixed : Nat → R → String) (s : Deferral R) : List String :=
  if s.movesDeferred = deferredFastMoves then [fastDeferredCommand fixed s.deferred]
  else if s.movesDeferred = deferredCoordinatedMoves then
    let r := s.csGroups.coordMoveCommands fixed s.deferred s.pollCache
    r.abort.toList ++ (r.line.toOption.join).toList
  else []

/-- Writing 0 sends what is deferred, and nothing is deferred from then on. -/
def setMovesDeferred (fixed : Nat → R → String) (s : Deferral R) (value : Int) :
    List String × Deferral R :=
  if value = 0 then (s.release fixed, { s with deferred := ∅, movesDeferred := value })
  else ([], { s with movesDeferred := value })

end Deferral

/-! ## The claim -/

namespace CsGroups

/-- The letter of an axis of the current group, if it has a Q variable. -/
def letter (g : CsGroups) (axis : Int) : Option Char :=
  (letterQ ((g.definition axis).getD "")).map Prod.fst

/-- An axis of the coordinate system that holds. -/
def Held (g : CsGroups) (deferred : TreeMap Int (DeferredMove R)) (cs axis : Int) : Prop :=
  g.axisCoordSys axis = cs ∧ axis ∉ deferred

/-- The deferred axes are lettered axes of the coordinate system `cs`, whose other axes rest. -/
structure Accepted (g : CsGroups) (deferred : TreeMap Int (DeferredMove R))
    (poll : TreeMap Int (AxisPoll R)) (cs : Int) : Prop where
  some_deferred : ∃ axis, axis ∈ deferred
  mapped : cs ≠ 0
  together : ∀ axis ∈ deferred, g.axisCoordSys axis = cs
  lettered : ∀ axis ∈ deferred, ∃ l, g.letter axis = some l
  resting : ∀ axis, g.Held deferred cs axis → (lastPoll poll axis).moving = false

def LettersDiffer (g : CsGroups) (deferred : TreeMap Int (DeferredMove R)) : Prop :=
  ∀ a ∈ deferred, ∀ b ∈ deferred, g.letter a = g.letter b → a = b

end CsGroups

/-- Where the move of the axis ends. -/
def DeferredMove.demand (poll : TreeMap Int (AxisPoll R)) (axis : Int) (m : DeferredMove R) : R :=
  if m.relative then (lastPoll poll axis).position + m.position else m.position

/-- The line is for `cs`, takes the longest of the times, and has one demand for each letter in
use: that of the deferred axis, or the position of a held one. -/
structure CoordLine.Right (g : CsGroups) (deferred : TreeMap Int (DeferredMove R))
    (poll : TreeMap Int (AxisPoll R)) (cs : Int) (l : CoordLine R) : Prop where
  coordSys : l.coordSys = cs
  time : (∃ (axis : Int) (m : DeferredMove R), deferred[axis]? = some m ∧ m.timeMs = l.maxTimeMs) ∧
    ∀ (axis : Int) (m : DeferredMove R), deferred[axis]? = some m → m.timeMs ≤ l.maxTimeMs
  once : (l.demands.map Prod.fst).Nodup
  used : ∀ q, q ∈ l.demands.map Prod.fst ↔
    ∃ axis letter, g.axisCoordSys axis = cs ∧ g.letter axis = some letter ∧
      axisLetterToQ letter = some q
  moved : ∀ (axis : Int) (m : DeferredMove R) letter q, deferred[axis]? = some m → g.letter axis = some letter →
    axisLetterToQ letter = some q → (q, m.demand poll axis) ∈ l.demands
  held : ∀ axis letter q, g.Held deferred cs axis → g.letter axis = some letter →
    axisLetterToQ letter = some q → (∀ a ∈ deferred, g.letter a ≠ some letter) →
    ∃ other, g.Held deferred cs other ∧ g.letter other = some letter ∧
      (q, (lastPoll poll other).position) ∈ l.demands

/-- A release gives no line for no deferred axis, a right line for axes of one coordinate system
whose letters differ, and otherwise an error. -/
structure Commanded (fixed : Nat → R → String) (g : CsGroups)
    (deferred : TreeMap Int (DeferredMove R)) (poll : TreeMap Int (AxisPoll R)) : Prop where
  none_iff : (g.coordMoveCommands fixed deferred poll).line = .ok none ↔ ∀ axis, axis ∉ deferred
  some_iff : (∃ line, (g.coordMoveCommands fixed deferred poll).line = .ok (some line)) ↔
    (∃ cs, g.Accepted deferred poll cs) ∧ g.LettersDiffer deferred
  right : ∀ line, (g.coordMoveCommands fixed deferred poll).line = .ok (some line) →
    ∃ cs l, g.Accepted deferred poll cs ∧ g.coordMove deferred poll = .ok l ∧
      line = l.text fixed ∧ l.Right g deferred poll cs

/-- What the code does not check. -/
structure CsGroups.Tidy (g : CsGroups) (deferred : TreeMap Int (DeferredMove R))
    (poll : TreeMap Int (AxisPoll R)) (cs : Int) : Prop where
  differ : g.LettersDiffer deferred
  unshared : ∀ a ∈ deferred, ∀ b, g.Held deferred cs b → g.letter a ≠ g.letter b
  absolute : ∀ (axis : Int) (m : DeferredMove R), deferred[axis]? = some m → m.relative = true →
    (lastPoll poll axis).position = 0
  timed : ∃ (axis : Int) (m : DeferredMove R), deferred[axis]? = some m ∧ 0 ≤ m.timeMs

end

section
variable {R : Type}

/-! ## The letters -/

theorem axisLetterToQ_inj {a b : Char} {q : Nat} (ha : axisLetterToQ a = some q)
    (hb : axisLetterToQ b = some q) : a = b := by
  unfold axisLetterToQ at ha hb
  split at ha <;> cases ha <;> split at hb <;> first | rfl | cases hb

theorem letterQ_eq_some {defn : String} {l : Char} {q : Nat} :
    letterQ defn = some (l, q) ↔ singleLetter defn = some l ∧ axisLetterToQ l = some q := by
  unfold letterQ
  rw [Option.bind_eq_some_iff]
  constructor
  · rintro ⟨c, hc, hq⟩
    obtain ⟨q', hq', h⟩ := Option.map_eq_some_iff.1 hq
    cases h
    exact ⟨hc, hq'⟩
  · rintro ⟨hl, hq⟩
    exact ⟨l, hl, by rw [hq]; rfl⟩

/-- Every demand stands under the letter of its Q variable. -/
def Lettered (m : TreeMap Char (Nat × R)) : Prop :=
  ∀ l e, m[l]? = some e → axisLetterToQ l = some e.1

theorem mem_values {m : TreeMap Char (Nat × R)} {e : Nat × R} :
    e ∈ m.toList.map Prod.snd ↔ ∃ l : Char, m[l]? = some e := by
  rw [List.mem_map]
  constructor
  · rintro ⟨⟨l, e'⟩, hm, rfl⟩
    exact ⟨l, TreeMap.mem_toList_iff_getElem?_eq_some.1 hm⟩
  · rintro ⟨l, hl⟩
    exact ⟨(l, e), TreeMap.mem_toList_iff_getElem?_eq_some.2 hl, rfl⟩

theorem Lettered.mem_qs {m : TreeMap Char (Nat × R)} (h : Lettered m) {q : Nat} :
    q ∈ (m.toList.map Prod.snd).map Prod.fst ↔ ∃ l ∈ m, axisLetterToQ l = some q := by
  rw [List.mem_map]
  constructor
  · rintro ⟨e, he, rfl⟩
    obtain ⟨l, hl⟩ := mem_values.1 he
    exact ⟨l, TreeMap.mem_iff_isSome_getElem?.2 (by rw [hl]; rfl), h l e hl⟩
  · rintro ⟨l, hl, hq⟩
    obtain ⟨e, he⟩ := Option.isSome_iff_exists.1 (TreeMap.mem_iff_isSome_getElem?.1 hl)
    exact ⟨e, mem_values.2 ⟨l, he⟩, Option.some.inj ((h l e he).symm.trans hq)⟩

theorem Lettered.nodup {m : TreeMap Char (Nat × R)} (h : Lettered m) :
    ((m.toList.map Prod.snd).map Prod.fst).Nodup := by
  rw [List.map_map]
  have hkeys := TreeMap.distinct_keys_toList (t := m)
  unfold List.Nodup
  rw [List.pairwise_map]
  refine hkeys.imp_of_mem ?_
  rintro ⟨a, e⟩ ⟨b, e'⟩ ha hb hne heq
  rw [TreeMap.mem_toList_iff_getElem?_eq_some] at ha hb
  have hqa := h a e ha
  have hqb := h b e' hb
  simp only [Function.comp_apply] at heq
  rw [heq] at hqa
  exact hne (Std.compare_eq_iff_eq.2 (axisLetterToQ_inj hqa hqb))

namespace CsGroups

variable {g : CsGroups} {deferred : TreeMap Int (DeferredMove R)} {cs : Int}

theorem letter_eq_some {axis : Int} {l : Char} :
    g.letter axis = some l ↔ ∃ q, letterQ ((g.definition axis).getD "") = some (l, q) := by
  unfold letter
  rw [Option.map_eq_some_iff]
  constructor
  · rintro ⟨⟨c, q⟩, h, rfl⟩
    exact ⟨q, h⟩
  · rintro ⟨q, h⟩
    exact ⟨(l, q), h, rfl⟩

theorem letter_q {axis : Int} {l : Char} (h : g.letter axis = some l) :
    ∃ q, axisLetterToQ l = some q := by
  obtain ⟨q, hq⟩ := letter_eq_some.1 h
  exact ⟨q, (letterQ_eq_some.1 hq).2⟩

theorem letterQ_iff {axis : Int} {l : Char} {q : Nat} :
    letterQ ((g.definition axis).getD "") = some (l, q) ↔
      g.letter axis = some l ∧ axisLetterToQ l = some q := by
  rw [letter_eq_some]
  constructor
  · exact fun h => ⟨⟨q, h⟩, (letterQ_eq_some.1 h).2⟩
  · rintro ⟨⟨q', h⟩, hq⟩
    exact letterQ_eq_some.2 ⟨(letterQ_eq_some.1 h).1, hq⟩

theorem axisCoordSys_eq {axis : Int} (hcs : cs ≠ 0) :
    g.axisCoordSys axis = cs ↔ ∃ d, g.currentDefs[axis]? = some d ∧ d.coordSys = cs := by
  unfold axisCoordSys
  cases h : g.currentDefs[axis]? with
  | none => simp [hcs.symm]
  | some d => simp

theorem definition_of_def {axis : Int} {d : CsAxisDef} (h : g.currentDefs[axis]? = some d) :
    (g.definition axis).getD "" = d.definition := by
  rw [definition, h]
  rfl

theorem mem_deferred {axis : Int} : axis ∈ deferred ↔ ∃ m, (axis, m) ∈ deferred.toList := by
  rw [TreeMap.mem_iff_isSome_getElem?, Option.isSome_iff_exists]
  simp only [TreeMap.mem_toList_iff_getElem?_eq_some]

theorem mem_of_getElem? {axis : Int} {m : DeferredMove R} (h : deferred[axis]? = some m) :
    axis ∈ deferred := mem_deferred.2 ⟨m, TreeMap.mem_toList_iff_getElem?_eq_some.2 h⟩

/-! ## The moves -/

/-- What a deferred move puts into the first map. -/
def moveEntry (g : CsGroups) (x : Int × DeferredMove R) : Option (Char × Nat × R) :=
  (letterQ ((g.definition x.1).getD "")).map fun e => (e.1, e.2, x.2.position)

theorem moveEntry_eq_some {x : Int × DeferredMove R} {l : Char} {e : Nat × R} :
    g.moveEntry x = some (l, e) ↔
      g.letter x.1 = some l ∧ axisLetterToQ l = some e.1 ∧ e.2 = x.2.position := by
  unfold moveEntry
  rw [Option.map_eq_some_iff]
  constructor
  · rintro ⟨⟨c, q⟩, hq, h⟩
    cases h
    obtain ⟨hl, hq⟩ := letterQ_iff.1 hq
    exact ⟨hl, hq, rfl⟩
  · rintro ⟨hl, hq, hv⟩
    exact ⟨(l, e.1), letterQ_iff.2 ⟨hl, hq⟩, by rw [← hv]⟩

def moveMap (g : CsGroups) (deferred : TreeMap Int (DeferredMove R)) : TreeMap Char (Nat × R) :=
  fill g.moveEntry deferred.toList ∅

/-- What stands in the first map is the demand of a deferred axis. -/
theorem of_moveMap {l : Char} {e : Nat × R} (h : (g.moveMap deferred)[l]? = some e) :
    ∃ axis m, deferred[axis]? = some m ∧ g.letter axis = some l ∧
      axisLetterToQ l = some e.1 ∧ e.2 = m.position := by
  rcases exists_of_fill h with ⟨x, hx, he⟩ | hempty
  · exact ⟨x.1, x.2, TreeMap.mem_toList_iff_getElem?_eq_some.1 hx, moveEntry_eq_some.1 he⟩
  · rw [TreeMap.getElem?_emptyc] at hempty
    cases hempty

theorem mem_moveMap {l : Char} :
    l ∈ g.moveMap deferred ↔ ∃ axis ∈ deferred, g.letter axis = some l := by
  unfold moveMap
  rw [mem_fill]
  constructor
  · rintro (⟨x, hx, e, he⟩ | hempty)
    · exact ⟨x.1, mem_deferred.2 ⟨x.2, hx⟩, (moveEntry_eq_some.1 he).1⟩
    · exact absurd hempty TreeMap.not_mem_emptyc
  · rintro ⟨axis, haxis, hl⟩
    obtain ⟨m, hm⟩ := mem_deferred.1 haxis
    obtain ⟨q, hq⟩ := letter_q hl
    exact .inl ⟨(axis, m), hm, (q, m.position), moveEntry_eq_some.2 ⟨hl, hq, rfl⟩⟩

theorem lettered_moveMap : Lettered (g.moveMap deferred) := by
  intro l e h
  obtain ⟨axis, m, -, -, hq, -⟩ := of_moveMap h
  exact hq

/-- If the letters differ, each axis finds its demand. -/
theorem moveMap_of_differ (hdiffer : g.LettersDiffer deferred) {axis : Int} {m : DeferredMove R}
    {l : Char} {q : Nat} (hm : deferred[axis]? = some m) (hl : g.letter axis = some l)
    (hq : axisLetterToQ l = some q) : (g.moveMap deferred)[l]? = some (q, m.position) := by
  refine fill_of_differ (TreeMap.mem_toList_iff_getElem?_eq_some.2 hm)
    (moveEntry_eq_some.2 ⟨hl, hq, rfl⟩) fun x hx w hw => ?_
  obtain ⟨hxl, hxq, hxv⟩ := moveEntry_eq_some.1 hw
  have heq : x.1 = axis :=
    hdiffer x.1 (mem_deferred.2 ⟨x.2, hx⟩) axis (mem_of_getElem? hm) (hxl.trans hl.symm)
  rw [TreeMap.mem_toList_iff_getElem?_eq_some, heq, hm] at hx
  cases Option.some.inj hx
  exact Prod.ext (Option.some.inj (hxq.symm.trans hq)) hxv

section
variable [LinearOrder R]

theorem move_ok {s s' : Moves R} {axis : Int} {m : DeferredMove R} :
    g.move s axis m = .ok s' ↔ (s.coordSys = 0 ∨ s.coordSys = g.axisCoordSys axis) ∧
      g.axisCoordSys axis ≠ 0 ∧ (∃ l, g.letter axis = some l) ∧
      s' = ⟨g.axisCoordSys axis, max s.maxTimeMs m.timeMs, put g.moveEntry s.moves (axis, m)⟩ := by
  unfold move letter put moveEntry
  dsimp only
  constructor
  · intro h
    obtain ⟨hzero, h⟩ := of_guard h
    obtain ⟨hsame, h⟩ := of_guard h
    split at h
    · cases h
    · rename_i l q hq
      cases h
      rw [hq]
      refine ⟨?_, ?_, ⟨l, rfl⟩, rfl⟩
      · by_contra hne
        rw [not_or] at hne
        exact hsame ⟨hne.1, fun heq => hne.2 heq.symm⟩
      · intro hcs
        by_cases hs : s.coordSys = 0
        · exact hzero ⟨hs, hcs⟩
        · exact hsame ⟨hs, fun heq => hs (heq.symm.trans hcs)⟩
  · rintro ⟨hsame, hcs, ⟨l, hl⟩, rfl⟩
    obtain ⟨⟨l', q⟩, hq, rfl⟩ := Option.map_eq_some_iff.1 hl
    rw [hq, if_neg fun h => hcs h.2, if_neg]
    · rfl
    · rintro ⟨hs, hne⟩
      rcases hsame with h | h
      · exact hs h
      · exact hne h.symm

/-- The longest of the times so far. -/
def longest (t : R) (ds : List (Int × DeferredMove R)) : R :=
  ds.foldl (fun t x => max t x.2.timeMs) t

/-- The loop over the deferred moves, from the second one on. -/
theorem moves_ok {ds : List (Int × DeferredMove R)} {s s' : Moves R} (hs : s.coordSys ≠ 0) :
    ds.foldlM (fun s x => g.move s x.1 x.2) s = .ok s' ↔
      (∀ x ∈ ds, g.axisCoordSys x.1 = s.coordSys ∧ ∃ l, g.letter x.1 = some l) ∧
      s' = ⟨s.coordSys, longest s.maxTimeMs ds, fill g.moveEntry ds s.moves⟩ := by
  induction ds generalizing s with
  | nil =>
    constructor
    · intro h
      cases h
      exact ⟨fun x hx => absurd hx List.not_mem_nil, rfl⟩
    · rintro ⟨-, rfl⟩
      rfl
  | cons x ds ih =>
    rw [List.foldlM_cons, bind_eq_ok, List.forall_mem_cons]
    constructor
    · rintro ⟨mid, hmid, h⟩
      obtain ⟨hsame, hcs, hl, rfl⟩ := move_ok.1 hmid
      have hx : s.coordSys = g.axisCoordSys x.1 := hsame.resolve_left hs
      obtain ⟨hds, rfl⟩ := (ih hcs).1 h
      refine ⟨⟨⟨hx.symm, hl⟩, fun y hy => ?_⟩, ?_⟩
      · exact ⟨(hds y hy).1.trans hx.symm, (hds y hy).2⟩
      · rw [hx]
        rfl
    · rintro ⟨⟨⟨hx, hl⟩, hds⟩, rfl⟩
      have hcs : g.axisCoordSys x.1 ≠ 0 := fun h => hs (hx.symm.trans h)
      refine ⟨_, move_ok.2 ⟨.inr hx.symm, hcs, hl, rfl⟩, (ih hcs).2 ⟨fun y hy => ?_, ?_⟩⟩
      · exact ⟨(hds y hy).1.trans hx.symm, (hds y hy).2⟩
      · rw [hx]
        rfl

theorem longest_spec (t : R) (ds : List (Int × DeferredMove R)) :
    t ≤ longest t ds ∧ (∀ x ∈ ds, x.2.timeMs ≤ longest t ds) ∧
      (longest t ds = t ∨ ∃ x ∈ ds, x.2.timeMs = longest t ds) := by
  induction ds generalizing t with
  | nil => exact ⟨le_rfl, fun x hx => absurd hx List.not_mem_nil, .inl rfl⟩
  | cons x ds ih =>
    obtain ⟨hle, hall, hfrom⟩ := ih (max t x.2.timeMs)
    refine ⟨(le_max_left _ _).trans hle, ?_, ?_⟩
    · exact List.forall_mem_cons.2 ⟨(le_max_right _ _).trans hle, hall⟩
    · rcases hfrom with h | ⟨y, hy, h⟩
      · rcases max_choice t x.2.timeMs with hmax | hmax
        · exact .inl (h.trans hmax)
        · exact .inr ⟨x, List.mem_cons_self, (h.trans hmax).symm⟩
      · exact .inr ⟨y, List.mem_cons_of_mem _ hy, h⟩

end

/-! ## The holds -/

section
variable [AddCommGroup R] {poll : TreeMap Int (AxisPoll R)}

/-- What an axis of the group puts into the second. -/
def holdEntry (coordSys : Int) (deferred : TreeMap Int (DeferredMove R))
    (poll : TreeMap Int (AxisPoll R)) (x : Int × CsAxisDef) : Option (Char × Nat × R) :=
  if x.2.coordSys ≠ coordSys ∨ x.1 ∈ deferred then none
  else (letterQ x.2.definition).map fun e => (e.1, e.2, (lastPoll poll x.1).position)

theorem hold_ok {holds holds' : TreeMap Char (Nat × R)} {x : Int × CsAxisDef} :
    hold cs deferred poll holds x.1 x.2 = .ok holds' ↔
      (x.2.coordSys = cs → x.1 ∉ deferred → (lastPoll poll x.1).moving = false) ∧
      holds' = put (holdEntry cs deferred poll) holds x := by
  unfold hold put holdEntry
  by_cases hskip : x.2.coordSys ≠ cs ∨ x.1 ∈ deferred
  · rw [if_pos hskip, if_pos hskip]
    constructor
    · intro h
      cases h
      refine ⟨fun hcs hx => ?_, rfl⟩
      rcases hskip with hne | hmem
      · exact absurd hcs hne
      · exact absurd hmem hx
    · rintro ⟨-, rfl⟩
      rfl
  · rw [if_neg hskip, if_neg hskip]
    rw [not_or, not_not] at hskip
    cases hmoving : (lastPoll poll x.1).moving with
    | true =>
      constructor
      · intro h
        cases h
      · rintro ⟨h, -⟩
        cases h hskip.1 hskip.2
    | false =>
      cases letterQ x.2.definition with
      | none =>
        constructor
        · intro h
          cases h
          exact ⟨fun _ _ => rfl, rfl⟩
        · rintro ⟨-, rfl⟩
          rfl
      | some e =>
        constructor
        · intro h
          cases h
          exact ⟨fun _ _ => rfl, rfl⟩
        · rintro ⟨-, rfl⟩
          rfl

theorem holds_ok {ds : List (Int × CsAxisDef)} {holds holds' : TreeMap Char (Nat × R)} :
    ds.foldlM (fun holds x => hold cs deferred poll holds x.1 x.2) holds = .ok holds' ↔
      (∀ x ∈ ds, x.2.coordSys = cs → x.1 ∉ deferred → (lastPoll poll x.1).moving = false) ∧
      holds' = fill (holdEntry cs deferred poll) ds holds := by
  induction ds generalizing holds with
  | nil =>
    constructor
    · intro h
      cases h
      exact ⟨fun x hx => absurd hx List.not_mem_nil, rfl⟩
    · rintro ⟨-, rfl⟩
      rfl
  | cons x ds ih =>
    rw [List.foldlM_cons, bind_eq_ok, List.forall_mem_cons]
    constructor
    · rintro ⟨mid, hmid, h⟩
      obtain ⟨hx, rfl⟩ := hold_ok.1 hmid
      obtain ⟨hds, rfl⟩ := ih.1 h
      exact ⟨⟨hx, hds⟩, rfl⟩
    · rintro ⟨⟨hx, hds⟩, rfl⟩
      exact ⟨_, hold_ok.2 ⟨hx, rfl⟩, ih.2 ⟨hds, rfl⟩⟩

theorem holdEntry_eq_some (hcs : cs ≠ 0) {x : Int × CsAxisDef} (hx : x ∈ g.currentDefs.toList)
    {l : Char} {e : Nat × R} :
    holdEntry cs deferred poll x = some (l, e) ↔ g.Held deferred cs x.1 ∧
      g.letter x.1 = some l ∧ axisLetterToQ l = some e.1 ∧ e.2 = (lastPoll poll x.1).position := by
  have hd : g.currentDefs[x.1]? = some x.2 := TreeMap.mem_toList_iff_getElem?_eq_some.1 hx
  have hheld : g.Held deferred cs x.1 ↔ ¬(x.2.coordSys ≠ cs ∨ x.1 ∈ deferred) := by
    unfold Held
    rw [axisCoordSys_eq hcs, hd, not_or, not_not]
    simp
  unfold holdEntry
  rw [hheld]
  by_cases hskip : x.2.coordSys ≠ cs ∨ x.1 ∈ deferred
  · rw [if_pos hskip]
    constructor
    · intro h
      cases h
    · exact fun h => absurd hskip h.1
  · rw [if_neg hskip, Option.map_eq_some_iff, ← definition_of_def hd]
    constructor
    · rintro ⟨⟨c, q⟩, hq, h⟩
      cases h
      obtain ⟨hl, hq⟩ := letterQ_iff.1 hq
      exact ⟨hskip, hl, hq, rfl⟩
    · rintro ⟨-, hl, hq, hv⟩
      exact ⟨(l, e.1), letterQ_iff.2 ⟨hl, hq⟩, by rw [← hv]⟩

def holdMap (g : CsGroups) (deferred : TreeMap Int (DeferredMove R))
    (poll : TreeMap Int (AxisPoll R)) (cs : Int) : TreeMap Char (Nat × R) :=
  fill (holdEntry cs deferred poll) g.currentDefs.toList ∅

theorem of_holdMap (hcs : cs ≠ 0) {l : Char} {e : Nat × R}
    (h : (g.holdMap deferred poll cs)[l]? = some e) :
    ∃ axis, g.Held deferred cs axis ∧ g.letter axis = some l ∧ axisLetterToQ l = some e.1 ∧
      e.2 = (lastPoll poll axis).position := by
  rcases exists_of_fill h with ⟨x, hx, he⟩ | hempty
  · exact ⟨x.1, (holdEntry_eq_some hcs hx).1 he⟩
  · rw [TreeMap.getElem?_emptyc] at hempty
    cases hempty

theorem mem_holdMap (hcs : cs ≠ 0) {l : Char} :
    l ∈ g.holdMap deferred poll cs ↔ ∃ axis, g.Held deferred cs axis ∧ g.letter axis = some l := by
  unfold holdMap
  rw [mem_fill]
  constructor
  · rintro (⟨x, hx, e, he⟩ | hempty)
    · have he := (holdEntry_eq_some hcs hx).1 he
      exact ⟨x.1, he.1, he.2.1⟩
    · exact absurd hempty TreeMap.not_mem_emptyc
  · rintro ⟨axis, haxis, hl⟩
    obtain ⟨d, hd, -⟩ := (axisCoordSys_eq hcs).1 haxis.1
    have hx := TreeMap.mem_toList_iff_getElem?_eq_some.2 hd
    obtain ⟨q, hq⟩ := letter_q hl
    exact .inl ⟨(axis, d), hx, (q, (lastPoll poll axis).position),
      (holdEntry_eq_some hcs hx).2 ⟨haxis, hl, hq, rfl⟩⟩

theorem lettered_holdMap (hcs : cs ≠ 0) : Lettered (g.holdMap deferred poll cs) := by
  intro l e h
  obtain ⟨axis, -, -, hq, -⟩ := of_holdMap hcs h
  exact hq

/-- What the two loops check is what makes a request acceptable. -/
theorem accepted_iff (hsome : ∃ axis, axis ∈ deferred) (hcs : cs ≠ 0) :
    g.Accepted deferred poll cs ↔
      (∀ x ∈ deferred.toList, g.axisCoordSys x.1 = cs ∧ ∃ l, g.letter x.1 = some l) ∧
      ∀ x ∈ g.currentDefs.toList, x.2.coordSys = cs → x.1 ∉ deferred →
        (lastPoll poll x.1).moving = false := by
  constructor
  · intro h
    refine ⟨fun x hx => ?_, fun x hx hxcs hmem => h.resting x.1 ⟨?_, hmem⟩⟩
    · have hx := mem_deferred.2 ⟨x.2, hx⟩
      exact ⟨h.together x.1 hx, h.lettered x.1 hx⟩
    · exact (axisCoordSys_eq hcs).2 ⟨x.2, TreeMap.mem_toList_iff_getElem?_eq_some.1 hx, hxcs⟩
  · rintro ⟨hmoves, hholds⟩
    refine ⟨hsome, hcs, fun axis haxis => ?_, fun axis haxis => ?_, fun axis haxis => ?_⟩
    · obtain ⟨m, hm⟩ := mem_deferred.1 haxis
      exact (hmoves _ hm).1
    · obtain ⟨m, hm⟩ := mem_deferred.1 haxis
      exact (hmoves _ hm).2
    · obtain ⟨d, hd, hdcs⟩ := (axisCoordSys_eq hcs).1 haxis.1
      exact hholds (axis, d) (TreeMap.mem_toList_iff_getElem?_eq_some.2 hd) hdcs haxis.2

theorem Accepted.unique {cs' : Int} (h : g.Accepted deferred poll cs)
    (h' : g.Accepted deferred poll cs') : cs = cs' := by
  obtain ⟨axis, haxis⟩ := h.some_deferred
  exact (h.together axis haxis).symm.trans (h'.together axis haxis)

/-! ## The line -/

variable [LinearOrder R]

theorem first_moves_ok {ds : List (Int × DeferredMove R)} (hds : ds ≠ []) {s' : Moves R} :
    ds.foldlM (fun s x => g.move s x.1 x.2) ⟨0, 0, ∅⟩ = .ok s' ↔
      ∃ cs, cs ≠ 0 ∧ (∀ x ∈ ds, g.axisCoordSys x.1 = cs ∧ ∃ l, g.letter x.1 = some l) ∧
        s' = ⟨cs, longest 0 ds, fill g.moveEntry ds ∅⟩ := by
  cases ds with
  | nil => exact absurd rfl hds
  | cons x ds =>
    rw [List.foldlM_cons, bind_eq_ok]
    constructor
    · rintro ⟨mid, hmid, h⟩
      obtain ⟨-, hcs, hl, rfl⟩ := move_ok.1 hmid
      obtain ⟨hrest, rfl⟩ := (moves_ok hcs).1 h
      exact ⟨_, hcs, List.forall_mem_cons.2 ⟨⟨rfl, hl⟩, hrest⟩, rfl⟩
    · rintro ⟨cs, hcs, hall, rfl⟩
      obtain ⟨⟨rfl, hl⟩, hrest⟩ := List.forall_mem_cons.1 hall
      exact ⟨_, move_ok.2 ⟨.inl rfl, hcs, hl, rfl⟩, (moves_ok hcs).2 ⟨hrest, rfl⟩⟩

/-- What goes out for an accepted request. -/
def line (g : CsGroups) (deferred : TreeMap Int (DeferredMove R))
    (poll : TreeMap Int (AxisPoll R)) (cs : Int) : CoordLine R :=
  ⟨cs, longest 0 deferred.toList, (g.moveMap deferred).toList.map Prod.snd ++
    (g.holdMap deferred poll cs).toList.map Prod.snd⟩

theorem coordMove_ok {l : CoordLine R} (hsome : ∃ axis, axis ∈ deferred) :
    g.coordMove deferred poll = .ok l ↔
      ∃ cs, g.Accepted deferred poll cs ∧ l = g.line deferred poll cs := by
  have hne : deferred.toList ≠ [] := by
    obtain ⟨axis, haxis⟩ := hsome
    obtain ⟨m, hm⟩ := mem_deferred.1 haxis
    exact List.ne_nil_of_mem hm
  unfold coordMove
  rw [TreeMap.foldlM_eq_foldlM_toList]
  refine bind_eq_ok.trans ?_
  constructor
  · rintro ⟨s, hs, h⟩
    obtain ⟨cs, hcs, hmoves, rfl⟩ := (first_moves_ok hne).1 hs
    obtain ⟨holds, hholds, rfl⟩ := of_map h
    rw [TreeMap.foldlM_eq_foldlM_toList] at hholds
    obtain ⟨hrest, rfl⟩ := holds_ok.1 hholds
    exact ⟨cs, (accepted_iff hsome hcs).2 ⟨hmoves, hrest⟩, rfl⟩
  · rintro ⟨cs, h, rfl⟩
    obtain ⟨hmoves, hrest⟩ := (accepted_iff hsome h.mapped).1 h
    refine ⟨_, (first_moves_ok hne).2 ⟨cs, h.mapped, hmoves, rfl⟩, map_eq_ok.2 ⟨_, ?_, rfl⟩⟩
    rw [TreeMap.foldlM_eq_foldlM_toList]
    exact holds_ok.2 ⟨hrest, rfl⟩

/-- The line is right if what the code does not check holds. -/
theorem Tidy.right (h : g.Accepted deferred poll cs) (htidy : g.Tidy deferred poll cs) :
    (g.line deferred poll cs).Right g deferred poll cs := by
  have hmoves : Lettered (g.moveMap deferred) := lettered_moveMap
  have hholds : Lettered (g.holdMap deferred poll cs) := lettered_holdMap h.mapped
  refine ⟨rfl, ⟨?_, ?_⟩, ?_, ?_, ?_, ?_⟩
  · obtain ⟨axis, m, hm, hzero⟩ := htidy.timed
    obtain ⟨-, hall, hfrom⟩ := longest_spec 0 deferred.toList
    rcases hfrom with h0 | ⟨x, hx, hx0⟩
    · have hle := hall (axis, m) (TreeMap.mem_toList_iff_getElem?_eq_some.2 hm)
      exact ⟨axis, m, hm, le_antisymm hle (h0.trans_le hzero)⟩
    · exact ⟨x.1, x.2, TreeMap.mem_toList_iff_getElem?_eq_some.1 hx, hx0⟩
  · intro axis m hm
    exact (longest_spec 0 deferred.toList).2.1 (axis, m)
      (TreeMap.mem_toList_iff_getElem?_eq_some.2 hm)
  · unfold line
    dsimp only
    rw [List.map_append, List.nodup_append]
    refine ⟨hmoves.nodup, hholds.nodup, fun q hq q' hq' heq => ?_⟩
    subst heq
    obtain ⟨l, hl, hlq⟩ := hmoves.mem_qs.1 hq
    obtain ⟨l', hl', hlq'⟩ := hholds.mem_qs.1 hq'
    cases axisLetterToQ_inj hlq hlq'
    obtain ⟨a, ha, hal⟩ := mem_moveMap.1 hl
    obtain ⟨b, hb, hbl⟩ := (mem_holdMap h.mapped).1 hl'
    exact htidy.unshared a ha b hb (hal.trans hbl.symm)
  · intro q
    unfold line
    dsimp only
    rw [List.map_append, List.mem_append, hmoves.mem_qs, hholds.mem_qs]
    constructor
    · rintro (⟨l, hl, hq⟩ | ⟨l, hl, hq⟩)
      · obtain ⟨a, ha, hal⟩ := mem_moveMap.1 hl
        exact ⟨a, l, h.together a ha, hal, hq⟩
      · obtain ⟨a, ha, hal⟩ := (mem_holdMap h.mapped).1 hl
        exact ⟨a, l, ha.1, hal, hq⟩
    · rintro ⟨a, l, ha, hal, hq⟩
      by_cases hd : a ∈ deferred
      · exact .inl ⟨l, mem_moveMap.2 ⟨a, hd, hal⟩, hq⟩
      · exact .inr ⟨l, (mem_holdMap h.mapped).2 ⟨a, ⟨ha, hd⟩, hal⟩, hq⟩
  · intro axis m l q hm hl hq
    refine List.mem_append_left _ (mem_values.2 ⟨l, ?_⟩)
    have hdemand : m.demand poll axis = m.position := by
      unfold DeferredMove.demand
      split
      · rename_i hrel
        rw [htidy.absolute axis m hm hrel, zero_add]
      · rfl
    rw [hdemand]
    exact moveMap_of_differ htidy.differ hm hl hq
  · intro axis l q hheld hl hq hfree
    have hmem : l ∈ g.holdMap deferred poll cs := (mem_holdMap h.mapped).2 ⟨axis, hheld, hl⟩
    obtain ⟨e, he⟩ := Option.isSome_iff_exists.1 (TreeMap.mem_iff_isSome_getElem?.1 hmem)
    obtain ⟨other, hother, hol, hoq, hov⟩ := of_holdMap h.mapped he
    refine ⟨other, hother, hol, List.mem_append_right _ (mem_values.2 ⟨l, ?_⟩)⟩
    rw [he]
    exact congrArg some (Prod.ext (Option.some.inj (hoq.symm.trans hq)) hov)

/-- A right line is one for which the rest holds too. -/
theorem tidy_of_right (h : g.Accepted deferred poll cs) (hdiffer : g.LettersDiffer deferred)
    (hright : (g.line deferred poll cs).Right g deferred poll cs) : g.Tidy deferred poll cs := by
  have hmoves : Lettered (g.moveMap deferred) := lettered_moveMap
  have hholds : Lettered (g.holdMap deferred poll cs) := lettered_holdMap h.mapped
  refine ⟨hdiffer, ?_, ?_, ?_⟩
  · intro a ha b hb heq
    obtain ⟨l, hl⟩ := h.lettered a ha
    obtain ⟨q, hq⟩ := letter_q hl
    have honce := hright.once
    unfold line at honce
    dsimp only at honce
    rw [List.map_append, List.nodup_append] at honce
    refine honce.2.2 q (hmoves.mem_qs.2 ⟨l, mem_moveMap.2 ⟨a, ha, hl⟩, hq⟩) q ?_ rfl
    exact hholds.mem_qs.2 ⟨l, (mem_holdMap h.mapped).2 ⟨b, hb, heq.symm.trans hl⟩, hq⟩
  · intro axis m hm hrel
    obtain ⟨l, hl⟩ := h.lettered axis (mem_of_getElem? hm)
    obtain ⟨q, hq⟩ := letter_q hl
    have hput : (q, m.position) ∈ (g.line deferred poll cs).demands :=
      List.mem_append_left _ (mem_values.2 ⟨l, moveMap_of_differ hdiffer hm hl hq⟩)
    have hdemand := hright.moved axis m l q hm hl hq
    have heq := List.inj_on_of_nodup_map hright.once hput hdemand rfl
    rw [DeferredMove.demand, if_pos hrel] at heq
    exact right_eq_add.1 (Prod.ext_iff.1 heq).2
  · obtain ⟨axis, m, hm, htime⟩ := hright.time.1
    exact ⟨axis, m, hm, (longest_spec 0 deferred.toList).1.trans_eq htime.symm⟩

end

end CsGroups

end

/-! ## What a release gives -/

section
variable {R : Type} [AddCommGroup R] [LinearOrder R] {fixed : Nat → R → String} {g : CsGroups}
  {deferred : TreeMap Int (DeferredMove R)} {poll : TreeMap Int (AxisPoll R)} {cs : Int}

theorem line_none :
    (g.coordMoveCommands fixed deferred poll).line = .ok none ↔ ∀ axis, axis ∉ deferred := by
  rw [← TreeMap.isEmpty_iff_forall_not_mem]
  unfold CsGroups.coordMoveCommands
  dsimp only
  constructor
  · intro h
    by_contra hsome
    rw [if_neg hsome] at h
    obtain ⟨line, -, h⟩ := of_map h
    cases h
  · intro h
    rw [if_pos h]

theorem line_some {line : String} :
    (g.coordMoveCommands fixed deferred poll).line = .ok (some line) ↔
      ∃ cs, g.Accepted deferred poll cs ∧ line = (g.line deferred poll cs).text fixed := by
  unfold CsGroups.coordMoveCommands CsGroups.coordMoveLine
  dsimp only
  constructor
  · intro h
    split at h
    · cases h
    rename_i hsome
    rw [Bool.not_eq_true, TreeMap.isEmpty_eq_false_iff_exists_mem] at hsome
    obtain ⟨text, htext, h⟩ := of_map h
    obtain ⟨l, hl, rfl⟩ := of_map htext
    obtain ⟨cs, haccepted, rfl⟩ := (CsGroups.coordMove_ok hsome).1 hl
    exact ⟨cs, haccepted, (Option.some.inj h).symm⟩
  · rintro ⟨cs, h, rfl⟩
    have hsome := h.some_deferred
    rw [if_neg, (CsGroups.coordMove_ok hsome).2 ⟨cs, h, rfl⟩]
    · rfl
    · rw [Bool.not_eq_true]
      exact TreeMap.isEmpty_eq_false_iff_exists_mem.2 hsome

theorem Commanded.tidy (h : Commanded fixed g deferred poll) (haccepted : g.Accepted deferred poll cs) :
    g.Tidy deferred poll cs := by
  have hline := line_some.2 ⟨cs, haccepted, (rfl : _ = (g.line deferred poll cs).text fixed)⟩
  have hdiffer := (h.some_iff.1 ⟨_, hline⟩).2
  obtain ⟨cs', l, haccepted', hl, -, hright⟩ := h.right _ hline
  obtain ⟨cs'', haccepted'', rfl⟩ := (CsGroups.coordMove_ok haccepted.some_deferred).1 hl
  obtain rfl := haccepted.unique haccepted'
  obtain rfl := haccepted.unique haccepted''
  exact CsGroups.tidy_of_right haccepted hdiffer hright

/-- Each letter gets its demand once, exactly if the letters of the deferred axes differ from each
other's and the held ones', relative moves start at 0, and a time is not negative. -/
theorem commanded_iff (fixed : Nat → R → String) (g : CsGroups)
    (deferred : TreeMap Int (DeferredMove R)) (poll : TreeMap Int (AxisPoll R)) :
    Commanded fixed g deferred poll ↔
      ∀ cs, g.Accepted deferred poll cs → g.Tidy deferred poll cs := by
  constructor
  · intro h cs haccepted
    exact h.tidy haccepted
  · intro h
    refine ⟨line_none, ⟨?_, ?_⟩, ?_⟩
    · rintro ⟨line, hline⟩
      obtain ⟨cs, haccepted, -⟩ := line_some.1 hline
      exact ⟨⟨cs, haccepted⟩, (h cs haccepted).differ⟩
    · rintro ⟨⟨cs, haccepted⟩, -⟩
      exact ⟨_, line_some.2 ⟨cs, haccepted, rfl⟩⟩
    · intro line hline
      obtain ⟨cs, haccepted, rfl⟩ := line_some.1 hline
      exact ⟨cs, g.line deferred poll cs, haccepted,
        (CsGroups.coordMove_ok haccepted.some_deferred).2 ⟨cs, haccepted, rfl⟩, rfl,
        (h cs haccepted).right haccepted⟩

end

/-! ## Two axes of one letter -/

/-- `%.nf` of a whole number. -/
def fixedWhole (decimals : Nat) (n : Int) : String :=
  s!"{n}." ++ String.ofList (List.replicate decimals '0')

/-- Axes 1 and 2 are both `X` in the coordinate system 2. -/
def shared : CsGroups where
  groups := (∅ : TreeMap Int CsGroup).insert 1
    ⟨"shared", ((∅ : TreeMap Int CsAxisDef).insert 1 ⟨"X", 2⟩).insert 2 ⟨"X", 2⟩⟩
  current := 1

def oneDeferred : TreeMap Int (DeferredMove Int) :=
  (∅ : TreeMap Int (DeferredMove Int)).insert 1 ⟨10, false, 250⟩

def bothPolled : TreeMap Int (AxisPoll Int) :=
  ((∅ : TreeMap Int (AxisPoll Int)).insert 1 ⟨0, false⟩).insert 2 ⟨3, false⟩

example : (shared.coordMoveCommands fixedWhole oneDeferred bothPolled).line =
    .ok (some "&2 Q70=250.000000  Q77=10.000000 Q77=3.000000 B101R") := by
  decide +kernel

/-- The hold of axis 2 comes behind the move of axis 1, in the same variable. -/
theorem not_commanded_shared :
    ((CsGroups.new.addGroup 1 "shared").addAxis 1 1 "X" 2 >>= fun g =>
      (g.addAxis 1 2 "X" 2).map fun g => g.select 1) = .ok shared ∧
    ¬Commanded fixedWhole shared oneDeferred bothPolled := by
  refine ⟨rfl, fun h => ?_⟩
  have hsome : ∃ axis, axis ∈ oneDeferred := ⟨1, by decide⟩
  have hmove : shared.coordMove oneDeferred bothPolled = .ok ⟨2, 250, [(77, 10), (77, 3)]⟩ := by
    decide +kernel
  obtain ⟨cs, haccepted, hl⟩ := (CsGroups.coordMove_ok hsome).1 hmove
  obtain rfl : cs = 2 := (congrArg CoordLine.coordSys hl).symm
  exact (h.tidy haccepted).unshared 1 (by decide) 2 ⟨by decide, by decide⟩ (by decide)

end Pmac
