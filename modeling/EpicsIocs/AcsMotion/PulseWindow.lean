import Mathlib.Algebra.CharZero.Infinite
import EpicsIocs.AcsMotion.ExactBuild
import EpicsIocs.Lib.Spaced

/-! # The pulse window of a profile

The range that `build_path` sets up for the pulse modes Fixed and TrajPts (`profile.rs`), and what
`run_path` (`run.rs`) makes of it: its check of the pulses' elements and its PEG command.

The build takes the run's element numbers, which start at 1, as indices of the positions, which
start at 0; it takes the displacements of a relative profile from the first on, which the profile
itself leaves out; and no one checks the number of pulses.  `window_iff` has what is left. -/

namespace AcsMotion

open Steps

/-! ## The run's part -/

/-- `PEG_I` gives pulses from `first` to `last`, `PEG_R` as the array `pulsePos` says. -/
inductive PegCommand (F : Type) where
  | pegI (axis : Int) (width first interval last : F)
  | pegR (axis : Int) (width : F) (last : Int)

/-- The check of `run_path` and its PEG command. -/
def pegCommand {F : Type} (s : SpiiProfile F) (p : BuildParams F) (width : F) :
    Except String (Option (PegCommand F)) :=
  let numElements := p.numPoints - 1
  if p.startPulses < 1 ∨ numElements + 1 < p.startPulses ∨ p.endPulses < p.startPulses ∨
      numElements + 1 < p.endPulses then
    .error "Error: start or end pulses outside valid range"
  else if p.pulseMode = 0 ∨ p.pulseMode = 2 then
    .ok (some (.pegI p.pulseAxis width s.pulseRange.startPos s.pulseRange.spacing
      s.pulseRange.endPos))
  else if p.pulseMode = 1 then .ok (some (.pegR p.pulseAxis width (p.numPulses - 1)))
  else .ok none

section
variable {K : Type} [Field K] [LinearOrder K] [FloorRing K]

/-! ## The claim -/

/-- Where the axis is at the `k`-th of the user's points, the profile made absolute: the first is
where the acceleration ends. -/
def pointPosition (p : Params K) (axis : Nat) (positions : Nat → K) (k : Nat) : K :=
  if p.moveMode = absolute then positions k
  else p.position axis * p.resolution axis + ∑ i ∈ Finset.range k, positions (i + 1)

def OnProfile (s : SpiiProfile K) (p : Params K) (x : K) : Prop :=
  p.pulseAxis.toNat ∈ s.profileAxes ∧
    ∃ k < p.numPoints.toNat,
      x = pointPosition p p.pulseAxis.toNat (s.axes p.pulseAxis.toNat).positions k

/-- The pulses that a command gives, for a `PEG_I`. -/
def PegCommand.pulses : PegCommand K → Set K
  | pegI _ _ first interval last => Spaced.points first interval last
  | pegR _ _ _ => ∅

/-- The window of a build is on its profile, the division by one less than the pulses is sound, the
spacing meets the end, and the run's command gives as many pulses as there are to be. -/
structure Window (s : SpiiProfile K) (p : Params K) (width : K) : Prop where
  start_on : OnProfile s p s.pulseRange.startPos
  end_on : OnProfile s p s.pulseRange.endPos
  finite : (p.numPulses : K) - 1 ≠ 0
  meets : s.pulseRange.startPos + ((p.numPulses : K) - 1) * s.pulseRange.spacing =
    s.pulseRange.endPos
  command : ∃ cmd, pegCommand s p.toBuildParams width = .ok (some cmd) ∧
    ∃ count : ℕ, (count : Int) = p.numPulses ∧ cmd.pulses.encard = count

/-- Whatever is left past the profile's points. -/
def SpiiProfile.leftover (s : SpiiProfile K) (n : Nat) (rest : Nat → Nat → K) : SpiiProfile K :=
  { s with
    axes := fun axis =>
      { s.axes axis with
        positions := fun i => if i < n then (s.axes axis).positions i else rest axis i } }

/-! ## When it holds -/

/-- The points that the window is taken between. -/
def windowPoints (p : BuildParams K) : Nat × Nat :=
  if p.pulseMode = 0 then (0, p.numPoints.toNat - 1) else (p.startPulses.toNat, p.endPulses.toNat)

/-- A distance that the profile itself travels from its first point, whose displacement it leaves
out, to another. -/
def Travelled (n : Nat) (displacements : Nat → K) (x : K) : Prop :=
  ∃ k < n, x = ∑ i ∈ Finset.range k, displacements (i + 1)

/-- The ends of the window are two positions of the profile. -/
def Ends (p : Params K) (positions : Nat → K) : Prop :=
  let (a, b) := windowPoints p.toBuildParams
  if p.moveMode = absolute then b < p.numPoints.toNat ∧ positions a ≠ positions b
  else
    let travel := fun m => ∑ i ∈ Finset.range m, positions i
    Travelled p.numPoints.toNat positions (travel a) ∧
      Travelled p.numPoints.toNat positions (travel b) ∧ travel a ≠ travel b

/-- The pulses are two or more, and their axis is used. -/
def Apt (c : Sizes) (s : SpiiProfile K) (p : Params K) : Prop :=
  2 ≤ p.numPulses ∧ p.useAxis p.pulseAxis.toNat ≠ 0 ∧
    Ends p ((select c s p).axes p.pulseAxis.toNat).positions

variable {c : Sizes} {base : Base K} {s : SpiiProfile K} {p : Params K} {r : Replies K} {width : K}

/-! ## What the build sets up -/

/-- The window between two points of the array, which need not be of the profile. -/
def windowRange (p : Params K) (positions : Nat → K) : PulseRange K :=
  let place := fun m =>
    if p.moveMode = absolute then positions m
    else p.position p.pulseAxis * p.resolution p.pulseAxis.toNat + ∑ i ∈ Finset.range m, positions i
  let (a, b) := windowPoints p.toBuildParams
  ⟨place a, place b, (place b - place a) / ((p.numPulses : K) - 1)⟩

/-- The ends of the window are two points of the profile. -/
def Between (p : Params K) (positions : Nat → K) : Prop :=
  let range := windowRange p positions
  (∃ k < p.numPoints.toNat, range.startPos = pointPosition p p.pulseAxis.toNat positions k) ∧
    (∃ k < p.numPoints.toNat, range.endPos = pointPosition p p.pulseAxis.toNat positions k) ∧
    range.startPos ≠ range.endPos

theorem between_of_absolute (habs : p.moveMode = absolute) (positions : Nat → K) :
    Between p positions ↔
      let (a, b) := windowPoints p.toBuildParams
      (∃ k < p.numPoints.toNat, positions a = positions k) ∧
        (∃ k < p.numPoints.toNat, positions b = positions k) ∧ positions a ≠ positions b := by
  simp only [Between, windowRange, pointPosition, if_pos habs]

theorem between_of_relative (hrel : p.moveMode ≠ absolute) (haxis : 0 ≤ p.pulseAxis)
    (positions : Nat → K) : Between p positions ↔ Ends p positions := by
  simp only [Between, windowRange, pointPosition, if_neg hrel, Int.toNat_of_nonneg haxis,
    add_right_inj, ne_eq, Ends, Travelled]

omit [LinearOrder K] [FloorRing K] in
theorem Ends.congr (hrel : p.moveMode ≠ absolute) {positions positions' : Nat → K}
    (hle : (windowPoints p.toBuildParams).1 ≤ (windowPoints p.toBuildParams).2 ∧
      (windowPoints p.toBuildParams).2 ≤ p.numPoints.toNat)
    (h : ∀ i < p.numPoints.toNat, positions i = positions' i) :
    Ends p positions ↔ Ends p positions' := by
  have htravel : ∀ m ≤ p.numPoints.toNat,
      ∑ i ∈ Finset.range m, positions i = ∑ i ∈ Finset.range m, positions' i :=
    fun m hm => Finset.sum_congr rfl fun i hi => h i ((Finset.mem_range.1 hi).trans_le hm)
  have htravelled : ∀ x,
      Travelled p.numPoints.toNat positions x ↔ Travelled p.numPoints.toNat positions' x := by
    intro x
    refine exists_congr fun k => and_congr_right fun hk => ?_
    rw [Finset.sum_congr rfl fun i hi =>
      h (i + 1) (Nat.lt_of_le_of_lt (Finset.mem_range.1 hi) hk)]
  simp only [Ends, if_neg hrel, htravelled, htravel _ hle.2, htravel _ (hle.1.trans hle.2)]

theorem ofInt_one : (Double.ofInt 1 : K) = 1 := Int.cast_one

theorem fixedRange_eq (hmode : p.pulseMode = 0) (positions : Nat → K) :
    fixedRange p p.numPoints.toNat positions
      (p.position p.pulseAxis * p.resolution p.pulseAxis.toNat) = windowRange p positions := by
  have hpoints : windowPoints p.toBuildParams = (0, p.numPoints.toNat - 1) := if_pos hmode
  rw [fixedRange, windowRange, hpoints]
  dsimp only
  by_cases habs : p.moveMode = absolute
  · simp only [if_pos habs, ofInt_one]
    rfl
  · simp only [if_neg habs, ofInt_one, sum_range, Finset.range_zero, Finset.sum_empty, add_zero,
      add_sub_cancel_left]
    rfl

theorem pointRange_eq (hmode : p.pulseMode = 2) (hle : p.startPulses ≤ p.endPulses)
    (positions : Nat → K) :
    pointRange p p.startPulses.toNat p.endPulses.toNat positions
      (p.position p.pulseAxis * p.resolution p.pulseAxis.toNat) = windowRange p positions := by
  have hpoints : windowPoints p.toBuildParams = (p.startPulses.toNat, p.endPulses.toNat) :=
    if_neg (by omega)
  rw [pointRange, windowRange, hpoints]
  dsimp only
  by_cases habs : p.moveMode = absolute
  · simp only [if_pos habs, ofInt_one]
    rfl
  · have htravel : ∑ i ∈ Finset.range p.startPulses.toNat, positions i +
        sum ((List.range' p.startPulses.toNat (p.endPulses.toNat - p.startPulses.toNat)).map
          positions) = ∑ i ∈ Finset.range p.endPulses.toNat, positions i := by
      obtain ⟨m, hm⟩ : ∃ m, p.endPulses.toNat = p.startPulses.toNat + m :=
        Nat.exists_eq_add_of_le (Int.toNat_le_toNat hle)
      rw [hm, Nat.add_sub_cancel_left, List.range'_eq_map_range, List.map_map, sum_range,
        Finset.sum_range_add]
      rfl
    simp only [if_neg habs, ofInt_one, sum_range]
    rw [← htravel, add_assoc]
    rfl

theorem planned_positions (base : Base K) (longest : K × K) (axis : Nat) :
    ((planned c base s p longest).axes axis).positions = ((select c s p).axes axis).positions := by
  rw [(planned_samePath longest).axes, (buildAxes_path _ longest axis).1]
  rfl

theorem build_pulseRange (hok : (build c base s p r).2.isOk)
    (hmode : p.pulseMode = 0 ∨ p.pulseMode = 2) (hle : p.startPulses ≤ p.endPulses) :
    (build c base s p r).1.pulseRange =
      windowRange p ((select c s p).axes p.pulseAxis.toNat).positions := by
  obtain ⟨⟨-, -, -, hrange⟩, longest, -, heq⟩ := build_ok hok
  rw [heq, ← planned_positions base longest]
  rcases hmode with hfixed | hpoints
  · rw [← fixedRange_eq hfixed, buildPulses, if_pos hfixed]
    rfl
  · rw [← pointRange_eq hpoints hle, buildPulses, if_neg (by omega), if_neg (by omega),
      if_pos hpoints, if_pos (hrange hpoints)]
    rfl

theorem build_profileAxes (hok : (build c base s p r).2.isOk) :
    (build c base s p r).1.profileAxes = usedAxes c p := by
  obtain ⟨-, longest, -, heq⟩ := build_ok hok
  rw [heq, (buildPulses_samePath _ _ _).profileAxes, (planned_samePath longest).profileAxes]
  rfl

theorem build_positions (hok : (build c base s p r).2.isOk) (axis : Nat) :
    ((build c base s p r).1.axes axis).positions = ((select c s p).axes axis).positions := by
  obtain ⟨-, longest, -, heq⟩ := build_ok hok
  rw [heq, (buildPulses_samePath _ _ _).axes, planned_positions]

omit [Field K] [LinearOrder K] [FloorRing K] in
theorem pegCommand_ok {s : SpiiProfile K} (hmode : p.pulseMode = 0 ∨ p.pulseMode = 2)
    (hrun : (pegCommand s p.toBuildParams width).isOk) (w : SpiiProfile K) :
    (1 ≤ p.startPulses ∧ p.startPulses ≤ p.endPulses ∧ p.endPulses ≤ p.numPoints) ∧
      pegCommand w p.toBuildParams width = .ok (some (.pegI p.pulseAxis width
        w.pulseRange.startPos w.pulseRange.spacing w.pulseRange.endPos)) := by
  unfold pegCommand at hrun
  dsimp only at hrun
  split at hrun
  · cases hrun
  · rename_i hrange
    refine ⟨by omega, ?_⟩
    unfold pegCommand
    dsimp only
    rw [if_neg hrange, if_pos hmode]

/-! ## What is left past the points -/

theorem select_leftover (rest : Nat → Nat → K) (axis i : Nat) (hi : i < p.numPoints.toNat) :
    ((select c (s.leftover p.numPoints.toNat rest) p).axes axis).positions i =
      ((select c s p).axes axis).positions i := by
  unfold select SpiiProfile.leftover
  dsimp only
  split
  · unfold correctProfile
    cases correction c p axis p.numPoints.toNat with
    | none => exact if_pos hi
    | some factor => exact (if_pos hi).trans (if_pos hi).symm
  · exact if_pos hi

theorem select_leftover_past (habs : p.moveMode = absolute) (rest : Nat → Nat → K) (axis i : Nat)
    (hi : p.numPoints.toNat ≤ i) :
    ((select c (s.leftover p.numPoints.toNat rest) p).axes axis).positions i = rest axis i := by
  unfold select SpiiProfile.leftover
  dsimp only
  rw [if_neg (by rw [habs]; exact fun h => absurd h.2.2 (by decide))]
  exact if_neg (by omega)

theorem build_leftover (hok : (build c base s p r).2.isOk)
    (hmode : p.pulseMode = 0 ∨ p.pulseMode = 2) (rest : Nat → Nat → K) :
    (build c base (s.leftover p.numPoints.toNat rest) p r).2.isOk := by
  obtain ⟨⟨hchecked, -, -, hrange⟩, longest, hplan, -⟩ := build_ok hok
  have halike : Alike (select c (baseBuild base s p) p)
      (select c (baseBuild base (s.leftover p.numPoints.toNat rest) p) p) p.numPoints.toNat :=
    ⟨rfl, fun _ _ => rfl, fun axis _ i hi => (select_leftover rest axis i hi).symm⟩
  rw [accelPlan_congr halike hchecked.2.1.1] at hplan
  rw [build]
  dsimp only
  rw [buildPath_eq hchecked hplan, buildPulses]
  dsimp only
  rcases hmode with hfixed | hpoints
  · rw [if_pos hfixed]
    rfl
  · rw [if_neg (by omega), if_neg (by omega), if_pos hpoints, if_pos (hrange hpoints)]
    rfl

/-! ## The window -/

variable [IsStrictOrderedRing K]

/-- What the window comes to: two pulses or more and two points of the profile. -/
theorem window_iff_points (hok : (build c base s p r).2.isOk)
    (hmode : p.pulseMode = 0 ∨ p.pulseMode = 2)
    (hrun : (pegCommand (build c base s p r).1 p.toBuildParams width).isOk) :
    Window (build c base s p r).1 p width ↔
      2 ≤ p.numPulses ∧ p.useAxis p.pulseAxis.toNat ≠ 0 ∧
        Between p ((select c s p).axes p.pulseAxis.toNat).positions := by
  obtain ⟨⟨⟨-, -, haxis⟩, -⟩, -⟩ := build_ok hok
  obtain ⟨⟨-, hle, -⟩, hcommand⟩ := pegCommand_ok hmode hrun (build c base s p r).1
  have hrange := build_pulseRange hok hmode hle
  have hon : ∀ x, OnProfile (build c base s p r).1 p x ↔ p.useAxis p.pulseAxis.toNat ≠ 0 ∧
      ∃ k < p.numPoints.toNat, x = pointPosition p p.pulseAxis.toNat
        ((select c s p).axes p.pulseAxis.toNat).positions k := by
    intro x
    rw [OnProfile, build_profileAxes hok, build_positions hok, usedAxes, List.mem_filter,
      List.mem_range, decide_eq_true_eq]
    exact and_congr_left fun _ => and_iff_right (by omega)
  have hspacing : (build c base s p r).1.pulseRange.spacing =
      ((build c base s p r).1.pulseRange.endPos - (build c base s p r).1.pulseRange.startPos) /
        ((p.numPulses : K) - 1) := by
    rw [hrange]
    rfl
  unfold Between
  dsimp only
  rw [← hrange]
  constructor
  · rintro ⟨hstart, hend, hfinite, -, cmd, hcmd, hcount⟩
    rw [hcommand] at hcmd
    cases hcmd
    rw [PegCommand.pulses, hspacing] at hcount
    obtain ⟨htwo, hne⟩ := (Spaced.encard_spread_iff hfinite).1 hcount
    exact ⟨htwo, ((hon _).1 hstart).1, ((hon _).1 hstart).2, ((hon _).1 hend).2, hne⟩
  · rintro ⟨htwo, hused, hstart, hend, hne⟩
    have hfinite : (p.numPulses : K) - 1 ≠ 0 := by
      rw [sub_ne_zero]
      exact_mod_cast (by omega : p.numPulses ≠ 1)
    refine ⟨(hon _).2 ⟨hused, hstart⟩, (hon _).2 ⟨hused, hend⟩, hfinite, ?_, _, hcommand, ?_⟩
    · rw [hspacing, mul_div_cancel₀ _ hfinite]
      ring
    · rw [PegCommand.pulses, hspacing]
      exact (Spaced.encard_spread_iff hfinite).2 ⟨htwo, hne⟩

omit [Field K] [LinearOrder K] [FloorRing K] [IsStrictOrderedRing K] in
theorem windowPoints_le (hn : 2 ≤ p.numPoints.toNat) (hstart : 1 ≤ p.startPulses)
    (hend : p.startPulses ≤ p.endPulses ∧ p.endPulses ≤ p.numPoints) :
    (windowPoints p.toBuildParams).1 ≤ (windowPoints p.toBuildParams).2 ∧
      (windowPoints p.toBuildParams).2 ≤ p.numPoints.toNat := by
  unfold windowPoints
  split
  · dsimp only
    omega
  · dsimp only
    omega

/-- A build in the pulse modes Fixed and TrajPts, the run's check passed, has its window on the
profile and gives the number of pulses exactly if that is two at least, the pulse axis is used, and
the ends of the window are two points of the profile, none of them past the last. -/
theorem window_iff (hok : (build c base s p r).2.isOk) (hmode : p.pulseMode = 0 ∨ p.pulseMode = 2)
    (hrun : (pegCommand (build c base s p r).1 p.toBuildParams width).isOk) :
    (∀ rest, Window (build c base (s.leftover p.numPoints.toNat rest) p r).1 p width) ↔
      Apt c s p := by
  obtain ⟨⟨⟨-, hn, haxis⟩, -⟩, -⟩ := build_ok hok
  obtain ⟨hpulses, -⟩ := pegCommand_ok hmode hrun (build c base s p r).1
  have hle := windowPoints_le hn.1 hpulses.1 hpulses.2
  have hwindow : ∀ rest, Window (build c base (s.leftover p.numPoints.toNat rest) p r).1 p width ↔
      _ := fun rest => window_iff_points (build_leftover hok hmode rest) hmode
    (by rw [(pegCommand_ok hmode hrun _).2]; rfl)
  have hkept : ∀ rest, ∀ i < p.numPoints.toNat,
      ((select c (s.leftover p.numPoints.toNat rest) p).axes p.pulseAxis.toNat).positions i =
        ((select c s p).axes p.pulseAxis.toNat).positions i :=
    fun rest i hi => select_leftover rest p.pulseAxis.toNat i hi
  rw [Apt, forall_congr' hwindow]
  by_cases habs : p.moveMode = absolute
  · simp only [between_of_absolute habs, Ends, if_pos habs]
    constructor
    · intro h
      have hinside : (windowPoints p.toBuildParams).2 < p.numPoints.toNat := by
        -- Past the points there may be what none of them is.
        by_contra hpast
        have := CharZero.infinite K
        obtain ⟨x, hx⟩ := Infinite.exists_notMem_finset ((Finset.range p.numPoints.toNat).image
          ((select c s p).axes p.pulseAxis.toNat).positions)
        obtain ⟨-, -, -, ⟨k, hk, hend⟩, -⟩ := h fun _ _ => x
        rw [select_leftover_past habs _ _ _ (not_lt.1 hpast), hkept _ k hk] at hend
        exact hx (Finset.mem_image.2 ⟨k, Finset.mem_range.2 hk, hend.symm⟩)
      obtain ⟨htwo, hused, -, -, hne⟩ := h fun _ _ => 0
      rw [hkept _ _ hinside, hkept _ _ (hle.1.trans_lt hinside)] at hne
      exact ⟨htwo, hused, hinside, hne⟩
    · rintro ⟨htwo, hused, hinside, hne⟩ rest
      refine ⟨htwo, hused, ⟨_, hle.1.trans_lt hinside, rfl⟩, ⟨_, hinside, rfl⟩, ?_⟩
      rwa [hkept _ _ hinside, hkept _ _ (hle.1.trans_lt hinside)]
  · simp only [between_of_relative habs haxis.1, Ends.congr habs hle (hkept _)]
    exact forall_const _

end

/-! ## Four of five points -/

/-- TrajPts over four points, from the first element to `endPulses`. -/
def fromFirst (endPulses : Int) : Params ℚ where
  moveMode := absolute
  numPoints := 4
  timeMode := 0
  timePerPoint := 1
  accelTime := 1
  pulseMode := 2
  pulseAxis := 0
  numPulses := 2
  startPulses := 1
  endPulses
  useAxis _ := 1
  position _ := 0
  recResolution _ := some 1
  recOffset _ := some 0
  recDirection _ := some 0
  resolution _ := 1

/-- Five positions are written. -/
def fivePoints : SpiiProfile ℚ :=
  defineAxisProfile ⟨1, 5, 2⟩ unitBase .new (fromFirst 4) 0 [0, 1, 2, 3, 7]

theorem window_third :
    Window (build ⟨1, 5, 2⟩ unitBase (fivePoints.leftover 4 fun _ _ => 9) (fromFirst 3) drive).1
      (fromFirst 3) 1 := by
  refine (window_iff (c := ⟨1, 5, 2⟩) (s := fivePoints) (p := fromFirst 3) (by decide +kernel)
    (.inr rfl) (by decide +kernel)).2 ⟨by decide, by decide, ?_⟩ fun _ _ => 9
  rw [Ends]
  exact (if_pos rfl).mpr ⟨by decide +kernel, by decide +kernel⟩

/-- The last element that the run accepts ends at the fifth position. -/
theorem window_past_fourth :
    (build ⟨1, 5, 2⟩ unitBase fivePoints (fromFirst 4) drive).2.isOk ∧
      (pegCommand (build ⟨1, 5, 2⟩ unitBase fivePoints (fromFirst 4) drive).1
        (fromFirst 4).toBuildParams 1).isOk ∧
      ¬ Window (build ⟨1, 5, 2⟩ unitBase fivePoints (fromFirst 4) drive).1 (fromFirst 4) 1 := by
  refine ⟨by decide +kernel, by decide +kernel, fun h => ?_⟩
  obtain ⟨-, k, hk, hend⟩ := h.end_on
  have hnone : ∀ k < (fromFirst 4).numPoints.toNat,
      (build ⟨1, 5, 2⟩ unitBase fivePoints (fromFirst 4) drive).1.pulseRange.endPos ≠
        pointPosition (fromFirst 4) 0
          ((build ⟨1, 5, 2⟩ unitBase fivePoints (fromFirst 4) drive).1.axes 0).positions k := by
    decide +kernel
  exact hnone k hk hend

end AcsMotion
