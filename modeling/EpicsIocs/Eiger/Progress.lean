import EpicsIocs.Eiger.Stream2

/-! # No loop runs out of rounds

The fuel of the loops is bookkeeping: the cursor never goes back, and every round of a loop
takes a byte or fails, so that two runs agree whenever both have fuel for the bytes that are
left (`chunks_fuel`, `skip_fuel`, `skipTagsLoop_fuel`, `msgFields_fuel`). -/

namespace Eiger

open Cbor Fallible Reader

variable {buf : List UInt8} {α β : Type}

/-! ## The cursor goes forward -/

/-- The cursor does not go back. -/
def Forward (op : Reader buf → PResult (α × Reader buf)) : Prop :=
  ∀ r a r', op r = .ok (a, r') → r.pos ≤ r'.pos

/-- There was a byte left, and the cursor goes forward. -/
def Takes (op : Reader buf → PResult (α × Reader buf)) : Prop :=
  ∀ r a r', op r = .ok (a, r') → r.pos < buf.length ∧ r.pos < r'.pos

theorem Takes.forward {op : Reader buf → PResult (α × Reader buf)} (h : Takes op) : Forward op :=
  fun r a r' hop => Nat.le_of_lt (h r a r' hop).2

theorem Forward.bind {op : Reader buf → PResult (α × Reader buf)}
    {k : α × Reader buf → PResult (β × Reader buf)} (hop : Forward op)
    (hk : ∀ a, Forward fun r => k (a, r)) : Forward fun r => (op r).bind k := by
  intro r b r' h
  obtain ⟨⟨a, r1⟩, ha, hb⟩ := of_bind h
  exact Nat.le_trans (hop _ _ _ ha) (hk a _ _ _ hb)

theorem Forward.map {op : Reader buf → PResult (α × Reader buf)} {g : α × Reader buf → β × Reader buf}
    (hop : Forward op) (hg : ∀ a r, (g (a, r)).2 = r) : Forward fun r => (op r).map g := by
  intro r b r' h
  obtain ⟨⟨a, r1⟩, ha, hb⟩ := of_map h
  have hpos := hg a r1
  rw [hb] at hpos
  cases hpos
  exact hop _ _ _ ha

theorem Forward.guard {op : Reader buf → PResult (α × Reader buf)} {c : Prop} [Decidable c]
    {error : ParseError} (hop : Forward op) : Forward fun r => if c then .error error else op r :=
  fun r a r' h => hop r a r' (of_guard h).2

theorem Forward.ok (g : Reader buf → α) : Forward fun r => .ok (g r, r) := by
  intro r a r' h
  cases h
  exact Nat.le_refl _

theorem Forward.error (error : ParseError) :
    @Forward buf α fun _ => .error error := nofun

theorem Forward.look {x : Reader buf → PResult β} {k : β → Reader buf → PResult (α × Reader buf)}
    (hk : ∀ b, Forward (k b)) : Forward fun r => (x r).bind fun b => k b r := by
  intro r a r' h
  obtain ⟨b, -, h⟩ := of_bind h
  exact hk b r a r' h

theorem peek_inside {r : Reader buf} {b : UInt8} (h : r.peek = .ok b) : r.pos < buf.length := by
  have hget := okOr_eq_ok.1 h
  exact (List.getElem?_eq_some_iff.1 hget).1

theorem forward_take (n : Nat) : Forward fun r : Reader buf => r.take n := by
  intro r bytes r' h
  obtain ⟨-, rfl⟩ := take_fits h
  exact Nat.le_add_right _ _

theorem takes_head : @Takes buf _ head := by
  intro r a r' h
  obtain ⟨b, hb, h⟩ := of_bind h
  have hinside := peek_inside hb
  dsimp only at h
  split_ifs at h
  · cases h
    exact ⟨hinside, Nat.lt_succ_self _⟩
  · obtain ⟨⟨arg, r1⟩, htake, h⟩ := of_map h
    cases h
    exact ⟨hinside, forward_take _ _ _ _ htake⟩
  · cases h
    exact ⟨hinside, Nat.lt_succ_self _⟩

theorem takes_definite : @Takes buf _ definite := by
  intro r a r' h
  obtain ⟨⟨⟨m, len⟩, r1⟩, hhead, h⟩ := of_bind h
  cases len with
  | definite n =>
    cases h
    exact takes_head _ _ _ hhead
  | indefinite => cases h

theorem forward_more (len : Len) : Forward fun r : Reader buf => r.more len := by
  intro r a r' h
  cases len with
  | definite n => cases n <;> cases h <;> exact Nat.le_refl _
  | indefinite =>
    obtain ⟨b, -, h⟩ := of_bind h
    split at h
    · cases h
      exact Nat.le_succ _
    · cases h
      exact Nat.le_refl _

theorem takes_enter (m : Nat) : Takes fun r : Reader buf => r.enter m := by
  intro r a r' h
  obtain ⟨b, -, h⟩ := of_bind h
  obtain ⟨-, h⟩ := of_guard h
  obtain ⟨⟨⟨m, len⟩, r1⟩, hhead, h⟩ := of_bind h
  obtain ⟨len', -, h⟩ := of_map h
  cases h
  exact takes_head _ _ _ hhead

theorem forward_enterCounted (m : Nat) : Forward fun r : Reader buf => r.enterCounted m := by
  refine (takes_enter m).forward.bind fun len => ?_
  cases len with
  | definite n => exact .ok _
  | indefinite => exact .error _

theorem forward_chunks (m fuel : Nat) : @Forward buf _ (chunks m fuel) := by
  induction fuel with
  | zero => exact .error _
  | succ fuel ih =>
    intro r a r' h
    obtain ⟨b, -, h⟩ := of_bind h
    split at h
    · cases h
      exact Nat.le_succ _
    · obtain ⟨⟨⟨m', n⟩, r1⟩, hdefinite, h⟩ := of_bind h
      obtain ⟨-, h⟩ := of_guard h
      obtain ⟨⟨chunk, r2⟩, htake, h⟩ := of_bind h
      obtain ⟨⟨rest, r3⟩, hrest, h⟩ := of_map h
      cases h
      have h1 := takes_definite.forward _ _ _ hdefinite
      have h2 := forward_take n _ _ _ htake
      have h3 := ih _ _ _ hrest
      omega

theorem forward_string (m : Nat) : Forward fun r : Reader buf => r.string m := by
  refine takes_head.forward.bind fun (_, len) => ?_
  cases len with
  | definite n => exact forward_take n
  | indefinite => exact forward_chunks m _

theorem forward_tag : @Forward buf _ tag :=
  .look fun _ => .guard (takes_definite.forward.map fun _ _ => rfl)

theorem forward_uint64 : @Forward buf _ uint64 :=
  .look fun _ => .guard (takes_definite.forward.map fun _ _ => rfl)

theorem forward_text : @Forward buf _ text :=
  .look fun _ => .guard ((forward_string _).map fun _ _ => rfl)

theorem forward_bool : @Forward buf _ bool := by
  intro r a r' h
  obtain ⟨b, -, h⟩ := of_bind h
  split_ifs at h <;> cases h <;> exact Nat.le_succ _

theorem forward_double : @Forward buf _ double := by
  intro r a r' h
  obtain ⟨b, -, h⟩ := of_bind h
  have hstep : ∀ n (g : List UInt8 → Ieee.Number),
      ((r.advance 1).take n).map (fun x => (g x.1, x.2)) = .ok (a, r') → r.pos ≤ r'.pos := by
    intro n g h
    obtain ⟨⟨s, r1⟩, htake, h⟩ := of_map h
    cases h
    exact Nat.le_trans (Nat.le_succ _) (forward_take n _ _ _ htake)
  dsimp only at h
  split_ifs at h
  · exact hstep 2 (fun s => Ieee.single.value (halfToFloat (Bytes.beNat s))) h
  · exact hstep 4 (fun s => Ieee.single.value (Bytes.beNat s)) h
  · exact hstep 8 (fun s => Ieee.double.value (Bytes.beNat s)) h

theorem forward_byteRange : @Forward buf _ byteRange := by
  refine .look fun _ => .guard (takes_head.forward.bind fun (_, len) => ?_)
  cases len with
  | definite n =>
    intro r a r' h
    obtain ⟨⟨bytes, r1⟩, htake, h⟩ := of_map h
    cases h
    exact forward_take n _ _ _ htake
  | indefinite => exact .error _

theorem forward_array2Uint64 : @Forward buf _ array2Uint64 :=
  (forward_enterCounted _).bind fun _ => .guard <|
    forward_uint64.bind fun _ => forward_uint64.map fun _ _ => rfl

theorem Forward.times {op : Reader buf → PResult (α × Reader buf)} (hop : Forward op) (n : Nat) :
    Forward (Eiger.times op n) := by
  induction n with
  | zero => exact .ok _
  | succ n ih => exact hop.bind fun _ => ih.map fun _ _ => rfl

/-! ## Skipping -/

theorem forward_skipTagsLoop (fuel : Nat) (r r' : Reader buf)
    (h : skipTagsLoop fuel r = .ok r') : r.pos ≤ r'.pos := by
  induction fuel generalizing r with
  | zero => cases h
  | succ fuel ih =>
    obtain ⟨m, -, h⟩ := of_bind h
    split at h
    · obtain ⟨⟨_, r1⟩, hhead, h⟩ := of_bind h
      exact Nat.le_trans (takes_head.forward _ _ _ hhead) (ih r1 h)
    · cases h
      exact Nat.le_refl _

/-- An item that is skipped takes a byte.  By induction on the fuel, with what is left of a
container. -/
theorem skipItem_takes (fuel : Nat) :
    (∀ r r' : Reader buf, skipItem fuel r = .ok r' → r.pos < buf.length ∧ r.pos < r'.pos) ∧
    ∀ (len : Len) (r r' : Reader buf), skipItems fuel len r = .ok r' → r.pos ≤ r'.pos := by
  induction fuel with
  | zero => exact ⟨nofun, nofun⟩
  | succ fuel ih =>
    constructor
    · intro r r' h
      rw [skipItem] at h
      obtain ⟨⟨⟨m, len⟩, r1⟩, hhead, h⟩ := of_bind h
      obtain ⟨hinside, htaken⟩ := takes_head _ _ _ hhead
      refine ⟨hinside, Nat.lt_of_lt_of_le htaken ?_⟩
      dsimp only at h
      split_ifs at h
      · cases len with
        | definite n =>
          obtain ⟨⟨bytes, r2⟩, htake, rfl⟩ := of_map h
          exact forward_take n _ _ _ htake
        | indefinite =>
          obtain ⟨⟨bytes, r2⟩, hchunks, rfl⟩ := of_map h
          exact forward_chunks m _ _ _ _ hchunks
      · obtain ⟨len', -, h⟩ := of_bind h
        exact ih.2 _ _ _ h
      · exact Nat.le_of_lt (ih.1 _ _ h).2
      · cases h
        exact Nat.le_refl _
    · intro len r r' h
      rw [skipItems] at h
      obtain ⟨⟨⟨again, len'⟩, r1⟩, hmore, h⟩ := of_bind h
      have hmorePos := forward_more _ _ _ _ hmore
      cases again with
      | false =>
        cases h
        exact hmorePos
      | true =>
        obtain ⟨r2, hitem, h⟩ := of_bind h
        have hitemPos := (ih.1 _ _ hitem).2
        have hrest := ih.2 _ _ _ h
        omega

theorem skip_takes {r r' : Reader buf} (h : r.skip = .ok r') :
    r.pos < buf.length ∧ r.pos < r'.pos :=
  (skipItem_takes _).1 _ _ h

/-! ## Fuel -/

theorem peek_beyond {r : Reader buf} (h : buf.length ≤ r.pos) : r.peek = .error .decode := by
  rw [peek, List.getElem?_eq_none h]
  rfl

theorem chunks_beyond (m : Nat) {r : Reader buf} (h : buf.length ≤ r.pos) (fuel : Nat) :
    chunks m fuel r = .error .decode := by
  cases fuel with
  | zero => rfl
  | succ fuel =>
    rw [chunks, peek_beyond h]
    rfl

/-- Two runs agree if both have fuel for the bytes that are left. -/
theorem chunks_fuel (m : Nat) {fuel fuel' : Nat} {r : Reader buf}
    (h : buf.length - r.pos ≤ fuel) (h' : buf.length - r.pos ≤ fuel') :
    chunks m fuel r = chunks m fuel' r := by
  induction fuel generalizing fuel' r with
  | zero => rw [chunks_beyond m (by omega), chunks_beyond m (by omega)]
  | succ fuel ih =>
    cases fuel' with
    | zero => rw [chunks_beyond m (by omega), chunks_beyond m (by omega)]
    | succ fuel' =>
      rw [chunks, chunks]
      refine bind_congr ?_
      intro b _
      split
      · rfl
      refine bind_congr ?_
      rintro ⟨⟨m', n⟩, r1⟩ hdefinite
      obtain ⟨hinside, htaken⟩ := takes_definite _ _ _ hdefinite
      dsimp only
      split
      · rfl
      refine bind_congr ?_
      rintro ⟨chunk, r2⟩ htake
      have hforward := forward_take _ _ _ _ htake
      have hrest := ih (r := r2) (by omega) (by omega : buf.length - r2.pos ≤ fuel')
      dsimp only
      rw [hrest]

theorem skipTagsLoop_fuel {fuel fuel' : Nat} {r : Reader buf} (h : buf.length - r.pos ≤ fuel)
    (h' : buf.length - r.pos ≤ fuel') : skipTagsLoop fuel r = skipTagsLoop fuel' r := by
  have hbeyond : ∀ {r : Reader buf}, buf.length ≤ r.pos → ∀ k, skipTagsLoop k r = .error .decode := by
    intro r hr k
    cases k with
    | zero => rfl
    | succ k =>
      rw [skipTagsLoop, Reader.major, peek_beyond hr]
      rfl
  induction fuel generalizing fuel' r with
  | zero => rw [hbeyond (by omega), hbeyond (by omega)]
  | succ fuel ih =>
    cases fuel' with
    | zero => rw [hbeyond (by omega), hbeyond (by omega)]
    | succ fuel' =>
      rw [skipTagsLoop, skipTagsLoop]
      refine bind_congr ?_
      intro m _
      split
      · refine bind_congr ?_
        rintro ⟨x, r1⟩ hhead
        obtain ⟨hinside, htaken⟩ := takes_head _ _ _ hhead
        exact ih (by omega) (by omega)
      · rfl

theorem skipItem_beyond {r : Reader buf} (h : buf.length ≤ r.pos) (fuel : Nat) :
    skipItem fuel r = .error .decode := by
  cases fuel with
  | zero => rfl
  | succ fuel =>
    rw [skipItem, head, peek_beyond h]
    rfl

/-- An item takes two units of fuel for a byte, one of them for the container it may open. -/
theorem skipping_fuel (fuel : Nat) :
    (∀ (fuel' : Nat) (r : Reader buf), 2 * (buf.length - r.pos) ≤ fuel →
      2 * (buf.length - r.pos) ≤ fuel' → skipItem fuel r = skipItem fuel' r) ∧
    ∀ (fuel' : Nat) (len : Len) (r : Reader buf), 2 * (buf.length - r.pos) < fuel →
      2 * (buf.length - r.pos) < fuel' → skipItems fuel len r = skipItems fuel' len r := by
  induction fuel with
  | zero =>
    constructor
    · intro fuel' r h h'
      rw [skipItem_beyond (by omega), skipItem_beyond (by omega)]
    · intro fuel' len r h
      omega
  | succ fuel ih =>
    constructor
    · intro fuel' r h h'
      cases fuel' with
      | zero => rw [skipItem_beyond (by omega), skipItem_beyond (by omega)]
      | succ fuel' =>
        rw [skipItem, skipItem]
        refine bind_congr ?_
        rintro ⟨⟨m, len⟩, r1⟩ hhead
        obtain ⟨hinside, htaken⟩ := takes_head _ _ _ hhead
        dsimp only
        split
        · rfl
        split
        · exact bind_congr fun len' _ => ih.2 _ _ _ (by omega) (by omega)
        · rw [ih.1 fuel' r1 (by omega) (by omega)]
    · intro fuel' len r h h'
      cases fuel' with
      | zero => omega
      | succ fuel' =>
        rw [skipItems, skipItems]
        refine bind_congr ?_
        rintro ⟨⟨again, len'⟩, r1⟩ hmore
        have hforward := forward_more _ _ _ _ hmore
        dsimp only
        split
        · rw [ih.1 fuel' r1 (by omega) (by omega)]
          refine bind_congr ?_
          intro r2 hitem
          obtain ⟨hinside, htaken⟩ := (skipItem_takes _).1 _ _ hitem
          exact ih.2 _ _ _ (by omega) (by omega)
        · rfl

theorem skip_fuel {fuel : Nat} (r : Reader buf) (h : 2 * buf.length ≤ fuel) :
    skipItem fuel r = r.skip :=
  (skipping_fuel fuel).1 _ r (by omega) (by omega)

/-! ## Messages -/

section
variable {M : Type}

/-- Values are read forward, one that is left to be skipped is still ahead, and that behind
no key is left. -/
structure Reading (f : FieldReader M buf) : Prop where
  forward : ∀ key m r taken m' r', f key m r = .ok (taken, m', r') → r.pos ≤ r'.pos
  empty : ∀ m r, f [] m r = .ok (false, m, r)

variable {f : FieldReader M buf}

theorem Reading.value_forward (hf : Reading f) {key : List UInt8} {m m' : M} {r r' : Reader buf}
    (h : fieldValue f key m r = .ok (m', r')) : r.pos ≤ r'.pos := by
  obtain ⟨⟨taken, m1, r1⟩, hfield, h⟩ := of_bind h
  have hforward := hf.forward _ _ _ _ _ _ hfield
  cases taken with
  | true =>
    cases h
    exact hforward
  | false =>
    obtain ⟨r2, hskip, h⟩ := of_map h
    cases h
    exact Nat.le_trans hforward (Nat.le_of_lt (skip_takes hskip).2)

theorem Reading.value_empty (hf : Reading f) {m m' : M} {r r' : Reader buf}
    (h : fieldValue f [] m r = .ok (m', r')) : r.pos < buf.length ∧ r.pos < r'.pos := by
  rw [fieldValue, hf.empty] at h
  obtain ⟨r2, hskip, h⟩ := of_map h
  cases h
  exact skip_takes hskip

/-- A key that is read takes a byte, one that is too long none. -/
theorem key_takes {r r' : Reader buf} {key : Option (List UInt8)} (h : r.key = .ok (key, r')) :
    r.pos < buf.length ∧ (r.pos < r'.pos ∨ key = none ∧ r' = r) := by
  obtain ⟨m, hmajor, h⟩ := of_bind h
  obtain ⟨b, hb, -⟩ := of_map hmajor
  obtain ⟨-, h⟩ := of_guard h
  obtain ⟨⟨bytes, next⟩, hstring, h⟩ := of_map h
  refine ⟨peek_inside hb, ?_⟩
  dsimp only at h
  split at h
  · cases h
    exact .inr ⟨rfl, rfl⟩
  · cases h
    left
    obtain ⟨⟨⟨_, len⟩, r1⟩, hhead, h⟩ := of_bind hstring
    have htaken := (takes_head _ _ _ hhead).2
    cases len with
    | definite n => exact Nat.lt_of_lt_of_le htaken (forward_take _ _ _ _ h)
    | indefinite => exact Nat.lt_of_lt_of_le htaken (forward_chunks _ _ _ _ _ h)

theorem forward_tags {keep : Bool} {r r' : Reader buf}
    (h : (if keep then .ok r else r.skipTags) = .ok r') : r.pos ≤ r'.pos := by
  cases keep with
  | true =>
    cases h
    exact Nat.le_refl _
  | false => exact forward_skipTagsLoop _ _ _ h

theorem Reading.takes_msgField (hf : Reading f) (keepTag : List UInt8 → Bool) (len : Len) (m : M) :
    Takes (msgField keepTag f len m) := by
  intro r a r' h
  obtain ⟨⟨key, r1⟩, hkey, h⟩ := of_bind h
  obtain ⟨hinside, hkeyTaken⟩ := key_takes hkey
  obtain ⟨r2, htags, h⟩ := of_bind h
  obtain ⟨⟨⟨again, len'⟩, r3⟩, hmore, h⟩ := of_bind h
  obtain ⟨-, h⟩ := of_guard h
  obtain ⟨⟨m', r4⟩, hvalue, h⟩ := of_map h
  cases h
  have htagsForward := forward_tags htags
  have hmoreForward := forward_more _ _ _ _ hmore
  have hvalueForward := hf.value_forward hvalue
  refine ⟨hinside, ?_⟩
  rcases hkeyTaken with hkeyTaken | ⟨rfl, rfl⟩
  · omega
  · have hempty : fieldValue f [] m r3 = .ok (m', r') := by
      cases len <;> exact hvalue
    have htaken := (hf.value_empty hempty).2
    omega

theorem msgFields_fuel (hf : Reading f) {keepTag : List UInt8 → Bool} {fuel fuel' : Nat} {len : Len}
    {m : M} {r : Reader buf} (h : buf.length - r.pos < fuel) (h' : buf.length - r.pos < fuel') :
    msgFields keepTag f fuel len m r = msgFields keepTag f fuel' len m r := by
  induction fuel generalizing fuel' len m r with
  | zero => omega
  | succ fuel ih =>
    obtain ⟨fuel', rfl⟩ : ∃ k, fuel' = k + 1 := ⟨fuel' - 1, by omega⟩
    rw [msgFields, msgFields]
    refine bind_congr ?_
    rintro ⟨⟨again, len1⟩, r1⟩ hmore
    have hforward := forward_more _ _ _ _ hmore
    cases again with
    | false => rfl
    | true =>
      refine bind_congr ?_
      rintro ⟨⟨m', len2⟩, r2⟩ hround
      obtain ⟨hinside, htaken⟩ := hf.takes_msgField _ _ _ _ _ _ hround
      exact ih (by omega) (by omega)

theorem Reading.forward_msgFields (hf : Reading f) (keepTag : List UInt8 → Bool) (fuel : Nat)
    (len : Len) (m : M) : Forward (msgFields keepTag f fuel len m) := by
  induction fuel generalizing len m with
  | zero => exact .error _
  | succ fuel ih =>
    refine (forward_more len).bind fun (again, len') => ?_
    cases again with
    | false => exact .ok _
    | true => exact (hf.takes_msgField keepTag len' m).forward.bind fun (m', len'') => ih len'' m'

theorem Reading.forward_fields (hf : Reading f) (keepTag : List UInt8 → Bool) (m : M) :
    Forward (fields keepTag f m) :=
  (takes_enter _).forward.bind fun len => hf.forward_msgFields keepTag _ len m

end

theorem forward_ignored {M : Type} {op : Reader buf → PResult (α × Reader buf)} (hop : Forward op)
    {m m' : M} {r r' : Reader buf} {taken : Bool} (h : ignored m (op r) = .ok (taken, m', r')) :
    r.pos ≤ r'.pos := by
  obtain ⟨⟨a, r1⟩, ha, h⟩ := of_map h
  cases h
  exact hop _ _ _ ha

theorem forward_dectrisCompression : @Forward buf _ dectrisCompression := by
  refine forward_tag.bind fun _ => .guard ((forward_enterCounted _).bind fun _ => .guard ?_)
  refine forward_text.bind fun _ => forward_uint64.bind fun _ => forward_byteRange.bind fun _ => ?_
  intro r a r' h
  dsimp only at h
  split_ifs at h
  cases h
  exact Nat.le_refl _

theorem forward_bytesOf : @Forward buf _ bytesOf := by
  intro r a r' h
  obtain ⟨m, -, h⟩ := of_bind h
  by_cases hm : m = majorTag
  · rw [if_pos hm] at h
    obtain ⟨⟨tag, _⟩, -, h⟩ := of_bind h
    obtain ⟨-, h⟩ := of_guard h
    exact (forward_dectrisCompression.map fun _ _ => rfl) _ _ _ h
  · rw [if_neg hm] at h
    exact (forward_byteRange.map fun _ _ => rfl) _ _ _ h

theorem forward_typedArray : @Forward buf _ typedArray := by
  refine forward_tag.bind fun tag => forward_bytesOf.bind fun (c, bytes) => ?_
  exact .look (x := fun _ => typedArrayElemSize tag) fun _ => .guard (.ok _)

theorem forward_multidimArray : @Forward buf _ multidimArray :=
  forward_tag.bind fun _ => .guard <| (forward_enterCounted _).bind fun _ => .guard <|
    forward_array2Uint64.bind fun _ => forward_typedArray.bind fun _ => .guard (.ok _)

theorem forward_channelArrays : @Forward buf _ channelArrays := by
  have hchannel : @Forward buf _ channelArray :=
    forward_text.bind fun _ => forward_multidimArray.map fun _ _ => rfl
  exact (forward_enterCounted _).bind fun n => hchannel.times n

theorem reading_axisField : @Reading buf _ axisField where
  forward := by
    intro key m r taken m' r' h
    by_cases hkey : key ∈ axisKeys
    · rw [axisField, if_pos hkey] at h
      exact forward_ignored forward_double h
    · rw [axisField, if_neg hkey] at h
      cases h
      exact Nat.le_refl _
  empty := fun m r => if_neg (by decide)

theorem forward_goniometerAxis : @Forward buf _ goniometerAxis :=
  reading_axisField.forward_fields noTag ()

theorem reading_goniometerField : @Reading buf _ goniometerField where
  forward := by
    intro key m r taken m' r' h
    by_cases hkey : key ∈ goniometerKeys
    · rw [goniometerField, if_pos hkey] at h
      exact forward_ignored forward_goniometerAxis h
    · rw [goniometerField, if_neg hkey] at h
      cases h
      exact Nat.le_refl _
  empty := fun m r => if_neg (by decide)

theorem reading_startField : @Reading buf _ startField where
  forward := by
    intro key m r taken m' r' h
    unfold startField at h
    cases hkind : startKind key with
    | none =>
      rw [hkind] at h
      cases h
      exact Nat.le_refl _
    | some kind =>
      rw [hkind] at h
      cases kind with
      | uint => exact forward_ignored forward_uint64 h
      | text => exact forward_ignored forward_text h
      | double => exact forward_ignored forward_double h
      | bool => exact forward_ignored forward_bool h
      | channels =>
        exact forward_ignored ((forward_enterCounted _).bind fun n => forward_text.times n) h
      | lookupTable => exact forward_ignored forward_typedArray h
      | translation =>
        exact forward_ignored
          ((forward_enterCounted _).bind fun _ => .guard (forward_double.times 3)) h
      | arrays => exact forward_ignored forward_channelArrays h
      | goniometer =>
        exact forward_ignored (reading_goniometerField.forward_fields noTag ()) h
      | thresholdEnergy =>
        have henergy : @Forward buf _ energy :=
          forward_text.bind fun _ => forward_double.map fun _ _ => rfl
        obtain ⟨⟨l, r1⟩, hl, h⟩ := of_map h
        cases h
        exact ((forward_enterCounted _).bind fun n => henergy.times n) _ _ _ hl
      | userData =>
        obtain ⟨r1, hskip, h⟩ := of_map h
        cases h
        exact Nat.le_of_lt (skip_takes hskip).2
  empty := by
    intro m r
    have hkind : startKind [] = none := by decide +kernel
    rw [startField, hkind]

theorem reading_imageField : @Reading buf _ imageField where
  forward := by
    intro key m r taken m' r' h
    unfold imageField at h
    cases hkind : imageKind key with
    | none =>
      rw [hkind] at h
      cases h
      exact Nat.le_refl _
    | some kind =>
      rw [hkind] at h
      cases kind with
      | uint => exact forward_ignored forward_uint64 h
      | text => exact forward_ignored forward_text h
      | time => exact forward_ignored forward_array2Uint64 h
      | seriesDate =>
        obtain ⟨⟨date, r1⟩, hdate, h⟩ := of_map h
        cases h
        exact forward_text _ _ _ hdate
      | startTime =>
        obtain ⟨⟨time, r1⟩, htime, h⟩ := of_map h
        cases h
        exact forward_array2Uint64 _ _ _ htime
      | userData =>
        obtain ⟨r1, hskip, h⟩ := of_map h
        cases h
        exact Nat.le_of_lt (skip_takes hskip).2
      | data =>
        obtain ⟨⟨data, r1⟩, hdata, h⟩ := of_map h
        cases h
        exact forward_channelArrays _ _ _ hdata
  empty := by
    intro m r
    have hkind : imageKind [] = none := by decide +kernel
    rw [imageField, hkind]

theorem reading_endField : @Reading buf _ endField where
  forward := by
    intro key m r taken m' r' h
    unfold endField at h
    cases hkind : endKind key with
    | none =>
      rw [hkind] at h
      cases h
      exact Nat.le_refl _
    | some kind =>
      rw [hkind] at h
      cases kind with
      | uint => exact forward_ignored forward_uint64 h
      | text => exact forward_ignored forward_text h
  empty := by
    intro m r
    have hkind : endKind [] = none := by decide +kernel
    rw [endField, hkind]

/-- The maps within a message need no more fuel than they are given. -/
theorem fields_fuel {M : Type} {f : FieldReader M buf} (hf : Reading f)
    {keepTag : List UInt8 → Bool} {m : M} {r : Reader buf} {fuel : Nat} (h : buf.length ≤ fuel) :
    ((r.enter majorMap).bind fun (len, r) => msgFields keepTag f fuel len m r) =
      fields keepTag f m r := by
  refine bind_congr ?_
  rintro ⟨len, r1⟩ henter
  obtain ⟨hinside, htaken⟩ := takes_enter _ _ _ _ henter
  exact msgFields_fuel hf (by omega) (by omega)

/-- Nor do the messages, which are behind the magic bytes. -/
theorem messages_fuel {top : Len} {r : Reader buf} {fuel : Nat} (hpos : 0 < r.pos)
    (hbuf : 0 < buf.length) (h : buf.length ≤ fuel) :
    msgFields (fun key => key = lookupTableKey) startField fuel top {} r = startMsg top r ∧
    msgFields noTag imageField fuel top {} r = imageMsg top r ∧
    msgFields noTag endField fuel top () r = endMsg top r :=
  ⟨msgFields_fuel reading_startField (by omega) (by omega),
    msgFields_fuel reading_imageField (by omega) (by omega),
    msgFields_fuel reading_endField (by omega) (by omega)⟩

end Eiger
