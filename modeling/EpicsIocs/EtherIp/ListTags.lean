import EpicsIocs.EtherIp.Replies

/-! # Listing the tags

`list_tags` (`connection.rs`) asks a PLC for its symbols from instance 0 on and, after each partial
reply, again from the id behind the last one it parsed.  A PLC that answers from instance `n` on

    with the first symbols of those with id ≥ n: status 6 while some are left, 0 with the last

has each symbol printed once exactly where every id that is asked for fits the path's 16 bits
(`tags_listed_once`); a larger one is cut to its low word, and the walk goes back to symbols that
were printed before. -/

namespace EtherIp

open Bytes Raw

/-! ## The loop -/

/-- A printed tag: its id and type, and the name's bytes. -/
structure TagLine where
  id : Nat
  tagType : Nat
  name : List UInt8
  deriving DecidableEq

/-- The entries from `at_` on: the last id, and what is printed.  An entry takes eight bytes at
least. -/
def printEntries (data : List UInt8) : (n at_ tagId : Nat) → Nat × List TagLine
  | 0, _, tagId => (tagId, [])
  | n + 1, at_, tagId =>
    if at_ < data.length then
      let tagId := (rdNat? data at_ 4).getD 0
      let len := (rdNat? data (at_ + 4) 2).getD 0
      let used := if len ≥ 99 then 99 else len
      let name := (getRange data (at_ + 6) (min (at_ + 6 + used) data.length)).getD []
      let tagType := (rdNat? data (at_ + 6 + len) 2).getD 0
      let r := printEntries data n (at_ + 6 + len + 2) tagId
      (r.1, ⟨tagId, tagType, name⟩ :: r.2)
    else (tagId, [])

/-- Two attributes of the symbols from `tagId` on: the name and the type. -/
def listRequest (tagId : Nat) : List UInt8 :=
  [0x55, UInt8.ofNat (ciaPathWords tagId 0)] ++ encodeCiaPath 0x6B tagId 0 ++
    leBytes 2 2 ++ leBytes 2 1 ++ leBytes 2 2

/-- How a pass of the loop ends. -/
inductive Listed where
  | returned (ok : Bool)
  | partly (tagId : Nat)
  deriving DecidableEq

/-- What is made of a response; `none` where none came. -/
def listPass (response : Option (List UInt8)) (tagId : Nat) : Listed × List TagLine :=
  match response with
  | none => (.returned false, [])
  | some response =>
    match MrResponse.parse response with
    | none => (.returned false, [])
    | some r =>
      if r.service &&& 0x7F ≠ 0x55 then (.returned false, [])
      else if r.generalStatus ≠ 6 ∧ r.generalStatus ≠ 0 then (.returned false, [])
      else
        let data := r.data response.length
        let p := printEntries data data.length 0 tagId
        (if r.generalStatus = 0 then .returned true else .partly p.1, p.2)

/-- What a call has come to. -/
inductive Listing where
  | running
  | panicked
  | returned (ok : Bool)
  deriving DecidableEq

/-- The loop for `n` passes, from pass `k` on; `diagnosticRequest k` answers the request of pass
`k`, and `checks` is whether the build panics where an id overflows. -/
def listFrom (checks : Bool) (diagnosticRequest : Nat → List UInt8 → Option (List UInt8)) :
    (n k tagId : Nat) → List TagLine × Listing
  | 0, _, _ => ([], .running)
  | n + 1, k, tagId =>
    let pass := listPass (diagnosticRequest k (listRequest tagId)) tagId
    match pass.1 with
    | .returned ok => (pass.2, .returned ok)
    | .partly last =>
      if last + 1 < 2 ^ 32 ∨ checks = false then
        let rest := listFrom checks diagnosticRequest n (k + 1) ((last + 1) % 2 ^ 32)
        (pass.2 ++ rest.1, rest.2)
      else (pass.2, .panicked)

def listTags (checks : Bool) (diagnosticRequest : Nat → List UInt8 → Option (List UInt8))
    (n : Nat) : List TagLine × Listing :=
  listFrom checks diagnosticRequest n 0 0

/-! ## The PLC -/

/-- An entry of a PLC's symbol table. -/
structure TagSymbol where
  id : Nat
  name : List UInt8
  tagType : Nat
  id_lt : id < 2 ^ 32
  name_lt : name.length < 2 ^ 16
  type_lt : tagType < 2 ^ 16

namespace TagSymbol

/-- As a reply carries it. -/
def encode (s : TagSymbol) : List UInt8 :=
  leBytes 4 s.id ++ leBytes 2 s.name.length ++ s.name ++ leBytes 2 s.tagType

/-- As it is printed: a long name is shortened. -/
def line (s : TagSymbol) : TagLine := ⟨s.id, s.tagType, s.name.take 99⟩

end TagSymbol

structure SymbolTable where
  symbols : List TagSymbol
  increasing : symbols.Pairwise fun a b => a.id < b.id

/-- The instance that a request of the symbol class starts at. -/
def askedInstance : List UInt8 → Option Nat
  | [] => none
  | service :: rest =>
    if service ≠ 0x55 then none
    else
      match rest with
      | _ :: 0x20 :: 0x6B :: 0x24 :: n :: _ => some n.toNat
      | _ :: 0x20 :: 0x6B :: 0x25 :: 0x00 :: lo :: hi :: _ => some (lo.toNat + 256 * hi.toNat)
      | _ => none

/-- The symbols from instance `n` on. -/
def SymbolTable.from (table : SymbolTable) (n : Nat) : List TagSymbol :=
  table.symbols.filter fun s => n ≤ s.id

/-- The first `room` symbols from instance `n` on. -/
def SymbolTable.reply (table : SymbolTable) (n room : Nat) : List UInt8 :=
  [0xD5, 0x00, if (table.from n).length ≤ room then 0x00 else 0x06, 0x00] ++
    ((table.from n).take room).flatMap TagSymbol.encode

/-- A PLC whose reply of pass `k` has room for `room k` symbols. -/
def SymbolTable.plc (table : SymbolTable) (room : Nat → Nat) (k : Nat) (request : List UInt8) :
    Option (List UInt8) :=
  (askedInstance request).map fun n => table.reply n (room k)

/-! ## A reply is printed -/

theorem TagSymbol.length_encode (s : TagSymbol) : s.encode.length = 8 + s.name.length := by
  unfold encode
  simp only [List.length_append, length_leBytes]
  omega

/-- The fields of an entry behind `before`. -/
theorem TagSymbol.fields (s : TagSymbol) (before after : List UInt8) :
    rdNat? (before ++ (s.encode ++ after)) before.length 4 = some s.id ∧
    rdNat? (before ++ (s.encode ++ after)) (before.length + 4) 2 = some s.name.length ∧
    rdNat? (before ++ (s.encode ++ after)) (before.length + 6 + s.name.length) 2 =
      some s.tagType ∧
    ∀ k, k ≤ s.name.length →
      getRange (before ++ (s.encode ++ after)) (before.length + 6) (before.length + 6 + k) =
        some (s.name.take k) := by
  have hid := rdNat?_leBytes (n := 4) (v := s.id) s.id_lt
  have hlen := rdNat?_leBytes (n := 2) (v := s.name.length) s.name_lt
  have htype := rdNat?_leBytes (n := 2) (v := s.tagType) s.type_lt
  have hhead : (leBytes 4 s.id).length = 4 := length_leBytes 4 _
  have hword : (leBytes 4 s.id ++ leBytes 2 s.name.length).length = 6 := by simp
  have hname : (leBytes 4 s.id ++ leBytes 2 s.name.length ++ s.name).length =
      6 + s.name.length := by
    rw [List.length_append, hword]
  refine ⟨?_, ?_, ?_, fun k hk => ?_⟩
  · rw [← Nat.add_zero before.length, rdNat?_append_right, encode]
    simp only [List.append_assoc]
    rw [rdNat?_append_left _ (by rw [length_leBytes]), hid]
  · rw [rdNat?_append_right, encode]
    simp only [List.append_assoc]
    have hsecond := rdNat?_append_right (leBytes 4 s.id)
      (leBytes 2 s.name.length ++ (s.name ++ (leBytes 2 s.tagType ++ after))) 0 2
    rw [hhead] at hsecond
    rw [hsecond, rdNat?_append_left _ (by rw [length_leBytes]), hlen]
  · rw [Nat.add_assoc, rdNat?_append_right, encode, List.append_assoc]
    have hlast := rdNat?_append_right (leBytes 4 s.id ++ leBytes 2 s.name.length ++ s.name)
      (leBytes 2 s.tagType ++ after) 0 2
    rw [hname, Nat.add_zero] at hlast
    rw [hlast, rdNat?_append_left _ (by rw [length_leBytes]), htype]
  · have hshape : before ++ (s.encode ++ after) =
        (before ++ (leBytes 4 s.id ++ leBytes 2 s.name.length)) ++
          (s.name ++ (leBytes 2 s.tagType ++ after)) := by
      unfold encode
      simp only [List.append_assoc]
    have hfront : (before ++ (leBytes 4 s.id ++ leBytes 2 s.name.length)).length =
        before.length + 6 := by
      rw [List.length_append, hword]
    rw [hshape, getRange, if_pos]
    · rw [List.drop_append, List.drop_of_length_le (by omega), hfront, List.nil_append,
        Nat.sub_self, List.drop_zero, Nat.add_sub_cancel_left, List.take_append_of_le_length hk]
    · rw [List.length_append, hfront, List.length_append]
      omega

/-- The last id that is parsed of some symbols. -/
def lastId (symbols : List TagSymbol) (tagId : Nat) : Nat :=
  (symbols.getLast?.map TagSymbol.id).getD tagId

theorem printEntries_symbols (symbols : List TagSymbol) (before : List UInt8) {n tagId : Nat}
    (hn : symbols.length ≤ n) :
    printEntries (before ++ symbols.flatMap TagSymbol.encode) n before.length tagId =
      (lastId symbols tagId, symbols.map TagSymbol.line) := by
  induction symbols generalizing before n tagId with
  | nil =>
    cases n with
    | zero => rfl
    | succ n =>
      rw [printEntries, if_neg (by simp)]
      rfl
  | cons s symbols ih =>
    obtain ⟨n, rfl⟩ : ∃ m, n = m + 1 := ⟨n - 1, by simp at hn; omega⟩
    rw [List.flatMap_cons]
    obtain ⟨hid, hlen, htype, hname⟩ := s.fields before (symbols.flatMap TagSymbol.encode)
    have htotal : (before ++ (s.encode ++ symbols.flatMap TagSymbol.encode)).length =
        before.length + 8 + s.name.length + (symbols.flatMap TagSymbol.encode).length := by
      rw [List.length_append, List.length_append, s.length_encode]
      omega
    have hshort : (getRange (before ++ (s.encode ++ symbols.flatMap TagSymbol.encode))
        (before.length + 6) (before.length + 6 + if s.name.length ≥ 99 then 99 else s.name.length)) =
          some (s.name.take 99) := by
      by_cases hlong : s.name.length ≥ 99
      · rw [if_pos hlong, hname 99 hlong]
      · rw [if_neg hlong, hname _ (Nat.le_refl _), List.take_length, List.take_of_length_le (by omega)]
    have hused : (if s.name.length ≥ 99 then 99 else s.name.length) ≤ s.name.length := by
      split <;> omega
    have hnext := @ih (before ++ s.encode) n s.id (by simp at hn; omega)
    rw [List.append_assoc, List.length_append, s.length_encode] at hnext
    rw [printEntries, if_pos (by omega), hid, hlen]
    dsimp only [Option.getD_some]
    rw [htype, Nat.min_eq_left (by omega), hshort,
      show before.length + 6 + s.name.length + 2 = before.length + (8 + s.name.length) by omega,
      hnext]
    refine Prod.ext ?_ rfl
    -- the last id is that of the last symbol behind, or this one's
    unfold lastId
    cases symbols with
    | nil => rfl
    | cons t ts => rfl

theorem length_le_flatMap (symbols : List TagSymbol) :
    symbols.length ≤ (symbols.flatMap TagSymbol.encode).length := by
  induction symbols with
  | nil => exact Nat.le_refl _
  | cons s symbols ih =>
    rw [List.flatMap_cons, List.length_append, s.length_encode, List.length_cons]
    omega

variable {table : SymbolTable} {room : Nat → Nat}

/-- A pass over a response without extended status. -/
theorem listPass_body {status : UInt8} (hstatus : status = 6 ∨ status = 0) (body : List UInt8)
    (tagId : Nat) :
    listPass (some (0xD5 :: 0x00 :: status :: 0x00 :: body)) tagId =
      (if status = 0 then .returned true else .partly (printEntries body body.length 0 tagId).1,
        (printEntries body body.length 0 tagId).2) := by
  have hdata : (⟨0xD5, status, 0x00, 0xD5 :: 0x00 :: status :: 0x00 :: body⟩ : MrResponse).data
      (0xD5 :: 0x00 :: status :: 0x00 :: body).length = body := by
    unfold MrResponse.data MrResponse.dataOffset
    dsimp only
    rw [Nat.min_self, List.take_length]
    by_cases hnil : body = []
    · rw [hnil]
      rfl
    · have hpos := List.length_pos_of_ne_nil hnil
      rw [if_neg]
      · rfl
      · show ¬ 4 ≥ body.length + 1 + 1 + 1 + 1
        omega
  rw [listPass]
  dsimp only [MrResponse.parse]
  rw [if_neg (by decide), if_neg (fun h => hstatus.elim h.1 h.2), hdata]

/-- A pass over what the PLC answers from instance `n` on. -/
theorem listPass_reply (n r tagId : Nat) :
    listPass (some (table.reply n r)) tagId =
      (if (table.from n).length ≤ r then .returned true
        else .partly (lastId ((table.from n).take r) tagId),
        ((table.from n).take r).map TagSymbol.line) := by
  have hentries := @printEntries_symbols ((table.from n).take r) []
    (((table.from n).take r).flatMap TagSymbol.encode).length tagId (length_le_flatMap _)
  rw [List.nil_append] at hentries
  have hpass := @listPass_body (if (table.from n).length ≤ r then 0x00 else 0x06)
    (by split <;> decide) (((table.from n).take r).flatMap TagSymbol.encode) tagId
  rw [show printEntries _ _ 0 tagId = _ from hentries] at hpass
  refine hpass.trans (Prod.ext ?_ rfl)
  by_cases hle : (table.from n).length ≤ r
  · rw [if_pos hle, if_pos hle, if_pos rfl]
  · rw [if_neg hle, if_neg hle, if_neg (by decide)]

/-- The instance of a request is the id's low word. -/
theorem askedInstance_listRequest {tagId : Nat} :
    askedInstance (listRequest tagId) = some (tagId % 2 ^ 16) := by
  unfold listRequest encodeCiaPath
  by_cases hwide : tagId > 0xFF
  · rw [if_pos hwide]
    have hlo : (UInt8.ofNat tagId).toNat = tagId % 256 := by simp
    have hhi : (UInt8.ofNat (tagId / 256)).toNat = tagId / 256 % 256 := by simp
    show some ((UInt8.ofNat tagId).toNat + 256 * (UInt8.ofNat (tagId / 256)).toNat) = _
    rw [hlo, hhi]
    congr 1
    omega
  · rw [if_neg hwide]
    have hbyte : (UInt8.ofNat tagId).toNat = tagId % 256 := by simp
    show some (UInt8.ofNat tagId).toNat = _
    rw [hbyte]
    congr 1
    omega

theorem listPass_plc (k tagId : Nat) :
    listPass (table.plc room k (listRequest tagId)) tagId =
      (if (table.from (tagId % 2 ^ 16)).length ≤ room k then .returned true
        else .partly (lastId ((table.from (tagId % 2 ^ 16)).take (room k)) tagId),
        ((table.from (tagId % 2 ^ 16)).take (room k)).map TagSymbol.line) := by
  rw [SymbolTable.plc, askedInstance_listRequest]
  exact listPass_reply _ _ _

/-! ## The walk through the table -/

/-- How many symbols the replies before pass `k` have room for. -/
def served (room : Nat → Nat) : Nat → Nat
  | 0 => 0
  | k + 1 => served room k + room k

/-- Behind each partial reply the next id fits the path's 16 bits. -/
def IdsFit (table : SymbolTable) (room : Nat → Nat) : Prop :=
  ∀ k s, table.symbols[served room (k + 1) - 1]? = some s →
    served room (k + 1) < table.symbols.length → s.id + 1 < 2 ^ 16

/-- Pass `k` asks for the symbols that are not printed yet. -/
structure InStep (table : SymbolTable) (room : Nat → Nat) (k tagId : Nat) : Prop where
  fits : tagId < 2 ^ 16
  rest : table.from tagId = table.symbols.drop (served room k)

theorem inStep_start : InStep table room 0 0 :=
  ⟨by decide, List.filter_eq_self.2 fun s _ => decide_eq_true (Nat.zero_le s.id)⟩

theorem filter_behind {l : List TagSymbol} (h : l.Pairwise fun a b => a.id < b.id) {i : Nat}
    {s : TagSymbol} (hs : l[i]? = some s) :
    (l.filter fun t => s.id + 1 ≤ t.id) = l.drop (i + 1) := by
  induction l generalizing i with
  | nil => simp at hs
  | cons a l ih =>
    obtain ⟨hfirst, htail⟩ := List.pairwise_cons.1 h
    cases i with
    | zero =>
      obtain rfl : a = s := Option.some.inj hs
      rw [List.filter_cons_of_neg (by simp), List.drop_succ_cons, List.drop_zero]
      exact List.filter_eq_self.2 fun t ht => decide_eq_true (hfirst t ht)
    | succ i =>
      have hlt := hfirst s (List.mem_of_getElem? (i := i) hs)
      rw [List.filter_cons_of_neg (by simp; omega), List.drop_succ_cons]
      exact ih htail hs

/-- The last symbol of a partial reply, and the one behind it. -/
theorem lastId_served {k tagId : Nat} (hroom : 0 < room k)
    (hleft : served room (k + 1) < table.symbols.length) :
    ∃ s, table.symbols[served room (k + 1) - 1]? = some s ∧
      lastId ((table.symbols.drop (served room k)).take (room k)) tagId = s.id ∧
      s.id + 1 < 2 ^ 32 := by
  have hsucc : served room (k + 1) = served room k + room k := rfl
  have hlen : ((table.symbols.drop (served room k)).take (room k)).length = room k := by
    rw [List.length_take, List.length_drop]
    omega
  have hlt : served room (k + 1) - 1 < table.symbols.length := by omega
  refine ⟨table.symbols[served room (k + 1) - 1], List.getElem?_eq_getElem hlt, ?_, ?_⟩
  · rw [lastId, List.getLast?_eq_getElem?, hlen, List.getElem?_take_of_lt (by omega),
      List.getElem?_drop, show served room k + (room k - 1) = served room (k + 1) - 1 by omega,
      List.getElem?_eq_getElem hlt]
    rfl
  · have hnext := List.pairwise_iff_getElem.1 table.increasing _ _ hlt hleft (by omega)
    have hbound := (table.symbols[served room (k + 1)]).id_lt
    omega

/-- A pass in step prints the next symbols, and all of the rest where there is room. -/
theorem listFrom_inStep (checks : Bool) {k tagId : Nat} (h : InStep table room k tagId)
    (hroom : 0 < room k) (n : Nat) :
    (table.symbols.length ≤ served room (k + 1) →
      listFrom checks (table.plc room) (n + 1) k tagId =
        ((table.symbols.drop (served room k)).map TagSymbol.line, .returned true)) ∧
    (served room (k + 1) < table.symbols.length →
      ∃ s, table.symbols[served room (k + 1) - 1]? = some s ∧ s.id + 1 < 2 ^ 32 ∧
        listFrom checks (table.plc room) (n + 1) k tagId =
          (((table.symbols.drop (served room k)).take (room k)).map TagSymbol.line ++
              (listFrom checks (table.plc room) n (k + 1) (s.id + 1)).1,
            (listFrom checks (table.plc room) n (k + 1) (s.id + 1)).2)) := by
  have hpass := @listPass_plc table room k tagId
  have hsucc : served room (k + 1) = served room k + room k := rfl
  rw [Nat.mod_eq_of_lt h.fits, h.rest, List.length_drop] at hpass
  constructor
  · intro hall
    rw [if_pos (by omega)] at hpass
    rw [listFrom, hpass]
    dsimp only
    rw [List.take_of_length_le (by rw [List.length_drop]; omega)]
  · intro hleft
    obtain ⟨s, hs, hlast, hsmall⟩ := @lastId_served table room k tagId hroom hleft
    rw [if_neg (by omega), hlast] at hpass
    refine ⟨s, hs, hsmall, ?_⟩
    rw [listFrom, hpass]
    dsimp only
    rw [if_pos (.inl hsmall), Nat.mod_eq_of_lt hsmall]

theorem inStep_next {k : Nat} {s : TagSymbol} (hroom : 0 < room k)
    (hs : table.symbols[served room (k + 1) - 1]? = some s) (hfits : s.id + 1 < 2 ^ 16) :
    InStep table room (k + 1) (s.id + 1) := by
  have hpos : served room (k + 1) - 1 + 1 = served room (k + 1) := by
    have hsucc : served room (k + 1) = served room k + room k := rfl
    omega
  exact ⟨hfits, (filter_behind table.increasing hs).trans (by rw [hpos])⟩

variable (checks : Bool)

/-- From a pass in step on, the rest of the table is printed. -/
theorem listFrom_rest (hroom : ∀ k, 0 < room k) (hfit : IdsFit table room) {n k tagId : Nat}
    (h : InStep table room k tagId) (hn : table.symbols.length - served room k < n) :
    listFrom checks (table.plc room) n k tagId =
      ((table.symbols.drop (served room k)).map TagSymbol.line, .returned true) := by
  induction n generalizing k tagId with
  | zero => omega
  | succ n ih =>
    have hsucc : served room (k + 1) = served room k + room k := rfl
    have hpos := hroom k
    obtain ⟨hall, hsome⟩ := listFrom_inStep checks h hpos n
    by_cases hle : table.symbols.length ≤ served room (k + 1)
    · exact hall hle
    · obtain ⟨s, hs, -, hrun⟩ := hsome (Nat.lt_of_not_le hle)
      have hnext := inStep_next hpos hs (hfit k s hs (Nat.lt_of_not_le hle))
      rw [hrun, ih hnext (by omega), ← List.map_append, hsucc, ← List.drop_drop,
        List.take_append_drop]

theorem served_le {i j : Nat} (h : i ≤ j) : served room i ≤ served room j := by
  induction j with
  | zero => rw [Nat.le_zero.1 h]
  | succ j ih =>
    rcases Nat.lt_or_eq_of_le h with hlt | rfl
    · exact Nat.le_add_right_of_le (ih (Nat.lt_succ_iff.1 hlt))
    · exact Nat.le_refl _

/-- What a pass prints is in front. -/
theorem listPass_inFront (n k tagId : Nat) :
    (listPass (table.plc room k (listRequest tagId)) tagId).2 <+:
      (listFrom checks (table.plc room) (n + 1) k tagId).1 := by
  rw [listFrom]
  dsimp only
  cases (listPass (table.plc room k (listRequest tagId)) tagId).1 with
  | returned ok => exact List.prefix_rfl
  | partly last =>
    dsimp only
    by_cases hgo : last + 1 < 2 ^ 32 ∨ checks = false
    · rw [if_pos hgo]
      exact List.prefix_append _ _
    · rw [if_neg hgo]

/-- From an id at or below that of symbol `i` on, the first symbol is one of the first `i + 1`. -/
theorem from_head {i n : Nat} {s : TagSymbol} (hs : table.symbols[i]? = some s) (hn : n ≤ s.id) :
    ∃ t rest, table.from n = t :: rest ∧ t ∈ table.symbols.take (i + 1) := by
  have hmem : s ∈ table.from n :=
    List.mem_filter.2 ⟨List.mem_of_getElem? hs, decide_eq_true hn⟩
  obtain ⟨t, rest, hcons⟩ := List.exists_cons_of_ne_nil (List.ne_nil_of_mem hmem)
  refine ⟨t, rest, hcons, ?_⟩
  have hsorted := table.increasing.filter fun s => n ≤ s.id
  have hle : t.id ≤ s.id := by
    rw [show table.symbols.filter _ = _ from hcons] at hsorted
    rw [hcons] at hmem
    rcases List.mem_cons.1 hmem with rfl | hrest
    · exact Nat.le_refl _
    · exact Nat.le_of_lt ((List.pairwise_cons.1 hsorted).1 s hrest)
  have ht : t ∈ table.symbols :=
    List.mem_of_mem_filter (hcons ▸ List.mem_cons_self : t ∈ table.from n)
  obtain ⟨m, hm, rfl⟩ := List.mem_iff_getElem.1 ht
  obtain ⟨hi, rfl⟩ := List.getElem?_eq_some_iff.1 hs
  -- ids grow with the place
  have hmi : m ≤ i := by
    by_contra hlt
    have hgrow := List.pairwise_iff_getElem.1 table.increasing i m hi hm (by omega)
    omega
  exact List.mem_take_iff_getElem.2 ⟨m, by omega, rfl⟩

/-- Where an id behind a partial reply does not fit, a symbol that was printed is printed again. -/
theorem listFrom_again (hroom : ∀ k, 0 < room k) {j : Nat} {s : TagSymbol}
    (hs : table.symbols[served room (j + 1) - 1]? = some s)
    (hleft : served room (j + 1) < table.symbols.length) (hlarge : 2 ^ 16 ≤ s.id + 1)
    (hfits : ∀ i < j, ∀ t, table.symbols[served room (i + 1) - 1]? = some t → t.id + 1 < 2 ^ 16)
    {d k n tagId : Nat} (hd : k + d = j) (h : InStep table room k tagId)
    {lines : List TagLine} {ok : Bool}
    (hrun : listFrom checks (table.plc room) n k tagId = (lines, .returned ok)) :
    ∃ t ∈ table.symbols.take (served room (j + 1)),
      ((table.symbols.take (served room (j + 1))).drop (served room k)).map TagSymbol.line ++
        [t.line] <+: lines := by
  induction d generalizing k n tagId lines with
  | zero =>
    obtain rfl : k = j := hd
    cases n with
    | zero => cases hrun
    | succ n =>
      have hsucc : served room (k + 1) = served room k + room k := rfl
      have hpos := hroom k
      obtain ⟨s', hs', -, hstep⟩ := (listFrom_inStep checks h hpos n).2 hleft
      obtain rfl : s' = s := Option.some.inj (hs'.symm.trans hs)
      rw [hstep] at hrun
      obtain ⟨rfl, hend⟩ := Prod.mk.inj hrun
      cases n with
      | zero => cases hend
      | succ n =>
        -- the next pass asks for the low word of the id
        obtain ⟨t, rest, hfrom, ht⟩ := @from_head table _ ((s'.id + 1) % 2 ^ 16) s' hs (by omega)
        rw [show served room (k + 1) - 1 + 1 = served room (k + 1) by omega] at ht
        refine ⟨t, ht, ?_⟩
        have hdrop : (table.symbols.take (served room (k + 1))).drop (served room k) =
            (table.symbols.drop (served room k)).take (room k) := by
          rw [List.drop_take, hsucc, Nat.add_sub_cancel_left]
        have hfirst : [t.line] <+:
            (listPass (table.plc room (k + 1) (listRequest (s'.id + 1))) (s'.id + 1)).2 := by
          obtain ⟨m, hm⟩ : ∃ m, room (k + 1) = m + 1 :=
            ⟨room (k + 1) - 1, by have := hroom (k + 1); omega⟩
          rw [listPass_plc, hfrom, hm]
          exact ⟨(rest.take m).map TagSymbol.line, rfl⟩
        rw [hdrop]
        exact (List.prefix_append_right_inj _).2 (hfirst.trans (listPass_inFront checks n _ _))
  | succ d ih =>
    cases n with
    | zero => cases hrun
    | succ n =>
      have hsucc : served room (k + 1) = served room k + room k := rfl
      have hle : served room (k + 1) ≤ served room (j + 1) := served_le (by omega)
      obtain ⟨t, ht, -, hstep⟩ := (listFrom_inStep checks h (hroom k) n).2 (by omega)
      rw [hstep] at hrun
      obtain ⟨rfl, hend⟩ := Prod.mk.inj hrun
      have hnext := inStep_next (hroom k) ht (hfits k (by omega) t ht)
      obtain ⟨u, hu, hinfront⟩ := ih (k := k + 1) (by omega) hnext (Prod.ext rfl hend)
      refine ⟨u, hu, ?_⟩
      have hsplit : (table.symbols.take (served room (j + 1))).drop (served room k) =
          (table.symbols.drop (served room k)).take (room k) ++
            (table.symbols.take (served room (j + 1))).drop (served room (k + 1)) := by
        have hfront : ((table.symbols.take (served room (j + 1))).drop (served room k)).take
            (room k) = (table.symbols.drop (served room k)).take (room k) := by
          rw [List.drop_take, List.take_take, Nat.min_eq_left (by omega)]
        rw [hsucc, ← List.drop_drop, ← hfront, List.take_append_drop]
      rw [hsplit, List.map_append, List.append_assoc]
      exact (List.prefix_append_right_inj _).2 hinfront

/-! ## Each symbol once -/

/-- The call returns, and each symbol is printed once. -/
def ListedOnce (table : SymbolTable) (room : Nat → Nat) : Prop :=
  ∃ n lines ok, listTags checks (table.plc room) n = (lines, .returned ok) ∧
    ∀ s ∈ table.symbols, lines.count s.line = 1

theorem nodup_lines (table : SymbolTable) : (table.symbols.map TagSymbol.line).Nodup := by
  rw [List.Nodup, List.pairwise_map]
  refine table.increasing.imp fun {a b} hlt heq => ?_
  have hid : a.id = b.id := congrArg TagLine.id heq
  omega

/-- **Each symbol is printed once exactly where every id that is asked for fits 16 bits**; all of
the table is then printed in order. -/
theorem tags_listed_once (hroom : ∀ k, 0 < room k) :
    (ListedOnce checks table room ↔ IdsFit table room) ∧
    (IdsFit table room → ∃ n, listTags checks (table.plc room) n =
      (table.symbols.map TagSymbol.line, .returned true)) := by
  have hgood : IdsFit table room → ∃ n, listTags checks (table.plc room) n =
      (table.symbols.map TagSymbol.line, .returned true) := by
    intro hfit
    exact ⟨table.symbols.length + 1,
      listFrom_rest checks hroom hfit inStep_start (by simp only [served]; omega)⟩
  refine ⟨⟨?_, fun hfit => ?_⟩, hgood⟩
  · rintro ⟨n, lines, ok, hrun, honce⟩
    by_contra hnot
    -- the first partial reply with an id that does not fit behind it
    have hbad : ∃ j, ∃ s, table.symbols[served room (j + 1) - 1]? = some s ∧
        served room (j + 1) < table.symbols.length ∧ 2 ^ 16 ≤ s.id + 1 := by
      simp only [IdsFit, not_forall] at hnot
      obtain ⟨j, s, hs, hleft, hlarge⟩ := hnot
      exact ⟨j, s, hs, hleft, Nat.le_of_not_lt hlarge⟩
    classical
    obtain ⟨s, hs, hleft, hlarge⟩ := Nat.find_spec hbad
    have hfits : ∀ i < Nat.find hbad, ∀ t,
        table.symbols[served room (i + 1) - 1]? = some t → t.id + 1 < 2 ^ 16 := by
      intro i hi t ht
      by_contra hge
      exact Nat.find_min hbad hi ⟨t, ht,
        Nat.lt_of_le_of_lt (served_le (by omega)) hleft, Nat.le_of_not_lt hge⟩
    obtain ⟨t, ht, hinfront⟩ := listFrom_again checks hroom hs hleft hlarge hfits
      (Nat.zero_add _) inStep_start hrun
    have hcount := hinfront.sublist.count_le t.line
    have hfirst : 0 < ((table.symbols.take (served room (Nat.find hbad + 1))).map
        TagSymbol.line).count t.line :=
      List.count_pos_iff.2 (List.mem_map_of_mem ht)
    rw [show served room 0 = 0 from rfl, List.drop_zero, List.count_append,
      honce t (List.mem_of_mem_take ht), List.count_singleton_self] at hcount
    omega
  · obtain ⟨n, hn⟩ := hgood hfit
    refine ⟨n, _, true, hn, fun s hs => ?_⟩
    exact List.count_eq_one_of_mem (nodup_lines table) (List.mem_map_of_mem hs)

/-- A symbol with a name of one letter, of type DINT. -/
def dintSymbol (id : Nat) (c : UInt8) (h : id < 2 ^ 32) : TagSymbol :=
  ⟨id, [c], 0xC4, h, Nat.lt_of_lt_of_le Nat.one_lt_two (by decide), by decide⟩

def narrowTable : SymbolTable :=
  ⟨[dintSymbol 1 0x61 (by decide), dintSymbol 300 0x62 (by decide)],
    List.pairwise_pair.2 (by decide)⟩

/-- Two symbols in two replies. -/
theorem tags_listed_once_narrow : ListedOnce true narrowTable fun _ => 1 := by
  refine (tags_listed_once true fun _ => Nat.one_pos).1.2 fun k s hs hleft => ?_
  have hserved : ∀ k, served (fun _ => 1) k = k := by
    intro k
    induction k with
    | zero => rfl
    | succ k ih => rw [served, ih]
  rw [hserved] at hs hleft
  obtain rfl : k = 0 := by
    have hlen : narrowTable.symbols.length = 2 := rfl
    omega
  obtain rfl := Option.some.inj hs
  decide

def wideTable : SymbolTable :=
  ⟨[dintSymbol 65535 0x61 (by decide), dintSymbol 65536 0x62 (by decide)],
    List.pairwise_pair.2 (by decide)⟩

/-- Behind symbol 65535 the request is for instance 0 again, for ever. -/
theorem wide_ids_never_end :
    (∀ n, (listTags true (wideTable.plc fun _ => 1) n).2 = .running) ∧
      ¬ ListedOnce true wideTable fun _ => 1 := by
  have hloop : ∀ n k tagId, tagId % 2 ^ 16 = 0 →
      (listFrom true (wideTable.plc fun _ => 1) n k tagId).2 = .running := by
    intro n
    induction n with
    | zero => exact fun _ _ _ => rfl
    | succ n ih =>
      intro k tagId hlow
      rw [listFrom, listPass_plc, hlow]
      exact ih (k + 1) 65536 (by decide)
  refine ⟨fun n => hloop n 0 0 rfl, ?_⟩
  rintro ⟨n, lines, ok, hrun, -⟩
  have hend := hloop n 0 0 rfl
  rw [show listFrom true (wideTable.plc fun _ => 1) n 0 0 = _ from hrun] at hend
  cases hend

end EtherIp
