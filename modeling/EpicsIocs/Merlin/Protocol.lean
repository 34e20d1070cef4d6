import Mathlib.Data.List.TakeWhile
import EpicsIocs.Lib.Bytes

/-! # MPX messages

The codec of `protocol.rs`: the frame `MPX,<10 digits>,<body>` whose length counts the comma in
front of the body, and the fields of the bodies of the command channel.

    parseFrameHeader (frameHeader body) maxBody = .ok body.length    (parseFrameHeader_frameHeader)

`atoi` is a parameter; of it a frame needs that the ten digits of a number below 2^31 are read
back. -/

namespace Merlin

/-- The errors of the command channel. -/
inductive MpxError where
  | tooLong
  | badHeader
  | badBodySize (n : Int)
  | malformed
  | device (code : Int)
  deriving DecidableEq

inductive MpxKind where
  | set
  | get
  | cmd
  deriving DecidableEq

/-- `as_str`. -/
def MpxKind.text : MpxKind → List UInt8
  | set => [83, 69, 84]
  | get => [71, 69, 84]
  | cmd => [67, 77, 68]

def mpxHeader : List UInt8 := [77, 80, 88]
def comma : UInt8 := 44
def mpxMaxline : Nat := 256
def mpxFrameHeaderLen : Nat := 15
def mpxMsgLenDigits : Nat := 10

/-- The low `k` decimal digits. -/
def decimal : (k n : Nat) → List UInt8
  | 0, _ => []
  | k + 1, n => decimal k (n / 10) ++ [UInt8.ofNat (48 + n % 10)]

/-- What stands in front of a body. -/
def frameHeader (body : List UInt8) : List UInt8 :=
  mpxHeader ++ comma :: (decimal mpxMsgLenDigits (body.length + 1) ++ [comma])

def encode (kind : MpxKind) (name : List UInt8) (value : Option (List UInt8)) :
    Except MpxError (List UInt8) :=
  let body := kind.text ++ comma :: name ++ (value.map fun v => comma :: v).getD []
  let msg := frameHeader body ++ body
  if msg.length > mpxMaxline then .error .tooLong else .ok msg

section Decode

variable (atoi : List UInt8 → Int)

/-- The number of body bytes behind a header. -/
def parseFrameHeader (header : List UInt8) (maxBody : Nat) : Except MpxError Nat :=
  if header.length ≠ mpxFrameHeaderLen ∨ header.take 3 ≠ mpxHeader then .error .badHeader
  else if header[3]? ≠ some comma ∨ header[mpxFrameHeaderLen - 1]? ≠ some comma then
    .error .badHeader
  else
    let body := atoi ((header.drop 4).take mpxMsgLenDigits) - 1
    if body ≤ 0 ∨ body.toNat ≥ maxBody then .error (.badBodySize body) else .ok body.toNat

/-- `split(',')`. -/
def splitCommas : List UInt8 → List (List UInt8)
  | [] => [[]]
  | b :: bs =>
    if b = comma then [] :: splitCommas bs
    else
      match splitCommas bs with
      | [] => [[b]]
      | field :: rest => (b :: field) :: rest

/-- The fields of a body; one that is no text has a single empty one. -/
def fields (body : List UInt8) : List (List UInt8) :=
  if (String.fromUTF8? ⟨body.toArray⟩).isSome then splitCommas body else [[]]

def responseEchoes (body : List UInt8) (kind : MpxKind) (name : List UInt8) : Bool :=
  (fields body)[0]? = some kind.text ∧ (fields body)[1]? = some name

def decodeAck (body : List UInt8) : Except MpxError Unit :=
  match (fields body)[2]? with
  | none => .error .malformed
  | some code => if atoi code ≠ 0 then .error (.device (atoi code)) else .ok ()

def decodeGet (body : List UInt8) : Except MpxError (List UInt8) :=
  match (fields body)[2]? with
  | none => .error .malformed
  | some value =>
    match (fields body)[3]? with
    | none => .error .malformed
    | some code => if atoi code ≠ 0 then .error (.device (atoi code)) else .ok value

end Decode

/-! ## Frames -/

@[simp] theorem length_frameHeader (body : List UInt8) : (frameHeader body).length = 15 := rfl

/-- `atoi` reads the length of a frame. -/
def ReadsLengths (atoi : List UInt8 → Int) : Prop := ∀ n, n < 2 ^ 31 → atoi (decimal mpxMsgLenDigits n) = n

theorem parseFrameHeader_frameHeader {atoi : List UInt8 → Int} (hatoi : ReadsLengths atoi)
    {body : List UInt8} {maxBody : Nat} (hbody : body.length + 1 < 2 ^ 31)
    (hne : body.length ≠ 0) :
    parseFrameHeader atoi (frameHeader body) maxBody =
      if body.length ≥ maxBody then .error (.badBodySize body.length) else .ok body.length := by
  have hnumber : atoi (((frameHeader body).drop 4).take mpxMsgLenDigits) - 1 = body.length := by
    rw [show ((frameHeader body).drop 4).take mpxMsgLenDigits =
      decimal mpxMsgLenDigits (body.length + 1) from rfl, hatoi _ hbody]
    omega
  unfold parseFrameHeader
  rw [if_neg (by rw [length_frameHeader]; exact fun h => h.elim (· rfl) (· rfl)),
    if_neg (fun h => h.elim (· rfl) (· rfl))]
  dsimp only
  rw [hnumber, Int.toNat_natCast]
  by_cases hlong : body.length ≥ maxBody
  · rw [if_pos (.inr hlong), if_pos hlong]
  · rw [if_neg (by omega), if_neg hlong]

theorem MpxKind.text_injective {a b : MpxKind} (h : a.text = b.text) : a = b := by
  revert h
  cases a <;> cases b <;> decide

/-- A body echoes one command only. -/
theorem echo_unique {body : List UInt8} {k k' : MpxKind} {n n' : List UInt8}
    (h : responseEchoes body k n = true) (h' : responseEchoes body k' n' = true) :
    k = k' ∧ n = n' := by
  unfold responseEchoes at h h'
  have hfst := of_decide_eq_true h
  have hsnd := of_decide_eq_true h'
  constructor
  · exact MpxKind.text_injective (Option.some.inj (hfst.1.symm.trans hsnd.1))
  · exact Option.some.inj (hfst.2.symm.trans hsnd.2)

/-- The decimal digits of a text. -/
def digitsAtoi (text : List UInt8) : Int :=
  (text.takeWhile fun c => 48 ≤ c && c ≤ 57).foldl (fun n c => 10 * n + (c.toNat - 48)) 0

theorem isDigit_decimal (k n : Nat) : ∀ c ∈ decimal k n, (48 ≤ c && c ≤ 57) = true := by
  induction k generalizing n with
  | zero => exact fun _ h => absurd h List.not_mem_nil
  | succ k ih =>
    intro c hc
    rcases List.mem_append.1 hc with hc | hc
    · exact ih _ c hc
    · obtain rfl := List.mem_singleton.1 hc
      have hlt : n % 10 < 10 := Nat.mod_lt _ (by decide)
      generalize n % 10 = d at hlt
      revert d
      decide

theorem foldl_decimal (k n : Nat) :
    (decimal k n).foldl (fun v c => 10 * v + ((c.toNat : Int) - 48)) 0 = (n % 10 ^ k : Nat) := by
  induction k generalizing n with
  | zero => rw [Nat.pow_zero, Nat.mod_one]; rfl
  | succ k ih =>
    have hlt : n % 10 < 10 := Nat.mod_lt _ (by decide)
    have hlast : ((UInt8.ofNat (48 + n % 10)).toNat : Int) - 48 = (n % 10 : Nat) := by
      generalize n % 10 = d at hlt
      revert d
      decide
    rw [decimal, List.foldl_append, ih, List.foldl_cons, List.foldl_nil, hlast, Nat.pow_succ,
      Nat.mul_comm (10 ^ k), Nat.mod_mul]
    omega

theorem digitsAtoi_readsLengths : ReadsLengths digitsAtoi := by
  intro n hn
  unfold digitsAtoi
  rw [List.takeWhile_eq_self_iff.2 (isDigit_decimal _ n), foldl_decimal,
    Nat.mod_eq_of_lt (Nat.lt_of_lt_of_le hn (by decide))]

end Merlin
