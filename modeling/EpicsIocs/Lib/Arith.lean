import EpicsIocs.Lib.Ints

/-!
# Arithmetic that may overflow

An `Arith t` is a value of the integer type `t`, or what is left of one once an operation on the
way has left the type.  Sums, differences and products read as in the code they model:

    of t a + of t b = of t (a + b)         for `a` and `b` of the type        (of_add_of)
    (of t a).value = some a                for `a` of the type                 (value_of)
-/

namespace Ints

structure Arith (t : IntType) where
  value : Option Int

namespace Arith

variable {t : IntType}

def of (t : IntType) (v : Int) : Arith t := ⟨t.tryFrom v⟩

/-- An operation on values of the type; its result is one, or there is none. -/
def lift (f : Int → Int → Int) (x y : Arith t) : Arith t :=
  ⟨x.value.bind fun a => y.value.bind fun b => t.tryFrom (f a b)⟩

instance : Add (Arith t) := ⟨lift fun a b => a + b⟩
instance : Sub (Arith t) := ⟨lift fun a b => a - b⟩
instance : Mul (Arith t) := ⟨lift fun a b => a * b⟩
instance (n : Nat) : OfNat (Arith t) n := ⟨of t n⟩

/-- Toward zero; there is none by zero. -/
instance : Div (Arith t) where
  div x y := ⟨x.value.bind fun a => y.value.bind fun b =>
    if b = 0 then none else t.tryFrom (a.tdiv b)⟩

theorem value_of {a : Int} (h : t.Holds a) : (of t a).value = some a :=
  IntType.tryFrom_of_holds h

theorem lift_of {f : Int → Int → Int} {a b : Int} (ha : t.Holds a) (hb : t.Holds b) :
    lift f (of t a) (of t b) = of t (f a b) := by
  rw [lift, value_of ha, Option.bind_some, value_of hb, Option.bind_some]
  rfl

theorem of_add_of {a b : Int} (ha : t.Holds a) (hb : t.Holds b) :
    of t a + of t b = of t (a + b) := lift_of ha hb

theorem of_sub_of {a b : Int} (ha : t.Holds a) (hb : t.Holds b) :
    of t a - of t b = of t (a - b) := lift_of ha hb

theorem of_mul_of {a b : Int} (ha : t.Holds a) (hb : t.Holds b) :
    of t a * of t b = of t (a * b) := lift_of ha hb

theorem of_div_of {a b : Int} (ha : t.Holds a) (hb : t.Holds b) (hne : b ≠ 0) :
    of t a / of t b = of t (a.tdiv b) := by
  have hdiv : of t a / of t b = ⟨(of t a).value.bind fun a => (of t b).value.bind fun b =>
    if b = 0 then none else t.tryFrom (a.tdiv b)⟩ := rfl
  rw [hdiv, value_of ha, Option.bind_some, value_of hb, Option.bind_some, if_neg hne]
  rfl

theorem value_of_add {a b : Int} (ha : t.Holds a) (hb : t.Holds b) (h : t.Holds (a + b)) :
    (of t a + of t b).value = some (a + b) := by
  rw [of_add_of ha hb, value_of h]

theorem value_of_sub {a b : Int} (ha : t.Holds a) (hb : t.Holds b) (h : t.Holds (a - b)) :
    (of t a - of t b).value = some (a - b) := by
  rw [of_sub_of ha hb, value_of h]

theorem value_of_mul {a b : Int} (ha : t.Holds a) (hb : t.Holds b) (h : t.Holds (a * b)) :
    (of t a * of t b).value = some (a * b) := by
  rw [of_mul_of ha hb, value_of h]

end Arith

theorem holds_int32 {v : Int} : int32.Holds v ↔ -2147483648 ≤ v ∧ v < 2147483648 := Iff.rfl

theorem holds_int64 {v : Int} :
    int64.Holds v ↔ -9223372036854775808 ≤ v ∧ v < 9223372036854775808 := Iff.rfl

end Ints
