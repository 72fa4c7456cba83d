import Mathlib.Data.List.AList
import Mathlib.Data.ZMod.Basic
import Rollup.Lib.Exec

/-!
# The ground of the model

The field elements, maps and errors of the state manager.

* `Fr` is the scalar field of the circuit's curve; its elements are ordered as
  the integers representing them (`ZMod.val`).
* `FluidexCommon` is what the code calls in crates outside the repository: the
  field hash, the 40-bit floats and SHA-256.
* `u32`, `u64` and `usize` values are natural numbers, reduced where the code
  could wrap; `i64` offsets and `BigInt`s are integers.
* `FnvHashMap` and `BTreeMap` are finite maps. Only the keys of a `BTreeMap`
  are ever used in order.
* A program that panics stops with a `Panic`; an `anyhow::Result` is an
  `Except AnyhowError`.
-/

namespace Rollup

/-- The order of the field. -/
def Fr.modulus : ℕ :=
  21888242871839275222246405745257275088548364400416034343698204186575808495617

instance : NeZero Fr.modulus := ⟨by decide⟩

/-- The field elements. -/
abbrev Fr := ZMod Fr.modulus

/-! The small numerals are at least two by a constant, so that a field element written with one
of them is the same term wherever it is written. -/

instance Fr.atLeastTwo2 : (2 : ℕ).AtLeastTwo := ⟨by decide⟩
instance Fr.atLeastTwo3 : (3 : ℕ).AtLeastTwo := ⟨by decide⟩
instance Fr.atLeastTwo4 : (4 : ℕ).AtLeastTwo := ⟨by decide⟩
instance Fr.atLeastTwo5 : (5 : ℕ).AtLeastTwo := ⟨by decide⟩
instance Fr.atLeastTwo6 : (6 : ℕ).AtLeastTwo := ⟨by decide⟩
instance Fr.atLeastTwo7 : (7 : ℕ).AtLeastTwo := ⟨by decide⟩
instance Fr.atLeastTwo8 : (8 : ℕ).AtLeastTwo := ⟨by decide⟩
instance Fr.atLeastTwo9 : (9 : ℕ).AtLeastTwo := ⟨by decide⟩
instance Fr.atLeastTwo10 : (10 : ℕ).AtLeastTwo := ⟨by decide⟩
instance Fr.atLeastTwo12 : (12 : ℕ).AtLeastTwo := ⟨by decide⟩
instance Fr.atLeastTwo50 : (50 : ℕ).AtLeastTwo := ⟨by decide⟩
instance Fr.atLeastTwo90 : (90 : ℕ).AtLeastTwo := ⟨by decide⟩
instance Fr.atLeastTwo100 : (100 : ℕ).AtLeastTwo := ⟨by decide⟩

/-- A number that fits in the field is the value of its element. -/
theorem Fr.val_natCast {n k : ℕ} (h : n < 2 ^ k) (hk : k < 254) : ((n : ℕ) : Fr).val = n := by
  have hmod : 2 ^ 253 ≤ Fr.modulus := by decide
  exact ZMod.val_natCast_of_lt
    ((h.trans_le (Nat.pow_le_pow_right (by decide) (Nat.le_of_lt_succ hk))).trans_le hmod)

/-- Why a program stopped. -/
inductive Panic where
  /-- `unwrap` of nothing, or of an error -/
  | unwrap
  /-- a failed `assert!` or `debug_assert!` -/
  | assertion (text : String)
  /-- `panic!` and `expect` -/
  | explicit (text : String)
  /-- a remainder by zero -/
  | divisionByZero
  /-- an addition that overflows, where the overflow checks are compiled in -/
  | overflow
  deriving DecidableEq, Repr

/-- An error that is returned. -/
structure AnyhowError where
  text : String
  deriving DecidableEq, Repr

/-- A decimal float: its value is `significand * 10 ^ exponent`. -/
structure Float40 where
  significand : ℤ
  exponent : ℕ
  deriving DecidableEq

/-- What the code uses of the crates outside the repository. -/
class FluidexCommon where
  /-- `Fr::hash` -/
  hash : List Fr → Fr
  /-- `FrExt::to_i64`, `none` where it panics -/
  toI64 : Fr → Option ℤ
  /-- `Float40::to_encoded_int` -/
  toEncodedInt : Float40 → Except AnyhowError ℤ
  /-- `Float40::from_encoded_bigint` -/
  fromEncodedBigint : ℤ → Except AnyhowError Float40
  /-- `Float40::to_bigint` -/
  toBigint : Float40 → ℤ
  /-- `sha2::Sha256::digest` -/
  sha256 : List UInt8 → List UInt8

/-- An instance to run the model with. Its hashes are polynomials, not those of the code. -/
@[reducible] def FluidexCommon.sample : FluidexCommon where
  hash l := l.foldl (fun acc x => acc * 7919 + x + 1) 17
  toI64 x := if x.val < 2 ^ 63 then some x.val else none
  toEncodedInt f :=
    if f.significand < 2 ^ 35 ∧ f.exponent < 2 ^ 5 then .ok (f.exponent * 2 ^ 35 + f.significand)
    else .error ⟨"invalid float"⟩
  fromEncodedBigint n :=
    if 0 ≤ n ∧ n < 2 ^ 40 then .ok ⟨n % 2 ^ 35, (n / 2 ^ 35).toNat⟩ else .error ⟨"invalid encoding"⟩
  toBigint f := f.significand * 10 ^ f.exponent
  sha256 bytes := bytes

namespace Fr

export FluidexCommon (hash)

theorem one_ne_zero : (1 : Fr) ≠ 0 := by decide

/-- `FrExt::shl` -/
def shl (x : Fr) (k : ℕ) : Fr := x * 2 ^ k

/-- `FrExt::to_bigint` -/
def toBigint (x : Fr) : ℤ := x.val

end Fr

/-- A finite map. -/
abbrev FnvHashMap (κ ν : Type) := AList fun _ : κ => ν

/-- A finite map whose keys can be listed in order. -/
abbrev BTreeMap (κ ν : Type) := AList fun _ : κ => ν

theorem lookup_insert_ite {κ ν : Type} [DecidableEq κ] (m : FnvHashMap κ ν) (k k' : κ) (v : ν) :
    (m.insert k v).lookup k' = if k' = k then some v else m.lookup k' := by
  split
  · next h => rw [h, AList.lookup_insert]
  · next h => rw [AList.lookup_insert_ne h]

/-- `Option::unwrap` -/
abbrev unwrap {α : Type} (o : Option α) : Except Panic α := Exec.unwrap .unwrap o

/-- `assert!` and `debug_assert!`; both are compiled in, in every profile. -/
abbrev assert (p : Prop) [Decidable p] (text : String) : Except Panic Unit :=
  Exec.assert (.assertion text) p

/-- A way to order the elements of any list: the schedule of parallel tasks, or
    the order in which a hash map is iterated. -/
structure Shuffle (α : Type) where
  order : List α → List α
  perm : ∀ l, (order l).Perm l

/-- The order of the list. -/
def Shuffle.id {α : Type} : Shuffle α := ⟨fun l => l, fun _ => .refl _⟩

/-- The reverse order. -/
def Shuffle.reverse {α : Type} : Shuffle α := ⟨List.reverse, List.reverse_perm⟩

end Rollup
