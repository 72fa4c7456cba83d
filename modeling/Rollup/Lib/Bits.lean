import Mathlib.Data.Nat.Basic
import Mathlib.Data.List.Forall2
import Mathlib.Tactic.Ring

/-!
# Bit strings

Numbers written on a fixed number of bits (`ofNat`), the lowest bit first. A
`Field` is a number with the number of bits it is written on: a list of fields
is read back from its bits, provided the numbers fit and the widths are known
(`encode_inj`), hence from the number it packs them into (`number_inj`). Strings of one
length, put one after the other, are read back from their positions (`take_drop_flatten`).
-/

namespace Bits

/-- The `k` lowest bits of a number, the lowest one first. -/
def ofNat : (k n : ℕ) → List Bool
  | 0, _ => []
  | k + 1, n => decide (n % 2 = 1) :: ofNat k (n / 2)

@[simp] theorem length_ofNat (k n : ℕ) : (ofNat k n).length = k := by
  induction k generalizing n with
  | zero => rfl
  | succ k ih => rw [ofNat, List.length_cons, ih]

@[simp] theorem ofNat_zero (k : ℕ) : ofNat k 0 = List.replicate k false := by
  induction k with
  | zero => rfl
  | succ k ih => rw [ofNat, Nat.zero_div, ih]; rfl

/-- A number that fits is given by its bits. -/
theorem ofNat_inj {k n m : ℕ} (hn : n < 2 ^ k) (hm : m < 2 ^ k) (h : ofNat k n = ofNat k m) :
    n = m := by
  induction k generalizing n m with
  | zero => omega
  | succ k ih =>
    obtain ⟨hbit, hrest⟩ := List.cons.inj h
    rw [pow_succ] at hn hm
    have hdiv : n / 2 = m / 2 := ih (by omega) (by omega) hrest
    have hmod : n % 2 = 1 ↔ m % 2 = 1 := decide_eq_decide.1 hbit
    omega

/-! ## Fields -/

/-- A number, and the number of bits it is written on. -/
@[ext]
structure Field where
  value : ℕ
  width : ℕ

namespace Field

/-- The bits of a field, the lowest one first. -/
def bits (f : Field) : List Bool := ofNat f.width f.value

/-- No bit of the value is lost. -/
def Fits (f : Field) : Prop := f.value < 2 ^ f.width

instance (f : Field) : Decidable f.Fits := inferInstanceAs (Decidable (_ < _))

@[simp] theorem length_bits (f : Field) : f.bits.length = f.width := length_ofNat _ _

end Field

/-- The bits of the fields, one after the other. -/
def encode (fields : List Field) : List Bool := fields.flatMap Field.bits

theorem length_encode (fields : List Field) :
    (encode fields).length = (fields.map Field.width).sum := by
  rw [encode, List.length_flatMap]
  simp only [Field.length_bits]

theorem encode_append (fields fields' : List Field) :
    encode (fields ++ fields') = encode fields ++ encode fields' := List.flatMap_append

theorem encode_zero {fields : List Field} (h : ∀ f ∈ fields, f.value = 0) :
    encode fields = List.replicate (fields.map Field.width).sum false := by
  induction fields with
  | nil => rfl
  | cons f fields ih =>
    rw [List.forall_mem_cons] at h
    rw [encode, List.flatMap_cons, Field.bits, h.1, ofNat_zero, List.map_cons, List.sum_cons,
      ← List.replicate_append_replicate]
    exact congrArg _ (ih h.2)

/-- Fields of the same widths that fit are read back, together with what follows. -/
theorem encode_inj {fields fields' : List Field} {rest rest' : List Bool}
    (hw : fields.map Field.width = fields'.map Field.width)
    (hf : ∀ f ∈ fields, f.Fits) (hf' : ∀ f ∈ fields', f.Fits)
    (h : encode fields ++ rest = encode fields' ++ rest') : fields = fields' ∧ rest = rest' := by
  induction fields generalizing fields' with
  | nil =>
    obtain rfl := List.map_eq_nil_iff.1 hw.symm
    exact ⟨rfl, h⟩
  | cons f fields ih =>
    cases fields' with
    | nil => cases hw
    | cons f' fields' =>
      obtain ⟨hwidth, hw⟩ := List.cons.inj hw
      rw [encode, encode, List.flatMap_cons, List.flatMap_cons, List.append_assoc,
        List.append_assoc] at h
      -- The first fields have the same width, so their bits end at the same place.
      obtain ⟨hbits, htail⟩ := List.append_inj h (by rw [f.length_bits, f'.length_bits, hwidth])
      obtain ⟨rfl, rfl⟩ := ih hw (fun g hg => hf g (List.mem_cons_of_mem f hg))
        (fun g hg => hf' g (List.mem_cons_of_mem f' hg)) htail
      have hfit : f.value < 2 ^ f.width := hf f List.mem_cons_self
      have hfit' : f'.value < 2 ^ f'.width := hf' f' List.mem_cons_self
      rw [Field.bits, Field.bits, ← hwidth] at hbits
      rw [← hwidth] at hfit'
      have hvalue := ofNat_inj hfit hfit' hbits
      exact ⟨congrArg (· :: fields) (Field.ext hvalue hwidth), rfl⟩

/-! ## Fields packed into a number -/

/-- The number whose digits are the fields, the first one being the lowest. -/
def number : List Field → ℕ
  | [] => 0
  | f :: fields => f.value + 2 ^ f.width * number fields

/-- The bits of a sum without carries. -/
theorem ofNat_add_mul {k m n r : ℕ} (hn : n < 2 ^ k) :
    ofNat (k + m) (n + 2 ^ k * r) = ofNat k n ++ ofNat m r := by
  induction k generalizing n with
  | zero =>
    obtain rfl : n = 0 := Nat.lt_one_iff.1 hn
    rw [pow_zero, Nat.one_mul, Nat.zero_add, Nat.zero_add, ofNat, List.nil_append]
  | succ k ih =>
    rw [pow_succ] at hn
    have hsum : n + 2 ^ (k + 1) * r = n + 2 * (2 ^ k * r) := by rw [pow_succ', Nat.mul_assoc]
    rw [hsum, Nat.succ_add, ofNat, Nat.add_mul_mod_self_left, Nat.add_mul_div_left _ _ two_pos,
      ih (by omega), ofNat, List.cons_append]

variable {fields fields' : List Field}

theorem encode_eq_ofNat (hf : ∀ f ∈ fields, f.Fits) :
    encode fields = ofNat (fields.map Field.width).sum (number fields) := by
  induction fields with
  | nil => rfl
  | cons f fields ih =>
    rw [List.forall_mem_cons] at hf
    rw [encode, List.flatMap_cons, List.map_cons, List.sum_cons, number, ofNat_add_mul hf.1,
      ← ih hf.2]
    rfl

theorem number_lt (hf : ∀ f ∈ fields, f.Fits) :
    number fields < 2 ^ (fields.map Field.width).sum := by
  induction fields with
  | nil => exact one_pos
  | cons f fields ih =>
    rw [List.forall_mem_cons] at hf
    rw [number, List.map_cons, List.sum_cons, pow_add]
    calc f.value + 2 ^ f.width * number fields
        < 2 ^ f.width + 2 ^ f.width * number fields := Nat.add_lt_add_right hf.1 _
      _ = 2 ^ f.width * (number fields + 1) := by ring
      _ ≤ 2 ^ f.width * 2 ^ (fields.map Field.width).sum := Nat.mul_le_mul_left _ (ih hf.2)

/-- Fields of the same widths that fit are given by the number they are packed into. -/
theorem number_inj (hw : fields.map Field.width = fields'.map Field.width)
    (hf : ∀ f ∈ fields, f.Fits) (hf' : ∀ f ∈ fields', f.Fits) (h : number fields = number fields') :
    fields = fields' := by
  have hbits : encode fields ++ [] = encode fields' ++ [] := by
    rw [encode_eq_ofNat hf, encode_eq_ofNat hf', hw, h]
  exact (encode_inj hw hf hf' hbits).1

/-! ## Strings of one length -/

variable {α β : Type*} {k : ℕ} {pieces : List (List α)}

/-- What is related to the element at a position. -/
theorem exists_getElem?_of_forall₂ {R : α → β → Prop} {l : List α} {l' : List β}
    (h : List.Forall₂ R l l') {i : ℕ} {a : α} (ha : l[i]? = some a) :
    ∃ b, l'[i]? = some b ∧ R a b := by
  induction h generalizing i with
  | nil => cases ha
  | @cons a' b' _ _ hab _ ih =>
    cases i with
    | zero => exact ⟨b', rfl, Option.some.inj ha ▸ hab⟩
    | succ i => exact ih ha

/-- Every element of the second list is related to one of the first. -/
theorem exists_mem_of_forall₂ {R : α → β → Prop} {l : List α} {l' : List β}
    (h : List.Forall₂ R l l') {b : β} (hb : b ∈ l') : ∃ a ∈ l, R a b := by
  induction h with
  | nil => cases hb
  | @cons a' b' _ _ hab _ ih =>
    rcases List.mem_cons.1 hb with rfl | hb
    · exact ⟨a', List.mem_cons_self, hab⟩
    · obtain ⟨a, ha, hab⟩ := ih hb
      exact ⟨a, List.mem_cons_of_mem a' ha, hab⟩

/-- What is said of lists by what they are related to is said of them together. -/
theorem map_flatten_eq_of_forall₂ {γ δ : Type*} {R R' : α → List β → Prop} {f : α → γ}
    {g : β → δ} {p : β → Prop} (hR : ∀ a a' l l', R a l → R' a' l' → f a = f a' →
      (∀ b ∈ l, p b) → (∀ b ∈ l', p b) → l.map g = l'.map g)
    {as as' : List α} {ls ls' : List (List β)} (h : List.Forall₂ R as ls)
    (h' : List.Forall₂ R' as' ls') (hf : as.map f = as'.map f) (hp : ∀ b ∈ ls.flatten, p b)
    (hp' : ∀ b ∈ ls'.flatten, p b) : ls.flatten.map g = ls'.flatten.map g := by
  induction h generalizing as' ls' with
  | nil =>
    obtain rfl := List.map_eq_nil_iff.1 hf.symm
    cases h'
    rfl
  | @cons a l as ls ha _ ih =>
    cases h' with
    | nil => cases hf
    | @cons a' l' as' ls' ha' has' =>
      obtain ⟨hfirst, hrest⟩ := List.cons.inj hf
      simp only [List.flatten_cons, List.forall_mem_append] at hp hp'
      rw [List.flatten_cons, List.flatten_cons, List.map_append, List.map_append,
        hR a a' l l' ha ha' hfirst hp.1 hp'.1, ih has' hrest hp.2 hp'.2]

/-- A list is given by the strings of its elements, one after the other. -/
theorem flatMap_injective {f : β → List α} (hf : Function.Injective f)
    (hlen : ∀ b, (f b).length = k) (hk : 0 < k) : Function.Injective (List.flatMap f) := by
  have hne : ∀ b l, f b ++ l ≠ [] := by
    intro b l hnil
    have hlength := congrArg List.length hnil
    rw [List.length_append, hlen, List.length_nil] at hlength
    omega
  intro l l' h
  induction l generalizing l' with
  | nil =>
    cases l' with
    | nil => rfl
    | cons b' l' => exact absurd h.symm (hne b' _)
  | cons b l ih =>
    cases l' with
    | nil => exact absurd h (hne b _)
    | cons b' l' =>
      obtain ⟨hb, hl⟩ := List.append_inj h ((hlen b).trans (hlen b').symm)
      rw [hf hb, ih hl]

theorem length_flatten_of (h : ∀ p ∈ pieces, p.length = k) :
    pieces.flatten.length = pieces.length * k := by
  rw [List.length_flatten, List.map_congr_left h, List.map_const', List.sum_replicate_nat]

/-- Relating every element of a list to some element. -/
theorem exists_forall₂ {R : α → β → Prop} {l : List α} (h : ∀ a ∈ l, ∃ b, R a b) :
    ∃ l', List.Forall₂ R l l' := by
  induction l with
  | nil => exact ⟨[], .nil⟩
  | cons a l ih =>
    rw [List.forall_mem_cons] at h
    obtain ⟨b, hb⟩ := h.1
    obtain ⟨l', hl'⟩ := ih h.2
    exact ⟨b :: l', .cons hb hl'⟩

/-- The piece at a position. -/
theorem take_drop_flatten (h : ∀ p ∈ pieces, p.length = k) {i : ℕ} {p : List α}
    (hp : pieces[i]? = some p) : (pieces.flatten.drop (i * k)).take k = p := by
  induction pieces generalizing i with
  | nil => cases hp
  | cons q pieces ih =>
    have hq : q.length = k := h q List.mem_cons_self
    rw [List.flatten_cons]
    cases i with
    | zero =>
      obtain rfl := Option.some.inj hp
      rw [Nat.zero_mul, List.drop_zero, List.take_append_of_le_length hq.ge,
        List.take_of_length_le hq.le]
    | succ i =>
      have hskip : (i + 1) * k = q.length + i * k := by rw [hq]; ring
      rw [hskip, List.drop_append, List.drop_eq_nil_of_le (Nat.le_add_right _ _), List.nil_append,
        Nat.add_sub_cancel_left]
      exact ih (fun p hp => h p (List.mem_cons_of_mem q hp)) hp

end Bits
