import Mathlib.Data.List.AList
import Mathlib.Data.List.Induction
import Mathlib.Data.List.Sort

/-!
# Maps and lists of pairs

A finite map is listed as its pairs, in any order (`pairs`) or in the order of
its keys (`sortedPairs`), and is *extended* by a list of pairs by inserting them
one after the other (`extend`, `collect`), so that the last value given to a key
is the one it keeps (`exists_of_lookup_collect`).

* `Filled`: maps whose keys are the first numbers;
* `Same`: maps that may only differ by the order in which they are stored;
* `lookup_collect_eq_some_iff`: if a list never gives two values to a key, the
  order of its pairs does not matter;
* `lookup_collect_flatMap`: flattening a map of lists;
* `lookup_inverse_eq_some_iff`: inverting a map, in the order of its keys.
-/

namespace Maps

universe u

variable {κ ν : Type u} [DecidableEq κ]

/-- The pairs of a map. -/
def pairs (m : AList fun _ : κ => ν) : List (κ × ν) := m.entries.map fun e => (e.1, e.2)

/-- Inserting pairs one after the other. -/
def extend (m : AList fun _ : κ => ν) (l : List (κ × ν)) : AList fun _ : κ => ν :=
  l.foldl (fun m kv => m.insert kv.1 kv.2) m

/-- The map of a list of pairs. -/
def collect (l : List (κ × ν)) : AList fun _ : κ => ν := extend ∅ l

variable {m m' : AList fun _ : κ => ν} {l l' : List (κ × ν)} {k : κ} {v : ν}

/-! ## Listing a map -/

/-- The pairs are those of the lookups. -/
theorem mem_pairs : (k, v) ∈ pairs m ↔ m.lookup k = some v := by
  have hmem : (k, v) ∈ pairs m ↔ (⟨k, v⟩ : Σ _ : κ, ν) ∈ m.entries := by
    simp only [pairs, List.mem_map, Prod.mk.injEq]
    constructor
    · rintro ⟨e, he, rfl, rfl⟩
      exact he
    · exact fun he => ⟨⟨k, v⟩, he, rfl, rfl⟩
  exact hmem.trans AList.mem_lookup_iff.symm

omit [DecidableEq κ] in
/-- Maps with the same keys have the same number of keys. -/
theorem length_keys_eq (h : ∀ k, k ∈ m ↔ k ∈ m') : m.keys.length = m'.keys.length :=
  ((List.perm_ext_iff_of_nodup m.keys_nodup m'.keys_nodup).2 fun k => h k).length_eq

/-! ## Maps filled in order -/

/-- The keys are the first numbers. -/
def Filled {ν : Type} (m : AList fun _ : ℕ => ν) : Prop := ∀ i, i ∈ m ↔ i < m.keys.length

namespace Filled

variable {ν : Type} {m : AList fun _ : ℕ => ν}

theorem empty : Filled (∅ : AList fun _ : ℕ => ν) := fun _ => by simp

/-- Replacing a value adds no key. -/
theorem length_insert_of_mem {i : ℕ} (hi : i ∈ m) (v : ν) :
    (m.insert i v).keys.length = m.keys.length := by
  refine length_keys_eq fun j => ?_
  rw [AList.mem_insert, or_iff_right_of_imp]
  rintro rfl
  exact hi

/-- Giving a key another value. -/
theorem insert_of_mem (h : Filled m) {i : ℕ} (hi : i ∈ m) (v : ν) : Filled (m.insert i v) := by
  intro j
  rw [length_insert_of_mem hi, AList.mem_insert, ← h j, or_iff_right_of_imp]
  rintro rfl
  exact hi

/-- A value at the next position adds one. -/
theorem length_push (h : Filled m) (v : ν) :
    (m.insert m.keys.length v).keys.length = m.keys.length + 1 := by
  have hnot : m.keys.length ∉ m.keys := fun hmem => lt_irrefl _ ((h _).1 hmem)
  rw [AList.keys_insert, List.length_cons, List.erase_of_not_mem hnot]

/-- Giving a value to the next number. -/
theorem push (h : Filled m) (v : ν) : Filled (m.insert m.keys.length v) := by
  intro j
  rw [h.length_push, AList.mem_insert, h j]
  omega

/-- The next position is free. -/
theorem lookup_length (h : Filled m) : m.lookup m.keys.length = none :=
  AList.lookup_eq_none.2 fun hmem => lt_irrefl _ ((h _).1 hmem)

/-- The greatest key is the last number. -/
theorem last (h : Filled m) : m.keys = [] ∨ m.keys.max? = some (m.keys.length - 1) := by
  rcases Nat.eq_zero_or_pos m.keys.length with hzero | hpos
  · exact .inl (List.length_eq_zero_iff.1 hzero)
  · refine .inr (List.max?_eq_some_iff.2 ⟨(h _).2 (by omega), fun i hi => ?_⟩)
    have := (h i).1 hi
    omega

/-- There are at most `n` keys below `n`. -/
theorem length_keys_le {n : ℕ} (hlt : ∀ i ∈ m, i < n) : m.keys.length ≤ n := by
  have hsub : m.keys ⊆ List.range n := fun i hi => List.mem_range.2 (hlt i hi)
  exact (List.subperm_of_subset m.keys_nodup hsub).length_le.trans_eq List.length_range

/-- As many keys as there are numbers below `n` are those numbers. -/
theorem of_lt (hlt : ∀ i ∈ m, i < m.keys.length) : Filled m := by
  intro i
  have hsub : m.keys ⊆ List.range m.keys.length := fun i hi => List.mem_range.2 (hlt i hi)
  have hperm := (List.subperm_of_subset m.keys_nodup hsub).perm_of_length_le
    List.length_range.le
  exact hperm.mem_iff.trans List.mem_range

/-- The positions are filled from the first on exactly if the greatest is the last. -/
theorem last_iff : m.keys = [] ∨ m.keys.max? = some (m.keys.length - 1) ↔ Filled m := by
  refine ⟨fun h => of_lt fun i hi => ?_, last⟩
  have hpos := List.length_pos_of_mem hi
  rcases h with hnil | hmax
  · rw [hnil] at hpos
    cases hpos
  · have hle := (List.max?_eq_some_iff.1 hmax).2 i hi
    omega

end Filled

/-! ## Maps with the same values -/

/-- The maps give the same values to the keys; they may be stored in different orders. -/
def Same (m m' : AList fun _ : κ => ν) : Prop := ∀ k, m.lookup k = m'.lookup k

instance [DecidableEq ν] (m m' : AList fun _ : κ => ν) : Decidable (Same m m') :=
  decidable_of_iff (∀ k ∈ m.keys ++ m'.keys, m.lookup k = m'.lookup k)
    ⟨fun h k => by
      by_cases hk : k ∈ m.keys ++ m'.keys
      · exact h k hk
      · rw [List.mem_append, not_or] at hk
        rw [AList.lookup_eq_none.2 (mt AList.mem_keys.1 hk.1),
          AList.lookup_eq_none.2 (mt AList.mem_keys.1 hk.2)],
    fun h k _ => h k⟩

namespace Same

theorem refl (m : AList fun _ : κ => ν) : Same m m := fun _ => rfl

theorem symm (h : Same m m') : Same m' m := fun k => (h k).symm

theorem trans {m'' : AList fun _ : κ => ν} (h : Same m m') (h' : Same m' m'') : Same m m'' :=
  fun k => (h k).trans (h' k)

theorem mem_iff (h : Same m m') : k ∈ m ↔ k ∈ m' := by
  rw [← AList.lookup_isSome, ← AList.lookup_isSome, h k]

/-- The keys are the same, in another order. -/
theorem keys_perm (h : Same m m') : m.keys.Perm m'.keys :=
  (List.perm_ext_iff_of_nodup m.keys_nodup m'.keys_nodup).2 fun _ => h.mem_iff

theorem insert (h : Same m m') (k : κ) (v : ν) : Same (m.insert k v) (m'.insert k v) := by
  intro k'
  rcases eq_or_ne k' k with rfl | hne
  · rw [AList.lookup_insert, AList.lookup_insert]
  · rw [AList.lookup_insert_ne hne, AList.lookup_insert_ne hne, h k']

/-- Maps that are the same have the same greatest key. -/
theorem max?_keys {ν : Type} {m m' : AList fun _ : ℕ => ν} (h : Same m m') :
    m.keys.max? = m'.keys.max? := by
  refine Option.ext fun n => ?_
  rw [List.max?_eq_some_iff, List.max?_eq_some_iff, h.keys_perm.mem_iff]
  simp only [h.keys_perm.mem_iff]

/-- Giving a key the value it has. -/
theorem insert_self (h : m.lookup k = some v) : Same (m.insert k v) m := by
  intro k'
  rcases eq_or_ne k' k with rfl | hne
  · rw [AList.lookup_insert, h]
  · rw [AList.lookup_insert_ne hne]

/-- The order in which two keys are given values does not matter. -/
theorem insert_comm {k' : κ} (hne : k ≠ k') (m : AList fun _ : κ => ν) (v v' : ν) :
    Same ((m.insert k v).insert k' v') ((m.insert k' v').insert k v) := by
  intro i
  rcases eq_or_ne i k' with rfl | hi
  · rw [AList.lookup_insert, AList.lookup_insert_ne hne.symm, AList.lookup_insert]
  rcases eq_or_ne i k with rfl | hi'
  · rw [AList.lookup_insert_ne hi, AList.lookup_insert, AList.lookup_insert]
  · rw [AList.lookup_insert_ne hi, AList.lookup_insert_ne hi', AList.lookup_insert_ne hi',
      AList.lookup_insert_ne hi]

end Same

/-- Maps of maps, all of which give the same values to the keys. -/
def SameNested {κ' ν' : Type u} [DecidableEq κ'] (m m' : AList fun _ : κ => AList fun _ : κ' => ν') :
    Prop :=
  ∀ k, Option.Rel Same (m.lookup k) (m'.lookup k)

namespace SameNested

variable {κ' ν' : Type u} [DecidableEq κ'] {m m' m'' : AList fun _ : κ => AList fun _ : κ' => ν'}
  {n n' : AList fun _ : κ' => ν'}

/-- Maps that give the same maps to the keys. -/
theorem of_lookup_eq (h : ∀ k, m.lookup k = m'.lookup k) : SameNested m m' := by
  intro k
  rw [h k]
  cases m'.lookup k with
  | none => exact .none
  | some n => exact .some (.refl n)

theorem refl (m : AList fun _ : κ => AList fun _ : κ' => ν') : SameNested m m :=
  of_lookup_eq fun _ => rfl

theorem trans (h : SameNested m m') (h' : SameNested m' m'') : SameNested m m'' := by
  intro k
  have hk := h k
  have hk' := h' k
  generalize m.lookup k = o at hk ⊢
  generalize m'.lookup k = o' at hk hk'
  generalize m''.lookup k = o'' at hk' ⊢
  cases hk with
  | none =>
    cases hk'
    exact .none
  | some hab =>
    cases hk' with
    | some hbc => exact .some (hab.trans hbc)

/-- Both the map and the one it holds may be stored in another order. -/
theorem insert (h : SameNested m m') (k : κ) (hn : Same n n') :
    SameNested (m.insert k n) (m'.insert k n') := by
  intro k'
  rcases eq_or_ne k' k with rfl | hne
  · rw [AList.lookup_insert, AList.lookup_insert]
    exact .some hn
  · rw [AList.lookup_insert_ne hne, AList.lookup_insert_ne hne]
    exact h k'

/-- Replacing one of the maps by one that is the same. -/
theorem insert_self (hk : m.lookup k = some n) (hn : Same n' n) : SameNested (m.insert k n') m := by
  intro k'
  rcases eq_or_ne k' k with rfl | hne
  · rw [AList.lookup_insert, hk]
    exact .some hn
  · rw [AList.lookup_insert_ne hne]
    exact refl m k'

end SameNested

/-! ## Building a map -/

theorem extend_cons (m : AList fun _ : κ => ν) (kv : κ × ν) (l : List (κ × ν)) :
    extend m (kv :: l) = extend (m.insert kv.1 kv.2) l := rfl

theorem extend_singleton (m : AList fun _ : κ => ν) (kv : κ × ν) :
    extend m [kv] = m.insert kv.1 kv.2 := rfl

theorem extend_append (m : AList fun _ : κ => ν) (l l' : List (κ × ν)) :
    extend m (l ++ l') = extend (extend m l) l' :=
  List.foldl_append

/-- The pairs of the list come before those of the map that is extended. -/
theorem lookup_extend (m : AList fun _ : κ => ν) (l : List (κ × ν)) (k : κ) :
    (extend m l).lookup k = ((collect l).lookup k).or (m.lookup k) := by
  induction l generalizing m with
  | nil => rfl
  | cons kv l ih =>
    rw [collect, extend_cons, extend_cons, ih, ih (AList.insert _ _ ∅), Option.or_assoc]
    congr 1
    by_cases hk : k = kv.1
    · subst hk
      rw [AList.lookup_insert, AList.lookup_insert, Option.some_or]
    · rw [AList.lookup_insert_ne hk, AList.lookup_insert_ne hk, AList.lookup_empty, Option.none_or]

/-- The first pair counts if no later one has its key. -/
theorem lookup_collect_cons (kv : κ × ν) (l : List (κ × ν)) (k : κ) :
    (collect (kv :: l)).lookup k =
      ((collect l).lookup k).or (((∅ : AList fun _ : κ => ν).insert kv.1 kv.2).lookup k) :=
  lookup_extend _ l k

/-- The value of a key is the last one given to it. -/
theorem exists_of_lookup_collect (h : (collect l).lookup k = some v) :
    ∃ l₁ l₂, l = l₁ ++ (k, v) :: l₂ ∧ ∀ w, (k, w) ∉ l₂ := by
  induction l using List.reverseRecOn with
  | nil => cases h
  | append_singleton l kv ih =>
    rw [collect, extend_append, ← collect] at h
    by_cases hk : k = kv.1
    · subst hk
      rw [extend_singleton, AList.lookup_insert, Option.some.injEq] at h
      exact ⟨l, [], by rw [← h], fun _ hw => by cases hw⟩
    · rw [extend_singleton, AList.lookup_insert_ne hk] at h
      obtain ⟨l₁, l₂, rfl, hl₂⟩ := ih h
      refine ⟨l₁, l₂ ++ [kv], by simp, fun w hw => ?_⟩
      rcases List.mem_append.1 hw with hw | hw
      · exact hl₂ w hw
      · exact hk (congrArg Prod.fst (List.mem_singleton.1 hw))

/-- A value that is found was collected. -/
theorem mem_of_lookup_collect (h : (collect l).lookup k = some v) : (k, v) ∈ l := by
  obtain ⟨l₁, l₂, rfl, -⟩ := exists_of_lookup_collect h
  exact List.mem_append_right _ List.mem_cons_self

/-- A key has a value if some pair gives it one. -/
theorem mem_collect (h : (k, v) ∈ l) : k ∈ collect l := by
  obtain ⟨l₁, l₂, rfl⟩ := List.append_of_mem h
  have hlast : ((extend (collect l₁) [(k, v)]).lookup k).isSome := by
    rw [extend_singleton, AList.lookup_insert]
    rfl
  rw [List.append_cons, collect, extend_append, extend_append, ← AList.lookup_isSome, lookup_extend,
    Option.isSome_or, ← collect, hlast, Bool.or_true]

/-- In a list that never gives two values to a key, the order does not matter. -/
theorem lookup_collect_eq_some_iff (hl : ∀ k v w, (k, v) ∈ l → (k, w) ∈ l → v = w) :
    (collect l).lookup k = some v ↔ (k, v) ∈ l := by
  refine ⟨mem_of_lookup_collect, fun hv => ?_⟩
  obtain ⟨w, hw⟩ := Option.isSome_iff_exists.1 (AList.lookup_isSome.2 (mem_collect hv))
  rw [hw, hl k w v (mem_of_lookup_collect hw) hv]

/-- Collecting the pairs of a map, its values being changed. -/
theorem lookup_collect_map {ν' : Type u} (m : AList fun _ : κ => ν) (f : ν → ν') (k : κ) :
    (collect ((pairs m).map fun kv => (kv.1, f kv.2))).lookup k = (m.lookup k).map f := by
  have hmem : ∀ k v, (k, v) ∈ (pairs m).map (fun kv => (kv.1, f kv.2)) ↔
      (m.lookup k).map f = some v := by
    intro k v
    simp only [List.mem_map, Prod.mk.injEq, Option.map_eq_some_iff, ← mem_pairs]
    constructor
    · rintro ⟨⟨k, w⟩, hw, rfl, rfl⟩
      exact ⟨w, hw, rfl⟩
    · rintro ⟨w, hw, rfl⟩
      exact ⟨(k, w), hw, rfl, rfl⟩
  refine Option.ext fun v => ?_
  rw [lookup_collect_eq_some_iff, hmem]
  intro k v w hv hw
  exact Option.some.inj (((hmem k v).1 hv).symm.trans ((hmem k w).1 hw))

/-! ## Maps of lists -/

variable {κ' ν' : Type u} [DecidableEq κ']

/-- The pairs of a list, under the key `k`. -/
def under (k : κ) (l : List (κ' × ν')) : List ((κ × κ') × ν') := l.map fun kv => ((k, kv.1), kv.2)

/-- Under one key the pairs of the list come first, under the others there are none. -/
theorem lookup_extend_under (m : AList fun _ : κ × κ' => ν') (k k' : κ) (l : List (κ' × ν'))
    (i : κ') : (extend m (under k' l)).lookup (k, i) =
      if k = k' then ((collect l).lookup i).or (m.lookup (k, i)) else m.lookup (k, i) := by
  induction l generalizing m with
  | nil => simp [under, extend, collect]
  | cons kv l ih =>
    rw [under, List.map_cons, ← under, extend_cons, ih, lookup_collect_cons, Option.or_assoc]
    by_cases hk : k = k'
    · subst hk
      rw [if_pos rfl, if_pos rfl]
      congr 1
      by_cases hi : i = kv.1
      · subst hi
        rw [AList.lookup_insert, AList.lookup_insert, Option.some_or]
      · have hne : (k, i) ≠ (k, kv.1) := fun h => hi (congrArg Prod.snd h)
        rw [AList.lookup_insert_ne hne, AList.lookup_insert_ne hi, AList.lookup_empty,
          Option.none_or]
    · have hne : (k, i) ≠ (k', kv.1) := fun h => hk (congrArg Prod.fst h)
      rw [if_neg hk, if_neg hk, AList.lookup_insert_ne hne]

/-- Flattening a map of lists: every key is looked up in its own list. -/
theorem lookup_collect_flatMap (m : AList fun _ : κ => ν) (f : ν → List (κ' × ν')) (k : κ)
    (i : κ') : (collect ((pairs m).flatMap fun kv => under kv.1 (f kv.2))).lookup (k, i) =
      (m.lookup k).bind fun v => (collect (f v)).lookup i := by
  have hfold : ∀ (es : List (Σ _ : κ, ν)) (acc : AList fun _ : κ × κ' => ν'), es.NodupKeys →
      (extend acc ((es.map fun e => (e.1, e.2)).flatMap fun kv =>
        under kv.1 (f kv.2))).lookup (k, i) =
      ((es.dlookup k).bind fun v => (collect (f v)).lookup i).or (acc.lookup (k, i)) := by
    intro es
    induction es with
    | nil => exact fun _ _ => rfl
    | cons e es ih =>
      intro acc hnd
      obtain ⟨k', v⟩ := e
      rw [List.nodupKeys_cons] at hnd
      rw [List.map_cons, List.flatMap_cons, extend_append, ih _ hnd.2, lookup_extend_under]
      by_cases hk : k = k'
      · subst hk
        -- The key is not that of another list.
        rw [List.dlookup_eq_none.2 hnd.1, List.dlookup_cons_eq, if_pos rfl]
        rfl
      · rw [List.dlookup_cons_ne _ _ hk, if_neg hk]
  rw [collect, pairs, hfold m.entries ∅ m.nodupKeys, AList.lookup_empty, Option.or_none]
  rfl

/-! ## Maps in the order of their keys -/

variable {ι : Type u} [LinearOrder ι]

/-- The pairs of a map, by increasing keys. -/
def sortedPairs (m : AList fun _ : ι => ν) : List (ι × ν) :=
  (pairs m).insertionSort fun p q => p.1 ≤ q.1

/-- Sorting loses no pair. -/
theorem mem_sortedPairs {m : AList fun _ : ι => ν} {i : ι} {v : ν} :
    (i, v) ∈ sortedPairs m ↔ m.lookup i = some v :=
  (List.mem_insertionSort _).trans mem_pairs

/-- The pairs are in the order of their keys. -/
theorem pairwise_sortedPairs (m : AList fun _ : ι => ν) :
    (sortedPairs m).Pairwise fun p q => p.1 ≤ q.1 := by
  have : IsTrans (ι × ν) fun p q => p.1 ≤ q.1 := ⟨fun _ _ _ => le_trans⟩
  have : Std.Total fun p q : ι × ν => p.1 ≤ q.1 := ⟨fun p q => le_total p.1 q.1⟩
  exact List.pairwise_insertionSort _ _

/-- In an ordered list, every element comes before the last one. -/
theorem eq_or_rel_of_getLast? {α : Type*} {r : α → α → Prop} {l : List α} {a b : α}
    (hl : l.Pairwise r) (ha : l.getLast? = some a) (hb : b ∈ l) : b = a ∨ r b a := by
  obtain ⟨l, rfl⟩ := List.getLast?_eq_some_iff.1 ha
  rcases List.mem_append.1 hb with hb | hb
  · exact .inr ((List.pairwise_append.1 hl).2.2 b hb a (List.mem_singleton.2 rfl))
  · exact .inl (List.mem_singleton.1 hb)

/-- The last key in the order of the keys is the greatest one. -/
theorem getLast?_sortedPairs_eq_some_iff {m : AList fun _ : ι => ν} {i : ι} :
    ((sortedPairs m).map Prod.fst).getLast? = some i ↔ i ∈ m ∧ ∀ j ∈ m, j ≤ i := by
  have hmem : ∀ j, j ∈ (sortedPairs m).map Prod.fst ↔ j ∈ m := by
    intro j
    rw [List.mem_map, ← AList.lookup_isSome, Option.isSome_iff_exists]
    constructor
    · rintro ⟨⟨j, v⟩, hv, rfl⟩
      exact ⟨v, mem_sortedPairs.1 hv⟩
    · rintro ⟨v, hv⟩
      exact ⟨(j, v), mem_sortedPairs.2 hv, rfl⟩
  have hsorted : ((sortedPairs m).map Prod.fst).Pairwise (· ≤ ·) :=
    List.pairwise_map.2 (pairwise_sortedPairs m)
  have hlast : ∀ j, ((sortedPairs m).map Prod.fst).getLast? = some j → j ∈ m ∧ ∀ k ∈ m, k ≤ j := by
    intro j hj
    refine ⟨(hmem j).1 (List.mem_of_getLast? hj), fun k hk => ?_⟩
    rcases eq_or_rel_of_getLast? hsorted hj ((hmem k).2 hk) with rfl | hle
    · exact le_rfl
    · exact hle
  refine ⟨hlast i, fun ⟨hi, hle⟩ => ?_⟩
  cases hj : ((sortedPairs m).map Prod.fst).getLast? with
  | none =>
    rw [← hmem, List.getLast?_eq_none_iff.1 hj] at hi
    cases hi
  | some j =>
    obtain ⟨hj, hle'⟩ := hlast j hj
    rw [le_antisymm (hle j hj) (hle' i hi)]

/-- The inverse of a map, its values having labels: of the keys whose values have a label,
    the greatest one is kept. -/
def inverse (m : AList fun _ : ι => ν) (label : ν → κ) : AList fun _ : κ => ι :=
  collect ((sortedPairs m).map fun kv => (label kv.2, kv.1))

variable {label : ν → κ} {m : AList fun _ : ι => ν} {i : ι}

omit [DecidableEq κ] in
/-- The labels, each with the key of its value. -/
theorem mem_labels : (k, i) ∈ (sortedPairs m).map (fun kv => (label kv.2, kv.1)) ↔
    ∃ v, m.lookup i = some v ∧ label v = k := by
  simp only [List.mem_map, Prod.mk.injEq, ← mem_sortedPairs]
  constructor
  · rintro ⟨⟨i, v⟩, hv, rfl, rfl⟩
    exact ⟨v, hv, rfl⟩
  · rintro ⟨v, hv, rfl⟩
    exact ⟨(i, v), hv, rfl, rfl⟩

/-- The label of a value has a key. -/
theorem exists_lookup_inverse (label : ν → κ) (h : m.lookup i = some v) :
    ∃ j, (inverse m label).lookup (label v) = some j := by
  rw [← Option.isSome_iff_exists, AList.lookup_isSome]
  exact mem_collect (mem_labels.2 ⟨v, h, rfl⟩)

/-- The key of a label is the last one, hence the greatest, whose value has it. -/
theorem greatest_of_lookup_inverse (h : (inverse m label).lookup k = some i) :
    (∃ v, m.lookup i = some v ∧ label v = k) ∧
      ∀ j w, m.lookup j = some w → label w = k → j ≤ i := by
  refine ⟨mem_labels.1 (mem_of_lookup_collect h), fun j w hw hlabel => ?_⟩
  obtain ⟨l₁, l₂, hl, hl₂⟩ := exists_of_lookup_collect h
  have hsorted : (l₁ ++ (k, i) :: l₂).Pairwise fun p q => p.2 ≤ q.2 := by
    rw [← hl, List.pairwise_map]
    exact pairwise_sortedPairs m
  have hj := mem_labels.2 ⟨w, hw, hlabel⟩
  rw [hl, List.mem_append, List.mem_cons] at hj
  rcases hj with hj | hj | hj
  · exact (List.pairwise_append.1 hsorted).2.2 _ hj _ List.mem_cons_self
  · exact (congrArg Prod.snd hj).le
  · exact absurd hj (hl₂ j)

/-- The key that is found for a label is the greatest one whose value has it. -/
theorem lookup_inverse_eq_some_iff : (inverse m label).lookup k = some i ↔
    (∃ v, m.lookup i = some v ∧ label v = k) ∧
      ∀ j w, m.lookup j = some w → label w = k → j ≤ i := by
  refine ⟨greatest_of_lookup_inverse, fun ⟨⟨v, hv, hlabel⟩, hle⟩ => ?_⟩
  obtain ⟨j, hj⟩ := exists_lookup_inverse label hv
  rw [hlabel] at hj
  obtain ⟨⟨w, hw, hlabel'⟩, hle'⟩ := greatest_of_lookup_inverse hj
  rw [← le_antisymm (hle j w hw hlabel') (hle' i v hv hlabel)]
  exact hj

end Maps
