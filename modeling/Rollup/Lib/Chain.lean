import Mathlib.Data.List.Basic

/-!
# Chains

A link leads from its source to its target. A list of links is a *chain* from
`b` to `b'` if the first of them starts at `b`, each of the next ones where the
previous one ends, and the last one ends at `b'` (`Linked`).

* `linked_append`: chains are composed and cut anywhere;
* `Linked.groups`: the groups a chain is cut in form a chain themselves.
-/

namespace Chain

variable {α γ β : Type*} (src tgt : α → β)

/-- The links lead from `b` to `b'`, one after the other. -/
def Linked : β → List α → β → Prop
  | b, [], b' => b = b'
  | b, a :: l, b' => src a = b ∧ Linked (tgt a) l b'

variable {src tgt} {b b' : β} {l l' : List α}

@[simp] theorem linked_nil : Linked src tgt b [] b' ↔ b = b' := Iff.rfl

@[simp] theorem linked_cons {a : α} :
    Linked src tgt b (a :: l) b' ↔ src a = b ∧ Linked src tgt (tgt a) l b' := Iff.rfl

theorem linked_append :
    Linked src tgt b (l ++ l') b' ↔ ∃ c, Linked src tgt b l c ∧ Linked src tgt c l' b' := by
  induction l generalizing b with
  | nil => simp
  | cons a l ih => simp [ih, and_assoc]

/-- A link leading from `b` to itself may be repeated. -/
theorem linked_replicate {a : α} (hs : src a = b) (ht : tgt a = b) (n : ℕ) :
    Linked src tgt b (List.replicate n a) b := by
  induction n with
  | zero => rfl
  | succ n ih => exact ⟨hs, ht.symm ▸ ih⟩

/-- A chain starts at the source of its first link. -/
theorem Linked.src_head (h : Linked src tgt b l b') {a : α} (ha : a ∈ l.head?) : src a = b := by
  cases l with
  | nil => cases ha
  | cons c l =>
    obtain rfl := Option.some.inj ha
    exact h.1

/-- A chain ends at the target of its last link. -/
theorem Linked.tgt_getLast (h : Linked src tgt b l b') {a : α} (ha : a ∈ l.getLast?) :
    tgt a = b' := by
  rw [← List.dropLast_append_getLast? a ha] at h
  obtain ⟨c, -, -, h⟩ := linked_append.1 h
  exact h

/-- A chain comes back to where it starts if its last link ends where its first one starts. -/
theorem Linked.eq_iff (h : Linked src tgt b l b') :
    b' = b ↔ ∀ first ∈ l.head?, ∀ last ∈ l.getLast?, tgt last = src first := by
  constructor
  · intro heq first hfirst last hlast
    rw [h.src_head hfirst, h.tgt_getLast hlast, heq]
  · intro hends
    cases l with
    | nil => exact h.symm
    | cons a l =>
      obtain ⟨c, hc⟩ := Option.isSome_iff_exists.1 (List.getLast?_isSome.2 (List.cons_ne_nil a l))
      rw [← h.tgt_getLast hc, hends a rfl c hc, h.1]

/-- A chain cut in groups, each going from the source of its first link to the
    target of its last one, is a chain of these groups. -/
theorem Linked.groups {src' tgt' : γ → β} {gs : List γ} {ls : List (List α)}
    (hg : List.Forall₂ (fun g l => l.head?.map src = some (src' g) ∧
      l.getLast?.map tgt = some (tgt' g)) gs ls)
    (h : Linked src tgt b ls.flatten b') : Linked src' tgt' b gs b' := by
  induction hg generalizing b with
  | nil => exact h
  | cons hgl _ ih =>
    obtain ⟨hs, ht⟩ := hgl
    rw [Option.map_eq_some_iff] at hs ht
    obtain ⟨a, ha, has⟩ := hs
    obtain ⟨c, hc, hct⟩ := ht
    obtain ⟨d, hl, hrest⟩ := linked_append.1 h
    refine ⟨has.symm.trans (hl.src_head ha), ih ?_⟩
    rwa [← hct, hl.tgt_getLast hc]

end Chain
