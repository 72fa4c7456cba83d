import Mathlib.Data.Int.Notation
import Mathlib.Data.List.Forall2

/-!
# JSON

Values of JSON, and formats: how the values of a type are written, and how they are read. A format
is *lawful* for some of the values if it reads these back as they are written, and reads nothing
but these (`Format.Lawful`): what is read may have been written in another way, but a value is
read back as it is written exactly if it is one of these (`Lawful.read_write_iff`), and no two of
them are written alike (`Lawful.write_inj`).

Lists and arrays have lawful formats if their elements have (`Lawful.list`, `Lawful.array`), and
the fields of a structure are found again under their names (`fields_obj`).
-/

/-- A value of JSON. A number is an integer, or else it does not matter which one it is. -/
inductive Json where
  | null
  | bool (b : Bool)
  | int (n : ℤ)
  | float
  | str (s : String)
  | arr (elems : List Json)
  | obj (fields : List (String × Json))

namespace Json

variable {α β : Type*}

/-! ## Structures -/

/-- The fields of a structure, by their names in an object, or in their order in an array. -/
def fields (names : List String) : Json → Option (List Json)
  | obj fs => names.mapM fun name => fs.lookup name
  | arr elems => if elems.length = names.length then some elems else none
  | _ => none

theorem mapM_lookup_of_agree {fs gs : List (String × Json)} (hgs : (gs.map Prod.fst).Nodup)
    (h : ∀ f ∈ gs, fs.lookup f.1 = gs.lookup f.1) :
    (gs.map Prod.fst).mapM (fun name => fs.lookup name) = some (gs.map Prod.snd) := by
  induction gs with
  | nil => rfl
  | cons g gs ih =>
    obtain ⟨hg, hgs⟩ := List.nodup_cons.1 hgs
    have hhead : fs.lookup g.1 = some g.2 := by
      rw [h g List.mem_cons_self, List.lookup_cons_self]
    -- the first name is none of the others
    have htail : ∀ f ∈ gs, fs.lookup f.1 = gs.lookup f.1 := by
      intro f hf
      have hne : (f.1 == g.1) = false :=
        beq_eq_false_iff_ne.2 fun heq => hg (heq ▸ List.mem_map_of_mem hf)
      rw [h f (List.mem_cons_of_mem _ hf), List.lookup_cons, hne]
    rw [List.map_cons, List.mapM_cons, hhead, ih hgs htail]
    rfl

/-- The fields of an object are found under their names. -/
theorem fields_obj {fs : List (String × Json)} (h : (fs.map Prod.fst).Nodup) :
    (obj fs).fields (fs.map Prod.fst) = some (fs.map Prod.snd) :=
  mapM_lookup_of_agree h fun _ _ => rfl

/-! ## Formats -/

/-- How values of a type are written and read. -/
structure Format (α : Type*) where
  write : α → Json
  read : Json → Option α

namespace Format

/-- An array of any size. -/
def list (F : Format α) : Format (List α) where
  write l := arr (l.map F.write)
  read
    | arr elems => elems.mapM F.read
    | _ => none

/-- An array of `n` elements. -/
def array (n : ℕ) (F : Format α) : Format (List α) where
  write := F.list.write
  read j := do
    let l ← F.list.read j
    if l.length = n then some l else none

/-- What is read is what satisfies `P`, and it is read back as it is written. -/
structure Lawful (F : Format α) (P : α → Prop) : Prop where
  read_write : ∀ a, P a → F.read (F.write a) = some a
  of_read : ∀ j a, F.read j = some a → P a

namespace Lawful

variable {F : Format α} {P : α → Prop}

theorem read_write_iff (h : F.Lawful P) {a : α} : F.read (F.write a) = some a ↔ P a :=
  ⟨h.of_read _ a, h.read_write a⟩

/-- Values that are written alike are the same. -/
theorem write_inj (h : F.Lawful P) {a b : α} (ha : P a) (hb : P b) (heq : F.write a = F.write b) :
    a = b := by
  have hread := h.read_write a ha
  rw [heq, h.read_write b hb] at hread
  exact (Option.some.inj hread).symm

theorem congr {Q : α → Prop} (h : F.Lawful P) (hPQ : ∀ a, P a ↔ Q a) : F.Lawful Q where
  read_write a ha := h.read_write a ((hPQ a).2 ha)
  of_read j a ha := (hPQ a).1 (h.of_read j a ha)

theorem mapM_read_write (h : F.Lawful P) {l : List α} (hl : ∀ a ∈ l, P a) :
    (l.map F.write).mapM F.read = some l := by
  induction l with
  | nil => rfl
  | cons a l ih =>
    obtain ⟨ha, hl⟩ := List.forall_mem_cons.1 hl
    rw [List.map_cons, List.mapM_cons, h.read_write a ha, ih hl]
    rfl

theorem of_mapM_read (h : F.Lawful P) {js : List Json} {l : List α} (hl : js.mapM F.read = some l) :
    ∀ a ∈ l, P a := by
  induction js generalizing l with
  | nil =>
    obtain rfl := Option.some.inj hl
    exact List.forall_mem_nil P
  | cons j js ih =>
    rw [List.mapM_cons] at hl
    obtain ⟨a, ha, hl⟩ := Option.bind_eq_some_iff.1 hl
    obtain ⟨l', hl', hl⟩ := Option.bind_eq_some_iff.1 hl
    obtain rfl := Option.some.inj hl
    exact List.forall_mem_cons.2 ⟨h.of_read j a ha, ih hl'⟩

theorem list (h : F.Lawful P) : F.list.Lawful fun l => ∀ a ∈ l, P a where
  read_write _ := h.mapM_read_write
  of_read j l hl := by
    cases j with
    | arr elems => exact h.of_mapM_read hl
    | _ => cases hl

theorem array (h : F.Lawful P) (n : ℕ) :
    (F.array n).Lawful fun l => l.length = n ∧ ∀ a ∈ l, P a where
  read_write l hl := by
    refine (congrArg (Option.bind · _) (h.list.read_write l hl.2)).trans ?_
    exact if_pos hl.1
  of_read j l hl := by
    obtain ⟨l', hl', hl⟩ := Option.bind_eq_some_iff.1 hl
    split at hl
    · next hlen =>
      obtain rfl := Option.some.inj hl
      exact ⟨hlen, h.list.of_read j l' hl'⟩
    · cases hl

end Lawful

end Format

end Json
