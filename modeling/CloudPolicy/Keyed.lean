/-!
Tables from texts to values whose keys are kept in byte order, each once. The order is part of the
type, so that tables with the same entries are equal.
-/

set_option autoImplicit false
set_option relaxedAutoImplicit false

namespace CloudPolicy

/-- A table with keys in strictly increasing order. -/
structure Keyed (α : Type) where
  entries : List (String × α)
  ordered : (entries.map (·.1)).Pairwise (· < ·)
  deriving DecidableEq

namespace Keyed

variable {α β : Type}

def empty : Keyed α := ⟨[], .nil⟩

private def insertEntry (key : String) (value : α) : List (String × α) → List (String × α)
  | [] => [(key, value)]
  | e :: es =>
    if key < e.1 then (key, value) :: e :: es
    else if key = e.1 then (key, value) :: es
    else e :: insertEntry key value es

private theorem mem_keys_insertEntry {key : String} {value : α} {es : List (String × α)}
    {k : String} (h : k ∈ (insertEntry key value es).map (·.1)) : k = key ∨ k ∈ es.map (·.1) := by
  induction es with
  | nil => simpa [insertEntry] using h
  | cons e es ih =>
    by_cases lt : key < e.1
    · simpa [insertEntry, lt] using h
    by_cases eq : key = e.1
    · rw [insertEntry, if_neg lt, if_pos eq, List.map_cons, List.mem_cons] at h
      rw [List.map_cons, List.mem_cons]
      exact h.imp_right Or.inr
    · rw [insertEntry, if_neg lt, if_neg eq, List.map_cons, List.mem_cons] at h
      rw [List.map_cons, List.mem_cons]
      rcases h with h | h
      · exact Or.inr (Or.inl h)
      · exact (ih h).imp_right Or.inr

private theorem insertEntry_ordered {key : String} {value : α} {es : List (String × α)}
    (ordered : (es.map (·.1)).Pairwise (· < ·)) :
    ((insertEntry key value es).map (·.1)).Pairwise (· < ·) := by
  induction es with
  | nil => simp [insertEntry]
  | cons e es ih =>
    rw [List.map_cons] at ordered
    obtain ⟨first, rest⟩ := List.pairwise_cons.mp ordered
    by_cases lt : key < e.1
    · rw [insertEntry, if_pos lt, List.map_cons, List.map_cons]
      refine List.pairwise_cons.mpr ⟨fun k hk => ?_, ordered⟩
      rcases List.mem_cons.mp hk with rfl | hk
      · exact lt
      · exact String.lt_trans lt (first k hk)
    by_cases eq : key = e.1
    · rw [insertEntry, if_neg lt, if_pos eq, List.map_cons]
      exact List.pairwise_cons.mpr ⟨eq ▸ first, rest⟩
    · rw [insertEntry, if_neg lt, if_neg eq, List.map_cons]
      refine List.pairwise_cons.mpr ⟨fun k hk => ?_, ih rest⟩
      rcases mem_keys_insertEntry hk with rfl | hk
      · exact String.not_le.mp fun le => eq (String.le_antisymm le (String.not_lt.mp lt))
      · exact first k hk

/-- Puts a value in its place, over the one that has the key already. -/
def insert (t : Keyed α) (key : String) (value : α) : Keyed α :=
  ⟨insertEntry key value t.entries, insertEntry_ordered t.ordered⟩

/-- The table of pairs; the last of those that share a key counts. -/
def ofList (pairs : List (String × α)) : Keyed α :=
  pairs.foldl (fun t p => t.insert p.1 p.2) empty

def keys (t : Keyed α) : List String := t.entries.map (·.1)

def find? (t : Keyed α) (key : String) : Option α := t.entries.lookup key

private theorem lookup_cons (e : String × α) (es : List (String × α)) (k : String) :
    (e :: es).lookup k = if k = e.1 then some e.2 else es.lookup k := by
  rw [List.lookup_cons]
  by_cases here : k = e.1
  · simp [here]
  · rw [if_neg here, beq_false_of_ne here]

private theorem lookup_insertEntry (key : String) (value : α) (es : List (String × α))
    (k : String) :
    (insertEntry key value es).lookup k = if k = key then some value else es.lookup k := by
  induction es with
  | nil => exact lookup_cons (key, value) [] k
  | cons e es ih =>
    by_cases lt : key < e.1
    · rw [insertEntry, if_pos lt, lookup_cons]
    by_cases eq : key = e.1
    · rw [insertEntry, if_neg lt, if_pos eq, lookup_cons, lookup_cons]
      subst eq
      split <;> rfl
    · rw [insertEntry, if_neg lt, if_neg eq, lookup_cons, ih, lookup_cons]
      by_cases there : k = e.1
      · rw [if_pos there, if_neg (there ▸ Ne.symm eq), if_pos there]
      · rw [if_neg there, if_neg there]

private theorem lookup_eq_some_iff {es : List (String × α)}
    (ordered : (es.map (·.1)).Pairwise (· < ·)) {k : String} {value : α} :
    es.lookup k = some value ↔ (k, value) ∈ es := by
  induction es with
  | nil => simp
  | cons e es ih =>
    rw [List.map_cons] at ordered
    obtain ⟨first, rest⟩ := List.pairwise_cons.mp ordered
    rw [lookup_cons, List.mem_cons]
    by_cases here : k = e.1
    · subst here
      have elsewhere : (e.1, value) ∉ es := fun later =>
        String.lt_irrefl _ (first e.1 (List.mem_map.mpr ⟨_, later, rfl⟩))
      rw [if_pos rfl, or_iff_left elsewhere, Option.some.injEq, Prod.ext_iff, eq_comm]
      exact (and_iff_right rfl).symm
    · rw [if_neg here, ih rest, or_iff_right fun same => here (congrArg Prod.fst same)]

theorem find?_eq_some_iff {t : Keyed α} {k : String} {value : α} :
    t.find? k = some value ↔ (k, value) ∈ t.entries :=
  lookup_eq_some_iff t.ordered

theorem find?_empty (k : String) : (empty : Keyed α).find? k = none := rfl

theorem find?_insert (t : Keyed α) (key : String) (value : α) (k : String) :
    (t.insert key value).find? k = if k = key then some value else t.find? k :=
  lookup_insertEntry key value t.entries k

def map (f : α → β) (t : Keyed α) : Keyed β :=
  ⟨t.entries.map fun e => (e.1, f e.2), by simpa [List.map_map, Function.comp_def] using t.ordered⟩

end Keyed

end CloudPolicy
