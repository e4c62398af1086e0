/-
# Injector.Table -- tables that remember the order of insertion

A table maps keys to values and lists its rows in the order in which the keys
were first inserted.  `insert` on a key that is present replaces the value and
leaves the row where it is; `insertNew` leaves a present row alone.
-/
namespace Injector

set_option autoImplicit false

/-- Rows of keys and values in insertion order. -/
structure Table (α β : Type) where
  rows : List (α × β) := []
  deriving Repr

namespace Table

variable {α β γ : Type}

instance [DecidableEq α] [DecidableEq β] : DecidableEq (Table α β) := fun s t =>
  decidable_of_iff (s.rows = t.rows) (by cases s; cases t; simp)

/-- The table without rows. -/
def empty : Table α β := {}

instance : Inhabited (Table α β) := ⟨empty⟩

def size (t : Table α β) : Nat := t.rows.length

def keys (t : Table α β) : List α := t.rows.map (·.1)

def values (t : Table α β) : List β := t.rows.map (·.2)

/-- The same keys with `f` applied to each value. -/
def mapValues (f : β → γ) (t : Table α β) : Table α γ := ⟨t.rows.map fun (k, v) => (k, f v)⟩

variable [DecidableEq α]

/-- The value at `key` in a list of rows. -/
def find (key : α) : List (α × β) → Option β
  | [] => none
  | (k, v) :: rest => if k = key then some v else find key rest

/-- Replace the value at `key`, or add a row at the end. -/
def put (key : α) (value : β) : List (α × β) → List (α × β)
  | [] => [(key, value)]
  | (k, v) :: rest => if k = key then (k, value) :: rest else (k, v) :: put key value rest

def get? (t : Table α β) (key : α) : Option β := find key t.rows

def contains (t : Table α β) (key : α) : Bool := (t.get? key).isSome

/-- The table with `value` at `key`. -/
def insert (t : Table α β) (key : α) (value : β) : Table α β := ⟨put key value t.rows⟩

/-- The table with `value` at `key`, unless something is there already. -/
def insertNew (t : Table α β) (key : α) (value : β) : Table α β :=
  if t.contains key then t else ⟨t.rows ++ [(key, value)]⟩

/-- Rows inserted one after the other, so the last value of a key stays. -/
def ofList (rows : List (α × β)) : Table α β :=
  rows.foldl (fun t row => t.insert row.1 row.2) empty

@[simp] theorem get?_empty (key : α) : (empty : Table α β).get? key = none := rfl

theorem find_put (key other : α) (value : β) (rows : List (α × β)) :
    find other (put key value rows) = if key = other then some value else find other rows := by
  induction rows with
  | nil => simp [put, find]
  | cons row rest ih =>
    obtain ⟨k, v⟩ := row
    simp only [put]
    split
    · subst k; simp only [find]; split <;> rfl
    · rename_i ne
      simp only [find, ih]
      split
      · subst k; simp [Ne.symm ne]
      · rfl

theorem get?_insert (t : Table α β) (key other : α) (value : β) :
    (t.insert key value).get? other = if key = other then some value else t.get? other :=
  find_put key other value t.rows

theorem find_append (key : α) (rows more : List (α × β)) :
    find key (rows ++ more) = (find key rows).or (find key more) := by
  induction rows with
  | nil => rfl
  | cons row rest ih =>
    obtain ⟨k, v⟩ := row
    simp only [List.cons_append, find, ih]
    split <;> rfl

theorem get?_insertNew (t : Table α β) (key other : α) (value : β) :
    (t.insertNew key value).get? other =
      (t.get? other).or (if key = other then some value else none) := by
  by_cases present : t.contains key = true
  · rw [insertNew, if_pos present]
    split
    · subst other
      obtain ⟨v, found⟩ := Option.isSome_iff_exists.mp present
      simp [found]
    · simp
  · rw [insertNew, if_neg present]
    simp only [get?, find_append, find]

/-- What is found then was there before, or is new. -/
theorem of_get?_insertNew {t : Table α β} {key other : α} {value found : β}
    (present : (t.insertNew key value).get? other = some found) :
    t.get? other = some found ∨ other = key ∧ found = value := by
  rw [get?_insertNew] at present
  rcases Option.or_eq_some_iff.mp present with before | ⟨-, new⟩
  · exact .inl before
  · split at new
    · rename_i same
      exact .inr ⟨same.symm, (Option.some.inj new).symm⟩
    · cases new

theorem put_of_notMem {key : α} {rows : List (α × β)} (new : key ∉ rows.map (·.1)) (value : β) :
    put key value rows = rows ++ [(key, value)] := by
  induction rows with
  | nil => rfl
  | cons row rest ih =>
    obtain ⟨k, v⟩ := row
    simp only [List.map_cons, List.mem_cons, not_or] at new
    rw [put, if_neg (Ne.symm new.1), ih new.2, List.cons_append]

/-- A new key gets its row at the end. -/
theorem rows_insert_of_notMem {t : Table α β} {key : α} (new : key ∉ t.keys) (value : β) :
    (t.insert key value).rows = t.rows ++ [(key, value)] :=
  put_of_notMem new value

theorem keys_put (key : α) (value : β) (rows : List (α × β)) :
    (put key value rows).map (·.1) =
      if key ∈ rows.map (·.1) then rows.map (·.1) else rows.map (·.1) ++ [key] := by
  induction rows with
  | nil => rfl
  | cons row rest ih =>
    obtain ⟨k, v⟩ := row
    simp only [put]
    split
    · subst k
      simp
    · rename_i ne
      simp only [List.map_cons, ih, List.mem_cons, Ne.symm ne, false_or]
      split <;> rfl

theorem nodup_keys_insert {t : Table α β} (distinct : t.keys.Nodup) (key : α) (value : β) :
    (t.insert key value).keys.Nodup := by
  rw [keys, insert, keys_put]
  split
  · exact distinct
  · rename_i new
    refine List.nodup_append.mpr ⟨distinct, by simp, fun k old other same => ?_⟩
    rw [List.mem_singleton] at same
    exact fun again => new (same ▸ again ▸ old)

theorem mem_keys_iff {t : Table α β} {key : α} :
    key ∈ t.keys ↔ ∃ value, t.get? key = some value := by
  have found (rows : List (α × β)) :
      key ∈ rows.map (·.1) ↔ ∃ value, find key rows = some value := by
    induction rows with
    | nil => simp [find]
    | cons row rest ih =>
      obtain ⟨k, v⟩ := row
      rw [find, List.map_cons, List.mem_cons, ih]
      split
      · rename_i same
        simp [same]
      · rename_i ne
        simp [Ne.symm ne]
  exact found t.rows

theorem mem_values_put {key : α} {value v : β} {rows : List (α × β)}
    (h : v ∈ (put key value rows).map (·.2)) : v = value ∨ v ∈ rows.map (·.2) := by
  induction rows with
  | nil => exact .inl (by simpa [put] using h)
  | cons row rest ih =>
    obtain ⟨k, w⟩ := row
    simp only [put] at h
    split at h
    · simp only [List.map_cons, List.mem_cons] at h ⊢
      exact h.imp id .inr
    · simp only [List.map_cons, List.mem_cons] at h ⊢
      rcases h with rfl | h
      · exact .inr (.inl rfl)
      · exact (ih h).imp id .inr

/-- Every value of the new table is the inserted one or an old one. -/
theorem mem_values_insert {t : Table α β} {key : α} {value v : β}
    (h : v ∈ (t.insert key value).values) : v = value ∨ v ∈ t.values :=
  mem_values_put h

theorem mem_values_insertNew {t : Table α β} {key : α} {value v : β}
    (h : v ∈ (t.insertNew key value).values) : v = value ∨ v ∈ t.values := by
  simp only [insertNew] at h
  split at h
  · exact .inr h
  · simp only [values, List.map_append, List.mem_append, List.map_cons, List.map_nil,
      List.mem_singleton] at h
    exact h.symm

theorem mem_rows_of_get? {t : Table α β} {key : α} {value : β}
    (h : t.get? key = some value) : (key, value) ∈ t.rows := by
  have found (rows : List (α × β)) (h : find key rows = some value) : (key, value) ∈ rows := by
    induction rows with
    | nil => cases h
    | cons row rest ih =>
      rw [find] at h
      split at h
      · rename_i same
        exact same ▸ Option.some.inj h ▸ List.mem_cons_self
      · exact List.mem_cons_of_mem _ (ih h)
  exact found t.rows h

theorem mem_values_of_get? {t : Table α β} {key : α} {value : β}
    (h : t.get? key = some value) : value ∈ t.values :=
  List.mem_map_of_mem (mem_rows_of_get? h)

end Table

end Injector
