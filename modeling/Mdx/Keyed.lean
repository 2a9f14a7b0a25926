/-
Values under keys, in the order the keys came. No key is there twice.
-/
namespace Mdx

/-- Values under keys. -/
abbrev Keyed (α : Type) : Type := List (String × α)

namespace Keyed

variable {α : Type}

/-- The value of a key. -/
def find? (key : String) : Keyed α → Option α
  | [] => none
  | e :: entries => if e.1 = key then some e.2 else find? key entries

/-- The entries with that value for a key; a new key goes behind the others. -/
def put (key : String) (value : α) : Keyed α → Keyed α
  | [] => [(key, value)]
  | e :: entries => if e.1 = key then (key, value) :: entries else e :: put key value entries

/-- The entries without a key. -/
def erase (key : String) (entries : Keyed α) : Keyed α := entries.filter (·.1 != key)

/-- The entries with each value changed. -/
def mapValues (f : α → α) (entries : Keyed α) : Keyed α := entries.map fun e => (e.1, f e.2)

@[simp] theorem find?_put_self (key : String) (value : α) (entries : Keyed α) :
    find? key (put key value entries) = some value := by
  induction entries with
  | nil => simp [put, find?]
  | cons e entries ih => by_cases h : e.1 = key <;> simp [put, find?, h, ih]

theorem find?_put_other {key other : String} (h : other ≠ key) (value : α) (entries : Keyed α) :
    find? other (put key value entries) = find? other entries := by
  induction entries with
  | nil => simp [put, find?, h.symm]
  | cons e entries ih =>
    by_cases he : e.1 = key
    · simp [put, find?, he, h.symm]
    · simp [put, find?, he, ih]

@[simp] theorem find?_erase_self (key : String) (entries : Keyed α) :
    find? key (erase key entries) = none := by
  induction entries with
  | nil => rfl
  | cons e entries ih =>
    by_cases h : e.1 = key
    · simpa [erase, h] using ih
    · simpa [erase, find?, h] using ih

theorem find?_erase_other {key other : String} (h : other ≠ key) (entries : Keyed α) :
    find? other (erase key entries) = find? other entries := by
  induction entries with
  | nil => rfl
  | cons e entries ih =>
    by_cases he : e.1 = key
    · simpa [erase, find?, he, h.symm] using ih
    · by_cases ho : e.1 = other
      · simp [erase, find?, ho, h]
      · simpa [erase, find?, he, ho] using ih

theorem find?_mapValues (f : α → α) (key : String) (entries : Keyed α) :
    find? key (mapValues f entries) = (find? key entries).map f := by
  induction entries with
  | nil => rfl
  | cons e entries ih =>
    by_cases h : e.1 = key
    · simp [mapValues, find?, h]
    · simpa [mapValues, find?, h] using ih

end Keyed

end Mdx
