/-!
# Dictionaries

A dictionary is the list of its entries in ascending order of their keys, by code point. Writing
under a key replaces what stood there, so later writes win. `get?_insert` and `get?_erase` say
what an operation does to a look-up; they need no order.
-/

namespace Mishap

/-- Entries in ascending order of their keys. -/
abbrev Dictionary (α : Type) := List (String × α)

namespace Dictionary

variable {α β : Type}

/-- What is stored under a key. -/
def get? (key : String) : Dictionary α → Option α
  | [] => none
  | (k, v) :: rest => if k = key then some v else get? key rest

/-- Writes under a key, keeping the order. -/
def insert (key : String) (value : α) : Dictionary α → Dictionary α
  | [] => [(key, value)]
  | (k, v) :: rest =>
    if k = key then (key, value) :: rest
    else if key < k then (key, value) :: (k, v) :: rest
    else (k, v) :: insert key value rest

/-- Takes a key out. -/
def erase (key : String) (d : Dictionary α) : Dictionary α := d.filter fun e => e.1 ≠ key

/-- Writes entries one after the other. -/
def insertAll (entries : List (String × α)) (d : Dictionary α) : Dictionary α :=
  entries.foldl (fun d e => insert e.1 e.2 d) d

/-- The dictionary of a list of entries; of two under one key the later stands. -/
def ofEntries (entries : List (String × α)) : Dictionary α := insertAll entries []

/-- The keys in order. -/
def keys (d : Dictionary α) : List String := d.map (·.1)

/-- Changes every value. -/
def mapValues (f : α → β) (d : Dictionary α) : Dictionary β := d.map fun e => (e.1, f e.2)

/-- An empty dictionary holds nothing. -/
@[simp] theorem get?_nil (key : String) : get? key ([] : Dictionary α) = none := rfl

/-- A key that was inserted has its new value, and any other what it had. -/
theorem get?_insert (key k : String) (value : α) (d : Dictionary α) :
    get? k (insert key value d) = if key = k then some value else get? k d := by
  induction d with
  | nil => simp [insert, get?]
  | cons e rest ih =>
    obtain ⟨k', v'⟩ := e
    by_cases h : k' = key
    · subst h
      by_cases h2 : k' = k <;> simp [insert, get?, h2]
    · simp only [insert, h, if_false]
      split
      · by_cases h2 : key = k <;> simp [get?, h2]
      · by_cases h2 : key = k
        · subst h2; simpa [get?, h] using ih
        · by_cases h3 : k' = k <;> simp_all [get?]

/-- A key that was erased has no value, and any other what it had. -/
theorem get?_erase (key k : String) (d : Dictionary α) :
    get? k (erase key d) = if key = k then none else get? k d := by
  induction d with
  | nil => simp [erase, get?]
  | cons e rest ih =>
    obtain ⟨k', v'⟩ := e
    simp only [erase] at ih
    by_cases h : k' = key
    · subst h
      by_cases h2 : k' = k <;> simp_all [erase, get?]
    · by_cases h2 : key = k
      · subst h2; simp_all [erase, get?]
      · by_cases h3 : k' = k <;> simp_all [erase, get?]

end Dictionary

end Mishap
