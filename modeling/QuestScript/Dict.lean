/-! Finite maps as lists of keys and values. A value inserted under a key that is present takes the
place of the old one, so a key occurs once in every map built from `empty`. -/
namespace QuestScript

structure Dict (κ α : Type) where
  entries : List (κ × α)
  deriving DecidableEq

namespace Dict

variable {κ α : Type} [DecidableEq κ]

def empty : Dict κ α := ⟨[]⟩

def find? (key : κ) : List (κ × α) → Option α
  | [] => none
  | (k, value) :: rest => if k = key then some value else find? key rest

def put (key : κ) (value : α) : List (κ × α) → List (κ × α)
  | [] => [(key, value)]
  | (k, old) :: rest => if k = key then (key, value) :: rest else (k, old) :: put key value rest

def get? (d : Dict κ α) (key : κ) : Option α := find? key d.entries

def contains (d : Dict κ α) (key : κ) : Bool := (d.get? key).isSome

def insert (d : Dict κ α) (key : κ) (value : α) : Dict κ α := ⟨put key value d.entries⟩

def erase (d : Dict κ α) (key : κ) : Dict κ α := ⟨d.entries.filter fun entry => entry.1 ≠ key⟩

def size (d : Dict κ α) : Nat := d.entries.length

def isEmpty (d : Dict κ α) : Bool := d.entries.isEmpty

def ofList (pairs : List (κ × α)) : Dict κ α :=
  pairs.foldl (fun d entry => d.insert entry.1 entry.2) empty

@[simp] theorem get?_empty (key : κ) : (empty : Dict κ α).get? key = none := rfl

theorem find?_put_self (entries : List (κ × α)) (key : κ) (value : α) :
    find? key (put key value entries) = some value := by
  induction entries with
  | nil => simp [put, find?]
  | cons entry rest ih =>
    by_cases same : entry.1 = key
    · simp [put, find?, same]
    · simp only [put, if_neg same, find?, ih]

theorem find?_put_of_ne (entries : List (κ × α)) {key other : κ} (value : α)
    (differ : other ≠ key) : find? other (put key value entries) = find? other entries := by
  induction entries with
  | nil => simp [put, find?, differ.symm]
  | cons entry rest ih =>
    by_cases same : entry.1 = key
    · have elsewhere : entry.1 ≠ other := fun h => differ (h.symm.trans same)
      simp only [put, if_pos same, find?, if_neg differ.symm, if_neg elsewhere]
    · simp only [put, if_neg same, find?, ih]

@[simp] theorem get?_insert_self (d : Dict κ α) (key : κ) (value : α) :
    (d.insert key value).get? key = some value :=
  find?_put_self d.entries key value

theorem get?_insert_of_ne (d : Dict κ α) {key other : κ} (value : α) (differ : other ≠ key) :
    (d.insert key value).get? other = d.get? other :=
  find?_put_of_ne d.entries value differ

theorem get?_insert (d : Dict κ α) (key other : κ) (value : α) :
    (d.insert key value).get? other = if other = key then some value else d.get? other := by
  split
  · next same => rw [same, get?_insert_self]
  · next differ => exact get?_insert_of_ne d value differ

theorem mem_of_find? {entries : List (κ × α)} {key : κ} {value : α}
    (found : find? key entries = some value) : (key, value) ∈ entries := by
  induction entries with
  | nil => cases found
  | cons entry rest ih =>
    by_cases same : entry.1 = key
    · rw [find?, if_pos same] at found
      cases found
      exact same ▸ List.mem_cons_self ..
    · rw [find?, if_neg same] at found
      exact List.mem_cons_of_mem _ (ih found)

theorem mem_of_get? {d : Dict κ α} {key : κ} {value : α} (found : d.get? key = some value) :
    (key, value) ∈ d.entries :=
  mem_of_find? found

theorem length_put (entries : List (κ × α)) (key : κ) (value : α) :
    (put key value entries).length =
      if (find? key entries).isSome then entries.length else entries.length + 1 := by
  induction entries with
  | nil => simp [put, find?]
  | cons entry rest ih =>
    by_cases same : entry.1 = key
    · simp [put, find?, same]
    · simp only [put, if_neg same, find?, List.length_cons, ih]
      split <;> rfl

theorem size_insert (d : Dict κ α) (key : κ) (value : α) :
    (d.insert key value).size = if d.contains key then d.size else d.size + 1 :=
  length_put d.entries key value

end Dict

end QuestScript
