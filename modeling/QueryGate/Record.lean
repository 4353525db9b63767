/-!
# Records

Named values kept in increasing order of their names, each name once. Storing a value under a
name that is taken replaces the old one.
-/
namespace QueryGate

abbrev Record (α : Type) := List (String × α)

namespace Record

variable {α : Type}

def get? (r : Record α) (name : String) : Option α :=
  (List.find? (·.1 == name) r).map (·.2)

def insert (name : String) (value : α) : Record α → Record α
  | [] => [(name, value)]
  | (k, v) :: rest =>
    if name < k then (name, value) :: (k, v) :: rest
    else if name = k then (name, value) :: rest
    else (k, v) :: insert name value rest

/-- Of two entries with one name the later one stays. -/
def ofEntries (entries : List (String × α)) : Record α :=
  entries.foldl (fun r e => insert e.1 e.2 r) []

theorem get?_insert_self (name : String) (value : α) (r : Record α) :
    get? (insert name value r) name = some value := by
  induction r with
  | nil => simp [insert, get?]
  | cons entry rest ih =>
    obtain ⟨k, v⟩ := entry
    simp only [insert]
    split
    · simp [get?]
    · split
      · simp [get?]
      · rename_i hne
        have : (k == name) = false := by simpa using fun h => hne h.symm
        simpa [get?, this] using ih

theorem get?_insert_of_ne {name other : String} (h : other ≠ name) (value : α) (r : Record α) :
    get? (insert name value r) other = get? r other := by
  have hne : (name == other) = false := by simpa using fun e => h e.symm
  induction r with
  | nil => simp [insert, get?, hne]
  | cons entry rest ih =>
    obtain ⟨k, v⟩ := entry
    simp only [insert]
    split
    · simp [get?, hne]
    · split
      · rename_i hk
        subst hk
        simp [get?, hne]
      · by_cases hk : k = other
        · simp [get?, hk]
        · have hk' : (k == other) = false := by simpa using hk
          simpa [get?, hk'] using ih

end Record

end QueryGate
