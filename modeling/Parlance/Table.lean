/-! Named entries in the order in which their names first came. -/

namespace Parlance

/-- A finite map from names that remembers the order of insertion. -/
structure Table (α : Type) where
  entries : List (String × α) := []

namespace Table
variable {α β : Type}

def empty : Table α := {}

instance : Inhabited (Table α) := ⟨empty⟩

def get? (t : Table α) (name : String) : Option α := t.entries.lookup name

def contains (t : Table α) (name : String) : Bool := (t.get? name).isSome

def names (t : Table α) : List String := t.entries.map (·.1)

def size (t : Table α) : Nat := t.entries.length

def insertInto (name : String) (a : α) : List (String × α) → List (String × α)
  | [] => [(name, a)]
  | (n, b) :: rest => if n = name then (n, a) :: rest else (n, b) :: insertInto name a rest

/-- A name that is already there keeps its place. -/
def insert (t : Table α) (name : String) (a : α) : Table α := ⟨insertInto name a t.entries⟩

def map (f : α → β) (t : Table α) : Table β := ⟨t.entries.map fun (n, a) => (n, f a)⟩

def modify (t : Table α) (name : String) (f : α → α) : Table α :=
  match t.get? name with
  | some a => t.insert name (f a)
  | none => t

theorem lookup_insertInto (name : String) (a : α) (entries : List (String × α)) (m : String) :
    (insertInto name a entries).lookup m = if m = name then some a else entries.lookup m := by
  induction entries with
  | nil =>
    by_cases h : m = name
    · simp [insertInto, h]
    · simp [insertInto, List.lookup_cons, h, beq_false_of_ne h]
  | cons entry rest ih =>
    obtain ⟨n, b⟩ := entry
    by_cases hn : n = name
    · subst hn
      by_cases h : m = n
      · simp [insertInto, h]
      · simp [insertInto, List.lookup_cons, h, beq_false_of_ne h]
    · by_cases h : m = n
      · subst h
        simp [insertInto, hn]
      · simp [insertInto, List.lookup_cons, hn, beq_false_of_ne h, ih]

theorem get?_insert (t : Table α) (name : String) (a : α) (m : String) :
    (t.insert name a).get? m = if m = name then some a else t.get? m :=
  lookup_insertInto name a t.entries m

theorem names_insert (t : Table α) (name : String) (a : α) :
    (t.insert name a).names = if name ∈ t.names then t.names else t.names ++ [name] := by
  obtain ⟨entries⟩ := t
  simp only [names, insert]
  induction entries with
  | nil => simp [insertInto]
  | cons entry rest ih =>
    obtain ⟨n, b⟩ := entry
    by_cases hn : n = name
    · simp [insertInto, hn]
    · have hm : ¬name = n := fun h => hn h.symm
      simp only [insertInto, hn, if_false, List.map_cons, ih, List.mem_cons, hm, false_or]
      by_cases h : name ∈ rest.map (·.1) <;> simp only [h, if_true, if_false, List.cons_append]

end Table
end Parlance
