import Parlance.Scope

/-! How the tree of scopes changes: writing a variable changes one scope, and a new scope leaves the
others as they are. What a name means in a scope depends on that scope and those around it. -/

namespace Parlance.ScopeTree

theorem size_set (t : ScopeTree) (id : ScopeId) (name : String) (v : Value) :
    (t.set id name v).size = t.size := by simp [size, set]

theorem size_add (t : ScopeTree) (parent : Option ScopeId) : (t.add parent).size = t.size + 1 := by
  simp [size, add]

theorem get?_set (t : ScopeTree) (id : ScopeId) (name : String) (v : Value) (j : ScopeId) :
    (t.set id name v).get? j =
      if id = j then (t.get? j).map fun s => { s with locals := s.locals.insert name v }
      else t.get? j := by
  simp only [get?, set, Array.getElem?_modify]

theorem get?_add (t : ScopeTree) (parent : Option ScopeId) (j : ScopeId) :
    (t.add parent).get? j = if j = t.size then some { parent } else t.get? j := by
  unfold get? add size
  exact Array.getElem?_push

theorem parent?_set (t : ScopeTree) (id : ScopeId) (name : String) (v : Value) (j : ScopeId) :
    (t.set id name v).parent? j = t.parent? j := by
  simp only [parent?, get?_set]
  split
  · cases t.get? j <;> rfl
  · rfl

theorem parent?_add (t : ScopeTree) (parent : Option ScopeId) (j : ScopeId) :
    (t.add parent).parent? j = if j = t.size then parent else t.parent? j := by
  simp only [parent?, get?_add]
  split <;> rfl

theorem get?_eq_none {t : ScopeTree} {id : ScopeId} (h : t.size ≤ id) : t.get? id = none :=
  Array.getElem?_eq_none h

theorem parent?_eq_none {t : ScopeTree} {id : ScopeId} (h : t.size ≤ id) : t.parent? id = none := by
  simp only [parent?, get?_eq_none h, Option.bind_none]

/-! What a name means. -/

theorem chain_congr {t t' : ScopeTree} (h : ∀ id, t'.parent? id = t.parent? id) (id : ScopeId) :
    t'.chain id = t.chain id := by
  -- along the recursion of `chain`, which goes outward to smaller numbers
  induction id using Nat.strongRecOn with
  | ind id ih =>
    rw [chain, chain, h id]
    cases t.parent? id with
    | none => rfl
    | some p =>
      by_cases hp : p < id
      · simp only [hp, if_true, ih p hp]
      · simp only [hp, if_false]

theorem chain_add (t : ScopeTree) (parent : Option ScopeId) {id : ScopeId} (h : id < t.size) :
    (t.add parent).chain id = t.chain id := by
  induction id using Nat.strongRecOn with
  | ind id ih =>
    rw [chain, chain, parent?_add, if_neg (Nat.ne_of_lt h)]
    cases t.parent? id with
    | none => rfl
    | some p =>
      by_cases hp : p < id
      · simp only [hp, if_true, ih p hp (Nat.lt_trans hp h)]
      · simp only [hp, if_false]

theorem mem_chain_add {t : ScopeTree} {closure j : ScopeId}
    (h : j ∈ (t.add (some closure)).chain t.size) : j = t.size ∨ j ∈ t.chain closure := by
  rw [chain, parent?_add, if_pos rfl] at h
  rcases List.mem_cons.1 h with rfl | h
  · exact .inl rfl
  · simp only at h
    split at h
    · next hlt => exact .inr (t.chain_add (some closure) hlt ▸ h)
    · simp at h

theorem parent?_setAll (t : ScopeTree) (id : ScopeId) (pairs : List (String × Value)) (j : ScopeId) :
    (t.setAll id pairs).parent? j = t.parent? j := by
  induction pairs generalizing t with
  | nil => rfl
  | cons pair pairs ih =>
    show ((t.set id pair.1 pair.2).setAll id pairs).parent? j = t.parent? j
    rw [ih, parent?_set]

theorem local?_set {t : ScopeTree} {id : ScopeId} (h : id < t.size) (name : String) (v : Value)
    (m : String) : (t.set id name v).local? id m = if m = name then some v else t.local? id m := by
  obtain ⟨s, hs⟩ : ∃ s, t.get? id = some s := ⟨_, Array.getElem?_eq_getElem h⟩
  simp only [local?, get?_set, hs, if_true, Option.map_some, Option.bind_some, Table.get?_insert]

theorem local?_setAll_of_forall_ne {t : ScopeTree} {id : ScopeId} (h : id < t.size) {name : String}
    {pairs : List (String × Value)} (hname : ∀ pair ∈ pairs, pair.1 ≠ name) :
    (t.setAll id pairs).local? id name = t.local? id name := by
  induction pairs generalizing t with
  | nil => rfl
  | cons pair pairs ih =>
    have hne : name ≠ pair.1 := (hname pair List.mem_cons_self).symm
    have hsize : id < (t.set id pair.1 pair.2).size := by rwa [size_set]
    show ((t.set id pair.1 pair.2).setAll id pairs).local? id name = t.local? id name
    rw [ih hsize fun p hp => hname p (List.mem_cons_of_mem pair hp), local?_set h, if_neg hne]

theorem local?_setAll {t : ScopeTree} {id : ScopeId} (h : id < t.size) {name : String} {v : Value}
    {pairs : List (String × Value)} {i : Nat} (hi : pairs[i]? = some (name, v))
    (hlast : ∀ pair ∈ pairs.drop (i + 1), pair.1 ≠ name) :
    (t.setAll id pairs).local? id name = some v := by
  induction pairs generalizing t i with
  | nil => simp at hi
  | cons pair pairs ih =>
    have hsize : id < (t.set id pair.1 pair.2).size := by rwa [size_set]
    show ((t.set id pair.1 pair.2).setAll id pairs).local? id name = some v
    cases i with
    | zero =>
      cases hi
      have hne : ∀ pair ∈ pairs, pair.1 ≠ name := hlast
      rw [local?_setAll_of_forall_ne hsize hne, local?_set h, if_pos rfl]
    | succ i => exact ih hsize hi hlast

theorem forall_mem_chain {t : ScopeTree} {V : ScopeId → Prop}
    (h : ∀ id p, V id → t.parent? id = some p → V p) (id : ScopeId) (hid : V id) :
    ∀ j ∈ t.chain id, V j := by
  induction id using Nat.strongRecOn with
  | ind id ih =>
    intro j hj
    rw [chain] at hj
    rcases List.mem_cons.1 hj with rfl | hj
    · exact hid
    · cases hp : t.parent? id with
      | none => simp [hp] at hj
      | some p =>
        simp only [hp] at hj
        split at hj
        · next hlt => exact ih p hlt (h id p hid hp) j hj
        · simp at hj

theorem lookup?_congr {t t' : ScopeTree} {id : ScopeId}
    (hparent : ∀ id, t'.parent? id = t.parent? id) (h : ∀ j ∈ t.chain id, t'.get? j = t.get? j)
    (name : String) : t'.lookup? id name = t.lookup? id name := by
  unfold lookup?
  rw [chain_congr hparent]
  revert h
  generalize t.chain id = ids
  intro h
  induction ids with
  | nil => rfl
  | cons j ids ih =>
    have hlocal : t'.local? j name = t.local? j name := by
      unfold local?
      rw [h j List.mem_cons_self]
    have hrest := ih fun i hi => h i (List.mem_cons_of_mem j hi)
    rw [List.findSome?_cons, List.findSome?_cons, hlocal, hrest]

theorem lookup?_eq (t : ScopeTree) (id : ScopeId) (name : String) : t.lookup? id name =
    (t.local? id name <|> match t.parent? id with
      | none => none
      | some p => if p < id then t.lookup? p name else none) := by
  unfold lookup?
  rw [chain, List.findSome?_cons]
  cases t.local? id name with
  | some v => rfl
  | none =>
    cases t.parent? id with
    | none => rfl
    | some p => by_cases hp : p < id <;> simp [hp]

theorem lookup?_eq_none {t : ScopeTree} {id : ScopeId} (h : t.size ≤ id) (name : String) : t.lookup? id name = none := by
  rw [lookup?_eq, parent?_eq_none h, local?, get?_eq_none h]
  rfl

theorem lookup?_eq_of_le {t t' : ScopeTree} {id : ScopeId} (h : ∀ j ≤ id, t'.get? j = t.get? j) (name : String) :
    t'.lookup? id name = t.lookup? id name := by
  -- along the way outward, which goes to smaller numbers
  induction id using Nat.strongRecOn with
  | ind id ih =>
    have hscope := h id (Nat.le_refl id)
    rw [lookup?_eq, lookup?_eq t, local?, local?, parent?, parent?, hscope]
    cases (t.get? id).bind (·.parent) with
    | none => rfl
    | some p =>
      by_cases hp : p < id
      · simp only [hp, if_true, ih p hp fun j hj => h j (Nat.le_trans hj (Nat.le_of_lt hp))]
      · simp only [hp, if_false]

theorem size_lt_size_add (t : ScopeTree) (parent : Option ScopeId) : t.size < (t.add parent).size := by
  rw [size_add]
  exact Nat.lt_succ_self _

theorem get?_setAll_of_ne {t : ScopeTree} {id j : ScopeId} (hj : id ≠ j)
    (pairs : List (String × Value)) : (t.setAll id pairs).get? j = t.get? j := by
  induction pairs generalizing t with
  | nil => rfl
  | cons pair pairs ih =>
    change ((t.set id pair.1 pair.2).setAll id pairs).get? j = t.get? j
    rw [ih, get?_set, if_neg hj]

theorem lookup?_setAll_add (t : ScopeTree) (closure : ScopeId) (pairs : List (String × Value))
    (name : String) : ((t.add (some closure)).setAll t.size pairs).lookup? t.size name =
      (((t.add (some closure)).setAll t.size pairs).local? t.size name <|> t.lookup? closure name) := by
  rw [lookup?_eq, parent?_setAll, parent?_add, if_pos rfl]
  by_cases hlt : closure < t.size
  · simp only [hlt, if_true]
    rw [lookup?_eq_of_le fun j hj => ?_]
    have hj : j < t.size := Nat.lt_of_le_of_lt hj hlt
    rw [get?_setAll_of_ne (Nat.ne_of_gt hj), get?_add, if_neg (Nat.ne_of_lt hj)]
  · simp only [hlt, if_false, lookup?_eq_none (Nat.le_of_not_lt hlt)]

end Parlance.ScopeTree
