import Mathlib.Logic.Relation
import Mathlib.Order.WellFounded
import Parlance.Proofs.Scope

/-! How scopes lie inside each other. A tree of scopes grows by a new scope inside one that is there and
by writing a variable, so the way outward from a scope never changes and comes to an end. What a name
means is then what the first scope on the way says that has a variable of this name, and a write is seen
from everywhere inside the scope, except where a nearer variable of the same name hides it. -/

namespace Parlance.ScopeTree

def Encloses (t : ScopeTree) (outer inner : ScopeId) : Prop := t.parent? inner = some outer

/-- The whole way outward from a scope, link by link, up to one with nothing around it. -/
inductive Way (t : ScopeTree) : ScopeId → List ScopeId → Prop
  | outermost {id : ScopeId} : t.parent? id = none → Way t id [id]
  | inside {id p : ScopeId} {ids : List ScopeId} : t.parent? id = some p → Way t p ids →
      Way t id (id :: ids)

def binds (t : ScopeTree) (name : String) (id : ScopeId) : Bool := (t.local? id name).isSome

/-- A search for a name that goes outward as long as there is a parent, whatever number it has. It ends
in the scope that has the variable, or in none. -/
inductive Search (t : ScopeTree) (name : String) : ScopeId → Option ScopeId → Prop
  | here {id : ScopeId} : t.binds name id = true → Search t name id (some id)
  | nowhere {id : ScopeId} : t.binds name id = false → t.parent? id = none → Search t name id none
  | outward {id p : ScopeId} {found : Option ScopeId} : t.binds name id = false →
      t.parent? id = some p → Search t name p found → Search t name id found

/-- The tree after new scopes inside scopes that were there, and after writing variables. -/
inductive Grows (t : ScopeTree) : ScopeTree → Prop
  | refl : Grows t t
  | add {t₁ : ScopeTree} {parent : Option ScopeId} : Grows t t₁ →
      (∀ p, parent = some p → p < t₁.size) → Grows t (t₁.add parent)
  | set {t₁ : ScopeTree} (id : ScopeId) (name : String) (v : Value) : Grows t t₁ →
      Grows t (t₁.set id name v)

def IsFounded (t : ScopeTree) : Prop := ∀ outer inner, t.Encloses outer inner → outer < inner

namespace Grows
variable {t t₁ t' : ScopeTree}

theorem trans (h : t.Grows t₁) (h' : t₁.Grows t') : t.Grows t' := by
  induction h' with
  | refl => exact h
  | add _ hparent ih => exact .add ih hparent
  | set id name v _ ih => exact .set id name v ih

theorem size_le (h : t.Grows t') : t.size ≤ t'.size := by
  induction h with
  | refl => exact Nat.le_refl _
  | @add t₁ parent _ _ ih => exact Nat.le_trans ih (Nat.le_of_lt (t₁.size_lt_size_add parent))
  | @set t₁ id name v _ ih => rwa [size_set]

theorem parent?_eq (h : t.Grows t') {id : ScopeId} (hid : id < t.size) :
    t'.parent? id = t.parent? id := by
  induction h with
  | refl => rfl
  | @add t₁ parent hgrows _ ih =>
    have hold : id ≠ t₁.size := Nat.ne_of_lt (Nat.lt_of_lt_of_le hid hgrows.size_le)
    rw [parent?_add, if_neg hold, ih]
  | @set t₁ id' name v _ ih => rw [parent?_set, ih]

theorem isFounded (h : t.Grows t') (ht : t.IsFounded) : t'.IsFounded := by
  induction h with
  | refl => exact ht
  | @add t₁ parent _ hparent ih =>
    intro outer inner hencloses
    rw [Encloses, parent?_add] at hencloses
    split at hencloses
    · next hinner =>
      subst hinner
      exact hparent outer hencloses
    · exact ih outer inner hencloses
  | @set t₁ id name v _ ih =>
    intro outer inner hencloses
    rw [Encloses, parent?_set] at hencloses
    exact ih outer inner hencloses

end Grows

theorem isFounded_empty : empty.IsFounded := by
  intro outer inner hencloses
  rw [Encloses, parent?_eq_none (Nat.zero_le inner)] at hencloses
  cases hencloses

namespace IsFounded
variable {t : ScopeTree} (ht : t.IsFounded)
include ht

theorem wellFounded : WellFounded t.Encloses :=
  Subrelation.wf (fun {outer inner} => ht outer inner) Nat.lt_wfRel.wf

theorem not_transGen_self (id : ScopeId) : ¬Relation.TransGen t.Encloses id id :=
  ht.wellFounded.transGen.irrefl.irrefl id

theorem way_chain (id : ScopeId) : t.Way id (t.chain id) := by
  induction id using Nat.strongRecOn with
  | ind id ih =>
    rw [chain]
    cases hp : t.parent? id with
    | none => exact .outermost hp
    | some p =>
      have hlt : p < id := ht p id hp
      simp only [hlt, if_true]
      exact .inside hp (ih p hlt)

end IsFounded

namespace Way
variable {t : ScopeTree} {id : ScopeId} {ids : List ScopeId}

theorem unique {ids' : List ScopeId} (h : t.Way id ids) (h' : t.Way id ids') : ids' = ids := by
  induction h generalizing ids' with
  | outermost hp =>
    cases h' with
    | outermost => rfl
    | inside hp' => simp [hp] at hp'
  | inside hp _ ih =>
    cases h' with
    | outermost hp' => simp [hp] at hp'
    | inside hp' hrest =>
      obtain rfl := Option.some.inj (hp'.symm.trans hp)
      rw [ih hrest]

theorem search_find? (h : t.Way id ids) (name : String) :
    t.Search name id (ids.find? (t.binds name)) := by
  induction h with
  | @outermost id hp =>
    cases hb : t.binds name id with
    | true => simpa [hb] using Search.here hb
    | false => simpa [hb] using Search.nowhere hb hp
  | @inside id p ids hp _ ih =>
    cases hb : t.binds name id with
    | true => simpa [hb] using Search.here hb
    | false => simpa [hb] using Search.outward hb hp ih

end Way

theorem Search.unique {t : ScopeTree} {name : String} {id : ScopeId} {found found' : Option ScopeId}
    (h : t.Search name id found) (h' : t.Search name id found') : found' = found := by
  induction h generalizing found' with
  | here hb =>
    cases h' with
    | here => rfl
    | nowhere hb' => simp [hb] at hb'
    | outward hb' => simp [hb] at hb'
  | nowhere hb hp =>
    cases h' with
    | here hb' => simp [hb] at hb'
    | nowhere => rfl
    | outward _ hp' => simp [hp] at hp'
  | outward hb hp _ ih =>
    cases h' with
    | here hb' => simp [hb] at hb'
    | nowhere _ hp' => simp [hp] at hp'
    | outward _ hp' hrest =>
      obtain rfl := Option.some.inj (hp'.symm.trans hp)
      exact ih hrest

theorem Way.search_iff {t : ScopeTree} {id : ScopeId} {ids : List ScopeId} (h : t.Way id ids)
    (name : String) (found : Option ScopeId) :
    t.Search name id found ↔ found = ids.find? (t.binds name) := by
  constructor
  · exact (h.search_find? name).unique
  · rintro rfl
    exact h.search_find? name

theorem findSome?_local? (t : ScopeTree) (name : String) (ids : List ScopeId) :
    (ids.findSome? fun id => t.local? id name) =
      (ids.find? (t.binds name)).bind fun id => t.local? id name := by
  induction ids with
  | nil => rfl
  | cons id ids ih =>
    rw [List.findSome?_cons, List.find?_cons]
    cases hlocal : t.local? id name with
    | some v => simp [binds, hlocal]
    | none => simp [binds, hlocal, ih]

theorem IsFounded.lookup?_eq_find? {t : ScopeTree} (ht : t.IsFounded) {id : ScopeId} {ids : List ScopeId}
    (h : t.Way id ids) (name : String) :
    t.lookup? id name = (ids.find? (t.binds name)).bind fun id => t.local? id name := by
  rw [lookup?, (ht.way_chain id).unique h, findSome?_local?]

/-! Reading after writing. -/

section Write
variable {t : ScopeTree} {c : ScopeId} (hc : c < t.size) (n : String) (v : Value)

theorem local?_set_of_ne {j : ScopeId} {m : String} (h : ¬(j = c ∧ m = n)) :
    (t.set c n v).local? j m = t.local? j m := by
  by_cases hj : c = j
  · subst hj
    have hm : m ≠ n := fun hm => h ⟨rfl, hm⟩
    simp only [local?, get?_set, if_true]
    cases t.get? c with
    | none => rfl
    | some s => simp [Table.get?_insert, hm]
  · simp only [local?, get?_set, if_neg hj]

theorem lookup?_set_of_ne {m : String} (hm : m ≠ n) (d : ScopeId) :
    (t.set c n v).lookup? d m = t.lookup? d m := by
  have hlocal (j : ScopeId) : (t.set c n v).local? j m = t.local? j m :=
    local?_set_of_ne n v fun h => hm h.2
  simp only [lookup?, chain_congr (t.parent?_set c n v), hlocal]

include hc

theorem findSome?_set (ids : List ScopeId) :
    (ids.findSome? fun j => (t.set c n v).local? j n) =
      if ids.find? ((t.set c n v).binds n) = some c then some v
      else ids.findSome? fun j => t.local? j n := by
  induction ids with
  | nil => rfl
  | cons j ids ih =>
    rw [List.findSome?_cons, List.findSome?_cons, List.find?_cons]
    by_cases hj : j = c
    · subst hj
      simp [binds, local?_set hc]
    · have hsame : (t.set c n v).local? j n = t.local? j n := local?_set_of_ne n v fun h => hj h.1
      cases hlocal : t.local? j n with
      | some w => simp [binds, hsame, hlocal, hj]
      | none => simpa [binds, hsame, hlocal] using ih

/-- After a write, a name has the new value where the scope written is the first on the way that has the
variable; everywhere else it means what it meant. -/
theorem IsFounded.lookup?_set (ht : t.IsFounded) {d : ScopeId} {ids : List ScopeId} (h : t.Way d ids)
    (m : String) : (t.set c n v).lookup? d m =
      if m = n ∧ ids.find? ((t.set c n v).binds n) = some c then some v else t.lookup? d m := by
  by_cases hm : m = n
  · subst hm
    simp only [lookup?, chain_congr (t.parent?_set c m v), (ht.way_chain d).unique h, findSome?_set hc,
      true_and]
  · rw [lookup?_set_of_ne n v hm, if_neg fun hwritten => hm hwritten.1]

end Write

end Parlance.ScopeTree
