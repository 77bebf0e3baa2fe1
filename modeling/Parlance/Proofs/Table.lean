import Parlance.Table

/-! How changing an entry of a table changes its names: an old name keeps its place, and a new one
comes last. -/

namespace Parlance.Table
variable {α : Type}

theorem get?_modify (t : Table α) (name : String) (f : α → α) (m : String) :
    (t.modify name f).get? m = if m = name then (t.get? name).map f else t.get? m := by
  unfold modify
  cases h : t.get? name with
  | none =>
    by_cases hm : m = name
    · simp [hm, h]
    · simp [hm]
  | some a => exact t.get?_insert name (f a) m

theorem mem_names_of_get? {t : Table α} {name : String} {a : α} (h : t.get? name = some a) :
    name ∈ t.names := by
  obtain ⟨entries⟩ := t
  simp only [get?, names] at h ⊢
  induction entries with
  | nil => cases h
  | cons entry rest ih =>
    obtain ⟨n, b⟩ := entry
    rw [List.lookup_cons] at h
    split at h
    · next heq => simp [eq_of_beq heq]
    · exact List.mem_cons_of_mem _ (ih h)

theorem names_prefix_insert (t : Table α) (name : String) (a : α) :
    t.names <+: (t.insert name a).names := by
  rw [names_insert]
  split
  · exact List.prefix_rfl
  · exact List.prefix_append _ _

theorem names_modify (t : Table α) (name : String) (f : α → α) :
    (t.modify name f).names = t.names := by
  unfold modify
  split
  · next a h => rw [names_insert, if_pos (mem_names_of_get? h)]
  · rfl

theorem nodup_names_insert {t : Table α} (h : t.names.Nodup) (name : String) (a : α) :
    (t.insert name a).names.Nodup := by
  rw [names_insert]
  split
  · exact h
  · next hname =>
    refine List.nodup_append.2 ⟨h, by simp, ?_⟩
    rintro n hn m hm rfl
    rw [List.mem_singleton.1 hm] at hn
    exact hname hn

end Parlance.Table
