import Parlance.Files.Tree
import Parlance.Proofs.Engine.Frame

/-! What a directory holds. In a tree that is a map from places to items, the listing of a directory has
every file that lies directly inside it once, in order; and the path that joins the directory and the
name of such a file leads back to its contents. -/

namespace Parlance

namespace Path

/-- Paths are ordered name by name. -/
def Before (p q : String) : Prop := components p < components q

/-- What a directory can call a file: something, without a slash, that is no step along a path. -/
structure IsName (name : String) : Prop where
  ne_empty : name ≠ ""
  ne_dot : name ≠ "."
  ne_dots : name ≠ ".."
  no_slash : '/' ∉ name.toList

theorem names_append_slash (path name : String) :
    names (path ++ "/" ++ name) = names path ++ names name := by
  have hsplit : Text.split '/' (path ++ "/" ++ name).toList =
      Text.split '/' path.toList ++ Text.split '/' name.toList := by
    rw [← Text.split_append]
    simp
  rw [names, hsplit, List.map_append]
  rfl

theorem names_ne_nil (path : String) : names path ≠ [] := by
  simp [names, Text.split_ne_nil]

theorem names_of_isName {name : String} (h : IsName name) : names name = [name] := by
  simp [names, Text.split_of_not_mem h.no_slash]

theorem exists_slash_of_getLast? {dir : String} (h : dir.toList.getLast? = some '/') :
    ∃ d, dir = d ++ "/" := by
  obtain ⟨cs, hcs⟩ := List.getLast?_eq_some_iff.1 h
  exact ⟨String.ofList cs, String.toList_inj.1 (by simpa using hcs)⟩

theorem exists_names_join {dir : String} (hdir : dir ≠ "") :
    ∃ stem, (names dir = names stem ∨ names dir = names stem ++ [""]) ∧
      ∀ name, IsName name → names (join dir name) = names stem ++ [name] := by
  by_cases hslash : dir.toList.getLast? = some '/'
  · obtain ⟨stem, rfl⟩ := exists_slash_of_getLast? hslash
    refine ⟨stem, .inr ?_, fun name hname => ?_⟩
    · have hempty := names_append_slash stem ""
      simpa [names, Text.split] using hempty
    · rw [join, if_pos (by simp), names_append_slash, names_of_isName hname]
  · refine ⟨dir, .inl rfl, fun name hname => ?_⟩
    rw [join, if_neg (by simp [hslash, hdir]), names_append_slash, names_of_isName hname]

theorem join_ne_empty {dir name : String} (hname : IsName name) : join dir name ≠ "" := by
  unfold join
  split <;> simp [hname.ne_empty]

theorem exists_components_join {dir : String} (hdir : dir ≠ "") :
    ∃ cs, ∀ name, IsName name → components (join dir name) = cs ++ [name] := by
  obtain ⟨stem, _, hjoin⟩ := exists_names_join hdir
  obtain ⟨first, rest, hstem⟩ := List.exists_cons_of_ne_nil (names_ne_nil stem)
  refine ⟨first :: rest.filter fun n => n != "" && n != ".", fun name hname => ?_⟩
  simp [components, hjoin name hname, hstem, join_ne_empty hname, hname.ne_empty, hname.ne_dot]

theorem before_join {dir a b : String} (hdir : dir ≠ "") (ha : IsName a) (hb : IsName b)
    (h : a < b) : Before (join dir a) (join dir b) := by
  obtain ⟨cs, hjoin⟩ := exists_components_join hdir
  rw [Before, hjoin a ha, hjoin b hb]
  exact List.append_left_lt (.rel h)

end Path

namespace FileTree

/-- A tree is a map from places to items, in which every file has a name. -/
structure WellFormed (t : FileTree) : Prop where
  distinct : (t.items.map (·.1)).Nodup
  named : ∀ place name bytes, (place ++ [name], .file bytes) ∈ t.items → Path.IsName name

/-- A file with this name and these contents lies directly inside the directory at `place`. -/
def HasFile (t : FileTree) (place : Place) (name : String) (bytes : ByteArray) : Prop :=
  t.item? (place ++ [name]) = some (.file bytes)

def LeadsTo (t : FileTree) (path : String) (place : Place) : Prop :=
  t.resolve path = .ok place ∧ t.item? place = some .directory

/-! Every tree that is made by writing and removing is well formed. -/

theorem wellFormed_empty : empty.WellFormed where
  distinct := List.nodup_nil
  named _ _ _ h := by cases h

theorem mem_items_put {t : FileTree} {place p : Place} {item i : FileItem}
    (h : (p, i) ∈ (t.put place item).items) : p = place ∧ i = item ∨ (p, i) ∈ t.items := by
  unfold put at h
  split at h
  · exact .inr h
  · obtain heq | hmem := List.mem_cons.1 h
    · exact .inl (Prod.mk.inj heq)
    · exact .inr (List.mem_filter.1 hmem).1

theorem WellFormed.put {t : FileTree} (ht : t.WellFormed) {place : Place} {item : FileItem}
    (h : ∀ dir name bytes, place = dir ++ [name] → item = .file bytes → Path.IsName name) :
    (t.put place item).WellFormed where
  distinct := by
    unfold FileTree.put
    split
    · exact ht.distinct
    · have hnew : place ∉ (t.items.filter fun e => e.1 != place).map (·.1) := by simp
      exact List.nodup_cons.2 ⟨hnew, ht.distinct.sublist (List.filter_sublist.map _)⟩
  named dir name bytes hmem := by
    obtain ⟨hplace, hitem⟩ | hmem := mem_items_put hmem
    · exact h dir name bytes hplace.symm hitem.symm
    · exact ht.named dir name bytes hmem

theorem WellFormed.makeDirectory {t : FileTree} (ht : t.WellFormed) (place : Place) :
    (t.makeDirectory place).WellFormed := by
  unfold FileTree.makeDirectory
  induction List.range place.length generalizing t with
  | nil => exact ht
  | cons i is ih =>
    refine ih ?_
    dsimp only
    split
    · exact ht
    · exact ht.put fun _ _ _ _ hitem => by cases hitem

theorem WellFormed.write {t : FileTree} (ht : t.WellFormed) (dir : Place) {name : String}
    (hname : Path.IsName name) (bytes : ByteArray) : (t.write (dir ++ [name]) bytes).WellFormed := by
  refine (ht.makeDirectory _).put fun dir' name' _ hplace _ => ?_
  have hlast := congrArg List.getLast? hplace
  simp only [List.getLast?_concat, Option.some.injEq] at hlast
  exact hlast ▸ hname

theorem WellFormed.remove {t : FileTree} (ht : t.WellFormed) (place : Place) :
    (t.remove place).WellFormed where
  distinct := ht.distinct.sublist (List.filter_sublist.map _)
  named dir name bytes h := ht.named dir name bytes (List.mem_filter.1 h).1

/-! Following a path. -/

theorem follow_append (t : FileTree) (place : Place) (xs ys : List String) :
    t.follow place (xs ++ ys) = (t.follow place xs).bind fun p => t.follow p ys := by
  induction xs generalizing place with
  | nil => rfl
  | cons x xs ih =>
    simp only [List.cons_append, follow]
    split
    · rfl
    · rfl
    · split
      · exact ih _
      · rfl

theorem eq_of_follow_empty {t : FileTree} {place place' : Place}
    (h : t.follow place [""] = .ok place') : place' = place := by
  have henter : enter place "" = place := by simp [enter]
  simp only [follow, henter] at h
  split at h
  · cases h
  · cases h
  · split at h
    · exact (Except.ok.inj h).symm
    · cases h

theorem steps_append {path path' : String} {ms : List String}
    (h : Path.names path' = Path.names path ++ ms) : steps path' = steps path ++ ms := by
  obtain ⟨first, rest, hpath⟩ := List.exists_cons_of_ne_nil (Path.names_ne_nil path)
  rw [hpath] at h
  by_cases hfirst : first = ""
  · subst hfirst
    simp [steps, h, hpath]
  · simp [steps, h, hpath, hfirst]

section
variable {t : FileTree} {place : Place} {name : String} {bytes : ByteArray}

theorem lookup_eq_some_iff_mem {items : List (Place × FileItem)} (h : (items.map (·.1)).Nodup)
    {p : Place} {item : FileItem} : items.lookup p = some item ↔ (p, item) ∈ items := by
  induction items with
  | nil => simp
  | cons entry rest ih =>
    obtain ⟨q, other⟩ := entry
    rw [List.map_cons, List.nodup_cons] at h
    rw [List.lookup_cons, List.mem_cons, Prod.mk.injEq]
    by_cases hp : p = q
    · subst hp
      have hrest : (p, item) ∉ rest := fun hmem => h.1 (List.mem_map.2 ⟨_, hmem, rfl⟩)
      simp [hrest, eq_comm]
    · rw [beq_false_of_ne hp, ih h.2]
      simp [hp]

theorem WellFormed.hasFile_iff (ht : t.WellFormed) :
    t.HasFile place name bytes ↔ (place ++ [name], .file bytes) ∈ t.items := by
  have hitem : t.item? (place ++ [name]) = t.items.lookup (place ++ [name]) := by simp [item?]
  rw [HasFile, hitem, lookup_eq_some_iff_mem ht.distinct]

theorem WellFormed.isName (ht : t.WellFormed) (hfile : t.HasFile place name bytes) :
    Path.IsName name :=
  ht.named _ _ _ (ht.hasFile_iff.1 hfile)

theorem resolve_join {dir : String} (hdir : t.LeadsTo dir place) (hname : Path.IsName name)
    (hfile : t.HasFile place name bytes) : t.resolve (Path.join dir name) = .ok (place ++ [name]) := by
  obtain ⟨hresolve, hplace⟩ := hdir
  have hne : dir ≠ "" := by
    rintro rfl
    cases hresolve
  rw [resolve, if_neg hne] at hresolve
  obtain ⟨stem, hdir, hjoin⟩ := Path.exists_names_join hne
  have hstem : t.follow [] (steps stem) = .ok place := by
    obtain hdir | hdir := hdir
    · have hsteps : steps dir = steps stem := by simp only [steps, hdir]
      rwa [hsteps] at hresolve
    · rw [steps_append hdir, follow_append] at hresolve
      cases hfollow : t.follow [] (steps stem) with
      | error fault =>
        rw [hfollow] at hresolve
        cases hresolve
      | ok p =>
        rw [hfollow] at hresolve
        rw [eq_of_follow_empty hresolve]
  have hlast : t.follow place [name] = .ok (place ++ [name]) := by
    have henter : enter place name = place ++ [name] := by
      simp [enter, hname.ne_empty, hname.ne_dot, hname.ne_dots]
    rw [HasFile] at hfile
    simp [follow, hplace, henter, hfile]
  rw [resolve, if_neg (Path.join_ne_empty hname), steps_append (hjoin name hname), follow_append,
    hstem]
  exact hlast

theorem readText_join {dir : String} (hdir : t.LeadsTo dir place) (hname : Path.IsName name)
    (hfile : t.HasFile place name bytes) : t.readText (Path.join dir name) =
      match String.fromUTF8? bytes with
      | some text => .ok text
      | none => .error .notText := by
  have hbytes : t.readBytes (Path.join dir name) = .ok bytes := by
    rw [readBytes, resolve_join hdir hname hfile]
    simp only [bind, Except.bind]
    rw [HasFile] at hfile
    rw [hfile]
  rw [readText, hbytes]
  rfl

end

/-! Listing. -/

def nameIn? (place : Place) (entry : Place × FileItem) : Option String :=
  match entry.2 with
  | .file _ => if entry.1.dropLast = place then entry.1.getLast? else none
  | .directory => none

theorem nameIn?_eq_some {place : Place} {entry : Place × FileItem} {name : String} :
    nameIn? place entry = some name ↔ ∃ bytes, entry = (place ++ [name], .file bytes) := by
  obtain ⟨p, bytes | _⟩ := entry
  · simp only [nameIn?, Option.ite_none_right_eq_some, Prod.mk.injEq, FileItem.file.injEq,
      List.getLast?_eq_some_iff]
    constructor
    · rintro ⟨rfl, front, rfl⟩
      exact ⟨bytes, by simp, rfl⟩
    · rintro ⟨_, rfl, _⟩
      exact ⟨by simp, place, rfl⟩
  · simp [nameIn?]

theorem filesIn_of_leadsTo {t : FileTree} {path : String} {place : Place}
    (h : t.LeadsTo path place) :
    t.filesIn path = .ok ((t.items.filterMap (nameIn? place)).mergeSort fun a b => !decide (b < a)) := by
  obtain ⟨hresolve, hitem⟩ := h
  rw [filesIn, hresolve]
  simp only [bind, Except.bind, hitem]
  rfl

theorem filesIn_of_not_leadsTo {t : FileTree} {path : String} (h : ∀ place, ¬ t.LeadsTo path place) :
    ∃ fault, t.filesIn path = .error fault := by
  rw [filesIn]
  cases hresolve : t.resolve path with
  | error fault => exact ⟨fault, rfl⟩
  | ok place =>
    simp only [bind, Except.bind]
    split
    · next hitem => exact absurd ⟨hresolve, hitem⟩ (h place)
    · exact ⟨_, rfl⟩
    · exact ⟨_, rfl⟩

theorem not_decide_lt_iff {a b : String} : (!decide (b < a)) = true ↔ a ≤ b := by
  rw [Bool.not_eq_true', decide_eq_false_iff_not, String.not_lt]

theorem pairwise_lt_mergeSort {names : List String} (h : names.Nodup) :
    (names.mergeSort fun a b => !decide (b < a)).Pairwise (· < ·) := by
  have hsorted : (names.mergeSort fun a b => !decide (b < a)).Pairwise
      fun a b => (!decide (b < a)) = true := by
    refine List.pairwise_mergeSort (fun a b c hab hbc => ?_) (fun a b => ?_) names
    · rw [not_decide_lt_iff] at hab hbc ⊢
      exact String.le_trans hab hbc
    · rw [Bool.or_eq_true, not_decide_lt_iff, not_decide_lt_iff]
      exact String.le_total a b
  have hdiffer := (List.mergeSort_perm names fun a b => !decide (b < a)).nodup_iff.2 h
  refine (hsorted.and hdiffer).imp fun {a b} hab => ?_
  rw [not_decide_lt_iff] at hab
  exact String.not_le.1 fun hba => hab.2 (String.le_antisymm hab.1 hba)

theorem WellFormed.nodup_names {t : FileTree} (ht : t.WellFormed) (place : Place) :
    (t.items.filterMap (nameIn? place)).Nodup := by
  refine List.Pairwise.filterMap _ (fun entry entry' hne name hname name' hname' heq => ?_)
    (List.pairwise_map.1 ht.distinct)
  obtain ⟨bytes, rfl⟩ := nameIn?_eq_some.1 hname
  obtain ⟨bytes', rfl⟩ := nameIn?_eq_some.1 hname'
  exact hne (by rw [heq])

theorem WellFormed.exists_filesIn {t : FileTree} (ht : t.WellFormed) {path : String} {place : Place}
    (h : t.LeadsTo path place) :
    ∃ names, t.filesIn path = .ok names ∧ names.Pairwise (· < ·) ∧
      ∀ name, name ∈ names ↔ ∃ bytes, t.HasFile place name bytes := by
  refine ⟨_, filesIn_of_leadsTo h, pairwise_lt_mergeSort (ht.nodup_names place), fun name => ?_⟩
  simp only [List.mem_mergeSort, List.mem_filterMap, nameIn?_eq_some, ht.hasFile_iff]
  constructor
  · rintro ⟨entry, hentry, bytes, rfl⟩
    exact ⟨bytes, hentry⟩
  · rintro ⟨bytes, hentry⟩
    exact ⟨_, hentry, bytes, rfl⟩

end FileTree
end Parlance
