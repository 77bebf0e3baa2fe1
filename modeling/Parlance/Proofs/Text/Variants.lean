import Parlance.Pattern.Template
import Parlance.Token.Lexer

/-! Case variants of letters and blanks. A class or a case map is a finite table, so a fact about all
the characters that it mentions is checked on the table; the lemmas here turn such a check into a
statement about every character. -/

namespace Parlance.Text

def members : List Nat → List Nat
  | on :: off :: rest => List.range' on (off - on) ++ members rest
  | _ => []

theorem mem_members_of_inClass {points : List Nat} {n : Nat} (h : inClass points n = true) :
    n ∈ members points := by
  fun_induction inClass points n with
  | case1 => simp at h
  | case2 on off rest n hon hoff =>
    refine List.mem_append_left _ (List.mem_range'_1.2 ⟨?_, ?_⟩) <;> omega
  | case3 on off rest n hon hoff ih => exact List.mem_append_right _ (ih h)
  | case4 => simp at h

theorem forall_isBlank {p : Char → Bool} (h : (members whiteSpace).all (p ∘ Char.ofNat) = true)
    {c : Char} (hc : isBlank c = true) : p c = true := by
  have hm := List.all_eq_true.1 h _ (mem_members_of_inClass hc)
  rwa [Function.comp, Char.ofNat_toNat] at hm

theorem forall_ascii {p : Char → Bool} (h : (List.range 128).all (p ∘ Char.ofNat) = true)
    {c : Char} (hc : c.toNat < 128) : p c = true := by
  have hm := List.all_eq_true.1 h _ (List.mem_range.2 hc)
  rwa [Function.comp, Char.ofNat_toNat] at hm

/-- Blanks belong to no word, go on with no name and are in no case. The tables are gone through once
for all of this. -/
theorem table_of_isBlank {c : Char} (h : isBlank c = true) :
    (isWordChar c = false ∧ Token.continuesName c = false) ∧ variants c = [c] ∧
      ∀ r ∈ folding, r.covers c.toNat = false := by
  have hall := forall_isBlank (p := fun c => (!isWordChar c && !Token.continuesName c) &&
    (variants c == [c] && folding.all fun r => !r.covers c.toNat)) (by decide +kernel) h
  simp only [Bool.and_eq_true, Bool.not_eq_true', beq_iff_eq, List.all_eq_true] at hall
  exact hall

theorem isWordChar_of_isBlank {c : Char} (h : isBlank c = true) : isWordChar c = false :=
  (table_of_isBlank h).1.1

theorem isBlank_of_isWordChar {c : Char} (h : isWordChar c = true) : isBlank c = false := by
  rw [Bool.eq_false_iff]
  intro hb
  simp [isWordChar_of_isBlank hb] at h

theorem toNat_ne_zero_of_isBlank {c : Char} (h : isBlank c = true) : c.toNat ≠ 0 := by
  simpa using forall_isBlank (p := fun c => c.toNat != 0) (by decide) h

/-! A run ends where the next character does not belong to it. -/

theorem takeWhile_append_stop {p : Char → Bool} {cs rest : List Char} (h : ∀ c ∈ cs, p c = true)
    (hr : rest.head?.any p = false) : (cs ++ rest).takeWhile p = cs := by
  rw [List.takeWhile_append_of_pos h]
  cases rest with
  | nil => exact List.append_nil cs
  | cons d rest => rw [List.takeWhile_cons_of_neg (by simpa using hr), List.append_nil]

theorem dropWhile_append_stop {p : Char → Bool} {cs rest : List Char} (h : ∀ c ∈ cs, p c = true)
    (hr : rest.head?.any p = false) : (cs ++ rest).dropWhile p = rest := by
  rw [List.dropWhile_append_of_pos h]
  cases rest with
  | nil => rfl
  | cons d rest => exact List.dropWhile_cons_of_neg (by simpa using hr)

theorem head_any_dropWhile (p : Char → Bool) (cs : List Char) :
    (cs.dropWhile p).head?.any p = false := by
  have hstop := List.head?_dropWhile_not p cs
  cases hd : (cs.dropWhile p).head? with
  | none => rfl
  | some d => simpa [hd] using hstop

def IsGap (cs : List Char) : Prop := cs ≠ [] ∧ ∀ c ∈ cs, isBlank c = true

theorem IsGap.head {cs : List Char} (h : IsGap cs) (rest : List Char) :
    ∃ c ds, cs ++ rest = c :: ds ∧ isBlank c = true := by
  obtain ⟨c, ds, rfl⟩ := List.exists_cons_of_ne_nil h.1
  exact ⟨c, ds ++ rest, rfl, h.2 c (by simp)⟩

theorem IsGap.head_any_isBlank {cs : List Char} (h : IsGap cs) (rest : List Char) :
    (cs ++ rest).head?.any isBlank = true := by
  obtain ⟨c, ds, he, hc⟩ := h.head rest
  rw [he]
  exact hc

theorem IsGap.head_any_isWordChar {cs : List Char} (h : IsGap cs) (rest : List Char) :
    (cs ++ rest).head?.any isWordChar = false := by
  obtain ⟨c, ds, he, hc⟩ := h.head rest
  rw [he]
  exact isWordChar_of_isBlank hc

/-! The characters that fold to a given one. -/

theorem CaseRun.follow_eq (runs : List CaseRun) (c : Char) : follow runs c = c ∨
    ∃ r ∈ runs, r.covers c.toNat = true ∧
      follow runs c = Char.ofNat ((c.toNat : Int) + r.shift).toNat := by
  fun_induction follow runs c with
  | case1 c => exact .inl rfl
  | case2 r rest c hlt => exact .inl rfl
  | case3 r rest c hlt hc => exact .inr ⟨r, by simp, hc, rfl⟩
  | case4 r rest c hlt hc ih =>
    rcases ih with ih | ⟨r', hm, ih⟩
    · exact .inl ih
    · exact .inr ⟨r', by simp [hm], ih⟩

theorem eq_toNat_of_ofNat_eq {n : Nat} {c : Char} (h : Char.ofNat n = c) (hc : c.toNat ≠ 0) :
    n = c.toNat := by
  subst h
  by_cases hv : n.isValidChar
  · rw [Char.ofNat, dif_pos hv]
    rfl
  · refine absurd ?_ hc
    rw [Char.ofNat, dif_neg hv]
    rfl

theorem mem_origins {runs : List CaseRun} {c : Char} (h : (CaseRun.follow runs c).toNat ≠ 0) :
    c ∈ CaseRun.follow runs c :: CaseRun.origins runs (CaseRun.follow runs c) := by
  rcases CaseRun.follow_eq runs c with he | ⟨r, hm, hc, he⟩
  · simp [he]
  · have hn := eq_toNat_of_ofNat_eq he.symm h
    refine List.mem_cons_of_mem _ (List.mem_filterMap.2 ⟨r, hm, ?_⟩)
    have hback : (((CaseRun.follow runs c).toNat : Int) - r.shift).toNat = c.toNat := by omega
    have hforth : (c.toNat : Int) + r.shift = (CaseRun.follow runs c).toNat := by omega
    simp only [hback, hc, hforth, beq_self_eq_true, Bool.and_self, if_true, Char.ofNat_toNat]

theorem toNat_of_isLower {l : Char} (h : l.isLower = true) : 97 ≤ l.toNat ∧ l.toNat < 123 := by
  have hle : (decide (l.val ≥ 97) && decide (l.val ≤ 122)) = true := h
  rw [Bool.and_eq_true, decide_eq_true_eq, decide_eq_true_eq] at hle
  exact ⟨hle.1, Nat.lt_succ_of_le hle.2⟩

theorem table_of_isLower {l : Char} (h : l.isLower = true) :
    (∀ c ∈ l :: CaseRun.origins folding l, isWordChar c = true) ∧
      ∀ c ∈ l :: CaseRun.origins lowercase l, fold c = l := by
  have hl := toNat_of_isLower h
  have hall := forall_ascii (p := fun l => !l.isLower ||
    ((l :: CaseRun.origins folding l).all isWordChar &&
      (l :: CaseRun.origins lowercase l).all (fold · == l))) (by decide +kernel) (c := l) (by omega)
  rw [h, Bool.not_true, Bool.false_or, Bool.and_eq_true, List.all_eq_true, List.all_eq_true] at hall
  exact ⟨hall.1, fun c hc => beq_iff_eq.1 (hall.2 c hc)⟩

theorem mem_origins_of_isLower {runs : List CaseRun} {c : Char}
    (h : (CaseRun.follow runs c).isLower = true) :
    c ∈ CaseRun.follow runs c :: CaseRun.origins runs (CaseRun.follow runs c) :=
  mem_origins (Nat.ne_of_gt (Nat.lt_of_lt_of_le (by decide) (toNat_of_isLower h).1))

theorem isWordChar_of_isLower_fold {c : Char} (h : (fold c).isLower = true) :
    isWordChar c = true := (table_of_isLower h).1 c (mem_origins_of_isLower h)

theorem variants_of_isBlank {c : Char} (h : isBlank c = true) : variants c = [c] :=
  (table_of_isBlank h).2.1

theorem isBlank_of_isBlank_fold {c : Char} (h : isBlank (fold c) = true) : isBlank c = true := by
  have hm := mem_origins (toNat_ne_zero_of_isBlank h)
  have hv := variants_of_isBlank h
  have hf : fold (fold c) = fold c := (List.cons.inj hv).1
  rw [variants, hf] at hv
  rw [← fold, hv, List.mem_singleton] at hm
  rwa [hm]

theorem not_isBlank_of_mem_origins {c d : Char} (h : d ∈ CaseRun.origins folding c) :
    isBlank d = false := by
  rw [Bool.eq_false_iff]
  intro hd
  obtain ⟨r, hm, hr⟩ := List.mem_filterMap.1 h
  simp only at hr
  split at hr
  · next hc =>
    have hn := eq_toNat_of_ofNat_eq (Option.some.inj hr) (toNat_ne_zero_of_isBlank hd)
    rw [hn, Bool.and_eq_true] at hc
    have hfree := (table_of_isBlank hd).2.2 r hm
    simp [hc.1] at hfree
  · cases hr

theorem accepts_blank (c : Char) : (CharTest.oneOf false [.blank false]).accepts c = isBlank c := by
  have hv : (variants c).any isBlank = true → isBlank c = true := by
    simp only [variants, List.any_cons, Bool.or_eq_true, List.any_eq_true]
    rintro (h | ⟨d, hd, h⟩)
    · exact isBlank_of_isBlank_fold h
    · simp [not_isBlank_of_mem_origins hd] at h
  have he (v : Char) : [ClassItem.blank false].any (·.holds v) = isBlank v := by
    simp [ClassItem.holds]
  simp only [CharTest.accepts, he, Bool.bne_false]
  cases hb : isBlank c with
  | true => rfl
  | false => simpa [hb] using hv

theorem accepts_of_isBlank {c : Char} (h : isBlank c = true) (items : List ClassItem) :
    (CharTest.oneOf false items).accepts c = items.any (·.holds c) := by
  simp [CharTest.accepts, variants_of_isBlank h]

/-! Characters of plain names. -/

open Pattern (isNameChar)

theorem isNameChar_iff {c : Char} : isNameChar c = true ↔
    ((c.isUpper = true ∨ c.isLower = true) ∨ c.isDigit = true) ∨ c = '_' := by
  have h : isNameChar c = ((c.isUpper || c.isLower || c.isDigit) || c == '_') := rfl
  rw [h, Bool.or_eq_true, Bool.or_eq_true, Bool.or_eq_true, beq_iff_eq]

theorem isUpper_iff {c : Char} : c.isUpper = true ↔ c.val ≥ 'A'.val ∧ c.val ≤ 'Z'.val :=
  ⟨of_decide_eq_true, decide_eq_true⟩

theorem toNat_lt_of_isNameChar {c : Char} (h : isNameChar c = true) : c.toNat < 128 := by
  rcases isNameChar_iff.1 h with ((h | h) | h) | rfl
  · exact Nat.lt_of_le_of_lt (isUpper_iff.1 h).2 (by decide)
  · exact Nat.lt_trans (toNat_of_isLower h).2 (by decide)
  · exact Nat.lt_of_le_of_lt (Char.isDigit_iff_toNat.1 h).2 (by decide)
  · decide

theorem forall_isNameChar {p : Char → Bool}
    (h : (List.range 128).all ((fun c => !isNameChar c || p c) ∘ Char.ofNat) = true) {c : Char}
    (hc : isNameChar c = true) : p c = true := by
  simpa [hc] using forall_ascii h (toNat_lt_of_isNameChar hc)

theorem table_of_isNameChar {c : Char} (h : isNameChar c = true) :
    (isWordChar c = true ∧ Token.continuesName c = true) ∧ fold c = c.toLower ∧
      ∀ before after, lowerBetween before c after = [c.toLower] := by
  have hall := forall_isNameChar (p := fun c => isWordChar c && Token.continuesName c &&
    (fold c == c.toLower && (c != 'Σ' && c != 'İ' && CaseRun.follow lowercase c == c.toLower)))
    (by decide +kernel) h
  simp only [Bool.and_eq_true, bne_iff_ne, beq_iff_eq] at hall
  obtain ⟨hclasses, hfold, ⟨hsigma, hdotted⟩, hlower⟩ := hall
  refine ⟨hclasses, hfold, fun before after => ?_⟩
  rw [lowerBetween, if_neg hsigma, if_neg hdotted, hlower]

theorem isWordChar_of_isNameChar {c : Char} (h : isNameChar c = true) : isWordChar c = true :=
  (table_of_isNameChar h).1.1

theorem continuesName_of_isNameChar {c : Char} (h : isNameChar c = true) :
    Token.continuesName c = true := (table_of_isNameChar h).1.2

theorem fold_of_isNameChar {c : Char} (h : isNameChar c = true) : fold c = c.toLower :=
  (table_of_isNameChar h).2.1

theorem map_fold_of_isNameChar {cs : List Char} (h : ∀ c ∈ cs, isNameChar c = true) :
    cs.map fold = cs.map Char.toLower :=
  List.map_congr_left fun c hc => fold_of_isNameChar (h c hc)

theorem lowerFrom_of_isNameChar {before cs : List Char} (h : ∀ c ∈ cs, isNameChar c = true) :
    lowerFrom before cs = cs.map Char.toLower := by
  induction cs generalizing before with
  | nil => rfl
  | cons c cs ih =>
    rw [lowerFrom, (table_of_isNameChar (h c (by simp))).2.2,
      ih fun d hd => h d (List.mem_cons_of_mem _ hd)]
    rfl

theorem lowerBetween_eq_fold {before after : List Char} {c : Char}
    (h : ∀ d ∈ lowerBetween before c after, d.isLower = true) :
    lowerBetween before c after = [fold c] := by
  unfold lowerBetween at h ⊢
  split
  · next hc =>
    rw [if_pos hc, List.forall_mem_singleton] at h
    split at h <;> exact absurd h (by decide)
  · next hc =>
    rw [if_neg hc] at h
    split
    · next hi =>
      rw [if_pos hi] at h
      exact absurd h (by decide)
    · next hi =>
      rw [if_neg hi, List.forall_mem_singleton] at h
      rw [(table_of_isLower h).2 c (mem_origins_of_isLower h)]

theorem map_fold_of_lowerFrom {before cs : List Char}
    (h : ∀ d ∈ lowerFrom before cs, d.isLower = true) : cs.map fold = lowerFrom before cs := by
  induction cs generalizing before with
  | nil => rfl
  | cons c cs ih =>
    obtain ⟨hc, hcs⟩ := List.forall_mem_append.1 h
    rw [lowerFrom, lowerBetween_eq_fold hc, ← ih hcs]
    rfl

theorem isNameChar_of_isLower_toLower {c : Char} (h : c.toLower.isLower = true) :
    isNameChar c = true := by
  by_cases hu : c.isUpper = true
  · exact isNameChar_iff.2 (.inl (.inl (.inl hu)))
  · have he : c.toLower = c := dif_neg fun h => hu (isUpper_iff.2 h)
    rw [he] at h
    exact isNameChar_iff.2 (.inl (.inl (.inr h)))

end Parlance.Text
