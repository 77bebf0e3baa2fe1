import Parlance.Proofs.Phrase.Settled

/-! Neat texts, in which single spaces stand between words and no word is left out. Putting pieces
together makes a text neat and leaves a neat text alone, and the rules keep it neat. Each phrase that a
rule takes costs a text some letters, so that a text which comes out as it was has none. -/

namespace Parlance
open Text Pattern Phrasebook Rule

/-- A word that begins here is not left out. -/
def Kept (inside : Bool) (cs : List Char) : Prop :=
  inside = false → english.Keeps (cs.takeWhile isWordChar)

/-- A blank that stands here is a single space. -/
def Single (_ : Bool) (cs : List Char) : Prop :=
  cs.head?.any isBlank = true → cs.head? = some ' ' ∧ cs.tail.head?.any isBlank = false

structure Neat (inside : Bool) (cs : List Char) : Prop where
  kept : Throughout Kept inside cs
  single : Throughout Single inside cs

theorem takeWhile_eq_nil_of_head {p : Char → Bool} {cs : List Char} (h : cs.head?.any p = false) :
    cs.takeWhile p = [] := by
  cases cs with
  | nil => rfl
  | cons c cs => exact List.takeWhile_cons_of_neg (Bool.eq_false_iff.1 h)

theorem kept_inside (cs : List Char) : Kept true cs := by
  intro h
  cases h

theorem kept_of_head {inside : Bool} {cs : List Char} (h : cs.head?.any isWordChar = false) :
    Kept inside cs := by
  intro _
  rw [takeWhile_eq_nil_of_head h]
  exact english_keeps (by decide)

theorem single_of_head {inside : Bool} {cs : List Char} (h : cs.head?.any isBlank = false) :
    Single inside cs := by
  intro hb
  rw [h] at hb
  cases hb

theorem throughout_kept {inside : Bool} {cs : List Char}
    (h : ∀ run ∈ wordsFrom inside cs, english.Keeps run) : Throughout Kept inside cs := by
  induction cs generalizing inside with
  | nil => trivial
  | cons c cs ih =>
    by_cases hc : isWordChar c = true
    · cases inside with
      | true =>
        rw [wordsFrom, if_pos hc, if_pos rfl] at h
        exact ⟨kept_inside _, hc ▸ ih h⟩
      | false =>
        rw [wordsFrom, if_pos hc, if_neg Bool.false_ne_true] at h
        obtain ⟨hfirst, hrest⟩ := List.forall_mem_cons.1 h
        refine ⟨fun _ => ?_, hc ▸ ih hrest⟩
        rwa [List.takeWhile_cons_of_pos hc]
    · rw [Bool.not_eq_true] at hc
      rw [wordsFrom, if_neg (Bool.eq_false_iff.1 hc)] at h
      exact ⟨kept_of_head hc, hc ▸ ih h⟩

/-! Rules. -/

namespace Rule

theorem indifferent_kept : Indifferent Kept where
  sign hc := kept_of_head (table_of_mem_signs _ hc).1
  shift hcs _ := kept_of_head hcs

theorem indifferent_single : Indifferent Single where
  sign hc := single_of_head (table_of_mem_signs _ hc).2.1
  shift _ h := h

theorem Makes.takeWhile_eq {rule : Rule} {cs out : List Char} (h : rule.Makes true cs out) :
    out.takeWhile isWordChar = cs.takeWhile isWordChar := by
  generalize hin : true = inside at h
  induction h with
  | done => rfl
  | @copy inside c cs out _ _ ih =>
    by_cases hc : isWordChar c = true
    · rw [List.takeWhile_cons_of_pos hc, List.takeWhile_cons_of_pos hc, ih hc.symm]
    · rw [List.takeWhile_cons_of_neg hc, List.takeWhile_cons_of_neg hc]
  | swap => cases hin

theorem kept_of_copy {rule : Rule} {inside : Bool} {c : Char} {cs out : List Char}
    (h : rule.Makes (isWordChar c) cs out) (hkept : Kept inside (c :: cs)) : Kept inside (c :: out) := by
  by_cases hc : isWordChar c = true
  · intro hinside
    have hword := hkept hinside
    rw [hc] at h
    rwa [List.takeWhile_cons_of_pos hc, h.takeWhile_eq, ← List.takeWhile_cons_of_pos hc]
  · exact kept_of_head (Bool.eq_false_iff.2 hc)

theorem Swaps.head_new {rule : Rule} {taken new : List Char} (h : rule.Swaps taken new)
    (hrule : rule ≠ .ending) : ∃ m ms, new = m :: ms ∧ isBlank m = false := by
  cases rule with
  | setting =>
    obtain ⟨m, ms, he, hm⟩ := exists_v_of_swaps h
    rw [List.mem_singleton.1 hm] at he
    exact ⟨'v', ms, he, by decide⟩
  | wording r =>
    obtain ⟨m, ms, he, hm⟩ := exists_sign_of_swaps h
    exact ⟨m, ms, he, (table_of_mem_signs m hm).2.1⟩
  | ending => exact absurd rfl hrule

theorem single_of_copy {rule : Rule} (hrule : rule ≠ .ending) {inside : Bool} {c : Char}
    {cs out : List Char} (h : rule.Makes (isWordChar c) cs out) (hsingle : Single inside (c :: cs)) :
    Single inside (c :: out) := by
  intro hb
  obtain ⟨hc, hcs⟩ := hsingle hb
  refine ⟨hc, ?_⟩
  generalize isWordChar c = inside at h
  cases h with
  | done => rfl
  | copy => exact hcs
  | swap hswaps =>
    obtain ⟨m, ms, rfl, hm⟩ := hswaps.head_new hrule
    exact hm

theorem throughout_kept_append {inside : Bool} {xs ys zs : List Char} (h : Throughout Kept inside (xs ++ ys))
    (hys : ys.head?.any isWordChar = false) (hzs : zs.head?.any isWordChar = false)
    (hrest : ∀ inside, Throughout Kept inside zs) : Throughout Kept inside (xs ++ zs) := by
  have hword (cs : List Char) : (cs ++ zs).takeWhile isWordChar = (cs ++ ys).takeWhile isWordChar := by
    rw [List.takeWhile_append, List.takeWhile_append, takeWhile_eq_nil_of_head hys,
      takeWhile_eq_nil_of_head hzs]
  induction xs generalizing inside with
  | nil => exact hrest inside
  | cons x xs ih => exact ⟨fun hinside => hword (x :: xs) ▸ h.1 hinside, ih h.2⟩

theorem Makes.kept {rule : Rule} (hrule : rule ≠ .ending) {inside : Bool} {cs out : List Char}
    (h : rule.Makes inside cs out) (hcs : Throughout Kept inside cs) : Throughout Kept inside out := by
  cases rule with
  | wording r => exact h.throughout_wording indifferent_kept (fun _ hmakes => kept_of_copy hmakes) hcs
  | ending => exact absurd rfl hrule
  | setting =>
    refine h.throughout (fun _ hmakes => kept_of_copy hmakes)
      (fun {_ _ rest out} hswaps hq hrest hout hafter => ?_) hcs
    cases hswaps with
    | @setting word gap name gap' word' hword hgap _ hgap' _ =>
      simp only [List.append_assoc] at hq
      have hname := (hq.drop (by rintro rfl; cases hword)).drop hgap.1
      rw [hgap.getLast_any_isWordChar] at hname
      have hequals (inside : Bool) : Throughout Kept inside (' ' :: '=' :: out) :=
        ⟨kept_of_head rfl, kept_of_head rfl, indifferent_kept.throughout hout hafter⟩
      have hword (cs : List Char) : ('v' :: 'a' :: 'r' :: ' ' :: cs).takeWhile isWordChar = ['v', 'a', 'r'] :=
        rfl
      have hvar : english.Keeps ['v', 'a', 'r'] := english_keeps (by decide)
      rw [setting_new]
      exact ⟨fun _ => hword _ ▸ hvar, kept_inside _, kept_inside _, kept_of_head rfl,
        throughout_kept_append hname (hgap'.head_any_isWordChar _) rfl hequals⟩

theorem Makes.single {rule : Rule} (hrule : rule ≠ .ending) {inside : Bool} {cs out : List Char}
    (h : rule.Makes inside cs out) (hcs : Throughout Single inside cs) : Throughout Single inside out := by
  cases rule with
  | wording r =>
    exact h.throughout_wording indifferent_single (fun _ hmakes => single_of_copy hrule hmakes) hcs
  | ending => exact absurd rfl hrule
  | setting =>
    refine h.throughout (fun _ hmakes => single_of_copy hrule hmakes)
      (fun {_ _ _ out} hswaps _ _ hout hafter => ?_) hcs
    cases hswaps with
    | @setting word gap name gap' word' _ _ hname _ _ =>
      have hspace {cs : List Char} (hcs : cs.head?.any isBlank = false) {inside : Bool} :
          Single inside (' ' :: cs) := fun _ => ⟨rfl, hcs⟩
      have hequals (inside : Bool) : Throughout Single inside (' ' :: '=' :: out) :=
        ⟨hspace rfl, single_of_head rfl, indifferent_single.throughout hout hafter⟩
      have htext := throughout_solid (fun inside c cs hsolid => single_of_head (hsolid c List.mem_cons_self))
        hequals (fun c hc => (hname.letters c hc).1) false
      rw [setting_new]
      exact ⟨single_of_head rfl, single_of_head rfl, single_of_head rfl, hspace (hname.head_any_isBlank _), htext⟩

/-! Letters. -/

theorem Swaps.count_lt {rule : Rule} {taken new : List Char} (h : rule.Swaps taken new) :
    new.countP isWordChar < taken.countP isWordChar := by
  have hword : 0 < taken.countP isWordChar := by
    obtain ⟨c, hc, hw⟩ := (Option.any_eq_true _ _).1 h.head_isWordChar
    exact List.countP_pos_iff.2 ⟨c, List.mem_of_head? hc, hw⟩
  cases h with
  | @setting word gap name gap' word' hset hgap _ hgap' hto =>
    have hcount {w : String} (hw : IsWord w) {cs : List Char} (hcs : cs.map fold = w.toList) :
        cs.countP isWordChar = w.toList.length := by
      rw [List.countP_eq_length.2 (hw.isWordChar hcs), ← hcs, List.length_map]
    have hvar : "var ".toList.countP isWordChar = 3 := by decide
    have hequals : " =".toList.countP isWordChar = 0 := by decide
    have hset' : word.countP isWordChar = 3 := hcount (by decide) hset
    have hto' : word'.countP isWordChar = 2 := hcount (by decide) hto
    simp only [List.countP_append, hvar, hequals, hset', hto']
    omega
  | @wording r _ hr _ =>
    have hnone : r.2.toList.countP isWordChar = 0 := by
      refine List.countP_eq_zero.2 fun c hc => ?_
      rw [(table_of_mem_signs c ((signs_of_mem_wordings r hr).2 c hc)).1]
      exact Bool.false_ne_true
    rwa [hnone]
  | ending => exact hword

theorem Makes.eq_or_count_lt {rule : Rule} {inside : Bool} {cs out : List Char}
    (h : rule.Makes inside cs out) :
    out = cs ∧ rule.Clear inside cs ∨ out.countP isWordChar < cs.countP isWordChar := by
  induction h with
  | done => exact .inl ⟨rfl, trivial⟩
  | @copy inside c cs out hstands _ ih =>
    rcases ih with ⟨rfl, hclear⟩ | hlt
    · exact .inl ⟨rfl, hstands, hclear⟩
    · rw [List.countP_cons, List.countP_cons]
      exact .inr (Nat.add_lt_add_right hlt _)
  | @swap taken new rest out hswaps _ _ ih =>
    have hle : out.countP isWordChar ≤ rest.countP isWordChar := by
      rcases ih with ⟨rfl, -⟩ | hlt
      · exact Nat.le_refl _
      · exact Nat.le_of_lt hlt
    rw [List.countP_append, List.countP_append]
    exact .inr (Nat.add_lt_add_of_lt_of_le hswaps.count_lt hle)

theorem Makes.eq_of_clear {rule : Rule} {inside : Bool} {cs out : List Char}
    (h : rule.Makes inside cs out) (hclear : rule.Clear inside cs) : out = cs := by
  induction h with
  | done => rfl
  | copy _ _ ih => rw [ih hclear.2]
  | @swap taken new rest out hswaps hrest _ _ =>
    obtain ⟨c, cs, rfl⟩ := List.exists_cons_of_ne_nil hswaps.taken_ne_nil
    exact absurd ⟨rfl, c :: cs, new, rest, rfl, hswaps, hrest⟩ hclear.1

theorem apply_eq_self_iff {rule : Rule} (hrule : rule ∈ rules) (cs : List Char) :
    rule.phrase.apply cs = cs ↔ rule.Clear false cs := by
  have hmakes := makes_apply hrule cs
  refine ⟨fun he => ?_, hmakes.eq_of_clear⟩
  rcases hmakes.eq_or_count_lt with ⟨-, hclear⟩ | hlt
  · exact hclear
  · rw [he] at hlt
    exact absurd hlt (Nat.lt_irrefl _)

end Rule

/-! Pieces. -/

theorem pieces_of_joins {p : Char → Bool} (hp : ∀ c d, p c = true → joins c d = p d) {c : Char}
    (h : p c = true) (cs : List Char) :
    pieces (c :: cs) = (c :: cs.takeWhile p) :: pieces (cs.dropWhile p) := by
  have hall : ∀ d ∈ c :: cs.takeWhile p, p d = true :=
    List.forall_mem_cons.2 ⟨h, List.all_eq_true.1 List.all_takeWhile⟩
  have hrun := pieces_run hp (List.cons_ne_nil _ _) hall (head_any_dropWhile p cs)
  rwa [← cons_cut] at hrun

theorem merge_of_isBlank {c : Char} (h : isBlank c = true) (cs : List Char) (spaced : Bool) :
    merge english spaced (pieces (c :: cs)) =
      if spaced then merge english true (pieces (cs.dropWhile isBlank))
      else ' ' :: merge english true (pieces (cs.dropWhile isBlank)) := by
  have hall : (c :: cs.takeWhile isBlank).all isBlank = true := by
    rw [List.all_cons, h, List.all_takeWhile]
    rfl
  rw [pieces_of_joins joins_of_isBlank h, merge, if_pos hall]
  cases spaced <;> rfl

theorem merge_of_isWordChar {c : Char} (h : isWordChar c = true) (cs : List Char) (spaced : Bool) :
    merge english spaced (pieces (c :: cs)) =
      if String.ofList (lower (c :: cs.takeWhile isWordChar)) ∈ english.removables then
        merge english spaced (pieces (cs.dropWhile isWordChar))
      else (c :: cs.takeWhile isWordChar) ++ merge english false (pieces (cs.dropWhile isWordChar)) := by
  have hb : (c :: cs.takeWhile isWordChar).all isBlank = false := by
    rw [List.all_cons, isBlank_of_isWordChar h]
    rfl
  rw [pieces_of_joins joins_of_isWordChar h]
  split
  · next hm => simp [merge, hb, hm]
  · next hm => exact merge_of_keeps hb (english_keeps hm)

theorem merge_of_mark {c : Char} (hw : isWordChar c = false) (hb : isBlank c = false) (cs : List Char)
    (spaced : Bool) : merge english spaced (pieces (c :: cs)) = c :: merge english false (pieces cs) := by
  have hjoin : ∀ d ∈ cs.head?, joins c d = false := by simp [joins, hw, hb]
  rw [pieces_cons_of_not_joins hjoin, merge_of_keeps (by simpa using hb) (english_keeps_singleton c)]
  rfl

theorem pieces_induction {motive : List Char → Prop} (nil : motive [])
    (gap : ∀ c cs, isBlank c = true → motive (cs.dropWhile isBlank) → motive (c :: cs))
    (word : ∀ c cs, isWordChar c = true → motive (cs.dropWhile isWordChar) → motive (c :: cs))
    (mark : ∀ c cs, isWordChar c = false → isBlank c = false → motive cs → motive (c :: cs))
    (cs : List Char) : motive cs := by
  induction hn : cs.length using Nat.strongRecOn generalizing cs with
  | ind n ih =>
    subst hn
    cases cs with
    | nil => exact nil
    | cons c cs =>
      have hdrop (p : Char → Bool) : motive (cs.dropWhile p) :=
        ih _ (Nat.lt_succ_of_le (Token.Lexeme.length_dropWhile_le cs)) _ rfl
      by_cases hb : isBlank c = true
      · exact gap c cs hb (hdrop isBlank)
      · by_cases hw : isWordChar c = true
        · exact word c cs hw (hdrop isWordChar)
        · rw [Bool.not_eq_true] at hb hw
          exact mark c cs hw hb (ih _ (Nat.lt_succ_self _) cs rfl)

theorem count_merge_le (spaced : Bool) (cs : List Char) :
    (merge english spaced (pieces cs)).countP isWordChar ≤ cs.countP isWordChar := by
  have hdrop (p : Char → Bool) (c : Char) (cs : List Char) :
      (cs.dropWhile p).countP isWordChar ≤ (c :: cs).countP isWordChar :=
    ((List.dropWhile_sublist p).cons c).countP_le
  induction cs using pieces_induction generalizing spaced with
  | nil => exact Nat.le_refl _
  | gap c cs hb ih =>
    rw [merge_of_isBlank hb]
    have hle := Nat.le_trans (ih true) (hdrop isBlank c cs)
    cases spaced with
    | true => exact hle
    | false => exact hle
  | word c cs hw ih =>
    rw [merge_of_isWordChar hw]
    split
    · exact Nat.le_trans (ih spaced) (hdrop isWordChar c cs)
    · have hcut := cons_cut isWordChar c cs
      rw [hcut, List.countP_append, List.countP_append]
      exact Nat.add_le_add_left (ih false) _
  | mark c cs hw hb ih =>
    rw [merge_of_mark hw hb, List.countP_cons, List.countP_cons]
    exact Nat.add_le_add_right (ih false) _

theorem head_merge {cs : List Char} (h : cs.head?.any isWordChar = false) :
    (merge english false (pieces cs)).head?.any isWordChar = false := by
  cases cs with
  | nil => rfl
  | cons c cs =>
    have hc : isWordChar c = false := h
    by_cases hb : isBlank c = true
    · rw [merge_of_isBlank hb]
      rfl
    · rw [Bool.not_eq_true] at hb
      rw [merge_of_mark hc hb]
      exact hc

theorem throughout_inside {P : Bool → List Char → Prop}
    (hP : ∀ c cs, isWordChar c = true → P true (c :: cs)) {run out : List Char}
    (hrun : ∀ c ∈ run, isWordChar c = true) (h : Throughout P true out) :
    Throughout P true (run ++ out) := by
  induction run with
  | nil => exact h
  | cons c run ih =>
    obtain ⟨hc, hrun⟩ := List.forall_mem_cons.1 hrun
    exact ⟨hP c _ hc, hc ▸ ih hrun⟩

theorem neat_word {c : Char} {run out : List Char} (hc : isWordChar c = true)
    (hrun : ∀ d ∈ run, isWordChar d = true) (hkeeps : english.Keeps (c :: run))
    (hout : out.head?.any isWordChar = false) (h : Neat true out) : Neat false (c :: run ++ out) := by
  have hword := takeWhile_append_stop (List.forall_mem_cons.2 ⟨hc, hrun⟩) hout
  have hsolid (inside : Bool) (d : Char) (cs : List Char) (hd : isWordChar d = true) :
      Single inside (d :: cs) := single_of_head (isBlank_of_isWordChar hd)
  exact ⟨⟨fun _ => hword.symm ▸ hkeeps, hc ▸ throughout_inside (fun _ _ _ => kept_inside _) hrun h.kept⟩,
    ⟨hsolid false c _ hc, hc ▸ throughout_inside (hsolid true) hrun h.single⟩⟩

theorem begins_of_isWordChar {inside : Bool} {c : Char} {cs : List Char} (hc : isWordChar c = true)
    (h : inside = true → (c :: cs).head?.any isWordChar = false) : inside = false := by
  cases inside with
  | false => rfl
  | true =>
    have hc' : isWordChar c = false := h rfl
    rw [hc] at hc'
    cases hc'

theorem neat_merge (cs : List Char) : (merge english true (pieces cs)).head?.any isBlank = false ∧
    Neat false (merge english true (pieces cs)) ∧
    ∀ inside, (inside = true → cs.head?.any isWordChar = false) →
      Neat inside (merge english false (pieces cs)) := by
  induction cs using pieces_induction with
  | nil => exact ⟨rfl, ⟨trivial, trivial⟩, fun _ _ => ⟨trivial, trivial⟩⟩
  | gap c cs hb ih =>
    obtain ⟨hhead, hspaced, -⟩ := ih
    rw [merge_of_isBlank hb, merge_of_isBlank hb]
    exact ⟨hhead, hspaced, fun inside _ =>
      ⟨⟨kept_of_head rfl, hspaced.kept⟩, ⟨fun _ => ⟨rfl, hhead⟩, hspaced.single⟩⟩⟩
  | word c cs hw ih =>
    obtain ⟨hhead, hspaced, hplain⟩ := ih
    rw [merge_of_isWordChar hw, merge_of_isWordChar hw]
    split
    · exact ⟨hhead, hspaced, fun inside hinside =>
        begins_of_isWordChar hw hinside ▸ hplain false nofun⟩
    · next hm =>
      have hstop := head_any_dropWhile isWordChar cs
      have hneat := neat_word hw (List.all_eq_true.1 List.all_takeWhile) (english_keeps hm)
        (head_merge hstop) (hplain true fun _ => hstop)
      exact ⟨isBlank_of_isWordChar hw, hneat, fun inside hinside =>
        begins_of_isWordChar hw hinside ▸ hneat⟩
  | mark c cs hw hb ih =>
    obtain ⟨-, -, hplain⟩ := ih
    have hneat (inside : Bool) : Neat inside (c :: merge english false (pieces cs)) := by
      have hrest := hplain (isWordChar c) (by rw [hw]; nofun)
      exact ⟨⟨kept_of_head hw, hrest.kept⟩, ⟨single_of_head hb, hrest.single⟩⟩
    rw [merge_of_mark hw hb, merge_of_mark hw hb]
    exact ⟨hb, hneat false, fun inside _ => hneat inside⟩

theorem merge_of_neat {cs : List Char} {inside spaced : Bool} (h : Neat inside cs)
    (hinside : inside = true → cs.head?.any isWordChar = false)
    (hspaced : spaced = true → cs.head?.any isBlank = false) :
    merge english spaced (pieces cs) = cs := by
  induction cs using pieces_induction generalizing inside spaced with
  | nil => rfl
  | gap c cs hb ih =>
    obtain ⟨hc, hnext⟩ := h.single.1 hb
    obtain rfl := Option.some.inj hc
    have hdrop : cs.dropWhile isBlank = cs := by
      have hcut := List.takeWhile_append_dropWhile (p := isBlank) (l := cs)
      have hnil : cs.takeWhile isBlank = [] := takeWhile_eq_nil_of_head hnext
      rwa [hnil] at hcut
    have hneat : Neat false cs := ⟨h.kept.2, h.single.2⟩
    rw [hdrop] at ih
    cases spaced with
    | true =>
      have hb' : isBlank ' ' = false := hspaced rfl
      rw [hb] at hb'
      cases hb'
    | false =>
      rw [merge_of_isBlank hb, hdrop, ih hneat nofun fun _ => hnext]
      rfl
  | word c cs hw ih =>
    have hkeeps := h.kept.1 (begins_of_isWordChar hw hinside)
    rw [List.takeWhile_cons_of_pos hw] at hkeeps
    have hcut := cons_cut isWordChar c cs
    have hrest : Neat _ (cs.dropWhile isWordChar) :=
      ⟨(hcut ▸ h.kept).drop (List.cons_ne_nil _ _), (hcut ▸ h.single).drop (List.cons_ne_nil _ _)⟩
    have hmerge : merge english false (pieces (cs.dropWhile isWordChar)) = cs.dropWhile isWordChar :=
      ih hrest (fun _ => head_any_dropWhile isWordChar cs) nofun
    rw [merge_of_isWordChar hw, if_neg hkeeps.1, hmerge, ← hcut]
  | mark c cs hw hb ih =>
    have hneat : Neat (isWordChar c) cs := ⟨h.kept.2, h.single.2⟩
    have hmerge : merge english false (pieces cs) = cs := ih hneat (by rw [hw]; nofun) nofun
    rw [merge_of_mark hw hb, hmerge]

/-! Gaps. -/

inductive Spaced : List Char → List Char → Prop
  | nil : Spaced [] []
  | char {c : Char} {cs ds : List Char} : isBlank c = false → Spaced cs ds → Spaced (c :: cs) (c :: ds)
  | gap {gap gap' cs ds : List Char} : IsGap gap → IsGap gap' → ds.head?.any isBlank = false →
      Spaced cs ds → Spaced (gap ++ cs) (gap' ++ ds)

theorem Spaced.chars {xs cs ds : List Char} (hxs : ∀ c ∈ xs, isBlank c = false) (h : Spaced cs ds) :
    Spaced (xs ++ cs) (xs ++ ds) := by
  induction xs with
  | nil => exact h
  | cons x xs ih =>
    obtain ⟨hx, hxs⟩ := List.forall_mem_cons.1 hxs
    exact .char hx (ih hxs)

theorem Spaced.head {cs ds : List Char} (h : Spaced cs ds) (hcs : cs.head?.any isBlank = false) :
    ds.head?.any isBlank = false := by
  cases h with
  | nil => rfl
  | char hc _ => exact hc
  | gap hgap _ _ _ =>
    rw [hgap.head_any_isBlank] at hcs
    cases hcs

theorem merge_true_eq {inside : Bool} {cs : List Char} (h : Throughout Kept inside cs)
    (hinside : inside = true → cs.head?.any isWordChar = false) (hcs : cs.head?.any isBlank = false) :
    merge english true (pieces cs) = merge english false (pieces cs) := by
  cases cs with
  | nil => rfl
  | cons c cs =>
    by_cases hw : isWordChar c = true
    · have hkeeps := h.1 (begins_of_isWordChar hw hinside)
      rw [List.takeWhile_cons_of_pos hw] at hkeeps
      rw [merge_of_isWordChar hw, merge_of_isWordChar hw, if_neg hkeeps.1, if_neg hkeeps.1]
    · rw [Bool.not_eq_true] at hw
      rw [merge_of_mark hw hcs, merge_of_mark hw hcs]

theorem spaced_merge {inside : Bool} {cs : List Char} (h : Throughout Kept inside cs)
    (hinside : inside = true → cs.head?.any isWordChar = false) :
    Spaced cs (merge english false (pieces cs)) := by
  induction cs using pieces_induction generalizing inside with
  | nil => exact .nil
  | gap c cs hb ih =>
    have hall : IsGap (c :: cs.takeWhile isBlank) :=
      ⟨List.cons_ne_nil _ _, List.forall_mem_cons.2 ⟨hb, List.all_eq_true.1 List.all_takeWhile⟩⟩
    have hcut := cons_cut isBlank c cs
    have hkept := (hcut ▸ h).drop hall.1
    rw [hall.getLast_any_isWordChar] at hkept
    have hstop := head_any_dropWhile isBlank cs
    have hrest := ih hkept nofun
    rw [merge_of_isBlank hb, merge_true_eq hkept nofun hstop, hcut]
    have hspace : IsGap [' '] := ⟨List.cons_ne_nil _ _, by decide⟩
    exact .gap hall hspace (hrest.head hstop) hrest
  | word c cs hw ih =>
    have hkeeps := h.1 (begins_of_isWordChar hw hinside)
    rw [List.takeWhile_cons_of_pos hw] at hkeeps
    have hcut := cons_cut isWordChar c cs
    have hword : ∀ d ∈ c :: cs.takeWhile isWordChar, isWordChar d = true :=
      List.forall_mem_cons.2 ⟨hw, List.all_eq_true.1 List.all_takeWhile⟩
    have hrest := ih ((hcut ▸ h).drop (List.cons_ne_nil _ _)) fun _ => head_any_dropWhile isWordChar cs
    rw [merge_of_isWordChar hw, if_neg hkeeps.1]
    conv => lhs; rw [hcut]
    exact .chars (fun d hd => isBlank_of_isWordChar (hword d hd)) hrest
  | mark c cs hw hb ih =>
    rw [merge_of_mark hw hb]
    exact .char hb (ih h.2 (by rw [hw]; nofun))

theorem traces_spaced : Traces fun _ => Spaced where
  run {_ cs xs out} h hne hxs := by
    clear hne
    induction xs generalizing cs with
    | nil => exact ⟨cs, rfl, h⟩
    | cons x xs ih =>
      obtain ⟨hx, hxs⟩ := List.forall_mem_cons.1 hxs
      generalize htext : x :: xs ++ out = text at h
      cases h with
      | nil => cases htext
      | char hc hrest =>
        obtain ⟨rfl, rfl⟩ := List.cons.inj htext
        obtain ⟨rest, rfl, hrest'⟩ := ih hrest hxs
        exact ⟨rest, rfl, hrest'⟩
      | @gap gap gap' cs ds hgap hgap' _ _ =>
        have hhead := hgap'.head_any_isBlank ds
        rw [← htext] at hhead
        have hx' : isBlank x = true := hhead
        rw [hx.1] at hx'
        cases hx'
  gap {_ cs gap out} h hgap hout := by
    generalize htext : gap ++ out = text at h
    have hhead := hgap.head_any_isBlank out
    rw [htext] at hhead
    cases h with
    | nil => cases hhead
    | @char c cs ds hc _ =>
      have hc' : isBlank c = true := hhead
      rw [hc] at hc'
      cases hc'
    | @gap gap₁ gap₂ cs ds hgap₁ hgap₂ hds hrest =>
      obtain ⟨-, rfl⟩ := run_append_inj hgap.2 hout hgap₂.2 hds htext
      exact ⟨gap₁, cs, rfl, hgap₁, hrest⟩
  edge h hout := by
    cases h with
    | nil => rfl
    | char => exact hout
    | gap hgap => exact hgap.head_any_isWordChar _

theorem Text.IsGap.clear {rule : Rule} {gap cs : List Char} (h : IsGap gap)
    (hcs : rule.Clear false cs) (inside : Bool) : rule.Clear inside (gap ++ cs) := by
  obtain ⟨hne, hgap⟩ := h
  induction gap generalizing inside with
  | nil => exact absurd rfl hne
  | cons c gap ih =>
    obtain ⟨hc, hgap⟩ := List.forall_mem_cons.1 hgap
    have hword := isWordChar_of_isBlank hc
    have hhead : (c :: (gap ++ cs)).head?.any isWordChar = false := hword
    refine ⟨not_stands_of_head hhead rule inside, ?_⟩
    cases gap with
    | nil => exact hword ▸ hcs
    | cons d gap => exact ih (isWordChar c) (List.cons_ne_nil d gap) hgap

theorem Spaced.clear {rule : Rule} {inside : Bool} {cs ds : List Char} (h : Spaced cs ds)
    (hclear : rule.Clear inside cs) : rule.Clear inside ds := by
  induction h generalizing inside with
  | nil => trivial
  | char hc hrest ih =>
    exact ⟨fun hstands => hclear.1 (traces_spaced.stands (.char hc hrest) hstands), ih hclear.2⟩
  | @gap gap gap' cs ds hgap hgap' _ _ ih =>
    have hrest := hclear.drop hgap.1
    rw [hgap.getLast_any_isWordChar] at hrest
    exact hgap'.clear (ih hrest) inside

end Parlance
