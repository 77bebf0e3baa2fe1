import Parlance.Proofs.Phrase.Rules
import Parlance.Proofs.Phrase.Canonical

/-! What a rule leaves behind. A rule that writes a sign brings no words together, since what it takes is
whole words: where one of the rules could act afterwards, it could have acted before. The rule for `set`
leaves nothing for itself to do, because a name before `to` may just as well be the word `set`. So the
rules, one after the other, leave a text that none of them changes, as long as no word is dropped. -/

namespace Parlance
open Text Pattern Phrasebook

/-- The property holds at every place of the text. It is told whether a word goes on at that place, and
what comes there. -/
def Throughout (P : Bool → List Char → Prop) : Bool → List Char → Prop
  | _, [] => True
  | inside, c :: cs => P inside (c :: cs) ∧ Throughout P (isWordChar c) cs

theorem Throughout.drop {P : Bool → List Char → Prop} {inside : Bool} {xs ys : List Char}
    (h : Throughout P inside (xs ++ ys)) (hne : xs ≠ []) :
    Throughout P (xs.getLast?.any isWordChar) ys := by
  induction xs generalizing inside with
  | nil => exact absurd rfl hne
  | cons x xs ih =>
    cases xs with
    | nil => exact h.2
    | cons y xs =>
      rw [List.getLast?_cons_cons]
      exact ih h.2 (List.cons_ne_nil y xs)

theorem throughout_of_forall {P : Bool → List Char → Prop} (hP : ∀ inside cs, P inside cs) (inside : Bool)
    (cs : List Char) : Throughout P inside cs := by
  induction cs generalizing inside with
  | nil => trivial
  | cons c cs ih => exact ⟨hP inside (c :: cs), ih (isWordChar c)⟩

theorem throughout_solid {P : Bool → List Char → Prop} {xs rest : List Char}
    (hP : ∀ inside c cs, (∀ d ∈ c :: cs, isBlank d = false) → P inside (c :: cs ++ rest))
    (hrest : ∀ inside, Throughout P inside rest) (hxs : ∀ d ∈ xs, isBlank d = false) (inside : Bool) :
    Throughout P inside (xs ++ rest) := by
  induction xs generalizing inside with
  | nil => exact hrest inside
  | cons x xs ih =>
    exact ⟨hP inside x xs hxs, ih (List.forall_mem_cons.1 hxs).2 (isWordChar x)⟩

def signs : List Char := "<>=!+-*/%".toList

theorem table_of_mem_signs : ∀ c ∈ signs, isWordChar c = false ∧ isBlank c = false ∧
    nameStart.accepts c = false ∧ nameRest.accepts c = false := by
  decide

theorem signs_of_mem_wordings : ∀ r ∈ wordings, r.2.toList ≠ [] ∧ ∀ c ∈ r.2.toList, c ∈ signs := by
  decide

theorem not_mem_signs_of_isWordChar {c : Char} (h : isWordChar c = true) : c ∉ signs := by
  intro hc
  simp [(table_of_mem_signs c hc).1] at h

theorem not_mem_signs_of_isBlank {c : Char} (h : isBlank c = true) : c ∉ signs := by
  intro hc
  simp [(table_of_mem_signs c hc).2.1] at h

theorem Text.IsGap.getLast_any_isWordChar {gap : List Char} (h : IsGap gap) :
    gap.getLast?.any isWordChar = false := by
  obtain ⟨l, hl⟩ := Option.isSome_iff_exists.1 (List.getLast?_isSome.2 h.1)
  rw [hl]
  exact isWordChar_of_isBlank (h.2 l (List.mem_of_getLast? hl))

theorem Pattern.IsWord.head_any_isBlank {w : String} (hw : IsWord w) {word : List Char}
    (h : word.map fold = w.toList) (rest : List Char) : (word ++ rest).head?.any isBlank = false :=
  (Phrased.last h).head_any_isBlank hw rest

theorem IsVariable.ne_nil {name : List Char} (h : IsVariable name) : name ≠ [] := by
  obtain ⟨c, cs, rfl, -⟩ := h
  exact List.cons_ne_nil c cs

theorem IsVariable.head_any_isBlank {name : List Char} (h : IsVariable name) (rest : List Char) :
    (name ++ rest).head?.any isBlank = false := by
  obtain ⟨c, cs, rfl, hc, -⟩ := h
  refine Bool.eq_false_iff.2 fun hb => ?_
  simp [accepts_nameStart_of_isBlank (show isBlank c = true from hb)] at hc

theorem IsVariable.letters {name : List Char} (h : IsVariable name) :
    ∀ c ∈ name, isBlank c = false ∧ c ∉ signs := by
  obtain ⟨c, cs, rfl, hc, hcs⟩ := h
  have hstart {d : Char} (hd : nameStart.accepts d = true) : isBlank d = false ∧ d ∉ signs := by
    refine ⟨Bool.eq_false_iff.2 fun hb => ?_, fun hs => ?_⟩
    · simp [accepts_nameStart_of_isBlank hb] at hd
    · simp [(table_of_mem_signs d hs).2.2.1] at hd
  have hrest {d : Char} (hd : nameRest.accepts d = true) : isBlank d = false ∧ d ∉ signs := by
    refine ⟨Bool.eq_false_iff.2 fun hb => ?_, fun hs => ?_⟩
    · simp [accepts_nameRest_of_isBlank hb] at hd
    · simp [(table_of_mem_signs d hs).2.2.2] at hd
  exact List.forall_mem_cons.2 ⟨hstart hc, fun d hd => hrest (hcs d hd)⟩

namespace Rule

/-! Going back from what was made to what it was made from. -/

/-- The second text is made from the first, in such a way that words, names and gaps in it come from the
same words and names and from gaps. -/
structure Traces (B : Bool → List Char → List Char → Prop) : Prop where
  run {inside : Bool} {cs xs out : List Char} : B inside cs (xs ++ out) → xs ≠ [] →
    (∀ c ∈ xs, isBlank c = false ∧ c ∉ signs) →
    ∃ rest, cs = xs ++ rest ∧ B (xs.getLast?.any isWordChar) rest out
  gap {inside : Bool} {cs gap out : List Char} : B inside cs (gap ++ out) → IsGap gap →
    out.head?.any isBlank = false → ∃ gap' rest, cs = gap' ++ rest ∧ IsGap gap' ∧ B false rest out
  edge {cs out : List Char} : B true cs out → out.head?.any isWordChar = false →
    cs.head?.any isWordChar = false

section
variable {B : Bool → List Char → List Char → Prop} (hB : Traces B)
include hB

theorem Traces.word {w : String} (hw : IsWord w) {word : List Char} (hword : word.map fold = w.toList)
    {inside : Bool} {cs out : List Char} (h : B inside cs (word ++ out)) :
    ∃ rest, cs = word ++ rest ∧ B true rest out := by
  have hchars := hw.isWordChar hword
  obtain ⟨rest, hcs, hrest⟩ := hB.run h (hw.ne_nil hword)
    fun c hc => ⟨isBlank_of_isWordChar (hchars c hc), not_mem_signs_of_isWordChar (hchars c hc)⟩
  rw [(Phrased.last hword).getLast_isWordChar (by simpa using hw)] at hrest
  exact ⟨rest, hcs, hrest⟩

theorem Traces.phrased {ws : List String} {text : List Char} (h : Phrased ws text)
    (hws : ∀ w ∈ ws, IsWord w) {inside : Bool} {cs rest : List Char}
    (hcs : B inside cs (text ++ rest)) (hr : rest.head?.any isWordChar = false) :
    ∃ text' rest', cs = text' ++ rest' ∧ Phrased ws text' ∧ rest'.head?.any isWordChar = false := by
  induction h generalizing inside cs with
  | @last w word hword =>
    obtain ⟨rest', he, hrest⟩ := hB.word (hws w (by simp)) hword hcs
    exact ⟨word, rest', he, .last hword, hB.edge hrest hr⟩
  | @more w v ws word gap others hword hgap hothers ih =>
    obtain ⟨hw, hws'⟩ := List.forall_mem_cons.1 hws
    rw [List.append_assoc, List.append_assoc] at hcs
    have hblank := hothers.head_any_isBlank (hws' v (by simp)) rest
    obtain ⟨tail, rfl, htail⟩ := hB.word hw hword hcs
    obtain ⟨gap', tail', rfl, hgap', htail'⟩ := hB.gap htail hgap hblank
    obtain ⟨text', rest', rfl, htext, hrest⟩ := ih hws' htail'
    exact ⟨word ++ (gap' ++ text'), rest', by simp, .more hword hgap' htext, hrest⟩

theorem Traces.stands {rule : Rule} {inside : Bool} {cs out : List Char} (h : B inside cs out)
    (hstands : rule.Stands inside out) : rule.Stands inside cs := by
  obtain ⟨hinside, taken, new, rest, rfl, hswaps, hr⟩ := hstands
  refine ⟨hinside, ?_⟩
  cases hswaps with
  | @setting word gap name gap' word' hword hgap hname hgap' hword' =>
    have hto : IsWord "to" := by decide
    simp only [List.append_assoc] at h
    obtain ⟨tail, rfl, htail⟩ := hB.word (by decide) hword h
    obtain ⟨gap₂, tail₂, rfl, hgap₂, htail₂⟩ := hB.gap htail hgap (hname.head_any_isBlank _)
    obtain ⟨tail₃, rfl, htail₃⟩ := hB.run htail₂ hname.ne_nil hname.letters
    obtain ⟨gap₄, tail₄, rfl, hgap₄, htail₄⟩ := hB.gap htail₃ hgap' (hto.head_any_isBlank hword' _)
    obtain ⟨rest₅, rfl, hrest₅⟩ := hB.word hto hword' htail₄
    exact ⟨_, _, rest₅, by simp only [List.append_assoc], .setting hword hgap₂ hname hgap₄ hword',
      hB.edge hrest₅ hr⟩
  | @wording r _ hmem hphrased =>
    obtain ⟨text', rest', he, htext, hrest⟩ :=
      hB.phrased hphrased (isWord_of_mem_wordings r hmem).2 h hr
    exact ⟨text', _, rest', he, .wording hmem htext, hrest⟩
  | @ending w _ hw hphrased =>
    obtain ⟨text', rest', he, htext, hrest⟩ := hB.phrased hphrased (isWord_of_mem_closed w hw) h hr
    exact ⟨text', _, rest', he, .ending hw htext, hrest⟩

end

/-! Rules that write a sign. -/

theorem Makes.cons_inv {rule : Rule} {inside : Bool} {cs out : List Char} {c : Char}
    (h : rule.Makes inside cs (c :: out)) :
    (∃ rest, cs = c :: rest ∧ ¬rule.Stands inside (c :: rest) ∧ rule.Makes (isWordChar c) rest out) ∨
      ∃ taken new rest out', cs = taken ++ rest ∧ rule.Swaps taken new ∧
        rest.head?.any isWordChar = false ∧ rule.Makes true rest out' ∧ c :: out = new ++ out' := by
  generalize hout : c :: out = text at h
  cases h with
  | done => cases hout
  | copy hstands hrest =>
    cases hout
    exact .inl ⟨_, rfl, hstands, hrest⟩
  | swap hswaps hrest hmakes => exact .inr ⟨_, _, _, _, rfl, hswaps, hrest, hmakes, rfl⟩

theorem Makes.run {rule : Rule} {heads : List Char}
    (hnew : ∀ taken new, rule.Swaps taken new → ∃ m ms, new = m :: ms ∧ m ∈ heads)
    {inside : Bool} {cs xs out : List Char} (h : rule.Makes inside cs (xs ++ out)) (hne : xs ≠ [])
    (hxs : ∀ c ∈ xs, c ∉ heads) :
    ∃ rest, cs = xs ++ rest ∧ rule.Makes (xs.getLast?.any isWordChar) rest out := by
  induction xs generalizing inside cs with
  | nil => exact absurd rfl hne
  | cons c xs ih =>
    obtain ⟨hc, hxs⟩ := List.forall_mem_cons.1 hxs
    rcases h.cons_inv with ⟨rest, rfl, -, hrest⟩ | ⟨taken, new, rest, out', -, hswaps, -, -, he⟩
    · cases xs with
      | nil => exact ⟨rest, rfl, hrest⟩
      | cons d xs =>
        obtain ⟨rest', rfl, hrest'⟩ := ih hrest (List.cons_ne_nil d xs) hxs
        exact ⟨rest', rfl, by rwa [List.getLast?_cons_cons]⟩
    · obtain ⟨m, ms, rfl, hm⟩ := hnew taken new hswaps
      obtain ⟨rfl, -⟩ := List.cons.inj he
      exact absurd hm hc

theorem Makes.edge {rule : Rule} {cs out : List Char} (h : rule.Makes true cs out) :
    out.head?.any isWordChar = cs.head?.any isWordChar := by
  cases h with
  | done => rfl
  | copy => rfl

theorem exists_sign_of_swaps {r : List String × String} {taken new : List Char}
    (h : (wording r).Swaps taken new) : ∃ m ms, new = m :: ms ∧ m ∈ signs := by
  cases h with
  | wording hr _ =>
    obtain ⟨hne, hsigns⟩ := signs_of_mem_wordings r hr
    obtain ⟨m, ms, he⟩ := List.exists_cons_of_ne_nil hne
    exact ⟨m, ms, he, hsigns m (he ▸ List.mem_cons_self)⟩

theorem traces_makes (r : List String × String) : Traces (wording r).Makes where
  run h hne hxs := h.run (fun _ _ => exists_sign_of_swaps) hne fun c hc => (hxs c hc).2
  gap h hgap _ := by
    obtain ⟨rest, he, hrest⟩ := h.run (fun _ _ => exists_sign_of_swaps) hgap.1
      fun c hc => not_mem_signs_of_isBlank (hgap.2 c hc)
    rw [hgap.getLast_any_isWordChar] at hrest
    exact ⟨_, rest, he, hgap, hrest⟩
  edge h hout := h.edge ▸ hout

theorem Makes.throughout {rule : Rule} {P Q : Bool → List Char → Prop}
    (hcopy : ∀ {inside : Bool} {c : Char} {cs out : List Char}, ¬rule.Stands inside (c :: cs) →
      rule.Makes (isWordChar c) cs out → Q inside (c :: cs) → P inside (c :: out))
    (hswap : ∀ {taken new rest out : List Char}, rule.Swaps taken new →
      Throughout Q false (taken ++ rest) → rest.head?.any isWordChar = false →
      out.head?.any isWordChar = false → Throughout P true out → Throughout P false (new ++ out))
    {inside : Bool} {cs out : List Char} (h : rule.Makes inside cs out)
    (hq : Throughout Q inside cs) : Throughout P inside out := by
  induction h with
  | done => trivial
  | copy hstands hmakes ih => exact ⟨hcopy hstands hmakes hq.1, ih hq.2⟩
  | swap hswaps hrest hmakes ih =>
    have hafter := hq.drop hswaps.taken_ne_nil
    rw [hswaps.getLast_isWordChar] at hafter
    exact hswap hswaps hq hrest (hmakes.edge.trans hrest) (ih hafter)

/-- A sign may stand anywhere, and after it nothing is different where no word begins. -/
structure Indifferent (P : Bool → List Char → Prop) : Prop where
  sign {inside : Bool} {c : Char} {cs : List Char} : c ∈ signs → P inside (c :: cs)
  shift {cs : List Char} : cs.head?.any isWordChar = false → P true cs → P false cs

theorem Indifferent.throughout {P : Bool → List Char → Prop} (hP : Indifferent P) {cs : List Char}
    (hcs : cs.head?.any isWordChar = false) (h : Throughout P true cs) : Throughout P false cs := by
  cases cs with
  | nil => trivial
  | cons c cs => exact ⟨hP.shift hcs h.1, h.2⟩

theorem Indifferent.throughout_signs {P : Bool → List Char → Prop} (hP : Indifferent P)
    {xs cs : List Char} (hxs : ∀ c ∈ xs, c ∈ signs) (h : Throughout P false cs) :
    Throughout P false (xs ++ cs) := by
  induction xs with
  | nil => exact h
  | cons x xs ih =>
    obtain ⟨hx, hxs⟩ := List.forall_mem_cons.1 hxs
    refine ⟨hP.sign hx, ?_⟩
    rw [(table_of_mem_signs x hx).1]
    exact ih hxs

theorem Makes.throughout_wording {r : List String × String} {P Q : Bool → List Char → Prop}
    (hP : Indifferent P)
    (hcopy : ∀ {inside : Bool} {c : Char} {cs out : List Char}, ¬(wording r).Stands inside (c :: cs) →
      (wording r).Makes (isWordChar c) cs out → Q inside (c :: cs) → P inside (c :: out))
    {inside : Bool} {cs out : List Char} (h : (wording r).Makes inside cs out)
    (hq : Throughout Q inside cs) : Throughout P inside out := by
  refine h.throughout hcopy (fun hswaps _ _ hout hrest => ?_) hq
  cases hswaps with
  | wording hr _ => exact hP.throughout_signs (signs_of_mem_wordings r hr).2 (hP.throughout hout hrest)

/-! Rules that can act nowhere. -/

def Clear (rule : Rule) : Bool → List Char → Prop :=
  Throughout fun inside cs => ¬rule.Stands inside cs

theorem Stands.head_isWordChar {rule : Rule} {inside : Bool} {cs : List Char}
    (h : rule.Stands inside cs) : cs.head?.any isWordChar = true := by
  obtain ⟨-, taken, new, rest, rfl, hswaps, -⟩ := h
  obtain ⟨c, hc, hw⟩ := (Option.any_eq_true _ _).1 hswaps.head_isWordChar
  rw [List.head?_append, hc]
  exact hw

theorem not_stands_of_head {cs : List Char} (h : cs.head?.any isWordChar = false) (rule : Rule)
    (inside : Bool) : ¬rule.Stands inside cs := by
  intro hstands
  have hhead := hstands.head_isWordChar
  rw [h] at hhead
  cases hhead

theorem indifferent_clear (rule : Rule) : Indifferent fun inside cs => ¬rule.Stands inside cs where
  sign {inside c cs} hc := by
    have hhead : (c :: cs).head?.any isWordChar = false := (table_of_mem_signs c hc).1
    exact not_stands_of_head hhead rule inside
  shift hcs _ := not_stands_of_head hcs rule false

theorem Makes.clear {r : List String × String} {rule : Rule} {cs out : List Char}
    (h : (wording r).Makes false cs out) (hrule : rule = wording r ∨ rule.Clear false cs) :
    rule.Clear false out := by
  have htraces := traces_makes r
  rcases hrule with rfl | hclear
  · have hall := throughout_of_forall (fun _ _ => trivial) false cs
    exact h.throughout_wording (indifferent_clear _)
      (fun hstands hmakes _ hout => hstands (htraces.stands (.copy hstands hmakes) hout)) hall
  · exact h.throughout_wording (indifferent_clear rule)
      (fun hstands hmakes hq hout => hq (htraces.stands (.copy hstands hmakes) hout)) hclear

/-! The rule for `set`. -/

theorem setting_new (name out : List Char) : "var ".toList ++ (name ++ " =".toList) ++ out =
    'v' :: 'a' :: 'r' :: ' ' :: (name ++ ' ' :: '=' :: out) := by
  simp

theorem exists_v_of_swaps {taken new : List Char} (h : setting.Swaps taken new) :
    ∃ m ms, new = m :: ms ∧ m ∈ ['v'] := by
  cases h with
  | setting => exact ⟨'v', _, rfl, List.mem_singleton_self 'v'⟩

theorem not_mem_v_of_set {word : List Char} (h : word.map fold = "set".toList ∨ word.map fold = "to".toList) :
    ∀ c ∈ word, c ∉ ['v'] := by
  intro c hc hv
  obtain rfl := List.mem_singleton.1 hv
  have hfold : fold 'v' = 'v' := by decide
  have hmem : 'v' ∈ word.map fold := hfold ▸ List.mem_map_of_mem hc
  rcases h with h | h <;> rw [h] at hmem <;> exact absurd hmem (by decide)

theorem not_mem_v_of_isGap {gap : List Char} (h : IsGap gap) : ∀ c ∈ gap, c ∉ ['v'] := by
  intro c hc hv
  obtain rfl := List.mem_singleton.1 hv
  exact absurd (h.2 _ hc) (by decide)

theorem isVariable_of_set {pre tail word : List Char} (h : IsVariable (pre ++ tail))
    (hword : word.map fold = "set".toList) : IsVariable (pre ++ word) := by
  have hset : IsWord "set" := by decide
  have hrest : ∀ c ∈ word, nameRest.accepts c = true := by
    intro c hc
    simp [nameRest, CharTest.accepts, ClassItem.holds, hset.isWordChar hword c hc]
  cases pre with
  | nil =>
    obtain ⟨c, cs, rfl⟩ := List.exists_cons_of_ne_nil (hset.ne_nil hword)
    have hs : fold c = 's' := (List.cons.inj hword).1
    have horigins : ∀ c ∈ 's' :: CaseRun.origins folding 's', nameStart.accepts c = true := by
      decide
    have hlower : (fold c).isLower = true := hs ▸ by decide
    have hmem : c ∈ fold c :: CaseRun.origins folding (fold c) := mem_origins_of_isLower hlower
    rw [hs] at hmem
    exact ⟨c, cs, rfl, horigins c hmem, fun d hd => hrest d (List.mem_cons_of_mem c hd)⟩
  | cons p pre =>
    obtain ⟨c, cs, he, hc, hcs⟩ := h
    obtain ⟨rfl, rfl⟩ := List.cons.inj he
    refine ⟨p, pre ++ word, rfl, hc, List.forall_mem_append.2 ⟨?_, hrest⟩⟩
    exact fun d hd => hcs d (List.mem_append_left _ hd)

theorem solid_append_inj {xs ys rest rest' : List Char} (hxs : ∀ c ∈ xs, isBlank c = false)
    (hrest : rest.head?.any isBlank = true) (hys : ∀ c ∈ ys, isBlank c = false)
    (hrest' : rest'.head?.any isBlank = true) (h : xs ++ rest = ys ++ rest') : xs = ys ∧ rest = rest' := by
  have hsolid {cs : List Char} (h : ∀ c ∈ cs, isBlank c = false) : ∀ c ∈ cs, (!isBlank c) = true :=
    fun c hc => by rw [h c hc]; rfl
  have hstop {cs : List Char} (h : cs.head?.any isBlank = true) :
      cs.head?.any (fun c => !isBlank c) = false := by
    obtain ⟨c, hc, hb⟩ := (Option.any_eq_true _ _).1 h
    rw [hc]
    simpa using hb
  exact run_append_inj (hsolid hxs) (hstop hrest) (hsolid hys) (hstop hrest') h

theorem Makes.name {inside : Bool} {cs name out : List Char} (h : setting.Makes inside cs (name ++ out))
    (hne : name ≠ []) (hname : ∀ c ∈ name, isBlank c = false) (hout : out.head?.any isBlank = true) :
    (∃ rest, cs = name ++ rest ∧ setting.Makes (name.getLast?.any isWordChar) rest out) ∨
      ∃ pre word gap inner tail more, name = pre ++ "var".toList ∧ word.map fold = "set".toList ∧
        IsGap gap ∧ IsVariable inner ∧ tail.head?.any isWordChar = false ∧
        cs = pre ++ (word ++ (gap ++ (inner ++ tail))) ∧ out = ' ' :: (inner ++ ' ' :: more) := by
  induction name generalizing inside cs with
  | nil => exact absurd rfl hne
  | cons c name ih =>
    rcases h.cons_inv with ⟨rest, rfl, -, hrest⟩ | ⟨taken, new, rest, out', rfl, hswaps, hr, -, he⟩
    · cases name with
      | nil => exact .inl ⟨rest, rfl, hrest⟩
      | cons d name =>
        obtain ⟨-, hname⟩ := List.forall_mem_cons.1 hname
        rcases ih hrest (List.cons_ne_nil d name) hname with ⟨rest', rfl, hrest'⟩ |
            ⟨pre, word, gap, inner, tail, more, hpre, hword, hgap, hinner, htail, rfl, hout'⟩
        · exact .inl ⟨rest', rfl, by rwa [List.getLast?_cons_cons]⟩
        · exact .inr ⟨c :: pre, word, gap, inner, tail, more, by rw [hpre]; rfl, hword, hgap, hinner,
            htail, rfl, hout'⟩
    · cases hswaps with
      | @setting word gap inner gap' word' hword hgap hinner hgap' hword' =>
        -- both sides have their first blank in the same place
        have hcut : (c :: name) ++ out = "var".toList ++ (' ' :: (inner ++ ' ' :: '=' :: out')) :=
          he.trans (by simp)
        obtain ⟨hvar, hafter⟩ := solid_append_inj hname hout (by decide) rfl hcut
        exact .inr ⟨[], word, gap, inner, gap' ++ (word' ++ rest), '=' :: out', hvar, hword, hgap, hinner,
          hgap'.head_any_isWordChar _, by simp, hafter⟩

/-- Where the rule could act again, it could have acted before: if a name there comes from a `var` that
the rule wrote, then it was the word `set` before. -/
theorem Makes.stands_of_setting {inside : Bool} {cs out : List Char} (h : setting.Makes inside cs out)
    (hstands : setting.Stands inside out) : setting.Stands inside cs := by
  obtain ⟨hinside, taken, new, rest, rfl, hswaps, hr⟩ := hstands
  refine ⟨hinside, ?_⟩
  cases hswaps with
  | @setting word gap name gap' word' hword hgap hname hgap' hword' =>
    have hto : IsWord "to" := by decide
    have hset : IsWord "set" := by decide
    simp only [List.append_assoc] at h
    obtain ⟨tail₁, rfl, h₁⟩ := h.run (fun _ _ => exists_v_of_swaps) (hset.ne_nil hword)
      (not_mem_v_of_set (.inl hword))
    obtain ⟨tail₂, rfl, h₂⟩ := h₁.run (fun _ _ => exists_v_of_swaps) hgap.1 (not_mem_v_of_isGap hgap)
    rcases h₂.name hname.ne_nil (fun c hc => (hname.letters c hc).1) (hgap'.head_any_isBlank _) with
      ⟨tail₃, rfl, h₃⟩ | ⟨pre, word₂, gap₂, inner, tail, more, hpre, hword₂, hgap₂, hinner, htail, rfl, hmore⟩
    · obtain ⟨tail₄, rfl, h₄⟩ := h₃.run (fun _ _ => exists_v_of_swaps) hgap'.1 (not_mem_v_of_isGap hgap')
      obtain ⟨tail₅, rfl, h₅⟩ := h₄.run (fun _ _ => exists_v_of_swaps) (hto.ne_nil hword')
        (not_mem_v_of_set (.inr hword'))
      rw [(Phrased.last hword').getLast_isWordChar (by simpa using hto)] at h₅
      exact ⟨_, _, tail₅, by simp only [List.append_assoc], .setting hword hgap hname hgap' hword',
        h₅.edge.symm.trans hr⟩
    · -- the one space after the name is all of the gap before `to`, with which the inner name begins
      rw [← List.singleton_append] at hmore
      obtain ⟨-, hdrop⟩ := run_append_inj hgap'.2 (hto.head_any_isBlank hword' _) (by decide)
        (hinner.head_any_isBlank _) hmore
      obtain ⟨others, rfl, hothers⟩ : ∃ others, inner = word' ++ others ∧ rest = others ++ ' ' :: more := by
        rcases List.append_eq_append_iff.1 hdrop with ⟨others, hi, hrest⟩ | ⟨others, hw, hrest⟩
        · exact ⟨others, hi, hrest⟩
        · cases others with
          | nil => exact ⟨[], by simpa using hw.symm, by simpa using hrest.symm⟩
          | cons d others =>
            obtain ⟨rfl, -⟩ := List.cons.inj hrest
            exact absurd (hto.isWordChar hword' ' ' (by simp [hw])) (by decide)
      have hedge : (others ++ tail).head?.any isWordChar = false := by
        cases others with
        | nil => exact htail
        | cons d others => rwa [hothers] at hr
      exact ⟨_, _, others ++ tail, by simp only [List.append_assoc],
        .setting hword hgap (isVariable_of_set (hpre ▸ hname) hword₂) hgap₂ hword', hedge⟩

theorem not_stands_name {inside : Bool} {name out : List Char} (h : ∀ c ∈ name, isBlank c = false) :
    ¬setting.Stands inside (name ++ ' ' :: '=' :: out) := by
  rintro ⟨-, taken, new, rest, he, hswaps, -⟩
  cases hswaps with
  | @setting word gap inner gap' word' hword hgap hinner _ _ =>
    have hset : IsWord "set" := by decide
    simp only [List.append_assoc] at he
    obtain ⟨-, hgaps⟩ := solid_append_inj h rfl
      (fun d hd => isBlank_of_isWordChar (hset.isWordChar hword d hd)) (hgap.head_any_isBlank _) he
    have hequals : ('=' :: out).head?.any isBlank = false := show isBlank '=' = false by decide
    rw [← List.singleton_append] at hgaps
    obtain ⟨-, hafter⟩ := run_append_inj (by decide) hequals hgap.2 (hinner.head_any_isBlank _) hgaps
    obtain ⟨c, cs, rfl, hc, -⟩ := hinner
    obtain ⟨rfl, -⟩ := List.cons.inj hafter
    exact absurd hc (Bool.eq_false_iff.1 (table_of_mem_signs '=' (by decide)).2.2.1)

theorem fold_of_stands {inside : Bool} {c : Char} {cs : List Char} (h : setting.Stands inside (c :: cs)) :
    fold c = 's' := by
  obtain ⟨-, taken, new, rest, he, hswaps, -⟩ := h
  cases hswaps with
  | @setting word gap inner gap' word' hword hgap hinner _ _ =>
    have hset : IsWord "set" := by decide
    obtain ⟨d, ds, rfl⟩ := List.exists_cons_of_ne_nil (hset.ne_nil hword)
    obtain ⟨rfl, -⟩ := List.cons.inj he
    exact (List.cons.inj hword).1

theorem Makes.clear_setting {cs out : List Char} (h : setting.Makes false cs out) :
    setting.Clear false out := by
  have hall := throughout_of_forall (fun _ _ => trivial) false cs
  refine h.throughout (fun hstands hmakes _ hout => hstands (Makes.stands_of_setting (.copy hstands hmakes) hout))
    (fun {_ _ _ out} hswaps _ _ hout hrest => ?_) hall
  cases hswaps with
  | @setting word gap name gap' word' _ _ hname _ _ =>
    have hfold : ∀ c ∈ ['v', 'a', 'r', ' ', '='], fold c ≠ 's' := by decide
    have hword {c : Char} (hc : c ∈ ['v', 'a', 'r', ' ', '=']) (inside : Bool) (cs : List Char) :
        ¬setting.Stands inside (c :: cs) := fun hstands => hfold c hc (fold_of_stands hstands)
    have hafter (inside : Bool) : setting.Clear inside (' ' :: '=' :: out) :=
      ⟨hword (by decide) _ _, hword (by decide) _ _, (indifferent_clear setting).throughout hout hrest⟩
    have htext := throughout_solid (P := fun inside cs => ¬setting.Stands inside cs)
      (fun _ _ _ hsolid => not_stands_name hsolid) hafter (fun c hc => (hname.letters c hc).1) false
    rw [setting_new]
    exact ⟨hword (by decide) _ _, hword (by decide) _ _, hword (by decide) _ _, hword (by decide) _ _, htext⟩

end Rule
end Parlance
