import Parlance.Proofs.Phrase.Neat
import Parlance.Proofs.Phrase.Strings

/-! Rewording a source again. What rewording leaves is neat, so a second time no word is dropped and no
gap closed: only the rules can act, where dropping a word has brought the parts of a phrase together.
They leave nothing to do, so a third time nothing happens at all. -/

namespace Parlance
open Text Pattern Phrasebook

/-! A stretch of code. -/

def ruled (rs : List Rule) (cs : List Char) : List Char :=
  rs.foldl (fun text rule => rule.phrase.apply text) cs

theorem ruled_nil (cs : List Char) : ruled [] cs = cs := rfl

theorem ruled_cons (rule : Rule) (rs : List Rule) (cs : List Char) :
    ruled (rule :: rs) cs = ruled rs (rule.phrase.apply cs) := rfl

theorem ruled_append (rs qs : List Rule) (cs : List Char) :
    ruled (rs ++ qs) cs = ruled qs (ruled rs cs) := List.foldl_append

theorem foldl_english_phrases (cs : List Char) :
    english.phrases.foldl (fun text phrase => phrase.apply text) cs = ruled rules cs := by
  rw [english_phrases_eq, List.foldl_map]
  rfl

attribute [irreducible] ruled

theorem ruled_eq_or_count_lt {rs : List Rule} (hrs : ∀ rule ∈ rs, rule ∈ rules) (cs : List Char) :
    (ruled rs cs = cs ∧ ∀ rule ∈ rs, rule.Clear false cs) ∨
      (ruled rs cs).countP isWordChar < cs.countP isWordChar := by
  induction rs generalizing cs with
  | nil => exact .inl ⟨ruled_nil cs, nofun⟩
  | cons rule rs ih =>
    obtain ⟨hrule, hrs⟩ := List.forall_mem_cons.1 hrs
    rw [ruled_cons]
    rcases (Rule.makes_apply hrule cs).eq_or_count_lt with ⟨he, hclear⟩ | hlt
    · rw [he]
      exact (ih hrs cs).imp_left fun h => ⟨h.1, List.forall_mem_cons.2 ⟨hclear, h.2⟩⟩
    · refine .inr (Nat.lt_of_le_of_lt ?_ hlt)
      rcases ih hrs (rule.phrase.apply cs) with ⟨he, -⟩ | hlt'
      · rw [he]
      · exact Nat.le_of_lt hlt'

theorem ruled_of_clear {rs : List Rule} (hrs : ∀ rule ∈ rs, rule ∈ rules) {cs : List Char}
    (h : ∀ rule ∈ rs, rule.Clear false cs) : ruled rs cs = cs := by
  induction rs with
  | nil => exact ruled_nil cs
  | cons rule rs ih =>
    obtain ⟨hrule, hrs⟩ := List.forall_mem_cons.1 hrs
    obtain ⟨hclear, h⟩ := List.forall_mem_cons.1 h
    rw [ruled_cons, (Rule.apply_eq_self_iff hrule cs).2 hclear]
    exact ih hrs h

theorem reword_eq_merge (cs : List Char) : english.reword cs = merge english false (pieces (ruled rules cs)) := by
  cases cs with
  | nil =>
    rcases ruled_eq_or_count_lt (fun _ h => h) [] with ⟨he, -⟩ | hlt
    · rw [he]
      rfl
    · cases hlt
  | cons c cs =>
    rw [reword, if_neg (by simp), foldl_english_phrases]

theorem clear_of_count_reword {cs : List Char}
    (h : (english.reword cs).countP isWordChar = cs.countP isWordChar) :
    ∀ rule ∈ rules, rule.Clear false cs := by
  rcases ruled_eq_or_count_lt (fun _ h => h) cs with ⟨-, hclear⟩ | hlt
  · exact hclear
  · have hle := count_merge_le false (ruled rules cs)
    rw [← reword_eq_merge, h] at hle
    exact absurd hlt (Nat.not_lt_of_le hle)

theorem count_reword_le (cs : List Char) :
    (english.reword cs).countP isWordChar ≤ cs.countP isWordChar := by
  rw [reword_eq_merge]
  refine Nat.le_trans (count_merge_le false _) ?_
  rcases ruled_eq_or_count_lt (fun _ h => h) cs with ⟨he, -⟩ | hlt
  · rw [he]
  · exact Nat.le_of_lt hlt

theorem lower_eq_of_fold_eq_end {word : List Char} (h : word.map fold = "end".toList) :
    String.ofList (lower word) = "end" := by
  have horigins : ∀ l ∈ "end".toList, l.isLower = true ∧
      ∀ c ∈ l :: CaseRun.origins folding l, Pattern.isNameChar c = true := by decide
  have hname : ∀ c ∈ word, Pattern.isNameChar c = true := by
    intro c hc
    obtain ⟨hlower, hall⟩ := horigins (fold c) (h ▸ List.mem_map_of_mem hc)
    exact hall c (mem_origins_of_isLower hlower)
  rw [lower, lowerFrom_of_isNameChar hname, ← map_fold_of_isNameChar hname, h, String.ofList_toList]

theorem clear_ending {inside : Bool} {cs : List Char} (h : Throughout Kept inside cs) :
    Rule.ending.Clear inside cs := by
  induction cs generalizing inside with
  | nil => trivial
  | cons c cs ih =>
    refine ⟨?_, ih h.2⟩
    rintro ⟨hinside, taken, new, rest, he, hswaps, hr⟩
    cases hswaps with
    | @ending w _ hw hphrased =>
      obtain ⟨word, tail, hcut, hword, htail⟩ := hphrased.exists_word hr
      have hend : IsWord "end" := by decide
      have hkept := (h.1 hinside).1
      rw [he, hcut, takeWhile_append_stop (hend.isWordChar hword) htail, lower_eq_of_fold_eq_end hword] at hkept
      exact hkept (by decide)

theorem wording_mem_rules {r : List String × String} (h : r ∈ wordings) : Rule.wording r ∈ rules :=
  List.mem_cons_of_mem _ (List.mem_append_left _ (List.mem_map_of_mem h))

theorem clear_ruled_wordings {ws : List (List String × String)} (hws : ∀ r ∈ ws, r ∈ wordings)
    {done : List Rule} {cs : List Char} (hdone : ∀ rule ∈ done, rule.Clear false cs) :
    ∀ rule ∈ done ++ ws.map .wording, rule.Clear false (ruled (ws.map .wording) cs) := by
  induction ws generalizing done cs with
  | nil => simpa [ruled_nil] using hdone
  | cons r ws ih =>
    obtain ⟨hr, hws⟩ := List.forall_mem_cons.1 hws
    have hmakes := Rule.makes_apply (wording_mem_rules hr) cs
    have hnext : ∀ rule ∈ done ++ [.wording r], rule.Clear false ((Rule.wording r).phrase.apply cs) := by
      intro rule hrule
      rcases List.mem_append.1 hrule with hrule | hrule
      · exact hmakes.clear (.inr (hdone rule hrule))
      · exact hmakes.clear (.inl (List.mem_singleton.1 hrule))
    have hrest := ih hws hnext
    rw [List.append_assoc, List.singleton_append] at hrest
    rw [List.map_cons, ruled_cons]
    exact hrest

theorem ruled_invariant {P : List Char → Prop} {rs : List Rule} (hrs : ∀ rule ∈ rs, rule ∈ rules)
    (hne : .ending ∉ rs)
    (hP : ∀ {rule : Rule} {cs out : List Char}, rule ≠ .ending → rule.Makes false cs out → P cs → P out)
    {cs : List Char} (h : P cs) : P (ruled rs cs) := by
  induction rs generalizing cs with
  | nil => rwa [ruled_nil]
  | cons rule rs ih =>
    obtain ⟨hrule, hrs⟩ := List.forall_mem_cons.1 hrs
    rw [List.mem_cons, not_or] at hne
    rw [ruled_cons]
    exact ih hrs hne.2 (hP (Ne.symm hne.1) (Rule.makes_apply hrule cs) h)

theorem ruled_of_kept {cs : List Char} (h : Throughout Kept false cs) :
    (∀ rule ∈ rules, rule.Clear false (ruled rules cs)) ∧ Throughout Kept false (ruled rules cs) ∧
      (Throughout Single false cs → Throughout Single false (ruled rules cs)) := by
  obtain ⟨front, hfront⟩ : ∃ front, front = Rule.setting :: wordings.map .wording := ⟨_, rfl⟩
  have hrules : rules = front ++ [.ending] := hfront ▸ rfl
  have hmem : ∀ rule ∈ front, rule ∈ rules := fun rule hrule => hrules ▸ List.mem_append_left _ hrule
  have hne : .ending ∉ front := by
    rw [hfront]
    decide
  have hkept : Throughout Kept false (ruled front cs) :=
    ruled_invariant hmem hne (fun hrule hmakes => hmakes.kept hrule) h
  have hclear : ∀ rule ∈ front, rule.Clear false (ruled front cs) := by
    have hsetting : ∀ rule ∈ [Rule.setting], rule.Clear false (Rule.setting.phrase.apply cs) :=
      List.forall_mem_singleton.2 (Rule.makes_apply List.mem_cons_self cs).clear_setting
    rw [hfront, ruled_cons]
    exact clear_ruled_wordings (fun _ hr => hr) hsetting
  have hending : ruled rules cs = ruled front cs := by
    have hlast : Rule.ending.phrase.apply (ruled front cs) = ruled front cs :=
      (Rule.apply_eq_self_iff (by decide) _).2 (clear_ending hkept)
    rw [hrules, ruled_append, ruled_cons, hlast, ruled_nil]
  rw [hending]
  refine ⟨fun rule hrule => ?_, hkept, ruled_invariant hmem hne fun hrule hmakes => hmakes.single hrule⟩
  rw [hrules] at hrule
  rcases List.mem_append.1 hrule with hrule | hrule
  · exact hclear rule hrule
  · rw [List.mem_singleton.1 hrule]
    exact clear_ending hkept

theorem neat_reword (cs : List Char) : Neat false (english.reword cs) := by
  rw [reword_eq_merge]
  exact (neat_merge _).2.2 false nofun

theorem reword_of_neat {cs : List Char} (h : Neat false cs) : english.reword cs = ruled rules cs := by
  obtain ⟨-, hkept, hsingle⟩ := ruled_of_kept h.kept
  rw [reword_eq_merge]
  exact merge_of_neat ⟨hkept, hsingle h.single⟩ nofun nofun

theorem reword_eq_self {cs : List Char} (h : Neat false cs) (hclear : ∀ rule ∈ rules, rule.Clear false cs) :
    english.reword cs = cs := by
  rw [reword_of_neat h, ruled_of_clear (fun _ hrule => hrule) hclear]

theorem reword_thrice (cs : List Char) :
    english.reword (english.reword (english.reword cs)) = english.reword (english.reword cs) := by
  have hneat := neat_reword cs
  refine reword_eq_self (neat_reword _) ?_
  rw [reword_of_neat hneat]
  exact (ruled_of_kept hneat.kept).1

theorem reword_twice {cs : List Char} (h : Throughout Kept false cs) :
    english.reword (english.reword cs) = english.reword cs := by
  obtain ⟨hclear, hkept, -⟩ := ruled_of_kept h
  refine reword_eq_self (neat_reword cs) fun rule hrule => ?_
  rw [reword_eq_merge]
  exact (spaced_merge hkept nofun).clear (hclear rule hrule)

/-! A source. -/

namespace Source

theorem Laid.of_not_code {fresh fresh' : Bool} {ps : List Part} (h : Laid fresh ps)
    (hcode : ∀ part ∈ ps.head?, ¬part.IsCode) : Laid fresh' ps := by
  cases h with
  | nil => exact .nil fresh'
  | code | margin => exact absurd trivial (hcode _ rfl)
  | literal hquote hinside hrest => exact .literal hquote hinside hrest
  | unclosed hquote hinside hlast => exact .unclosed hquote hinside hlast
  | comment htext hnewline hrest => exact .comment htext hnewline hrest
  | newline hrest => exact .newline hrest

/-- The second parts are those of what is written for the first. Code in them was written for code. -/
structure Reworded (reword : List Char → List Char) (ps qs : List Part) : Prop where
  text_eq : qs.flatMap Part.text = written reword ps
  exists_old {text : List Char} : .code text ∈ qs → ∃ old, .code old ∈ ps ∧ text = reword old
  head_eq : (∀ part ∈ ps.head?, ¬part.IsCode) → qs.head? = ps.head?

theorem Reworded.nil (reword : List Char → List Char) : Reworded reword [] [] := ⟨rfl, nofun, fun _ => rfl⟩

theorem Reworded.copy {reword : List Char → List Char} {ps qs : List Part} (h : Reworded reword ps qs)
    {part : Part} (hpart : ∀ text, part ≠ .code text) : Reworded reword (part :: ps) (part :: qs) where
  text_eq := by
    have hwrite : part.write reword = part.text := by
      cases part with
      | code text => exact absurd rfl (hpart text)
      | margin | literal | comment | newline => rfl
    rw [List.flatMap_cons, h.text_eq, written_cons, hwrite]
  exists_old hmem := by
    rcases List.mem_cons.1 hmem with he | hmem
    · exact absurd he.symm (hpart _)
    · exact (h.exists_old hmem).imp fun _ hold => ⟨List.mem_cons_of_mem _ hold.1, hold.2⟩
  head_eq _ := rfl

theorem Reworded.code {reword : List Char → List Char} {ps qs : List Part} (h : Reworded reword ps qs)
    {text : List Char} {new : List Part} (htext : new.flatMap Part.text = reword text)
    (hnew : ∀ part ∈ new, part = .code (reword text) ∨ part = .margin (reword text)) :
    Reworded reword (.code text :: ps) (new ++ qs) where
  text_eq := by
    rw [List.flatMap_append, htext, h.text_eq]
    rfl
  exists_old hmem := by
    rcases List.mem_append.1 hmem with hmem | hmem
    · rcases hnew _ hmem with he | he
      · exact ⟨text, List.mem_cons_self, Part.code.inj he⟩
      · cases he
    · exact (h.exists_old hmem).imp fun _ hold => ⟨List.mem_cons_of_mem _ hold.1, hold.2⟩
  head_eq hcode := absurd trivial (hcode _ rfl)

/-- What is written for parts has such parts. Code that becomes nothing is gone, and code that becomes
blanks before a comment is margin. -/
theorem Laid.exists_reworded {reword : List Char → List Char}
    (hin : ∀ text, (∀ c ∈ text, InLine c) → ∀ c ∈ reword text, InLine c) {fresh : Bool} {ps : List Part}
    (h : Laid fresh ps) : ∃ qs, Laid fresh qs ∧ Reworded reword ps qs := by
  induction h with
  | nil fresh => exact ⟨[], .nil fresh, .nil reword⟩
  | @code fresh text rest _ htext hcode _ _ ih =>
    obtain ⟨qs, hqs, hreworded⟩ := ih
    have hcode' : ∀ part ∈ qs.head?, ¬part.IsCode := hreworded.head_eq hcode ▸ hcode
    have hin' := hin text htext
    by_cases hnil : reword text = []
    · have hgone : Reworded reword (.code text :: rest) ([] ++ qs) := hreworded.code hnil.symm nofun
      exact ⟨qs, hqs.of_not_code hcode', hgone⟩
    · have hsingle {part : Part} (htext : part.text = reword text) :
          [part].flatMap Part.text = reword text := by simpa using htext
      by_cases hmargin : fresh = true ∧ (reword text).all isBlank = true ∧ ∃ part ∈ qs.head?, part.IsComment
      · obtain ⟨rfl, hblank, hcomment⟩ := hmargin
        have hchars : ∀ c ∈ reword text, isBlank c = true ∧ c ≠ '\n' :=
          fun c hc => ⟨List.all_eq_true.1 hblank c hc, (hin' c hc).2⟩
        exact ⟨.margin (reword text) :: qs, .margin hnil hchars hcomment hqs,
          hreworded.code (hsingle rfl) (List.forall_mem_singleton.2 (.inr rfl))⟩
      · refine ⟨.code (reword text) :: qs, .code hnil hin' hcode' (fun hfresh hblank part hpart hc => ?_) hqs,
          hreworded.code (hsingle rfl) (List.forall_mem_singleton.2 (.inl rfl))⟩
        exact hmargin ⟨hfresh, hblank, part, hpart, hc⟩
  | @margin text rest hne htext hcomment _ ih =>
    obtain ⟨qs, hqs, hreworded⟩ := ih
    have hhead : qs.head? = rest.head? := by
      obtain ⟨part, hpart, hc⟩ := hcomment
      refine hreworded.head_eq fun other hother => ?_
      obtain rfl := Option.mem_unique hpart hother
      cases part <;> first | exact id | exact absurd hc id
    exact ⟨.margin text :: qs, .margin hne htext (hhead ▸ hcomment) hqs, hreworded.copy nofun⟩
  | literal hquote hinside _ ih =>
    obtain ⟨qs, hqs, hreworded⟩ := ih
    exact ⟨_ :: qs, .literal hquote hinside hqs, hreworded.copy nofun⟩
  | unclosed hquote hinside hlast =>
    exact ⟨_, .unclosed hquote hinside hlast, (Reworded.nil reword).copy nofun⟩
  | @comment fresh text rest htext hnewline _ ih =>
    obtain ⟨qs, hqs, hreworded⟩ := ih
    have hhead : qs.head? = rest.head? := by
      refine hreworded.head_eq fun part hpart => ?_
      rw [hnewline part hpart]
      exact id
    exact ⟨_ :: qs, .comment htext (hhead ▸ hnewline) hqs, hreworded.copy nofun⟩
  | newline _ ih =>
    obtain ⟨qs, hqs, hreworded⟩ := ih
    exact ⟨.newline :: qs, .newline hqs, hreworded.copy nofun⟩

theorem exists_of_code_process {cs text : List Char} (h : .code text ∈ parts (process english.reword cs)) :
    ∃ old, .code old ∈ parts cs ∧ text = english.reword old := by
  obtain ⟨qs, hlaid, hreworded⟩ := (laid_parts cs).exists_reworded fun _ => english_inLine.reword
  rw [process_eq_written rfl, ← hreworded.text_eq, parts, partsFrom_eq_of_laid hlaid] at h
  exact hreworded.exists_old h

theorem count_written {reword : List Char → List Char}
    (hle : ∀ text, (reword text).countP isWordChar ≤ text.countP isWordChar) (ps : List Part) :
    (written reword ps).countP isWordChar ≤ (ps.flatMap Part.text).countP isWordChar ∧
      ((written reword ps).countP isWordChar = (ps.flatMap Part.text).countP isWordChar →
        ∀ text, .code text ∈ ps → (reword text).countP isWordChar = text.countP isWordChar) := by
  induction ps with
  | nil => exact ⟨Nat.le_refl _, fun _ => nofun⟩
  | cons part ps ih =>
    obtain ⟨ihle, iheq⟩ := ih
    have hpart : (part.write reword).countP isWordChar ≤ part.text.countP isWordChar := by
      cases part with
      | code text => exact hle text
      | margin | literal | comment | newline => exact Nat.le_refl _
    rw [written_cons, List.flatMap_cons, List.countP_append, List.countP_append]
    refine ⟨Nat.add_le_add hpart ihle, fun he text hmem => ?_⟩
    rcases List.mem_cons.1 hmem with rfl | hmem
    · have hfirst : (Part.write reword (.code text)).countP isWordChar =
          (Part.code text).text.countP isWordChar := by omega
      exact hfirst
    · exact iheq (by omega) text hmem

theorem process_eq_self_of_code {cs : List Char}
    (h : ∀ text, .code text ∈ parts cs → english.reword text = text) : process english.reword cs = cs := by
  have hwrite : written english.reword (parts cs) = (parts cs).flatMap Part.text := by
    refine List.flatMap_congr fun part hmem => ?_
    cases part with
    | code text => exact h text hmem
    | margin | literal | comment | newline => rfl
  rw [process_eq_written rfl, hwrite, parts, flatMap_text_partsFrom]
  rfl

theorem process_eq_self_iff {cs : List Char} (hneat : ∀ text, .code text ∈ parts cs → Neat false text) :
    process english.reword cs = cs ↔
      ∀ text, .code text ∈ parts cs → ∀ rule ∈ rules, rule.Clear false text := by
  refine ⟨fun he text hmem => ?_, fun hclear => process_eq_self_of_code fun text hmem =>
    reword_eq_self (hneat text hmem) (hclear text hmem)⟩
  have htext : (parts cs).flatMap Part.text = cs := flatMap_text_partsFrom _ _ [] cs
  rw [process_eq_written rfl] at he
  exact clear_of_count_reword ((count_written count_reword_le (parts cs)).2 (by rw [he, htext]) text hmem)

theorem toList_process (source : String) :
    (english.process source).toList = process english.reword source.toList := String.toList_ofList

theorem process_eq_iff (source : String) :
    english.process source = source ↔ process english.reword source.toList = source.toList := by
  rw [← String.toList_inj, toList_process]

def LosesNoWord (source : String) : Prop :=
  ∀ run ∈ (parts source.toList).flatMap Part.words, String.ofList (lower run) ∉ english.removables

instance : DecidablePred LosesNoWord := fun source =>
  inferInstanceAs (Decidable (∀ run ∈ (parts source.toList).flatMap Part.words,
    String.ofList (lower run) ∉ english.removables))

/-- Rewording a source again changes it exactly if there is a phrase in the code that it was reworded to.
That takes a word that was left out. In any case, after the second time nothing changes any more. -/
theorem process_settles (source : String) :
    let once := english.process source
    let twice := english.process once
    (twice = once ↔ ∀ text, .code text ∈ parts once.toList →
      ∀ phrase ∈ english.phrases, phrase.apply text = text) ∧
    (LosesNoWord source → twice = once) ∧ english.process twice = twice := by
  intro once twice
  have honce : once.toList = process english.reword source.toList := toList_process source
  have htwice : twice.toList = process english.reword once.toList := toList_process once
  refine ⟨?_, fun hkept => ?_, ?_⟩
  · have hneat : ∀ text, .code text ∈ parts once.toList → Neat false text := by
      intro text hmem
      rw [honce] at hmem
      obtain ⟨old, -, rfl⟩ := exists_of_code_process hmem
      exact neat_reword old
    rw [process_eq_iff, process_eq_self_iff hneat, english_phrases_eq]
    refine forall₂_congr fun text _ => ?_
    rw [List.forall_mem_map]
    exact forall₂_congr fun rule hrule => (Rule.apply_eq_self_iff hrule text).symm
  · refine (process_eq_iff once).2 (process_eq_self_of_code fun text hmem => ?_)
    rw [honce] at hmem
    obtain ⟨old, hold, rfl⟩ := exists_of_code_process hmem
    refine reword_twice (throughout_kept fun run hrun => english_keeps (hkept run ?_))
    exact List.mem_flatMap.2 ⟨.code old, hold, hrun⟩
  · refine (process_eq_iff twice).2 (process_eq_self_of_code fun text hmem => ?_)
    rw [htwice] at hmem
    obtain ⟨middle, hmiddle, rfl⟩ := exists_of_code_process hmem
    rw [honce] at hmiddle
    obtain ⟨old, -, rfl⟩ := exists_of_code_process hmiddle
    exact reword_thrice old

theorem process_settles_without_end :
    LosesNoWord "set  x to y  plus 1 # then" ∧
      english.process "set  x to y  plus 1 # then" = "var x = y + 1 # then" ∧
      english.process "var x = y + 1 # then" = "var x = y + 1 # then" := by
  have hkept : LosesNoWord "set  x to y  plus 1 # then" := by decide +kernel
  have honce : english.process "set  x to y  plus 1 # then" = "var x = y + 1 # then" := by decide +kernel
  have hsettled := (process_settles "set  x to y  plus 1 # then").2.1 hkept
  rw [honce] at hsettled
  exact ⟨hkept, honce, hsettled⟩

/-- A dropped word may bring the parts of a phrase together. -/
theorem process_twice_differs :
    let once := english.process "a is then greater than b"
    once = "a is greater than b" ∧ english.process once = "a > b" ∧ english.process once ≠ once := by
  intro once
  have honce : once = "a is greater than b" := by decide +kernel
  have htwice : english.process once = "a > b" := by
    rw [honce]
    decide +kernel
  refine ⟨honce, htwice, ?_⟩
  rw [htwice, honce]
  decide

end Source
end Parlance
