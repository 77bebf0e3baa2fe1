import Parlance.Proofs.Phrase.Processing

/-! The rules of the English book as relations between texts. A rule takes words in any letter case with
gaps between them, or such words around a name, and it takes them wherever they stand apart from other
words. What it makes of a text is then said without patterns. -/

namespace Parlance
open Text Pattern Phrasebook

/-! Runs of characters. -/

theorem cons_cut (p : Char → Bool) (c : Char) (cs : List Char) :
    c :: cs = c :: cs.takeWhile p ++ cs.dropWhile p := by
  rw [List.cons_append, List.takeWhile_append_dropWhile]

theorem run_append_inj {p : Char → Bool} {xs ys rest rest' : List Char} (hxs : ∀ c ∈ xs, p c = true)
    (hrest : rest.head?.any p = false) (hys : ∀ c ∈ ys, p c = true) (hrest' : rest'.head?.any p = false)
    (h : xs ++ rest = ys ++ rest') : xs = ys ∧ rest = rest' := by
  have htake := congrArg (List.takeWhile p) h
  rw [takeWhile_append_stop hxs hrest, takeWhile_append_stop hys hrest'] at htake
  subst htake
  exact ⟨rfl, List.append_cancel_left h⟩

theorem isGap_takeWhile {cs : List Char} (h : cs.head?.any isBlank = true) :
    IsGap (cs.takeWhile isBlank) := by
  refine ⟨?_, List.all_eq_true.1 List.all_takeWhile⟩
  cases cs with
  | nil => cases h
  | cons c cs => simp [show isBlank c = true from h]

/-! Reading phrases. -/

namespace Phrased

theorem readWords_unique {ws vs : List String} {cs : List Char} {r q : List Char × List Char}
    (hws : readWords ws cs = some r) (hvs : readWords vs cs = some q) (h : ws.length = vs.length) :
    r = q := by
  induction ws generalizing vs cs r q with
  | nil =>
    obtain rfl := List.length_eq_zero_iff.1 h.symm
    exact Option.some.inj (hws.symm.trans hvs)
  | cons w ws ih =>
    obtain ⟨v, vs, rfl⟩ := List.exists_cons_of_length_eq_add_one h.symm
    have hlength : ws.length = vs.length := Nat.succ.inj h
    have hempty : vs.isEmpty = ws.isEmpty := by
      rw [Bool.eq_iff_iff, List.isEmpty_iff_length_eq_zero, List.isEmpty_iff_length_eq_zero, hlength]
    simp only [readWords, hempty] at hws hvs
    split at hws
    · split at hvs
      · split at hws
        · exact Option.some.inj (hws.symm.trans (by rwa [if_pos ‹_›] at hvs))
        · rw [if_neg ‹_›] at hvs
          split at hws
          · rw [if_pos ‹_›] at hvs
            obtain ⟨r, hr, rfl⟩ := Option.map_eq_some_iff.1 hws
            obtain ⟨q, hq, rfl⟩ := Option.map_eq_some_iff.1 hvs
            rw [ih hr hq hlength]
          · cases hws
      · cases hvs
    · cases hws

theorem of_readWords {w : String} {ws : List String} {cs text rest : List Char}
    (h : readWords (w :: ws) cs = some (text, rest)) :
    cs = text ++ rest ∧ Phrased (w :: ws) text ∧ rest.head?.any isWordChar = false := by
  induction ws generalizing w cs text with
  | nil =>
    rw [readWords] at h
    split at h
    · next hword =>
      cases h
      exact ⟨List.takeWhile_append_dropWhile.symm, .last hword, head_any_dropWhile isWordChar cs⟩
    · cases h
  | cons v ws ih =>
    rw [readWords_cons_cons] at h
    split at h
    · next hword =>
      split at h
      · next hblank =>
        obtain ⟨⟨taken, left⟩, hread, he⟩ := Option.map_eq_some_iff.1 h
        cases he
        obtain ⟨hcs, hphrased, hr⟩ := ih hread
        obtain ⟨tail, htail⟩ : ∃ tail, tail = cs.dropWhile isWordChar := ⟨_, rfl⟩
        rw [← htail] at hblank hcs hread ⊢
        have hgap := isGap_takeWhile hblank
        refine ⟨?_, ?_, hr⟩
        · rw [List.append_assoc, List.append_assoc, ← hcs, List.takeWhile_append_dropWhile, htail,
            List.takeWhile_append_dropWhile]
        · rw [List.append_assoc]
          exact .more hword hgap hphrased
      · cases h
    · cases h

end Phrased

/-! The rules. -/

def IsVariable (name : List Char) : Prop :=
  ∃ c cs, name = c :: cs ∧ nameStart.accepts c = true ∧ ∀ d ∈ cs, nameRest.accepts d = true

inductive Rule where
  | setting
  | wording (r : List String × String)
  | ending
  deriving DecidableEq

namespace Rule

def phrase : Rule → Phrase
  | setting => setPhrase
  | wording r => .ofWords r.1 r.2
  | ending => endPhrase

def closed : List String := ["if", "while", "for", "function"]

inductive Swaps : Rule → List Char → List Char → Prop
  | setting {word gap name gap' word' : List Char} : word.map fold = "set".toList → IsGap gap →
      IsVariable name → IsGap gap' → word'.map fold = "to".toList →
      Swaps setting (word ++ (gap ++ (name ++ (gap' ++ word')))) ("var ".toList ++ (name ++ " =".toList))
  | wording {r : List String × String} {text : List Char} : r ∈ wordings → Phrased r.1 text →
      Swaps (wording r) text r.2.toList
  | ending {w : String} {text : List Char} : w ∈ closed → Phrased ["end", w] text →
      Swaps ending text []

/-- The text begins with one that the rule takes, which stands apart from other words. `inside` says
that a word goes on where the text begins. -/
def Stands (rule : Rule) (inside : Bool) (cs : List Char) : Prop :=
  inside = false ∧ ∃ taken new rest, cs = taken ++ rest ∧ rule.Swaps taken new ∧
    rest.head?.any isWordChar = false

/-- From left to right, the rule swaps the texts that it takes and copies everything else. -/
inductive Makes (rule : Rule) : Bool → List Char → List Char → Prop
  | done (inside : Bool) : Makes rule inside [] []
  | copy {inside : Bool} {c : Char} {cs out : List Char} : ¬rule.Stands inside (c :: cs) →
      Makes rule (isWordChar c) cs out → Makes rule inside (c :: cs) (c :: out)
  | swap {taken new rest out : List Char} : rule.Swaps taken new →
      rest.head?.any isWordChar = false → Makes rule true rest out →
      Makes rule false (taken ++ rest) (new ++ out)

end Rule

/-! What the patterns of the rules match. -/

theorem ends_seq_name_ne_nil {q : Pattern} {s : Spot}
    (h : ends (.seq (.group 1 variableName) q) s ≠ []) :
    ∃ c tail, s.rest = c :: tail ∧ nameStart.accepts c = true := by
  cases hs : s.rest with
  | nil =>
    refine absurd ?_ h
    simp [variableName_eq, ends, hs]
  | cons c tail =>
    refine ⟨c, tail, rfl, ?_⟩
    by_contra hc
    refine h ?_
    simp [variableName_eq, ends, hs, hc]

theorem ends_afterName {s : Spot} (h : s.rest.head?.any nameRest.accepts = true) :
    ends (.seq blanks (.seq (literal "to") (.seq edge .empty))) s = [] := by
  rw [ends_seq_blanks (solid_word (by decide) halts_edge), if_neg]
  intro hb
  obtain ⟨d, hd, hn⟩ := (Option.any_eq_true _ _).1 h
  rw [hd] at hb
  simp [accepts_nameRest_of_isBlank hb] at hn

theorem exists_of_ends_setPhrase {s : Spot} (h : ends setPhrase.pattern s ≠ []) :
    ∃ word gap name gap' word' rest, s.rest = word ++ (gap ++ (name ++ (gap' ++ (word' ++ rest)))) ∧
      word.map fold = "set".toList ∧ IsGap gap ∧ IsVariable name ∧ IsGap gap' ∧
      word'.map fold = "to".toList ∧ rest.head?.any isWordChar = false := by
  have hto : IsWord "to" := by decide
  have hif {c : Prop} [Decidable c] {xs : List Spot} (h : (if c then xs else []) ≠ []) : c ∧ xs ≠ [] := by
    by_cases hc : c
    · exact ⟨hc, by rwa [if_pos hc] at h⟩
    · exact absurd (if_neg hc) h
  rw [show setPhrase.pattern = .seq edge (.seq (literal "set") (.seq blanks
    (.seq (.group 1 variableName) (.seq blanks (.seq (literal "to") (.seq edge .empty)))))) from rfl,
    ends_seq_edge, ends_seq_word (by decide) (solid_variableName _).halts,
    ends_seq_blanks (solid_variableName _)] at h
  obtain ⟨-, h⟩ := hif h
  obtain ⟨hword, h⟩ := hif h
  obtain ⟨hgap, h⟩ := hif h
  obtain ⟨c, tail, htail, hc⟩ := ends_seq_name_ne_nil h
  have hcut := cons_cut nameRest.accepts c tail
  have hname : ∀ d ∈ tail.takeWhile nameRest.accepts, nameRest.accepts d = true :=
    List.all_eq_true.1 List.all_takeWhile
  rw [ends_variableName (fun _ => ends_afterName) hc hname (head_any_dropWhile _ tail)
    (htail.trans hcut), ends_seq_blanks (solid_word hto halts_edge), ends_seq_word hto halts_edge] at h
  obtain ⟨hgap', h⟩ := hif h
  obtain ⟨hword', -⟩ := hif h
  rw [Spot.past_rest] at hgap htail
  rw [Spot.capture_rest, Spot.past_rest] at hgap'
  rw [Spot.past_rest, Spot.capture_rest, Spot.past_rest] at hword'
  refine ⟨_, _, _, _, _, _, ?_, hword, isGap_takeWhile hgap, ⟨c, _, rfl, hc, hname⟩,
    isGap_takeWhile hgap', hword',
    head_any_dropWhile isWordChar ((tail.dropWhile nameRest.accepts).dropWhile isBlank)⟩
  rw [List.takeWhile_append_dropWhile, List.takeWhile_append_dropWhile, ← hcut, ← htail, Spot.past_rest,
    List.takeWhile_append_dropWhile, List.takeWhile_append_dropWhile]

theorem mem_ends_seq {p q : Pattern} {s t : Spot} :
    t ∈ ends (.seq p q) s ↔ ∃ m ∈ ends p s, t ∈ ends q m := List.mem_flatMap

theorem mem_ends_alt {p q : Pattern} {s t : Spot} :
    t ∈ ends (.alt p q) s ↔ t ∈ ends p s ∨ t ∈ ends q s := List.mem_append

theorem mem_ends_endPhrase {s t : Spot} : t ∈ ends endPhrase.pattern s ↔
    ∃ w ∈ Rule.closed, t ∈ ends (Phrase.ofWords ["end", w] "").pattern s := by
  have hwords (w : String) : (Phrase.ofWords ["end", w] "").pattern =
    .seq edge (.seq (literal "end") (.seq blanks (.seq (literal w) (.seq edge .empty)))) := rfl
  rw [show endPhrase.pattern = .seq edge (.seq (literal "end") (.seq blanks
    (.seq (.alt (literal "if") (.alt (literal "while") (.alt (literal "for") (literal "function"))))
      (.seq edge .empty)))) from rfl]
  simp only [hwords, mem_ends_seq, mem_ends_alt, Rule.closed, List.mem_cons, List.not_mem_nil]
  constructor
  · rintro ⟨a, ha, b, hb, c, hc, d, hd | hd | hd | hd, ht⟩
    · exact ⟨"if", by simp, a, ha, b, hb, c, hc, d, hd, ht⟩
    · exact ⟨"while", by simp, a, ha, b, hb, c, hc, d, hd, ht⟩
    · exact ⟨"for", by simp, a, ha, b, hb, c, hc, d, hd, ht⟩
    · exact ⟨"function", by simp, a, ha, b, hb, c, hc, d, hd, ht⟩
  · rintro ⟨w, rfl | rfl | rfl | rfl | hw, a, ha, b, hb, c, hc, d, hd, ht⟩
    · exact ⟨a, ha, b, hb, c, hc, d, .inl hd, ht⟩
    · exact ⟨a, ha, b, hb, c, hc, d, .inr (.inl hd), ht⟩
    · exact ⟨a, ha, b, hb, c, hc, d, .inr (.inr (.inl hd)), ht⟩
    · exact ⟨a, ha, b, hb, c, hc, d, .inr (.inr (.inr hd)), ht⟩
    · cases hw

def rules : List Rule := .setting :: wordings.map .wording ++ [.ending]

theorem english_phrases_eq : english.phrases = rules.map Rule.phrase := rfl

namespace Rule

theorem cases_of_mem {rule : Rule} (h : rule ∈ rules) :
    rule = setting ∨ (∃ r ∈ wordings, rule = wording r) ∨ rule = ending := by
  rw [rules, List.cons_append, List.mem_cons, List.mem_append, List.mem_singleton, List.mem_map] at h
  rcases h with h | ⟨r, hr, rfl⟩ | h
  · exact .inl h
  · exact .inr (.inl ⟨r, hr, rfl⟩)
  · exact .inr (.inr h)

theorem isWord_of_mem_closed : ∀ w ∈ closed, ∀ v ∈ ["end", w], IsWord v := by decide

theorem Swaps.words {rule : Rule} {taken new : List Char} (h : rule.Swaps taken new) :
    rule = .setting ∨ ∃ w ws, Phrased (w :: ws) taken ∧ ∀ v ∈ w :: ws, IsWord v := by
  cases h with
  | setting => exact .inl rfl
  | @wording r _ hr hp =>
    obtain ⟨hne, hwords⟩ := isWord_of_mem_wordings r hr
    obtain ⟨w, ws, he⟩ := List.exists_cons_of_ne_nil hne
    exact .inr ⟨w, ws, he ▸ hp, he ▸ hwords⟩
  | @ending w _ hw hp => exact .inr ⟨"end", [w], hp, isWord_of_mem_closed w hw⟩

theorem Swaps.head_isWordChar {rule : Rule} {taken new : List Char} (h : rule.Swaps taken new) :
    taken.head?.any isWordChar = true := by
  rcases h.words with rfl | ⟨w, ws, hp, hwords⟩
  · cases h with
    | @setting word gap name gap' word' hword =>
      have hset : IsWord "set" := by decide
      obtain ⟨c, cs, rfl⟩ := List.exists_cons_of_ne_nil (hset.ne_nil hword)
      exact hset.isWordChar hword c (by simp)
  · exact hp.head_isWordChar (hwords w (by simp))

theorem Swaps.getLast_isWordChar {rule : Rule} {taken new : List Char} (h : rule.Swaps taken new) :
    taken.getLast?.any isWordChar = true := by
  rcases h.words with rfl | ⟨w, ws, hp, hwords⟩
  · cases h with
    | @setting word gap name gap' word' _ _ _ _ hword =>
      have hto : Phrased ["to"] word' := .last hword
      obtain ⟨l, hl, hw⟩ := (Option.any_eq_true _ _).1 (hto.getLast_isWordChar (by decide))
      simpa [List.getLast?_append, hl] using hw
  · exact hp.getLast_isWordChar hwords

theorem Swaps.taken_ne_nil {rule : Rule} {taken new : List Char} (h : rule.Swaps taken new) :
    taken ≠ [] := by
  rintro rfl
  exact absurd h.head_isWordChar (by decide)

theorem Swaps.matchAt_eq {rule : Rule} {taken new : List Char} (h : rule.Swaps taken new)
    {previous : Option Char} (hp : previous.any isWordChar = false) {rest : List Char}
    (hr : rest.head?.any isWordChar = false) (n : Nat) :
    ∃ t, matchAt rule.phrase.pattern ⟨n, previous, taken ++ rest, []⟩ = some t ∧
      t.position = n + taken.length ∧
      expand rule.phrase.names rule.phrase.replacement ⟨n, previous, taken ++ rest, []⟩ t = new := by
  cases h with
  | @setting word gap name gap' word' hword hgap hname hgap' hword' =>
    obtain ⟨c, cs, hcons, hc, hcs⟩ := hname
    have htext : (word ++ (gap ++ (name ++ (gap' ++ word')))) ++ rest =
        word ++ (gap ++ (name ++ (gap' ++ (word' ++ rest)))) := by simp only [List.append_assoc]
    have hends := ends_setPhrase hword hgap hcons hc hcs hgap' hword' hr
      (s := ⟨n, previous, (word ++ (gap ++ (name ++ (gap' ++ word')))) ++ rest, []⟩) htext hp
    exact ⟨_, congrArg List.head? hends, rfl, Wording.Setting.expand_setPhrase _ _ _⟩
  | @wording r _ hr' hphrased =>
    have hends := Wording.ends_wording hr' (s := ⟨n, previous, taken ++ rest, []⟩) hp
    rw [hphrased.readWords_eq (isWord_of_mem_wordings r hr').2 hr] at hends
    exact ⟨_, congrArg List.head? hends, rfl, Wording.expand_wording hr' _ _⟩
  | @ending w _ hw hphrased =>
    have hends {v : String} (hv : v ∈ closed) :=
      ends_ofWords (isWord_of_mem_closed v hv) "" (s := ⟨n, previous, taken ++ rest, []⟩) hp
    have hread := hphrased.readWords_eq (isWord_of_mem_closed w hw) hr
    have hfound : ends endPhrase.pattern ⟨n, previous, taken ++ rest, []⟩ ≠ [] := by
      intro hnil
      have hnone : Spot.past ⟨n, previous, taken ++ rest, []⟩ taken rest ∉ ends endPhrase.pattern _ :=
        hnil ▸ List.not_mem_nil
      refine hnone (mem_ends_endPhrase.2 ⟨w, hw, ?_⟩)
      rw [hends hw, hread]
      exact List.mem_singleton.2 rfl
    obtain ⟨t, ts, hcons⟩ := List.exists_cons_of_ne_nil hfound
    refine ⟨t, by rw [matchAt, phrase, hcons]; rfl, ?_, rfl⟩
    -- whichever word was found after `end`, the match goes up to its edge
    obtain ⟨v, hv, ht⟩ := mem_ends_endPhrase.1 (hcons ▸ List.mem_cons_self)
    rw [hends hv, Option.mem_toList, Option.map_eq_some_iff] at ht
    obtain ⟨r, hr', rfl⟩ := ht
    rw [Phrased.readWords_unique hr' hread rfl]
    rfl

theorem stands_of_ends {rule : Rule} (h : rule ∈ rules) {n : Nat} {previous : Option Char}
    {cs : List Char} (hends : ends rule.phrase.pattern ⟨n, previous, cs, []⟩ ≠ []) :
    rule.Stands (previous.any isWordChar) cs := by
  rcases cases_of_mem h with rfl | ⟨r, hr, rfl⟩ | rfl
  · obtain ⟨word, gap, name, gap', word', rest, hcs, hword, hgap, hname, hgap', hword', hrest⟩ :=
      exists_of_ends_setPhrase hends
    refine ⟨(leads_setPhrase.starts _ hends).1, _, _, rest, ?_,
      .setting hword hgap hname hgap' hword', hrest⟩
    simpa only [List.append_assoc] using hcs
  · obtain ⟨hne, hwords⟩ := isWord_of_mem_wordings r hr
    obtain ⟨w, ws, he⟩ := List.exists_cons_of_ne_nil hne
    have hp : previous.any isWordChar = false := by
      have hleads := leads_ofWords (he ▸ hwords) r.2
      rw [← he] at hleads
      exact (hleads.starts _ hends).1
    rw [phrase, Wording.ends_wording hr hp] at hends
    cases hread : readWords r.1 cs with
    | none =>
      rw [hread] at hends
      exact absurd rfl hends
    | some q =>
      rw [he] at hread
      obtain ⟨hcs, hphrased, hrest⟩ := Phrased.of_readWords hread
      exact ⟨hp, q.1, _, q.2, hcs, .wording hr (he ▸ hphrased), hrest⟩
  · have hp := (leads_endPhrase.starts _ hends).1
    obtain ⟨t, ts, hcons⟩ := List.exists_cons_of_ne_nil hends
    obtain ⟨w, hw, ht⟩ := mem_ends_endPhrase.1 (hcons ▸ List.mem_cons_self)
    rw [ends_ofWords (isWord_of_mem_closed w hw) "" hp, Option.mem_toList, Option.map_eq_some_iff] at ht
    obtain ⟨⟨taken, rest⟩, hread, -⟩ := ht
    obtain ⟨hcs, hphrased, hrest⟩ := Phrased.of_readWords hread
    exact ⟨hp, taken, _, rest, hcs, .ending hw hphrased, hrest⟩

theorem Stands.ne_nil {rule : Rule} {inside : Bool} {cs : List Char} (h : rule.Stands inside cs) :
    cs ≠ [] := by
  obtain ⟨-, taken, new, rest, rfl, hswaps, -⟩ := h
  exact List.append_ne_nil_of_left_ne_nil hswaps.taken_ne_nil rest

theorem Makes.rewrites {rule : Rule} (hrule : rule ∈ rules) {inside : Bool} {cs out : List Char}
    (h : rule.Makes inside cs out) {previous : Option Char} (hp : previous.any isWordChar = inside) :
    Rewrites rule.phrase.pattern (expand rule.phrase.names rule.phrase.replacement) previous cs out := by
  induction h generalizing previous with
  | done inside =>
    refine .done fun n => ?_
    by_contra hends
    exact (stands_of_ends hrule hends).ne_nil rfl
  | @copy inside c cs out hstands _ ih =>
    refine .copy (fun n => ?_) (ih rfl)
    by_contra hends
    exact hstands (hp ▸ stands_of_ends hrule hends)
  | @swap taken new rest out hswaps hrest _ ih =>
    refine .swap hswaps.taken_ne_nil (hswaps.matchAt_eq hp hrest) (ih ?_)
    obtain ⟨l, hl, hw⟩ := (Option.any_eq_true _ _).1 hswaps.getLast_isWordChar
    rw [hl]
    exact hw

theorem exists_makes (rule : Rule) (inside : Bool) (cs : List Char) : ∃ out, rule.Makes inside cs out := by
  induction hn : cs.length using Nat.strongRecOn generalizing inside cs with
  | ind n ih =>
    subst hn
    cases cs with
    | nil => exact ⟨[], .done inside⟩
    | cons c cs =>
      by_cases hstands : rule.Stands inside (c :: cs)
      · obtain ⟨rfl, taken, new, rest, he, hswaps, hrest⟩ := hstands
        have hlt : rest.length < (c :: cs).length := by
          have hpos := List.length_pos_of_ne_nil hswaps.taken_ne_nil
          rw [he, List.length_append]
          omega
        obtain ⟨out, hout⟩ := ih _ hlt true rest rfl
        exact ⟨new ++ out, he ▸ .swap hswaps hrest hout⟩
      · obtain ⟨out, hout⟩ := ih _ (Nat.lt_succ_self _) (isWordChar c) cs rfl
        exact ⟨c :: out, .copy hstands hout⟩

theorem makes_apply {rule : Rule} (h : rule ∈ rules) (cs : List Char) :
    rule.Makes false cs (rule.phrase.apply cs) := by
  obtain ⟨out, hout⟩ := exists_makes rule false cs
  have hstart : (none : Option Char).any isWordChar = false := rfl
  have happly : rule.phrase.apply cs = out := (hout.rewrites h hstart).replaceAll_eq
  rwa [happly]

end Rule
end Parlance
