import Parlance.Proofs.Text.Variants
import Parlance.Phrase.Book

/-! Matching the words of a phrase. A word of a pattern takes a whole word of the text, because what
comes after it in the pattern does not match inside a word, and blanks of a pattern take a whole run
of blanks, because no word begins with one. So although a pattern is matched by trying ends one after
another, a phrase of words is read in one go. -/

namespace Parlance.Pattern
open Text (isWordChar isBlank fold)

def Spot.past (s : Spot) (cs rest : List Char) : Spot :=
  { s with position := s.position + cs.length, previous := cs.getLast?.or s.previous, rest }

@[simp] theorem Spot.past_rest (s : Spot) (cs rest : List Char) : (s.past cs rest).rest = rest := rfl

theorem Spot.past_nil (s : Spot) : s.past [] s.rest = s := rfl

theorem Spot.past_past (s : Spot) (cs ds rest rest' : List Char) :
    (s.past cs rest).past ds rest' = s.past (cs ++ ds) rest' := by
  simp [Spot.past, List.getLast?_append, Option.or_assoc, Nat.add_assoc]

theorem ends_seq_char (test : CharTest) (q : Pattern) (s : Spot) : ends (.seq (.char test) q) s =
    match s.rest with
    | [] => []
    | c :: rest => if test.accepts c then ends q (s.past [c] rest) else [] := by
  cases hr : s.rest with
  | nil => simp [ends, hr]
  | cons c rest =>
    by_cases hc : test.accepts c = true <;> simp [ends, hr, hc, Spot.past]

theorem ends_seq_edge (q : Pattern) (s : Spot) :
    ends (.seq edge q) s = if isEdge s then ends q s else [] := by
  by_cases h : isEdge s = true <;> simp [ends, edge, PlaceTest.holds, h]

/-! Words. -/

def IsWord (w : String) : Prop := w.toList ≠ [] ∧ ∀ c ∈ w.toList, c.isLower = true

instance (w : String) : Decidable (IsWord w) := inferInstanceAs (Decidable (_ ∧ _))

/-- The pattern has no end at a spot inside a word. -/
def Halts (q : Pattern) : Prop :=
  ∀ s : Spot, s.previous.any isWordChar = true → s.rest.head?.any isWordChar = true → ends q s = []

theorem ends_seq_chars (cs : List Char) (q : Pattern) (s : Spot) :
    ends (.seq (concat (cs.map fun c => char (.literal c))) q) s =
      if (s.rest.take cs.length).map fold = cs.map fold then
        ends q (s.past (s.rest.take cs.length) (s.rest.drop cs.length))
      else [] := by
  induction cs generalizing s with
  | nil => simp [concat, ends, Spot.past_nil]
  | cons c cs ih =>
    have hassoc : ends (.seq (concat ((c :: cs).map fun c => char (.literal c))) q) s =
        ends (.seq (char (.literal c)) (.seq (concat (cs.map fun c => char (.literal c))) q)) s := by
      simp [concat, ends, List.flatMap_assoc]
    rw [hassoc, ends_seq_char]
    cases hr : s.rest with
    | nil => simp
    | cons d rest =>
      by_cases hd : fold d = fold c
      · simp [CharTest.accepts, hd, ih, Spot.past_past]
      · simp [CharTest.accepts, hd]

theorem fold_of_isLower {c : Char} (h : c.isLower = true) : fold c = c :=
  (Text.table_of_isLower h).2 c List.mem_cons_self

theorem IsWord.map_fold {w : String} (h : IsWord w) : w.toList.map fold = w.toList := by
  conv => rhs; rw [← List.map_id w.toList]
  exact List.map_congr_left fun c hc => fold_of_isLower (h.2 c hc)

theorem IsWord.isWordChar {w : String} (h : IsWord w) {cs : List Char}
    (hcs : cs.map fold = w.toList) : ∀ c ∈ cs, isWordChar c = true := by
  intro c hc
  refine Text.isWordChar_of_isLower_fold (h.2 _ ?_)
  rw [← hcs]
  exact List.mem_map_of_mem hc

theorem IsWord.ne_nil {w : String} (h : IsWord w) {cs : List Char} (hcs : cs.map fold = w.toList) :
    cs ≠ [] := by
  rintro rfl
  exact h.1 hcs.symm

theorem ends_seq_word {w : String} (hw : IsWord w) {q : Pattern} (hq : Halts q) (s : Spot) :
    ends (.seq (literal w) q) s =
      if (s.rest.takeWhile isWordChar).map fold = w.toList then
        ends q (s.past (s.rest.takeWhile isWordChar) (s.rest.dropWhile isWordChar))
      else [] := by
  rw [literal, ends_seq_chars, hw.map_fold]
  by_cases ht : (s.rest.take w.toList.length).map fold = w.toList
  · rw [if_pos ht]
    obtain ⟨cs, hcs⟩ : ∃ cs, s.rest.take w.toList.length = cs := ⟨_, rfl⟩
    obtain ⟨ds, hds⟩ : ∃ ds, s.rest.drop w.toList.length = ds := ⟨_, rfl⟩
    have hr : s.rest = cs ++ ds := by rw [← hcs, ← hds, List.take_append_drop]
    rw [hcs] at ht
    rw [hcs, hds, hr, List.takeWhile_append_of_pos (hw.isWordChar ht),
      List.dropWhile_append_of_pos (hw.isWordChar ht)]
    cases ds with
    | nil => simp [ht]
    | cons d ds =>
      by_cases hd : isWordChar d = true
      · -- The text goes on with the word, which is therefore longer than the one looked for.
        have hne : (cs ++ (d :: ds).takeWhile isWordChar).map fold ≠ w.toList := by
          intro he
          have hl := congrArg List.length (he.trans ht.symm)
          simp [hd] at hl
        have hcne : cs ≠ [] := by
          rintro rfl
          exact hw.1 ht.symm
        rw [if_neg hne]
        refine hq _ ?_ (by simpa [Spot.past] using hd)
        obtain ⟨l, hl⟩ := List.getLast?_isSome.2 hcne |> Option.isSome_iff_exists.1
        simpa [Spot.past, hl] using hw.isWordChar ht l (List.mem_of_getLast? hl)
      · simp [hd, ht]
  · rw [if_neg ht, if_neg]
    intro he
    have hl : (s.rest.takeWhile isWordChar).length = w.toList.length := by
      rw [← he, List.length_map]
    have hp := List.prefix_iff_eq_take.1 ( List.takeWhile_prefix (l := s.rest) isWordChar)
    rw [hl] at hp
    exact ht (hp ▸ he)

/-! Runs. -/

theorem flatMap_explore {α : Type} {test : CharTest} {f : Spot → List α}
    (hf : ∀ s : Spot, s.rest.head?.any test.accepts = true → f s = []) (n : Nat) (s : Spot)
    (hn : s.rest.length ≤ n) : (explore (ends (.char test)) true n s []).reverse.flatMap f =
      f (s.past (s.rest.takeWhile test.accepts) (s.rest.dropWhile test.accepts)) := by
  induction n generalizing s with
  | zero =>
    have hr : s.rest = [] := List.eq_nil_of_length_eq_zero (Nat.le_zero.1 hn)
    have hs := s.past_nil
    rw [hr] at hs
    simp [explore, note, hr, hs]
  | succ n ih =>
    cases hr : s.rest with
    | nil =>
      have hs := s.past_nil
      rw [hr] at hs
      simp [explore, ends, hr, hs]
    | cons c rest =>
      by_cases hc : test.accepts c = true
      · have hstep : ends (.char test) s = [s.past [c] rest] := by simp [ends, hr, hc, Spot.past]
        have hlt : s.position < (s.past [c] rest).position := Nat.lt_succ_self _
        rw [hr, List.length_cons] at hn
        simp only [explore, List.any_nil, Bool.false_eq_true, if_false, if_true, hstep,
          List.foldl_cons, List.foldl_nil, if_pos hlt, List.reverse_cons, List.flatMap_append,
          List.flatMap_cons, List.flatMap_nil, List.append_nil]
        rw [ih _ (Nat.le_of_succ_le_succ hn), hf s (by simp [hr, hc]), Spot.past_rest, Spot.past_past,
          List.takeWhile_cons_of_pos hc, List.dropWhile_cons_of_pos hc]
        simp
      · have hstep : ends (.char test) s = [] := by simp [ends, hr, hc]
        have hs := s.past_nil
        rw [hr] at hs
        simp [explore, hstep, hc, hs]

theorem flatMap_ends_plus {α : Type} {test : CharTest} {f : Spot → List α}
    (hf : ∀ s : Spot, s.rest.head?.any test.accepts = true → f s = []) (s : Spot) :
    (ends (.plus (.char test) true) s).flatMap f =
      if s.rest.head?.any test.accepts then
        f (s.past (s.rest.takeWhile test.accepts) (s.rest.dropWhile test.accepts))
      else [] := by
  cases hr : s.rest with
  | nil => simp [ends, repeatedly, hr]
  | cons c rest =>
    by_cases hc : test.accepts c = true
    · have hstep : ends (.char test) s = [s.past [c] rest] := by simp [ends, hr, hc, Spot.past]
      have hlt : s.position < (s.past [c] rest).position := Nat.lt_succ_self _
      rw [show ends (.plus (.char test) true) s = repeatedly (ends (.char test)) true s from rfl]
      simp only [repeatedly, hstep, List.foldl_cons, List.foldl_nil, if_pos hlt]
      rw [flatMap_explore hf _ _ (by simp [hr]), Spot.past_rest, Spot.past_past]
      simp [hc]
    · simp [ends, repeatedly, hr, hc]

/-- The pattern has no end at a spot before a blank. -/
def Solid (q : Pattern) : Prop := ∀ s : Spot, s.rest.head?.any isBlank = true → ends q s = []

theorem ends_seq_blanks {q : Pattern} (hq : Solid q) (s : Spot) : ends (.seq blanks q) s =
    if s.rest.head?.any isBlank then
      ends q (s.past (s.rest.takeWhile isBlank) (s.rest.dropWhile isBlank))
    else [] := by
  have ha : (CharTest.oneOf false [.blank false]).accepts = isBlank := funext Text.accepts_blank
  have h : (ends blanks s).flatMap (ends q) = _ := flatMap_ends_plus (by rw [ha]; exact hq) s
  rwa [ha] at h

theorem Solid.halts {q : Pattern} (hq : Solid q) : Halts (.seq blanks q) := by
  intro s _ hn
  rw [ends_seq_blanks hq, if_neg]
  obtain ⟨c, hc, hw⟩ := (Option.any_eq_true _ _).1 hn
  simp [hc, Text.isBlank_of_isWordChar hw]

theorem halts_edge : Halts (.seq edge .empty) := by
  intro s hp hn
  rw [ends_seq_edge, if_neg]
  simp [isEdge, hp, hn]

theorem takeWhile_isWordChar_of_isBlank {cs : List Char} (h : cs.head?.any isBlank = true) :
    cs.takeWhile isWordChar = [] := by
  cases cs with
  | nil => rfl
  | cons c cs => simp [Text.isWordChar_of_isBlank (show isBlank c = true from h)]

theorem solid_word {w : String} (hw : IsWord w) {q : Pattern} (hq : Halts q) :
    Solid (.seq (literal w) q) := by
  intro s hs
  rw [ends_seq_word hw hq, takeWhile_isWordChar_of_isBlank hs, if_neg]
  exact fun h => hw.1 h.symm

/-- The pattern matches only at a word that folds to `w`. -/
structure Leads (w : String) (p : Pattern) : Prop where
  isWord : IsWord w
  starts (s : Spot) : ends p s ≠ [] →
    s.previous.any isWordChar = false ∧ (s.rest.takeWhile isWordChar).map fold = w.toList

theorem leads_edge_word {w : String} (hw : IsWord w) {q : Pattern} (hq : Halts q) :
    Leads w (.seq edge (.seq (literal w) q)) := by
  refine ⟨hw, fun s hs => ?_⟩
  rw [ends_seq_edge, ends_seq_word hw hq] at hs
  split at hs
  · next he =>
    split at hs
    · next hword =>
      refine ⟨?_, hword⟩
      cases hr : s.rest with
      | nil =>
        rw [hr] at hword
        exact absurd hword.symm hw.1
      | cons c rest =>
        by_cases hc : isWordChar c = true
        · simpa [isEdge, hr, hc] using he
        · rw [hr, List.takeWhile_cons_of_neg hc] at hword
          exact absurd hword.symm hw.1
    · exact absurd rfl hs
  · exact absurd rfl hs

/-! Phrases of words. -/

def wordRun (ws : List String) : Pattern :=
  concat ((ws.map literal).intersperse blanks ++ [edge])

theorem wordRun_cons_cons (w v : String) (ws : List String) :
    wordRun (w :: v :: ws) = .seq (literal w) (.seq blanks (wordRun (v :: ws))) := rfl

/-- Reads words that are spelled in any case and have blanks between them. Gives the text that they
take up and what is left. -/
def readWords : List String → List Char → Option (List Char × List Char)
  | [], cs => some ([], cs)
  | w :: ws, cs =>
    let word := cs.takeWhile isWordChar
    let rest := cs.dropWhile isWordChar
    if word.map fold = w.toList then
      if ws.isEmpty then some (word, rest)
      else if rest.head?.any isBlank then
        (readWords ws (rest.dropWhile isBlank)).map fun (taken, left) =>
          (word ++ rest.takeWhile isBlank ++ taken, left)
      else none
    else none

theorem readWords_cons_cons (w v : String) (ws : List String) (cs : List Char) :
    readWords (w :: v :: ws) cs =
      if (cs.takeWhile isWordChar).map fold = w.toList then
        if (cs.dropWhile isWordChar).head?.any isBlank then
          (readWords (v :: ws) ((cs.dropWhile isWordChar).dropWhile isBlank)).map fun r =>
            (cs.takeWhile isWordChar ++ (cs.dropWhile isWordChar).takeWhile isBlank ++ r.1, r.2)
        else none
      else none := rfl

theorem ends_edge_past (cs : List Char) (h : cs.takeWhile isWordChar ≠ []) (s : Spot) :
    ends (.seq edge .empty) (s.past (cs.takeWhile isWordChar) (cs.dropWhile isWordChar)) =
      [s.past (cs.takeWhile isWordChar) (cs.dropWhile isWordChar)] := by
  obtain ⟨l, hl⟩ := Option.isSome_iff_exists.1 (List.getLast?_isSome.2 h)
  have hw : isWordChar l = true :=
    List.all_eq_true.1 List.all_takeWhile l (List.mem_of_getLast? hl)
  have hn := Text.head_any_dropWhile isWordChar cs
  rw [ends_seq_edge, if_pos]
  · rfl
  · simp [isEdge, Spot.past, hl, hw, hn]

theorem wordRun_spec {w : String} {ws : List String} (h : ∀ v ∈ w :: ws, IsWord v) :
    Solid (wordRun (w :: ws)) ∧ ∀ s, ends (wordRun (w :: ws)) s =
      ((readWords (w :: ws) s.rest).map fun r => s.past r.1 r.2).toList := by
  induction ws generalizing w with
  | nil =>
    have hw := h w (by simp)
    refine ⟨solid_word hw halts_edge, fun s => ?_⟩
    rw [show wordRun [w] = .seq (literal w) (.seq edge .empty) from rfl,
      ends_seq_word hw halts_edge]
    by_cases hword : (s.rest.takeWhile isWordChar).map fold = w.toList
    · simp [readWords, hword, ends_edge_past _ (hw.ne_nil hword)]
    · simp [readWords, hword]
  | cons v ws ih =>
    have hw := h w (by simp)
    obtain ⟨hsolid, hends⟩ := ih fun u hu => h u (List.mem_cons_of_mem w hu)
    rw [wordRun_cons_cons]
    refine ⟨solid_word hw hsolid.halts, fun s => ?_⟩
    rw [ends_seq_word hw hsolid.halts, ends_seq_blanks hsolid, hends, readWords_cons_cons]
    by_cases hword : (s.rest.takeWhile isWordChar).map fold = w.toList
    · by_cases hblank : (s.rest.dropWhile isWordChar).head?.any isBlank = true
      · simp only [Spot.past_past, Spot.past_rest, hword, hblank, if_true, Option.map_map,
          Function.comp_def]
      · simp [hword, hblank]
    · simp [hword]

theorem ends_ofWords {w : String} {ws : List String} (h : ∀ v ∈ w :: ws, IsWord v)
    (replacement : String) {s : Spot} (hs : s.previous.any isWordChar = false) :
    ends (Phrase.ofWords (w :: ws) replacement).pattern s =
      ((readWords (w :: ws) s.rest).map fun r => s.past r.1 r.2).toList := by
  rw [show (Phrase.ofWords (w :: ws) replacement).pattern = .seq edge (wordRun (w :: ws)) from rfl,
    ends_seq_edge, (wordRun_spec h).2]
  split
  · rfl
  · next he =>
    have hn : s.rest.head?.any isWordChar = false := by simpa [isEdge, hs] using he
    have hnil : s.rest.takeWhile isWordChar = [] := by
      cases hr : s.rest with
      | nil => rfl
      | cons c rest =>
        rw [hr] at hn
        exact List.takeWhile_cons_of_neg (by simpa using hn)
    have hne : w.toList ≠ [] := (h w (by simp)).1
    simp [readWords, hnil, Ne.symm hne]

theorem leads_ofWords {w : String} {ws : List String} (h : ∀ v ∈ w :: ws, IsWord v)
    (replacement : String) : Leads w (Phrase.ofWords (w :: ws) replacement).pattern := by
  cases ws with
  | nil => exact leads_edge_word (h w (by simp)) halts_edge
  | cons v ws =>
    have hv : ∀ u ∈ v :: ws, IsWord u := fun u hu => h u (List.mem_cons_of_mem w hu)
    exact leads_edge_word (h w (by simp)) (wordRun_spec hv).1.halts

/-! The two phrases that are not only words. -/

def nameStart : CharTest := .oneOf false [.range 'A' 'Z', .range 'a' 'z', .range '_' '_']

def nameRest : CharTest := .oneOf false [.word false, .range '.' '.']

theorem accepts_nameStart_of_isBlank {c : Char} (h : isBlank c = true) :
    nameStart.accepts c = false := by
  rw [nameStart, Text.accepts_of_isBlank h, ← Bool.not_eq_true']
  exact Text.forall_isBlank (p := fun c => !List.any [ClassItem.range 'A' 'Z', .range 'a' 'z',
    .range '_' '_'] (·.holds c)) (by decide) h

theorem accepts_nameRest_of_isBlank {c : Char} (h : isBlank c = true) :
    nameRest.accepts c = false := by
  have hdot := Text.forall_isBlank (p := fun c => !(ClassItem.range '.' '.').holds c) (by decide) h
  rw [Bool.not_eq_true'] at hdot
  rw [nameRest, Text.accepts_of_isBlank h]
  simp [ClassItem.holds, Text.isWordChar_of_isBlank h] at hdot ⊢
  exact hdot

theorem variableName_eq : Phrasebook.variableName =
    .seq (.char nameStart) (.seq (star (.char nameRest) true) .empty) := rfl

theorem solid_variableName (q : Pattern) : Solid (.seq (.group 1 Phrasebook.variableName) q) := by
  intro s hs
  have hnone : ends Phrasebook.variableName s = [] := by
    rw [variableName_eq, ends_seq_char]
    cases hr : s.rest with
    | nil => rfl
    | cons c rest =>
      rw [hr] at hs
      simp [accepts_nameStart_of_isBlank (show isBlank c = true from hs)]
  simp [ends, hnone]

def Spot.capture (s : Spot) (index : Nat) (cs : List Char) : Spot :=
  { s with groups := (index, cs) :: s.groups }

@[simp] theorem Spot.capture_rest (s : Spot) (index : Nat) (cs : List Char) :
    (s.capture index cs).rest = s.rest := rfl

theorem Spot.past_capture (s : Spot) (index : Nat) (cs ds rest : List Char) :
    (s.capture index cs).past ds rest = (s.past ds rest).capture index cs := rfl

theorem ends_variableName {q : Pattern}
    (hq : ∀ s : Spot, s.rest.head?.any nameRest.accepts = true → ends q s = []) {c : Char}
    {cs rest : List Char} (hc : nameStart.accepts c = true)
    (hcs : ∀ d ∈ cs, nameRest.accepts d = true) (hrest : rest.head?.any nameRest.accepts = false)
    {s : Spot} (hs : s.rest = c :: cs ++ rest) :
    ends (.seq (.group 1 Phrasebook.variableName) q) s =
      ends q ((s.past (c :: cs) rest).capture 1 (c :: cs)) := by
  obtain ⟨f, hf⟩ : ∃ f : Spot → List Spot, f = fun t => ends q (t.capture 1 (s.upTo t)) := ⟨_, rfl⟩
  have hkill : ∀ t : Spot, t.rest.head?.any nameRest.accepts = true → f t = [] := by
    intro t ht
    rw [hf]
    exact hq _ ht
  have hlast : f (s.past (c :: cs) rest) =
      ends q ((s.past (c :: cs) rest).capture 1 (c :: cs)) := by
    simp [hf, Spot.past, Spot.upTo, hs]
  have hflat : ends (.seq (.group 1 Phrasebook.variableName) q) s =
      (ends (.plus (.char nameRest) true) (s.past [c] (cs ++ rest))).flatMap f ++
        f (s.past [c] (cs ++ rest)) := by
    have hv : ends Phrasebook.variableName s =
        ends (.plus (.char nameRest) true) (s.past [c] (cs ++ rest)) ++
          [s.past [c] (cs ++ rest)] := by
      rw [variableName_eq, ends_seq_char, hs]
      simp [hc, star, ends]
    simp [ends, hv, hf, List.flatMap_map, Spot.capture]
  rw [hflat, flatMap_ends_plus hkill, Spot.past_rest, Text.takeWhile_append_stop hcs hrest,
    Text.dropWhile_append_stop hcs hrest, Spot.past_past, ← hlast]
  cases cs with
  | nil => simp [hrest]
  | cons d cs =>
    have hd : nameRest.accepts d = true := hcs d (by simp)
    rw [hkill (s.past [c] (d :: cs ++ rest)) (by simpa using hd), List.append_nil]
    simp [hd]

theorem ends_setPhrase {word gap name gap' word' rest : List Char} {c : Char} {cs : List Char}
    (hword : word.map fold = "set".toList) (hgap : Text.IsGap gap) (hname : name = c :: cs)
    (hc : nameStart.accepts c = true) (hcs : ∀ d ∈ cs, nameRest.accepts d = true)
    (hgap' : Text.IsGap gap') (hword' : word'.map fold = "to".toList)
    (hrest : rest.head?.any isWordChar = false) {s : Spot}
    (hs : s.rest = word ++ (gap ++ (name ++ (gap' ++ (word' ++ rest)))))
    (hp : s.previous.any isWordChar = false) :
    ends Phrasebook.setPhrase.pattern s =
      [(s.past (word ++ (gap ++ (name ++ (gap' ++ word')))) rest).capture 1 name] := by
  have hset : IsWord "set" := by decide
  have hto : IsWord "to" := by decide
  rw [show Phrasebook.setPhrase.pattern = .seq edge (.seq (literal "set") (.seq blanks
    (.seq (.group 1 Phrasebook.variableName) (.seq blanks (.seq (literal "to")
      (.seq edge .empty)))))) from rfl]
  have hedge : isEdge s = true := by
    obtain ⟨d, ds, rfl⟩ := List.exists_cons_of_ne_nil (hset.ne_nil hword)
    have hd := hset.isWordChar hword d (by simp)
    simp [isEdge, hp, hs, hd]
  have hsolid := solid_word hto halts_edge
  have hnamed : ∀ t : Spot, t.rest.head?.any nameRest.accepts = true →
      ends (.seq blanks (.seq (literal "to") (.seq edge .empty))) t = [] := by
    intro t ht
    rw [ends_seq_blanks hsolid, if_neg]
    intro hb
    obtain ⟨d, hd, hn⟩ := (Option.any_eq_true _ _).1 ht
    rw [hd] at hb
    simp [accepts_nameRest_of_isBlank hb] at hn
  have hend : (gap' ++ (word' ++ rest)).head?.any nameRest.accepts = false := by
    obtain ⟨d, ds, he, hd⟩ := hgap'.head (word' ++ rest)
    rw [he]
    exact accepts_nameRest_of_isBlank hd
  have hstart : (name ++ (gap' ++ (word' ++ rest))).head?.any isBlank = false := by
    rw [Bool.eq_false_iff]
    intro hb
    rw [hname] at hb
    simp [accepts_nameStart_of_isBlank hb] at hc
  have hstart' : (word' ++ rest).head?.any isBlank = false := by
    obtain ⟨d, ds, rfl⟩ := List.exists_cons_of_ne_nil (hto.ne_nil hword')
    exact Text.isBlank_of_isWordChar (hto.isWordChar hword' d (by simp))
  have hlast := ends_edge_past (word' ++ rest)
  rw [Text.takeWhile_append_stop (hto.isWordChar hword') hrest,
    Text.dropWhile_append_stop (hto.isWordChar hword') hrest] at hlast
  rw [ends_seq_edge, if_pos hedge, ends_seq_word hset (solid_variableName _).halts, hs,
    Text.takeWhile_append_stop (hset.isWordChar hword) (hgap.head_any_isWordChar _),
    Text.dropWhile_append_stop (hset.isWordChar hword) (hgap.head_any_isWordChar _), if_pos hword,
    ends_seq_blanks (solid_variableName _), Spot.past_rest, if_pos (hgap.head_any_isBlank _),
    Text.takeWhile_append_stop hgap.2 hstart, Text.dropWhile_append_stop hgap.2 hstart,
    Spot.past_past, ends_variableName hnamed hc hcs hend (by rw [Spot.past_rest, hname]),
    ends_seq_blanks hsolid, Spot.capture_rest, Spot.past_rest, if_pos (hgap'.head_any_isBlank _),
    Text.takeWhile_append_stop hgap'.2 hstart', Text.dropWhile_append_stop hgap'.2 hstart',
    ends_seq_word hto halts_edge, Spot.past_rest,
    Text.takeWhile_append_stop (hto.isWordChar hword') hrest,
    Text.dropWhile_append_stop (hto.isWordChar hword') hrest, if_pos hword', hlast (hto.ne_nil hword'),
    Spot.past_past, Spot.past_past, Spot.past_capture, Spot.past_past]
  simp [hname]

theorem leads_setPhrase : Leads "set" Phrasebook.setPhrase.pattern :=
  leads_edge_word (by decide) (solid_variableName _).halts

theorem Solid.alt {a b q : Pattern} (ha : Solid (.seq a q)) (hb : Solid (.seq b q)) :
    Solid (.seq (.alt a b) q) := by
  intro s hs
  have h : ends (.seq (.alt a b) q) s = ends (.seq a q) s ++ ends (.seq b q) s := by simp [ends]
  rw [h, ha s hs, hb s hs, List.append_nil]

theorem leads_endPhrase : Leads "end" Phrasebook.endPhrase.pattern := by
  have hword {w : String} (hw : IsWord w) := solid_word hw halts_edge
  exact leads_edge_word (by decide) (Solid.halts (.alt (hword (by decide))
    (.alt (hword (by decide)) (.alt (hword (by decide)) (hword (by decide))))))

end Parlance.Pattern
