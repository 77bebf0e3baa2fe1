import Parlance.Proofs.Phrase.Region

/-! The parts of a text. One scan over the whole text, character by character, cuts it into code,
literals, comments and line ends. Rewording goes line by line and remembers no more than the quote that
is open, but what it writes is what the parts say: each stretch of code is reworded by itself, and
everything else is copied. -/

namespace Parlance

namespace Phrasebook

/-- Rewords a stretch of code, with any functions of texts in place of the book's phrases. -/
def rewordBy (book : Phrasebook) (rules : List (List Char → List Char)) (code : List Char) :
    List Char :=
  if code.isEmpty then []
  else merge book false (pieces (rules.foldl (fun text rule => rule text) code))

theorem reword_eq_rewordBy (book : Phrasebook) :
    book.reword = book.rewordBy (book.phrases.map Phrase.apply) := by
  funext code
  unfold reword rewordBy
  rw [List.foldl_map]

end Phrasebook

namespace Source

inductive Part where
  | code (text : List Char)
  /-- The blanks before a comment that has its line to itself. -/
  | margin (text : List Char)
  | literal (text : List Char)
  | comment (text : List Char)
  | newline
  deriving DecidableEq

namespace Part

def text : Part → List Char
  | code text | margin text | literal text | comment text => text
  | newline => ['\n']

def write (reword : List Char → List Char) : Part → List Char
  | code text => reword text
  | part => part.text

def ofStretch (held : List Char) : List Part :=
  if held.isEmpty then [] else [code held.reverse]

/-- The code that was read before a comment. Blanks alone are no code there, if a line began with
them. -/
def ofLead (fresh : Bool) (held : List Char) : List Part :=
  if fresh && held.all Text.isBlank then
    if held.isEmpty then [] else [margin held.reverse]
  else ofStretch held

end Part

/-- Scans a text from the given region on. What was read of the part at hand is held, the latest
character first. A stretch of code is fresh if a line began with it. -/
def partsFrom : Region → Bool → List Char → List Char → List Part
  | .code, _, held, [] => Part.ofStretch held
  | .code, fresh, held, c :: cs =>
    if isQuote c then Part.ofStretch held ++ partsFrom (.literal c false) false [c] cs
    else if c = '#' then Part.ofLead fresh held ++ partsFrom .comment false [c] cs
    else if c = '\n' then Part.ofStretch held ++ .newline :: partsFrom .code true [] cs
    else partsFrom .code fresh (c :: held) cs
  | .literal .., _, held, [] => [.literal held.reverse]
  | .literal quote true, _, held, c :: cs => partsFrom (.literal quote false) false (c :: held) cs
  | .literal quote false, _, held, c :: cs =>
    if c = quote then .literal (c :: held).reverse :: partsFrom .code false [] cs
    else partsFrom (.literal quote (c == '\\')) false (c :: held) cs
  | .comment, _, held, [] => [.comment held.reverse]
  | .comment, _, held, c :: cs =>
    if c = '\n' then .comment held.reverse :: .newline :: partsFrom .code true [] cs
    else partsFrom .comment false (c :: held) cs

def parts (cs : List Char) : List Part := partsFrom .code true [] cs

/-! How parts lie in a text. -/

inductive Inside (quote : Char) : List Char → Prop
  | nil : Inside quote []
  | plain {c : Char} {cs : List Char} : c ≠ quote → c ≠ '\\' → Inside quote cs →
      Inside quote (c :: cs)
  | escape (c : Char) {cs : List Char} : Inside quote cs → Inside quote ('\\' :: c :: cs)

theorem Inside.append {quote : Char} {cs ds : List Char} (h : Inside quote cs) (h' : Inside quote ds) :
    Inside quote (cs ++ ds) := by
  induction h with
  | nil => exact h'
  | plain hq hb _ ih => exact .plain hq hb ih
  | escape c _ ih => exact .escape c ih

def Part.IsCode : Part → Prop
  | .code _ | .margin _ => True
  | _ => False

def Part.IsComment : Part → Prop
  | .comment _ => True
  | _ => False

/-- Parts as they come one after the other, `fresh` at the start of a line that begins outside
literals. No stretch of code could be any longer, nor could a comment; a literal is closed unless the
text ends in it. -/
inductive Laid : Bool → List Part → Prop
  | nil (fresh : Bool) : Laid fresh []
  | code {fresh : Bool} {text : List Char} {rest : List Part} : text ≠ [] → (∀ c ∈ text, InLine c) →
      (∀ part ∈ rest.head?, ¬part.IsCode) →
      (fresh = true → text.all Text.isBlank = true → ∀ part ∈ rest.head?, ¬part.IsComment) →
      Laid false rest → Laid fresh (.code text :: rest)
  | margin {text : List Char} {rest : List Part} : text ≠ [] →
      (∀ c ∈ text, Text.isBlank c = true ∧ c ≠ '\n') → (∃ part ∈ rest.head?, part.IsComment) →
      Laid false rest → Laid true (.margin text :: rest)
  | literal {fresh : Bool} {quote : Char} {inside : List Char} {rest : List Part} :
      isQuote quote = true → Inside quote inside → Laid false rest →
      Laid fresh (.literal (quote :: (inside ++ [quote])) :: rest)
  | unclosed {fresh : Bool} {quote : Char} {inside last : List Char} : isQuote quote = true →
      Inside quote inside → last ∈ [[], ['\\']] → Laid fresh [.literal (quote :: (inside ++ last))]
  | comment {fresh : Bool} {text : List Char} {rest : List Part} : '\n' ∉ text →
      (∀ part ∈ rest.head?, part = .newline) → Laid false rest → Laid fresh (.comment ('#' :: text) :: rest)
  | newline {fresh : Bool} {rest : List Part} : Laid true rest → Laid fresh (.newline :: rest)

/-! The parts of a text lie as they should. -/

theorem Laid.ofStretch {fresh : Bool} {held : List Char} {rest : List Part}
    (hheld : ∀ c ∈ held, InLine c) (hcode : ∀ part ∈ rest.head?, ¬part.IsCode)
    (hcomment : ∀ part ∈ rest.head?, ¬part.IsComment) (hrest : ∀ fresh, Laid fresh rest) :
    Laid fresh (Part.ofStretch held ++ rest) := by
  unfold Part.ofStretch
  split
  · exact hrest fresh
  · next hne =>
    have hmem : ∀ c ∈ held.reverse, InLine c := by simpa using hheld
    exact .code (by simpa using hne) hmem hcode (fun _ _ => hcomment) (hrest false)

theorem Laid.ofLead {fresh : Bool} {held : List Char} {rest : List Part}
    (hheld : ∀ c ∈ held, InLine c) (hcomment : ∃ part ∈ rest.head?, part.IsComment)
    (hrest : ∀ fresh, Laid fresh rest) : Laid fresh (Part.ofLead fresh held ++ rest) := by
  have hmem : ∀ c ∈ held.reverse, InLine c := by simpa using hheld
  unfold Part.ofLead
  split
  · next hlead =>
    rw [Bool.and_eq_true] at hlead
    split
    · exact hrest fresh
    · next hne =>
      have hblank : ∀ c ∈ held.reverse, Text.isBlank c = true ∧ c ≠ '\n' := by
        intro c hc
        have hc' := List.mem_reverse.1 hc
        exact ⟨List.all_eq_true.1 hlead.2 c hc', (hheld c hc').2⟩
      rw [hlead.1]
      exact .margin (by simpa using hne) hblank hcomment (hrest false)
  · next hlead =>
    unfold Part.ofStretch
    split
    · exact hrest fresh
    · next hne =>
      obtain ⟨part, hpart, hc⟩ := hcomment
      refine .code (by simpa using hne) hmem ?_ ?_ (hrest false)
      · intro other hother
        obtain rfl : part = other := Option.mem_unique hpart hother
        cases part <;> first | exact id | exact absurd hc id
      · intro hfresh hall
        rw [List.all_reverse] at hall
        simp [hfresh, hall] at hlead

theorem head?_partsFrom_literal (quote : Char) (escaped fresh : Bool) (held cs : List Char) :
    ∃ text, (partsFrom (.literal quote escaped) fresh held cs).head? = some (.literal text) := by
  induction cs generalizing escaped fresh held with
  | nil => exact ⟨held.reverse, by rw [partsFrom]; rfl⟩
  | cons c cs ih =>
    cases escaped with
    | true =>
      rw [partsFrom]
      exact ih false false (c :: held)
    | false =>
      rw [partsFrom]
      split
      · exact ⟨_, rfl⟩
      · exact ih _ false (c :: held)

theorem head?_partsFrom_comment (fresh : Bool) (held cs : List Char) :
    ∃ text, (partsFrom .comment fresh held cs).head? = some (.comment text) := by
  induction cs generalizing fresh held with
  | nil => exact ⟨held.reverse, by rw [partsFrom]; rfl⟩
  | cons c cs ih =>
    rw [partsFrom]
    split
    · exact ⟨_, rfl⟩
    · exact ih false (c :: held)

def Region.Held : Region → List Char → Prop
  | .code, held => ∀ c ∈ held, InLine c
  | .literal quote escaped, held => isQuote quote = true ∧ ∃ inside, Inside quote inside ∧
      held.reverse = quote :: (inside ++ if escaped then ['\\'] else [])
  | .comment, held => ∃ text, '\n' ∉ text ∧ held.reverse = '#' :: text

theorem Region.Held.cons {quote : Char} {escaped : Bool} {held : List Char}
    (h : (literal quote escaped).Held held) {c : Char} (hc : escaped = false → c ≠ quote) :
    (literal quote (!escaped && c == '\\')).Held (c :: held) := by
  obtain ⟨hquote, inside, hinside, heq⟩ := h
  refine ⟨hquote, ?_⟩
  rw [List.reverse_cons, heq]
  cases escaped with
  | true => exact ⟨inside ++ ['\\', c], hinside.append (.escape c .nil), by simp⟩
  | false =>
    by_cases hb : c = '\\'
    · exact ⟨inside, hinside, by simp [hb]⟩
    · exact ⟨inside ++ [c], hinside.append (.plain (hc rfl) hb .nil), by simp [hb]⟩

theorem laid_partsFrom {r : Region} {held : List Char} (h : r.Held held) (cs : List Char)
    {fresh fresh' : Bool} (hf : r = .code → fresh' = fresh) :
    Laid fresh' (partsFrom r fresh held cs) := by
  induction cs generalizing r held fresh fresh' with
  | nil =>
    rcases r with _ | ⟨quote, escaped⟩ | _
    · rw [partsFrom, ← List.append_nil (Part.ofStretch held)]
      exact .ofStretch h (by simp) (by simp) fun _ => .nil _
    · obtain ⟨hquote, inside, hinside, heq⟩ := h
      rw [partsFrom, heq]
      exact .unclosed hquote hinside (by cases escaped <;> simp)
    · obtain ⟨text, htext, heq⟩ := h
      rw [partsFrom, heq]
      exact .comment htext (by simp) (.nil false)
  | cons c cs ih =>
    rcases r with _ | ⟨quote, escaped⟩ | _
    · rw [hf rfl, partsFrom]
      split
      · next hq =>
        obtain ⟨text, htext⟩ := head?_partsFrom_literal c false false [c] cs
        have hheld : (Region.literal c false).Held [c] := ⟨hq, [], .nil, rfl⟩
        refine .ofStretch h ?_ ?_ fun _ => ih hheld (by simp)
        · simp [htext, Part.IsCode]
        · simp [htext, Part.IsComment]
      · next hq =>
        split
        · next hc =>
          obtain ⟨text, htext⟩ := head?_partsFrom_comment false [c] cs
          have hheld : Region.comment.Held [c] := ⟨[], by simp, by simp [hc]⟩
          exact .ofLead h ⟨_, htext, trivial⟩ fun _ => ih hheld (by simp)
        · next hc =>
          split
          · have hrest : Laid true (partsFrom .code true [] cs) :=
              ih (r := .code) (by simp [Region.Held]) fun _ => rfl
            exact .ofStretch h (by simp [Part.IsCode]) (by simp [Part.IsComment]) fun _ => .newline hrest
          · next hn =>
            have hc' : InLine c := ⟨⟨by simpa using hq, hc⟩, hn⟩
            exact ih (r := .code) (List.forall_mem_cons.2 ⟨hc', h⟩) fun _ => rfl
    · cases escaped with
      | true =>
        rw [partsFrom]
        exact ih (h.cons (by simp)) (by simp)
      | false =>
        rw [partsFrom]
        split
        · next hc =>
          obtain ⟨hquote, inside, hinside, heq⟩ := h
          rw [List.reverse_cons, heq, hc]
          simp only [Bool.false_eq_true, if_false, List.append_nil, List.cons_append]
          exact .literal hquote hinside (ih (r := .code) (by simp [Region.Held]) fun _ => rfl)
        · next hc => exact ih (h.cons fun _ => hc) (by simp)
    · obtain ⟨text, htext, heq⟩ := h
      rw [partsFrom]
      split
      · rw [heq]
        refine .comment htext (by simp) (.newline ?_)
        exact ih (r := .code) (by simp [Region.Held]) fun _ => rfl
      · next hn =>
        have hheld : Region.comment.Held (c :: held) :=
          ⟨text ++ [c], by simp [htext, Ne.symm hn], by simp [heq]⟩
        exact ih hheld (by simp)

theorem laid_parts (cs : List Char) : Laid true (parts cs) :=
  laid_partsFrom (r := .code) (by simp [Region.Held]) cs fun _ => rfl

theorem Laid.inLine_of_code {fresh : Bool} {ps : List Part} (h : Laid fresh ps) {text : List Char}
    (ht : .code text ∈ ps) : ∀ c ∈ text, InLine c := by
  induction h with
  | nil => cases ht
  | code _ hin _ _ _ ih =>
    rcases List.mem_cons.1 ht with he | ht
    · cases he
      exact hin
    · exact ih ht
  | margin _ _ _ _ ih | literal _ _ _ ih | comment _ _ _ ih | newline _ ih =>
    rcases List.mem_cons.1 ht with he | ht
    · cases he
    · exact ih ht
  | unclosed =>
    rcases List.mem_cons.1 ht with he | ht
    · cases he
    · cases ht

/-! There is no other way to lay out a text. -/

theorem partsFrom_code {cs : List Char} (h : ∀ c ∈ cs, InLine c) (fresh : Bool)
    (held rest : List Char) :
    partsFrom .code fresh held (cs ++ rest) = partsFrom .code fresh (cs.reverse ++ held) rest := by
  induction cs generalizing held with
  | nil => rfl
  | cons c cs ih =>
    have h' := List.forall_mem_cons.1 h
    rw [List.cons_append, partsFrom, if_neg (by simp [h'.1.1.1]), if_neg h'.1.1.2, if_neg h'.1.2,
      ih h'.2]
    simp

theorem partsFrom_quote {c : Char} (h : isQuote c = true) (fresh : Bool) (held cs : List Char) :
    partsFrom .code fresh held (c :: cs) =
      Part.ofStretch held ++ partsFrom (.literal c false) false [c] cs := by
  rw [partsFrom, if_pos h]

theorem partsFrom_sharp (fresh : Bool) (held cs : List Char) :
    partsFrom .code fresh held ('#' :: cs) =
      Part.ofLead fresh held ++ partsFrom .comment false ['#'] cs := by
  rw [partsFrom, if_neg (by decide), if_pos rfl]

theorem partsFrom_newline (fresh : Bool) (held cs : List Char) :
    partsFrom .code fresh held ('\n' :: cs) =
      Part.ofStretch held ++ .newline :: partsFrom .code true [] cs := by
  rw [partsFrom, if_neg (by decide), if_neg (by decide), if_pos rfl]

theorem partsFrom_inside {quote : Char} (hquote : isQuote quote = true) {inside : List Char}
    (h : Inside quote inside) (held rest : List Char) :
    partsFrom (.literal quote false) false held (inside ++ rest) =
      partsFrom (.literal quote false) false (inside.reverse ++ held) rest := by
  induction h generalizing held with
  | nil => rfl
  | @plain c cs hq hb _ ih =>
    have hb' : (c == '\\') = false := beq_false_of_ne hb
    rw [List.cons_append, partsFrom, if_neg hq, hb', ih]
    simp
  | @escape c cs _ ih =>
    have hne : '\\' ≠ quote := (ne_backslash_of_isQuote hquote).symm
    rw [List.cons_append, List.cons_append, partsFrom, if_neg hne, beq_self_eq_true, partsFrom, ih]
    simp

theorem partsFrom_comment {text : List Char} (h : '\n' ∉ text) (held rest : List Char) :
    partsFrom .comment false held (text ++ rest) =
      partsFrom .comment false (text.reverse ++ held) rest := by
  induction text generalizing held with
  | nil => rfl
  | cons c text ih =>
    rw [List.mem_cons, not_or] at h
    rw [List.cons_append, partsFrom, if_neg (Ne.symm h.1), ih h.2]
    simp

theorem Laid.partsFrom_lead {rest : List Part} (h : Laid false rest)
    (hcomment : ∃ part ∈ rest.head?, part.IsComment) (fresh : Bool) (held : List Char) :
    partsFrom .code fresh held (rest.flatMap Part.text) =
      Part.ofLead fresh held ++ partsFrom .code false [] (rest.flatMap Part.text) := by
  obtain ⟨part, hpart, hc⟩ := hcomment
  cases h with
  | comment _ _ _ =>
    rw [List.flatMap_cons, Part.text, List.cons_append, partsFrom_sharp, partsFrom_sharp]
    rfl
  | nil => cases hpart
  | code | literal | unclosed | newline =>
    cases hpart
    cases hc

theorem Laid.partsFrom_stretch {rest : List Part} (h : Laid false rest)
    (hcode : ∀ part ∈ rest.head?, ¬part.IsCode) {fresh : Bool} {held : List Char}
    (hlead : (∃ part ∈ rest.head?, part.IsComment) → Part.ofLead fresh held = Part.ofStretch held) :
    partsFrom .code fresh held (rest.flatMap Part.text) =
      Part.ofStretch held ++ partsFrom .code false [] (rest.flatMap Part.text) := by
  by_cases hcomment : ∃ part ∈ rest.head?, part.IsComment
  · rw [h.partsFrom_lead hcomment, hlead hcomment]
  · cases h with
    | nil => simp [partsFrom, Part.ofStretch]
    | code => exact absurd trivial (hcode _ rfl)
    | comment => exact absurd ⟨_, rfl, trivial⟩ hcomment
    | literal hquote _ _ | unclosed hquote _ _ =>
      rw [List.flatMap_cons, Part.text, List.cons_append, partsFrom_quote hquote, partsFrom_quote hquote]
      rfl
    | newline _ =>
      rw [List.flatMap_cons, Part.text, List.singleton_append, partsFrom_newline, partsFrom_newline]
      rfl

theorem partsFrom_eq_of_laid {fresh : Bool} {ps : List Part} (h : Laid fresh ps) :
    partsFrom .code fresh [] (ps.flatMap Part.text) = ps := by
  induction h with
  | nil => rfl
  | @code fresh text rest hne hin hcode hcomment hrest ih =>
    have hheld : Part.ofStretch text.reverse = [.code text] := by simp [Part.ofStretch, hne]
    have hlead : (∃ part ∈ rest.head?, part.IsComment) →
        Part.ofLead fresh text.reverse = Part.ofStretch text.reverse := by
      rintro ⟨part, hpart, hc⟩
      rw [Part.ofLead, if_neg]
      intro hblank
      rw [Bool.and_eq_true, List.all_reverse] at hblank
      exact hcomment hblank.1 hblank.2 part hpart hc
    rw [List.flatMap_cons, Part.text, partsFrom_code hin, List.append_nil,
      hrest.partsFrom_stretch hcode hlead, ih, hheld]
    rfl
  | @margin text rest hne hin hcomment hrest ih =>
    have hblank : text.all Text.isBlank = true := List.all_eq_true.2 fun c hc => (hin c hc).1
    have hcode := Region.isCode_of_class (p := Text.isBlank) (by decide) (by decide) (by decide)
    have hlead : Part.ofLead true text.reverse = [.margin text] := by
      rw [Part.ofLead, List.all_reverse, hblank]
      simp [hne]
    rw [List.flatMap_cons, Part.text, partsFrom_code fun c hc => ⟨hcode c (hin c hc).1, (hin c hc).2⟩,
      List.append_nil, hrest.partsFrom_lead hcomment, ih, hlead]
    rfl
  | @literal fresh quote inside rest hquote hinside _ ih =>
    rw [List.flatMap_cons, Part.text, List.cons_append, List.append_assoc, partsFrom_quote hquote,
      partsFrom_inside hquote hinside, List.singleton_append, partsFrom, if_pos rfl, ih]
    simp [Part.ofStretch]
  | @unclosed fresh quote inside last hquote hinside hlast =>
    have hne : '\\' ≠ quote := (ne_backslash_of_isQuote hquote).symm
    rw [List.flatMap_singleton, Part.text, partsFrom_quote hquote, partsFrom_inside hquote hinside]
    simp only [List.mem_cons, List.not_mem_nil, or_false] at hlast
    rcases hlast with rfl | rfl
    · simp [partsFrom, Part.ofStretch]
    · simp [partsFrom, Part.ofStretch, hne]
  | @comment fresh text rest htext hnewline hrest ih =>
    have hlead : Part.ofLead fresh [] = [] := by cases fresh <;> rfl
    rw [List.flatMap_cons, Part.text, List.cons_append, partsFrom_sharp, hlead,
      partsFrom_comment htext, List.nil_append]
    cases hrest with
    | nil => simp [partsFrom]
    | newline _ =>
      rw [List.flatMap_cons, Part.text, List.singleton_append, partsFrom_newline] at ih
      rw [List.flatMap_cons, Part.text, List.singleton_append, partsFrom, if_pos rfl]
      have hrest := (List.cons.inj ih).2
      rw [hrest]
      simp
    | code | literal | unclosed | comment => cases hnewline _ rfl
  | @newline fresh rest _ ih =>
    rw [List.flatMap_cons, Part.text, List.singleton_append, partsFrom_newline, ih]
    rfl

/-! Nothing is lost by cutting, and rewording the parts is rewording the text. -/

theorem flatMap_text_ofStretch (held : List Char) :
    (Part.ofStretch held).flatMap Part.text = held.reverse := by
  unfold Part.ofStretch
  split
  · next h => simp [List.isEmpty_iff.1 h]
  · simp [Part.text]

theorem flatMap_text_ofLead (fresh : Bool) (held : List Char) :
    (Part.ofLead fresh held).flatMap Part.text = held.reverse := by
  unfold Part.ofLead
  split
  · split
    · next h => simp [List.isEmpty_iff.1 h]
    · simp [Part.text]
  · exact flatMap_text_ofStretch held

theorem flatMap_text_partsFrom (r : Region) (fresh : Bool) (held cs : List Char) :
    (partsFrom r fresh held cs).flatMap Part.text = held.reverse ++ cs := by
  induction cs generalizing r fresh held with
  | nil =>
    rcases r with _ | ⟨quote, escaped⟩ | _
    · rw [partsFrom, flatMap_text_ofStretch, List.append_nil]
    · simp [partsFrom, Part.text]
    · simp [partsFrom, Part.text]
  | cons c cs ih =>
    rcases r with _ | ⟨quote, _ | _⟩ | _
    · rw [partsFrom]
      split
      · rw [List.flatMap_append, flatMap_text_ofStretch, ih]
        rfl
      · split
        · rw [List.flatMap_append, flatMap_text_ofLead, ih]
          rfl
        · split
          · next hn => simp [flatMap_text_ofStretch, ih, Part.text, hn]
          · simp [ih]
    · rw [partsFrom]
      split
      · simp [ih, Part.text]
      · simp [ih]
    · simp [partsFrom, ih]
    · rw [partsFrom]
      split
      · next hn => simp [ih, Part.text, hn]
      · simp [ih]

def written (reword : List Char → List Char) (ps : List Part) : List Char :=
  ps.flatMap (Part.write reword)

section
variable {reword : List Char → List Char}

theorem written_append (ps qs : List Part) :
    written reword (ps ++ qs) = written reword ps ++ written reword qs := List.flatMap_append

theorem written_cons (p : Part) (ps : List Part) :
    written reword (p :: ps) = p.write reword ++ written reword ps := List.flatMap_cons

theorem written_ofStretch (hr : reword [] = []) (held : List Char) :
    written reword (Part.ofStretch held) = reword held.reverse := by
  unfold Part.ofStretch
  split
  · next h =>
    rw [List.isEmpty_iff.1 h, List.reverse_nil, hr]
    rfl
  · simp [written, Part.write]

theorem written_held {r : Region} (hcode : r ≠ .code) (fresh : Bool) (held cs : List Char) :
    written reword (partsFrom r fresh held cs) =
      held.reverse ++ written reword (partsFrom r false [] cs) := by
  induction cs generalizing r fresh held with
  | nil => rcases r with _ | ⟨quote, escaped⟩ | _ <;> simp_all [partsFrom, written, Part.write, Part.text]
  | cons c cs ih =>
    rcases r with _ | ⟨quote, _ | _⟩ | _
    · exact absurd rfl hcode
    · rw [partsFrom, partsFrom]
      split
      · simp [written_cons, Part.write, Part.text]
      · rw [ih (by simp) false (c :: held), ih (by simp) false [c]]
        simp
    · rw [partsFrom, partsFrom, ih (by simp) false (c :: held), ih (by simp) false [c]]
      simp
    · rw [partsFrom, partsFrom]
      split
      · simp [written_cons, Part.write, Part.text]
      · rw [ih (by simp) false (c :: held), ih (by simp) false [c]]
        simp

/-- What is written from the end of a line on, after which the given quote is open. -/
def onward (reword : List Char → List Char) (open? : Option Char) : List Char → List Char
  | [] => []
  | c :: cs => c :: written reword (partsFrom (Region.ofQuote open?) true [] cs)

theorem written_comment {line tail : List Char} (hline : '\n' ∉ line)
    (htail : ∀ c ∈ tail.head?, c = '\n') :
    written reword (partsFrom .comment false [] (line ++ tail)) = line ++ onward reword none tail := by
  induction line with
  | nil =>
    cases tail with
    | nil => simp [partsFrom, written, Part.write, Part.text, onward]
    | cons c tail =>
      obtain rfl := htail c rfl
      simp [partsFrom, written, Part.write, Part.text, onward, Region.ofQuote]
  | cons c line ih =>
    rw [List.mem_cons, not_or] at hline
    rw [List.cons_append, partsFrom, if_neg (Ne.symm hline.1), written_held (by simp), ih hline.2]
    rfl

def Mode.held : Mode → List Char
  | .code stretch => stretch
  | .literal .. => []

def Mode.InMargin (m : Mode) (line : List Char) : Prop :=
  m.region = .code ∧ m.held.all Text.isBlank = true ∧ (Text.trimStart line).head? = some '#'

theorem Mode.InMargin.of_cons {c : Char} {held line : List Char}
    (h : (Mode.code (c :: held)).InMargin line) : (Mode.code held).InMargin (c :: line) := by
  obtain ⟨-, hall, hhead⟩ := h
  rw [Mode.held, List.all_cons, Bool.and_eq_true] at hall
  refine ⟨rfl, hall.2, ?_⟩
  rw [Text.trimStart, List.dropWhile_cons_of_pos hall.1]
  exact hhead

theorem ofLead_eq_ofStretch {fresh : Bool} {held line : List Char}
    (h : fresh = true → ¬(Mode.code held).InMargin ('#' :: line)) :
    Part.ofLead fresh held = Part.ofStretch held := by
  rw [Part.ofLead, if_neg]
  intro hblank
  rw [Bool.and_eq_true] at hblank
  exact h hblank.1 ⟨rfl, hblank.2, rfl⟩

theorem written_literal_newline {quote : Char} (hquote : isQuote quote = true) (escaped : Bool)
    (tail : List Char) :
    written reword (partsFrom (.literal quote escaped) false [] ('\n' :: tail)) =
      '\n' :: written reword (partsFrom (.literal quote false) true [] tail) := by
  have hne : '\n' ≠ quote := by
    rintro rfl
    exact absurd hquote (by decide)
  have hstep : partsFrom (.literal quote escaped) false [] ('\n' :: tail) =
      partsFrom (.literal quote false) false ['\n'] tail := by
    cases escaped with
    | true => rw [partsFrom]
    | false =>
      rw [partsFrom, if_neg hne]
      rfl
  rw [hstep, written_held (by simp) false ['\n'], written_held (by simp) true []]
  rfl

theorem written_line_end (hr : reword [] = []) {m : Mode}
    (hquote : ∀ q ∈ m.region.quote?, isQuote q = true) {tail : List Char}
    (htail : ∀ c ∈ tail.head?, c = '\n') (fresh : Bool) :
    written reword (partsFrom m.region fresh m.held tail) =
      (rewordFrom reword m []).1 ++ onward reword (rewordFrom reword m []).2 tail := by
  cases m with
  | code held =>
    cases tail with
    | nil =>
      have hstretch := written_ofStretch hr held
      simpa [Mode.region, Mode.held, partsFrom, rewordFrom, onward] using hstretch
    | cons c tail =>
      obtain rfl := htail c rfl
      rw [Mode.region, Mode.held, partsFrom_newline, written_append, written_ofStretch hr]
      rfl
  | literal quote escaped =>
    rw [Mode.region, Mode.held, written_held (by simp)]
    cases tail with
    | nil => simp [partsFrom, written, Part.write, Part.text, rewordFrom, onward]
    | cons c tail =>
      obtain rfl := htail c rfl
      rw [written_literal_newline (hquote quote rfl)]
      rfl

theorem written_line (hr : reword [] = []) {m : Mode}
    (hquote : ∀ q ∈ m.region.quote?, isQuote q = true) {line tail : List Char}
    (hline : '\n' ∉ line) (htail : ∀ c ∈ tail.head?, c = '\n') {fresh : Bool}
    (hmargin : fresh = true → ¬m.InMargin line) :
    written reword (partsFrom m.region fresh m.held (line ++ tail)) =
      (rewordFrom reword m line).1 ++ onward reword (rewordFrom reword m line).2 tail := by
  induction line generalizing m fresh with
  | nil => exact written_line_end hr hquote htail fresh
  | cons c line ih =>
    rw [List.mem_cons, not_or] at hline
    cases m with
    | code held =>
      rw [Mode.region, Mode.held, List.cons_append, partsFrom, rewordFrom]
      split
      · next hq =>
        have hopen : ∀ q ∈ (Mode.literal c false).region.quote?, isQuote q = true := by
          rintro q ⟨⟩
          exact hq
        have hrest : written reword (partsFrom (.literal c false) false [] (line ++ tail)) = _ :=
          ih hopen hline.2 (by simp)
        rw [written_append, written_ofStretch hr, written_held (by simp), hrest]
        simp
      · next hq =>
        split
        · next hc =>
          rw [ofLead_eq_ofStretch (hc ▸ hmargin), written_append, written_ofStretch hr, written_held (by simp),
            written_comment hline.2 htail]
          simp
        · next hc =>
          rw [if_neg (Ne.symm hline.1)]
          -- as long as only blanks are put aside, the margin may still go on
          exact ih (m := .code (c :: held)) (by rintro _ ⟨⟩) hline.2 fun hfresh hin =>
            hmargin hfresh hin.of_cons
    | literal quote escaped =>
      rw [Mode.region, Mode.held, List.cons_append]
      cases escaped with
      | true =>
        have hrest : written reword (partsFrom (.literal quote false) false [] (line ++ tail)) = _ :=
          ih (m := .literal quote false) hquote hline.2 (by simp)
        rw [partsFrom, written_held (by simp), hrest]
        rfl
      | false =>
        rw [partsFrom]
        split
        · next hc =>
          have hrest : written reword (partsFrom .code false [] (line ++ tail)) = _ :=
            ih (m := .code []) (by rintro _ ⟨⟩) hline.2 (by simp)
          rw [written_cons, hrest]
          simp [rewordFrom, hc, Part.write, Part.text]
        · next hc =>
          have hrest : written reword
              (partsFrom (.literal quote (c == '\\')) false [] (line ++ tail)) = _ :=
            ih (m := .literal quote (c == '\\')) hquote hline.2 (by simp)
          rw [written_held (by simp), hrest]
          simp [rewordFrom, hc]

theorem written_margin {line tail : List Char} (hline : '\n' ∉ line)
    (hcomment : (Text.trimStart line).head? = some '#') (htail : ∀ c ∈ tail.head?, c = '\n') :
    written reword (partsFrom .code true [] (line ++ tail)) = line ++ onward reword none tail := by
  obtain ⟨text, htext⟩ : ∃ text, line.dropWhile Text.isBlank = '#' :: text :=
    List.head?_eq_some_iff.1 hcomment
  obtain ⟨blanks, hblanks⟩ : ∃ blanks, blanks = line.takeWhile Text.isBlank := ⟨_, rfl⟩
  have hcut : line = blanks ++ '#' :: text := by
    rw [hblanks, ← htext, List.takeWhile_append_dropWhile]
  have hisBlank : ∀ c ∈ blanks, Text.isBlank c = true := by
    rw [hblanks]
    exact List.all_eq_true.1 List.all_takeWhile
  have hin : ∀ c ∈ blanks, InLine c := by
    intro c hc
    have hcode := Region.isCode_of_class (p := Text.isBlank) (by decide) (by decide) (by decide)
    refine ⟨hcode c (hisBlank c hc), ?_⟩
    rintro rfl
    exact hline (by simp [hcut, hc])
  have htext' : '\n' ∉ text := fun h => hline (by simp [hcut, h])
  have hlead : written reword (Part.ofLead true (blanks.reverse ++ [])) = blanks := by
    have hall : blanks.all Text.isBlank = true := List.all_eq_true.2 hisBlank
    rw [Part.ofLead, if_pos (by simpa using hisBlank)]
    split
    · next hnil =>
      have hnil' : blanks = [] := by simpa using hnil
      rw [hnil']
      rfl
    · simp [written, Part.write, Part.text]
  rw [hcut, List.append_assoc, partsFrom_code hin, List.cons_append, partsFrom, if_neg (by decide),
    if_pos rfl, written_append, hlead, written_held (by simp), written_comment htext' htail]
  simp

theorem written_rewordLine (hr : reword [] = []) {open? : Option Char}
    (hquote : ∀ q ∈ open?, isQuote q = true) {line tail : List Char} (hline : '\n' ∉ line)
    (htail : ∀ c ∈ tail.head?, c = '\n') :
    written reword (partsFrom (Region.ofQuote open?) true [] (line ++ tail)) =
      (rewordLine reword open? line).1 ++ onward reword (rewordLine reword open? line).2 tail := by
  cases open? with
  | some quote =>
    exact written_line hr (m := .literal quote false) hquote hline htail fun _ h => by cases h.1
  | none =>
    rw [rewordLine]
    split
    · next hcomment => exact written_margin hline hcomment htail
    · next hcomment =>
      exact written_line hr (m := .code []) (by rintro _ ⟨⟩) hline htail fun _ h => hcomment h.2.2

theorem isQuote_rewordFrom (reword : List Char → List Char) {m : Mode}
    (hquote : ∀ q ∈ m.region.quote?, isQuote q = true) (line : List Char) :
    ∀ q ∈ (rewordFrom reword m line).2, isQuote q = true := by
  induction line generalizing m with
  | nil =>
    cases m with
    | code held => rintro _ ⟨⟩
    | literal quote escaped => exact hquote
  | cons c line ih =>
    cases m with
    | code held =>
      rw [rewordFrom]
      split
      · next hq =>
        refine ih (m := .literal c false) ?_
        rintro q ⟨⟩
        exact hq
      · split
        · rintro _ ⟨⟩
        · exact ih (m := .code (c :: held)) (by rintro _ ⟨⟩)
    | literal quote escaped =>
      rw [rewordFrom]
      refine ih ?_
      split
      · exact hquote
      · split
        · rintro _ ⟨⟩
        · exact hquote

theorem isQuote_rewordLine (reword : List Char → List Char) {open? : Option Char}
    (hquote : ∀ q ∈ open?, isQuote q = true) (line : List Char) :
    ∀ q ∈ (rewordLine reword open? line).2, isQuote q = true := by
  cases open? with
  | some quote => exact isQuote_rewordFrom reword (m := .literal quote false) hquote line
  | none =>
    rw [rewordLine]
    split
    · rintro _ ⟨⟩
    · exact isQuote_rewordFrom reword (m := .code []) (by rintro _ ⟨⟩) line

theorem written_lines (hr : reword [] = []) {open? : Option Char}
    (hquote : ∀ q ∈ open?, isQuote q = true) {lines : List (List Char)} (hne : lines ≠ [])
    (hl : ∀ line ∈ lines, '\n' ∉ line) :
    written reword (partsFrom (Region.ofQuote open?) true [] (['\n'].intercalate lines)) =
      ['\n'].intercalate (rewordLines reword open? lines) := by
  induction lines generalizing open? with
  | nil => exact absurd rfl hne
  | cons line lines ih =>
    have hl' := List.forall_mem_cons.1 hl
    cases lines with
    | nil =>
      have hline : written reword (partsFrom (Region.ofQuote open?) true [] (line ++ [])) = _ :=
        written_rewordLine hr hquote hl'.1 (by simp)
      rw [onward, List.append_nil, List.append_nil] at hline
      rw [List.intercalate_singleton, hline, rewordLines_cons]
      exact List.intercalate_singleton.symm
    | cons next lines =>
      have hrest := ih (isQuote_rewordLine reword hquote line) (List.cons_ne_nil next lines) hl'.2
      have hcut {first : List Char} {others : List (List Char)} (h : others ≠ []) :
          ['\n'].intercalate (first :: others) = first ++ '\n' :: ['\n'].intercalate others := by
        have := intercalate_append (List.cons_ne_nil first []) h
        rwa [List.singleton_append, List.intercalate_singleton] at this
      rw [hcut (List.cons_ne_nil next lines), written_rewordLine hr hquote hl'.1 (by simp), onward,
        hrest, rewordLines_cons reword open? line, hcut (rewordLines_ne_nil reword _ (List.cons_ne_nil next lines))]

theorem process_eq_written (hr : reword [] = []) (cs : List Char) :
    process reword cs = written reword (parts cs) := by
  have hclosed : ∀ q ∈ (none : Option Char), isQuote q = true := by nofun
  have hlines := written_lines hr hclosed (Text.split_ne_nil '\n' cs)
    fun _ => Text.not_mem_of_mem_split
  rw [Text.intercalate_split] at hlines
  exact hlines.symm

end

/-- Rewording a source is rewording its parts, whatever the rules of the book are. The parts are the
only ones that make up the source and are laid out as parts should be. -/
theorem process_eq_parts (book : Phrasebook) (rules : List (List Char → List Char)) (source : String) :
    (∀ ps, ps = parts source.toList ↔
      Laid true ps ∧ ps.flatMap Part.text = source.toList) ∧
    process (book.rewordBy rules) source.toList =
      (parts source.toList).flatMap (Part.write (book.rewordBy rules)) ∧
    book.process source =
      String.ofList ((parts source.toList).flatMap (Part.write book.reword)) := by
  refine ⟨fun ps => ⟨?_, ?_⟩, ?_, ?_⟩
  · rintro rfl
    exact ⟨laid_parts _, flatMap_text_partsFrom _ _ [] _⟩
  · rintro ⟨hlaid, htext⟩
    rw [parts, ← htext, partsFrom_eq_of_laid hlaid]
  · exact process_eq_written rfl source.toList
  · rw [Phrasebook.process, Phrasebook.reword_eq_rewordBy]
    exact congrArg String.ofList (process_eq_written rfl source.toList)

example : parts "x = 'a#\n' # b\n  # c".toList =
    [.code "x = ".toList, .literal "'a#\n'".toList, .code " ".toList, .comment "# b".toList, .newline,
      .margin "  ".toList, .comment "# c".toList] := by decide

end Source
end Parlance
