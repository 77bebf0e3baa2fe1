import Parlance.Proofs.Phrase.Parts

/-! Texts that differ only in their code. Rewording recasts stretches of code and copies the rest, so
a reworded text has its literals and its line ends where the first text has them. -/

namespace Parlance.Source

/-- The second text is the first one with stretches of code recast, each into one that the relation
`R` allows. Both are read from the given region on. -/
inductive Recast (R : List Char → List Char → Prop) : Region → List Char → List Char → Prop
  | nil (r : Region) : Recast R r [] []
  | same {r : Region} (c : Char) {cs ds : List Char} : Recast R (r.next c) cs ds →
      Recast R r (c :: cs) (c :: ds)
  | code {text text' cs ds : List Char} : R text text' → Recast R .code cs ds →
      Recast R .code (text ++ cs) (text' ++ ds)

def WithinLines (R : List Char → List Char → Prop) : Prop :=
  ∀ text text', R text text' → (∀ c ∈ text, InLine c) ∧ ∀ c ∈ text', InLine c

theorem Region.after_inLine {cs : List Char} (h : ∀ c ∈ cs, InLine c) : code.after cs = code :=
  after_code fun c hc => (h c hc).1

theorem Region.after_inside {quote : Char} (hquote : isQuote quote = true) {inside : List Char}
    (h : Inside quote inside) : (literal quote false).after inside = literal quote false := by
  have hne : '\\' ≠ quote := (ne_backslash_of_isQuote hquote).symm
  induction h with
  | nil => rfl
  | @plain c cs hq hb _ ih =>
    have hnext : (literal quote false).next c = literal quote false := by simp [next, hq, hb]
    rw [after_cons, hnext, ih]
  | @escape c cs _ ih =>
    have hnext : ((literal quote false).next '\\').next c = literal quote false := by
      simp [next, hne]
    rw [after_cons, after_cons, hnext, ih]

theorem Region.after_literal {quote : Char} (hquote : isQuote quote = true) {inside : List Char}
    (h : Inside quote inside) : code.after (quote :: (inside ++ [quote])) = code := by
  have hopen : code.next quote = literal quote false := by rw [next, if_pos hquote]
  rw [after_cons, hopen, after_append, after_inside hquote h, after_cons, next, if_pos rfl, after_nil]

namespace Recast
variable {R : List Char → List Char → Prop} {r : Region} {cs ds cs' ds' : List Char}

theorem refl (R : List Char → List Char → Prop) (r : Region) (cs : List Char) : Recast R r cs cs := by
  induction cs generalizing r with
  | nil => exact .nil r
  | cons c cs ih => exact .same c (ih _)

theorem append (hR : WithinLines R) (h : Recast R r cs ds) (h' : Recast R (r.after cs) cs' ds') :
    Recast R r (cs ++ cs') (ds ++ ds') := by
  induction h with
  | nil => exact h'
  | same c _ ih => exact .same c (ih h')
  | @code text text' cs ds htext _ ih =>
    rw [Region.after_append, Region.after_inLine (hR _ _ htext).1] at h'
    rw [List.append_assoc, List.append_assoc]
    exact .code htext (ih h')

theorem cons (hR : WithinLines R) {reword : List Char → List Char} {part : Part} {ps : List Part}
    (h : Recast R r part.text (part.write reword)) {after : Region} (hr : r.after part.text = after)
    (hps : Recast R after (ps.flatMap Part.text) (written reword ps)) :
    Recast R r ((part :: ps).flatMap Part.text) (written reword (part :: ps)) := by
  rw [List.flatMap_cons, written_cons]
  exact h.append hR (hr ▸ hps)

/-- Where the parts of code are recast, so is the text. A comment is left with the line end after it,
so the parts may also be read from within a comment if the line ends there. -/
theorem parts (hR : WithinLines R) {reword : List Char → List Char} {fresh : Bool} {ps : List Part}
    (h : Laid fresh ps) (hcode : ∀ text, .code text ∈ ps → Recast R .code text (reword text))
    (hr : r = .code ∨ r = .comment ∧ ∀ part ∈ ps.head?, part = .newline) :
    Recast R r (ps.flatMap Part.text) (written reword ps) := by
  induction h generalizing r with
  | nil => exact .nil r
  | @code fresh text rest _ hin _ _ _ ih =>
    obtain rfl | ⟨-, hnewline⟩ := hr
    · have hafter : Region.code.after (Part.code text).text = .code := Region.after_inLine hin
      have hrest := ih (fun text ht => hcode text (List.mem_cons_of_mem _ ht)) (.inl rfl)
      exact cons hR (hcode text List.mem_cons_self) hafter hrest
    · cases hnewline _ rfl
  | @margin text rest _ hin _ _ ih =>
    obtain rfl | ⟨-, hnewline⟩ := hr
    · have hblank := Region.isCode_of_class (p := Text.isBlank) (by decide) (by decide) (by decide)
      have hafter : Region.code.after (Part.margin text).text = .code :=
        Region.after_code fun c hc => hblank c (hin c hc).1
      have hrest := ih (fun text ht => hcode text (List.mem_cons_of_mem _ ht)) (.inl rfl)
      exact cons hR (refl R .code text) hafter hrest
    · cases hnewline _ rfl
  | @literal fresh quote inside rest hquote hinside _ ih =>
    obtain rfl | ⟨-, hnewline⟩ := hr
    · have hafter : Region.code.after (Part.literal (quote :: (inside ++ [quote]))).text = .code :=
        Region.after_literal hquote hinside
      have hrest := ih (fun text ht => hcode text (List.mem_cons_of_mem _ ht)) (.inl rfl)
      exact cons hR (refl R .code _) hafter hrest
    · cases hnewline _ rfl
  | unclosed => exact cons hR (refl R r _) rfl (.nil _)
  | @comment fresh text rest htext hnewline _ ih =>
    obtain rfl | ⟨-, hnone⟩ := hr
    · have hafter : Region.code.after (Part.comment ('#' :: text)).text = .comment :=
        Region.after_comment htext
      have hrest := ih (fun text ht => hcode text (List.mem_cons_of_mem _ ht))
        (.inr ⟨rfl, hnewline⟩)
      exact cons hR (refl R .code _) hafter hrest
    · cases hnone _ rfl
  | @newline fresh rest _ ih =>
    have hafter : r.after Part.newline.text = .code := by
      obtain rfl | ⟨rfl, -⟩ := hr <;> rfl
    have hrest := ih (fun text ht => hcode text (List.mem_cons_of_mem _ ht)) (.inl rfl)
    exact cons hR (refl R r _) hafter hrest

theorem process (hR : WithinLines R) {reword : List Char → List Char} (hnil : reword [] = [])
    (hcode : ∀ text, .code text ∈ Source.parts cs → Recast R .code text (reword text)) :
    Recast R .code cs (Source.process reword cs) := by
  have htext : (Source.parts cs).flatMap Part.text = cs := flatMap_text_partsFrom _ _ [] cs
  have h := parts hR (laid_parts cs) hcode (.inl rfl)
  rwa [htext, ← process_eq_written hnil] at h

theorem count_newline (hR : WithinLines R) (h : Recast R r cs ds) : ds.count '\n' = cs.count '\n' := by
  have hnone {text : List Char} (ht : ∀ c ∈ text, InLine c) : text.count '\n' = 0 :=
    List.count_eq_zero.2 fun hm => (ht '\n' hm).2 rfl
  induction h with
  | nil => rfl
  | same c _ ih => rw [List.count_cons, List.count_cons, ih]
  | code htext _ ih =>
    rw [List.count_append, List.count_append, hnone (hR _ _ htext).1, hnone (hR _ _ htext).2, ih]

end Recast

/-! Literals. -/

def literals : Nat → List Part → List (List Char × Nat)
  | _, [] => []
  | line, .literal text :: ps => (text, line) :: literals (line + text.count '\n') ps
  | line, .newline :: ps => literals (line + 1) ps
  | line, _ :: ps => literals line ps

theorem literals_ofStretch (line : Nat) (held : List Char) (ps : List Part) :
    literals line (Part.ofStretch held ++ ps) = literals line ps := by
  unfold Part.ofStretch
  split <;> rfl

theorem literals_ofLead (line : Nat) (fresh : Bool) (held : List Char) (ps : List Part) :
    literals line (Part.ofLead fresh held ++ ps) = literals line ps := by
  unfold Part.ofLead
  split
  · split <;> rfl
  · exact literals_ofStretch line held ps

theorem Recast.literals_eq {R : List Char → List Char → Prop} (hR : WithinLines R) {r : Region}
    {cs ds : List Char} (h : Recast R r cs ds) (line : Nat) {fresh fresh' : Bool}
    {held held' : List Char} (hheld : r ≠ .code → held = held') :
    literals line (partsFrom r fresh held cs) = literals line (partsFrom r fresh' held' ds) := by
  induction h generalizing line fresh fresh' held held' with
  | nil r =>
    rcases r with _ | ⟨quote, escaped⟩ | _
    · have hleft := literals_ofStretch line held []
      have hright := literals_ofStretch line held' []
      rw [List.append_nil] at hleft hright
      rw [partsFrom, partsFrom, hleft, hright]
    · rw [hheld (by simp), partsFrom, partsFrom]
    · rw [hheld (by simp), partsFrom, partsFrom]
  | @same r c cs ds _ ih =>
    rcases r with _ | ⟨quote, _ | _⟩ | _
    · rw [partsFrom, partsFrom]
      split
      · next hq =>
        rw [literals_ofStretch, literals_ofStretch]
        rw [Region.next, if_pos hq] at ih
        exact ih line fun _ => rfl
      · next hq =>
        rw [Region.next, if_neg hq] at ih
        split
        · next hc =>
          rw [literals_ofLead, literals_ofLead]
          rw [if_pos hc] at ih
          exact ih line fun _ => rfl
        · next hc =>
          rw [if_neg hc] at ih
          split
          · rw [literals_ofStretch, literals_ofStretch]
            exact ih (line + 1) fun _ => rfl
          · exact ih line (by simp)
    · rw [hheld (by simp), partsFrom, partsFrom]
      split
      · next hc =>
        rw [Region.next, if_pos hc] at ih
        rw [literals, literals, ih _ fun _ => rfl]
      · next hc =>
        rw [Region.next, if_neg hc] at ih
        exact ih line fun _ => rfl
    · rw [hheld (by simp), partsFrom, partsFrom]
      exact ih line fun _ => rfl
    · rw [hheld (by simp), partsFrom, partsFrom]
      split
      · next hc =>
        rw [Region.next, if_pos hc] at ih
        exact ih (line + 1) fun _ => rfl
      · next hc =>
        rw [Region.next, if_neg hc] at ih
        exact ih line fun _ => rfl
  | @code text text' cs ds htext _ ih =>
    rw [partsFrom_code (hR _ _ htext).1, partsFrom_code (hR _ _ htext).2]
    exact ih line (by simp)

end Parlance.Source
