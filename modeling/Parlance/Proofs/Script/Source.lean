import Parlance.Proofs.Phrase.Region
import Parlance.Proofs.Script.Seam
import Parlance.Source

/-! From a source to its tree. The tree depends on the kinds and texts of the tokens only, and two
sources with a line end between them are one source with the statements of both. -/

namespace Parlance

namespace Source
open Token (Lexes)

theorem parse_eq_ok {book : Phrasebook} {text : String} {root : Node} :
    parse book text = .ok root ↔ ∃ ts,
      Token.scanFrom .start (process book.reword text.toList) = .ok ts ∧
      Grammar.readScript ts = .ok root := by
  have htext : (book.process text).toList = process book.reword text.toList := by
    simp [Phrasebook.process]
  simp only [parse, tokens, Token.scan, htext, bind, Except.bind]
  cases Token.scanFrom .start (process book.reword text.toList) with
  | error refusal => simp
  | ok ts =>
    simp only [script, placed]
    cases hr : Grammar.readScript ts <;> simp [hr]

def unplaced (l : Token.Kind × String) : Token := ⟨l.1, l.2, .start⟩

theorem parse_of_lexes {book : Phrasebook} {text : String} {ls : List (Token.Kind × String)}
    (h : Lexes (process book.reword text.toList) ls []) {a : List Node}
    (ha : Grammar.readScript ((ls ++ [Token.ending]).map unplaced) = .ok (.block a)) :
    parse book text = .ok (.block a) := by
  obtain ⟨ts, hts, hc⟩ := h.exists_scanFrom .start
  have hplace (ms : List (Token.Kind × String)) : (ms.map unplaced).map Token.content = ms := by
    rw [List.map_map]
    exact List.map_id ms
  exact parse_eq_ok.2
    ⟨ts, hts, Grammar.readScript_of_content h.kind_ne_endOfInput (hplace _) hc ha⟩

theorem parse_append {s₁ s₂ : String} {a b : List Node}
    (h₁ : parse .english s₁ = .ok (.block a)) (h₂ : parse .english s₂ = .ok (.block b)) :
    parse .english (s₁ ++ "\n" ++ s₂) = .ok (.block (a ++ b)) := by
  obtain ⟨ts, hts, hra⟩ := parse_eq_ok.1 h₁
  obtain ⟨us, hus, hrb⟩ := parse_eq_ok.1 h₂
  obtain ⟨ls, hl, hlc⟩ := Token.lexes_of_scanFrom hts
  obtain ⟨ms, hm, hmc⟩ := Token.lexes_of_scanFrom hus
  have hprocess := process_append_newline keepsCode_english hl s₂.toList
  have hjoined : Lexes (process Phrasebook.english.reword (s₁ ++ "\n" ++ s₂).toList)
      (ls ++ ([(.endOfLine, "\n")] ++ ms)) [] := by
    have htext : (s₁ ++ "\n" ++ s₂).toList = s₁.toList ++ '\n' :: s₂.toList := by simp
    rw [htext, hprocess]
    exact hl.append_newline.append ((Token.lexes_newline _).append hm)
  obtain ⟨vs, hvs, hvc⟩ := hjoined.exists_scanFrom .start
  refine parse_eq_ok.2 ⟨vs, hvs, ?_⟩
  refine Grammar.readScript_append hl.kind_ne_endOfInput hm.kind_ne_endOfInput hlc hmc ?_ hra hrb
  simpa using hvc

end Source

end Parlance
