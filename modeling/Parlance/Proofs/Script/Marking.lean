import Parlance.Proofs.Script.Shape
import Parlance.Script.Mark

/-! Marking changes the marks and nothing else: the cues stand where they stood, with numbers in a row,
an expression has none, and a statement stays one. -/

namespace Parlance.Node

def numbered (n : Nat) : List Cue → List Cue
  | [] => []
  | cue :: rest => { cue with mark := n } :: numbered (n + 1) rest

theorem numbered_append (n : Nat) (before after : List Cue) :
    numbered n (before ++ after) = numbered n before ++ numbered (n + before.length) after := by
  induction before generalizing n with
  | nil => rfl
  | cons cue rest ih =>
    simp only [List.cons_append, numbered, ih, List.length_cons, Nat.add_assoc, Nat.add_comm 1]

theorem map_mark_numbered (n : Nat) (cs : List Cue) :
    (numbered n cs).map (·.mark) = List.range' n cs.length := by
  induction cs generalizing n with
  | nil => rfl
  | cons cue rest ih => simp only [numbered, List.map_cons, ih, List.length_cons, List.range'_succ]

mutual
theorem cues_mark (n : Nat) : ∀ node : Node, (node.mark n).cues = numbered n node.cues
  | .literal _ | .path _ => rfl
  | .assign _ value | .unary _ value | .returnWith value => cues_mark n value
  | .functionDef _ _ body => cues_mark n body
  | .block nodes | .call _ nodes | .trigger _ nodes => cues_markAll n nodes
  | .binary _ left right | .whileLoop left right => by
    simp only [mark, cues, numbered_append, cues_mark n left, cues_mark _ right]
  | .branch condition yes none => by
    simp only [mark, cues, numbered_append, List.append_nil, cues_mark n condition, cues_mark _ yes]
  | .branch condition yes (some no) => by
    simp only [mark, cues, numbered_append, cues_mark n condition, cues_mark _ yes, cues_mark _ no,
      List.length_append, Nat.add_assoc]
  | .forLoop init condition step body => by
    simp only [mark, cues, numbered_append, cues_mark n init, cues_mark _ condition,
      cues_mark _ step, cues_mark _ body, List.length_append, Nat.add_assoc]
  | .handler cue body => by simp only [mark, cues, numbered, cues_mark _ body]
theorem cues_markAll (n : Nat) : ∀ nodes : List Node,
    cuesAll (markAll n nodes) = numbered n (cuesAll nodes)
  | [] => rfl
  | node :: rest => by
    simp only [markAll, cuesAll, numbered_append, cues_mark n node, cues_markAll _ rest]
end

theorem exists_mem_of_mem_markAll {n : Nat} {nodes : List Node} {node : Node}
    (h : node ∈ markAll n nodes) : ∃ k, ∃ old ∈ nodes, node = old.mark k := by
  induction nodes generalizing n with
  | nil => cases h
  | cons first rest ih =>
    rcases List.mem_cons.1 h with rfl | h
    · exact ⟨n, first, List.mem_cons_self, rfl⟩
    · obtain ⟨k, old, hold, rfl⟩ := ih h
      exact ⟨k, old, List.mem_cons_of_mem _ hold, rfl⟩

theorem IsExpression.mark_eq {node : Node} (h : node.IsExpression) (n : Nat) :
    node.cues = [] ∧ node.mark n = node := by
  have hall {nodes : List Node} (hs : ∀ node ∈ nodes, node.cues = [] ∧ ∀ n, node.mark n = node)
      (n : Nat) : cuesAll nodes = [] ∧ markAll n nodes = nodes := by
    induction nodes generalizing n with
    | nil => exact ⟨rfl, rfl⟩
    | cons first rest ih =>
      obtain ⟨hc, hm⟩ := hs first List.mem_cons_self
      obtain ⟨hcs, hms⟩ := ih (fun x hx => hs x (List.mem_cons_of_mem _ hx)) (n + first.cues.length)
      simp only [cuesAll, markAll, hc, hm, hcs, List.append_nil, true_and]
      rw [hc] at hms
      rw [hms]
  induction h generalizing n with
  | literal | path => exact ⟨rfl, rfl⟩
  | assign _ _ ih | unary _ _ ih =>
    obtain ⟨hc, hm⟩ := ih n
    exact ⟨hc, by simp only [mark, hm]⟩
  | binary _ _ _ ihl ihr =>
    simp only [cues, mark, (ihl n).1, (ihr n).1, (ihl n).2, (ihr _).2, List.append_nil, and_self]
  | call _ _ ih =>
    obtain ⟨hc, hm⟩ := hall (fun x hx => ⟨(ih x hx 0).1, fun k => (ih x hx k).2⟩) n
    exact ⟨hc, by simp only [mark, hm]⟩

theorem IsExpression.mark {node : Node} (h : node.IsExpression) (n : Nat) :
    (node.mark n).IsExpression := by
  rw [(h.mark_eq n).2]
  exact h

theorem IsStatement.mark {node : Node} (h : node.IsStatement) (n : Nat) :
    (node.mark n).IsStatement := by
  induction h generalizing n with
  | expression h => exact .expression (h.mark n)
  | block _ ih =>
    refine .block fun node hnode => ?_
    obtain ⟨k, old, hold, rfl⟩ := exists_mem_of_mem_markAll hnode
    exact ih old hold k
  | @branch _ _ no hc _ _ ihy ihn =>
    cases no with
    | none => exact .branch (hc.mark _) (ihy _) (by simp)
    | some no => exact .branch (hc.mark _) (ihy _) (by simpa using ihn no rfl _)
  | whileLoop hc _ ih => exact .whileLoop (hc.mark _) (ih _)
  | forLoop hi hc hs _ ih => exact .forLoop (hi.mark _) (hc.mark _) (hs.mark _) (ih _)
  | functionDef name params _ ih => exact .functionDef name params (ih _)
  | returnWith hv => exact .returnWith (hv.mark _)
  | handler cue _ ih => exact .handler _ (ih _)
  | trigger event hargs =>
    refine .trigger event fun arg harg => ?_
    obtain ⟨k, old, hold, rfl⟩ := exists_mem_of_mem_markAll harg
    exact (hargs old hold).mark k

theorem forall_mem_of_markAll {P : Node → Prop} {n : Nat} {nodes : List Node}
    (hP : ∀ node ∈ nodes, ∀ k, P (node.mark k) → P node) (h : ∀ node ∈ markAll n nodes, P node) :
    ∀ node ∈ nodes, P node := by
  induction nodes generalizing n with
  | nil => exact fun _ hx => absurd hx List.not_mem_nil
  | cons first rest ih =>
    intro node hnode
    rcases List.mem_cons.1 hnode with rfl | hnode
    · exact hP node List.mem_cons_self _ (h _ List.mem_cons_self)
    · exact ih (fun x hx => hP x (List.mem_cons_of_mem _ hx))
        (fun x hx => h x (List.mem_cons_of_mem _ hx)) node hnode

theorem isExpression_of_mark (n : Nat) : ∀ node : Node,
    (node.mark n).IsExpression → node.IsExpression
  | .literal _, h | .path _, h => h
  | .assign name value, .assign _ h => .assign name (isExpression_of_mark n value h)
  | .binary op left right, .binary hop hl hr =>
    .binary hop (isExpression_of_mark n left hl) (isExpression_of_mark _ right hr)
  | .unary op operand, .unary hop h => .unary hop (isExpression_of_mark n operand h)
  | .call name args, .call _ h =>
    .call name (forall_mem_of_markAll (fun arg _ k => isExpression_of_mark k arg) h)

theorem isStatement_of_mark (n : Nat) : ∀ node : Node,
    (node.mark n).IsStatement → node.IsStatement
  | .literal _, h | .path _, h => h
  | .block nodes, .block h =>
    .block (forall_mem_of_markAll (fun node _ k => isStatement_of_mark k node) h)
  | .branch condition yes none, .branch hc hy _ =>
    .branch (isExpression_of_mark n condition hc) (isStatement_of_mark _ yes hy) (by simp)
  | .branch condition yes (some no), .branch hc hy hn =>
    .branch (isExpression_of_mark n condition hc) (isStatement_of_mark _ yes hy)
      (by simpa using isStatement_of_mark _ no (hn _ rfl))
  | .whileLoop condition body, .whileLoop hc hb =>
    .whileLoop (isExpression_of_mark n condition hc) (isStatement_of_mark _ body hb)
  | .forLoop init condition step body, .forLoop hi hc hs hb =>
    .forLoop (isExpression_of_mark n init hi) (isExpression_of_mark _ condition hc)
      (isExpression_of_mark _ step hs) (isStatement_of_mark _ body hb)
  | .functionDef name params body, .functionDef _ _ h =>
    .functionDef name params (isStatement_of_mark n body h)
  | .returnWith value, .returnWith h => .returnWith (isExpression_of_mark n value h)
  | .handler cue body, .handler _ h => .handler cue (isStatement_of_mark _ body h)
  | .trigger event args, .trigger _ h =>
    .trigger event (forall_mem_of_markAll (fun arg _ k => isExpression_of_mark k arg) h)
  | .assign .., .expression h | .binary .., .expression h | .unary .., .expression h
  | .call .., .expression h | .block _, .expression h | .branch .., .expression h
  | .whileLoop .., .expression h | .forLoop .., .expression h | .functionDef .., .expression h
  | .returnWith _, .expression h | .handler .., .expression h | .trigger .., .expression h =>
    .expression (isExpression_of_mark n _ h)

end Parlance.Node
