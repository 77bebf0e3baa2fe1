import Parlance.Proofs.Script.Rendering

/-! Writing a tree as tokens. An operand that holds together too loosely for its place stands in
parentheses, and every statement ends with a line end. How a number is spelled is left open; all that
is asked of a spelling is that it reads back as the same number. An expression that was read from
tokens has a derivation from the tokens that are written for it. -/

namespace Parlance.Printer
open Grammar (Stratum Derives CommaJoined)
open Wording (stratumOf binarySigns unarySigns)
open Source (unplaced)
open Token (Kind)

def mark (d : Delimiter) : Token := unplaced (.delimiter d, String.singleton d.char)

def word (k : Keyword) : Token := unplaced (.keyword k, k.spelling)

def name (x : String) : Token := unplaced (.identifier, x)

def sign (text : String) : Token := unplaced (.operator, text)

def lineEnd : Token := unplaced (.endOfLine, "\n")

def parens (ts : List Token) : List Token := mark .leftParen :: (ts ++ [mark .rightParen])

def commas (parts : List (List Token)) : List Token := [mark .comma].intercalate parts

def binarySign : BinaryOp → Token
  | .or => word .orWord
  | .and => word .andWord
  | op => sign op.text

def unarySign : UnaryOp → Token
  | .not => word .notWord
  | op => sign op.text

def stratum : Node → Stratum
  | .assign .. => .assignment
  | .unary .. => .unary
  | .binary op .. => stratumOf op
  | _ => .primary

/-- Tokens of the stratum `found`, in a place for expressions of the stratum `s`. -/
def wrap (s found : Stratum) (ts : List Token) : List Token :=
  if s.rank ≤ found.rank then ts else parens ts

section
variable (numeral : Float → String)

def literal : Value → List Token
  | .null => [word .nullWord]
  | .bool b => [word (if b then .trueWord else .falseWord)]
  | .number x => [unplaced (.number, numeral x)]
  | .text s => [unplaced (.string, s)]
  | .list _ | .object _ => []

mutual
@[simp] def expression : Node → List Token
  | .literal v => literal numeral v
  | .path x => [name x]
  | .assign x value => name x :: sign "=" :: expression value
  | .binary op left right =>
    wrap (stratumOf op) (stratum left) (expression left) ++
      binarySign op :: wrap (stratumOf op).next (stratum right) (expression right)
  | .unary op operand => unarySign op :: wrap .unary (stratum operand) (expression operand)
  | .call x args => name x :: parens (commas (expressions args))
  | _ => []
@[simp] def expressions : List Node → List (List Token)
  | [] => []
  | e :: es => expression e :: expressions es
end

/-- The value after a `return`, which is left out if it is null. -/
def returned : Node → List Token
  | .literal .null => []
  | value => expression numeral value

mutual
@[simp] def statement : Node → List Token
  | .block nodes => mark .leftBrace :: (statements nodes ++ [mark .rightBrace, lineEnd])
  | .branch test yes none => word .ifWord :: (parens (expression numeral test) ++ statement yes)
  | .branch test yes (some no) =>
    word .ifWord ::
      (parens (expression numeral test) ++ (statement yes ++ word .elseWord :: statement no))
  | .whileLoop test body =>
    word .whileWord :: (parens (expression numeral test) ++ statement body)
  | .forLoop init test step body =>
    word .forWord :: (parens (expression numeral init ++ lineEnd ::
      (expression numeral test ++ lineEnd :: expression numeral step)) ++ statement body)
  | .functionDef f params body =>
    word .functionWord :: name f :: (parens (commas (params.map ([name ·]))) ++ statement body)
  | .returnWith value => word .returnWord :: (returned numeral value ++ [lineEnd])
  | .handler event body => word .onWord :: name event :: statement body
  | .trigger event args =>
    word .triggerWord :: name event :: (parens (commas (expressions numeral args)) ++ [lineEnd])
  | e => expression numeral e ++ [lineEnd]
@[simp] def statements : List Node → List Token
  | [] => []
  | node :: nodes => statement node ++ statements nodes
end

def script : Node → List Token
  | .block nodes => statements numeral nodes ++ [unplaced Token.ending]
  | node => statement numeral node ++ [unplaced Token.ending]

theorem expressions_eq (es : List Node) : expressions numeral es = es.map (expression numeral) := by
  induction es with
  | nil => rfl
  | cons e es ih => rw [expressions, ih, List.map_cons]

theorem statements_eq (nodes : List Node) :
    statements numeral nodes = nodes.flatMap (statement numeral) := by
  induction nodes with
  | nil => rfl
  | cons node nodes ih => rw [statements, ih, List.flatMap_cons]

end

/-! Expressions. -/

theorem commaJoined_commas (parts : List (List Token)) : CommaJoined parts (commas parts) := by
  induction parts with
  | nil => exact .none
  | cons part parts ih =>
    cases parts with
    | nil =>
      rw [commas, List.intercalate_singleton]
      exact .one part
    | cons next parts =>
      have hcut : commas (part :: next :: parts) = part ++ mark .comma :: commas (next :: parts) := by
        rw [commas, List.intercalate_cons_cons]
        simp [commas]
      rw [hcut]
      exact .more rfl ih

theorem writes_binarySign {op : BinaryOp} (h : op ∈ BinaryOp.known) :
    (stratumOf op).Writes (binarySign op) op := by
  refine Wording.writes_of_mem (t := (binarySign op).content) ?_
  revert op
  decide

theorem writesUnary_unarySign {op : UnaryOp} (h : op ∈ [UnaryOp.neg, .bang, .not]) :
    Grammar.WritesUnary (unarySign op) op := by
  refine Wording.writesUnary_of_mem (t := (unarySign op).content) ?_
  revert op
  decide

variable {numeral : Float → String} {e : Node}

def ReadsBack (numeral : Float → String) (t : Token) : Prop :=
  t.kind = .number → ∀ x, Decimal.read t.text.toList = .ok x →
    Decimal.read (numeral x).toList = .ok x

def Faithful (numeral : Float → String) (e : Node) : Prop :=
  Derives (stratum e) (expression numeral e) e

theorem Faithful.assignment (h : Faithful numeral e) : Derives .assignment (expression numeral e) e :=
  h.loosen (Nat.zero_le _)

theorem Faithful.wrap (h : Faithful numeral e) (s : Stratum) :
    Derives s (wrap s (stratum e) (expression numeral e)) e := by
  unfold Printer.wrap
  split
  · next hs => exact h.loosen hs
  · have hgroup : Derives .primary (parens (expression numeral e)) e := .group rfl rfl h.assignment
    exact hgroup.loosen s.rank_le

theorem Faithful.assign (h : Faithful numeral e) (x : String) : Faithful numeral (.assign x e) := by
  have hname : Derives .or [name x] (.path x) := (Derives.path rfl).loosen (by decide)
  exact Derives.assign hname ⟨rfl, rfl⟩ h.assignment

theorem Faithful.call (f : String) {args : List Node} (h : ∀ arg ∈ args, Faithful numeral arg) :
    Faithful numeral (.call f args) := by
  obtain ⟨pairs, hpairs⟩ : ∃ pairs, pairs = args.map fun arg => (expression numeral arg, arg) := ⟨_, rfl⟩
  have hfirst : pairs.map (·.1) = args.map (expression numeral) := by simp [hpairs]
  have hsecond : pairs.map (·.2) = args := by simp [hpairs, Function.comp_def]
  have hjoined : CommaJoined (pairs.map (·.1)) (commas (args.map (expression numeral))) :=
    hfirst ▸ commaJoined_commas _
  have hargs : ∀ arg ∈ pairs, Derives .assignment arg.1 arg.2 := by
    rw [hpairs]
    intro arg ha
    obtain ⟨arg, hm, rfl⟩ := List.mem_map.1 ha
    exact (h arg hm).assignment
  have hcall := Derives.call (t := name f) (l := mark .leftParen) (r := mark .rightParen) rfl rfl rfl
    hjoined hargs
  rw [hsecond] at hcall
  rw [Faithful, expression, expressions_eq]
  exact hcall

theorem mem_of_commaJoined {parts : List (List Token)} {joined : List Token}
    (h : CommaJoined parts joined) {part : List Token} (hp : part ∈ parts) {t : Token}
    (ht : t ∈ part) : t ∈ joined := by
  induction h with
  | none => cases hp
  | one => simp_all
  | more _ _ ih =>
    rcases List.mem_cons.1 hp with rfl | hp
    · exact List.mem_append_left _ ht
    · exact List.mem_append_right _ (List.mem_cons_of_mem _ (ih hp))

theorem faithful_of_derives {s : Stratum} {ts : List Token} (h : Derives s ts e)
    (hts : ∀ t ∈ ts, ReadsBack numeral t) : Faithful numeral e := by
  induction h with
  | tighter _ ih => exact ih hts
  | @assign left right equals x value _ _ _ _ ih =>
    have hvalue : Faithful numeral value :=
      ih fun t ht => hts t (List.mem_append_right _ (List.mem_cons_of_mem _ ht))
    exact hvalue.assign x
  | @binary s left right t op a b _ hw _ hl hr =>
    have ha : Faithful numeral a := hl fun t ht => hts t (List.mem_append_left _ ht)
    have hb : Faithful numeral b :=
      hr fun t ht => hts t (List.mem_append_right _ (List.mem_cons_of_mem _ ht))
    exact .binary (ha.wrap _) (writes_binarySign hw.mem_known) (hb.wrap _)
  | unary hw _ ih =>
    have he := ih fun t ht => hts t (List.mem_cons_of_mem _ ht)
    exact .unary (writesUnary_unarySign hw.mem_known) (he.wrap _)
  | @number t x hk hx =>
    refine .number rfl ?_
    exact hts t (List.mem_singleton.2 rfl) hk x hx
  | text => exact .text rfl
  | truth => exact .truth rfl
  | falsehood => exact .falsehood rfl
  | null => exact .null rfl
  | path => exact .path rfl
  | @call t l r args inside _ _ _ hj _ ih =>
    refine .call _ fun arg ha => ?_
    obtain ⟨p, hp, rfl⟩ := List.mem_map.1 ha
    refine ih p hp fun u hu => hts u ?_
    have hmem := mem_of_commaJoined hj (List.mem_map_of_mem hp) hu
    simp [hmem]
  | group _ _ _ ih => exact ih fun t ht => hts t (by simp [ht])

end Parlance.Printer
