import Parlance.Proofs.Phrase.Items
import Parlance.Proofs.Script.Derivation

/-! Expressions as they may be written. An operator is a sign, or a phrase for the sign, with blanks
on both sides; an operand that holds together too loosely for its place stands in parentheses. The
tokens of a written expression never run into each other. -/

namespace Parlance

namespace Grammar

def Stratum.rank : Stratum → Nat
  | assignment => 0
  | or => 1
  | and => 2
  | equality => 3
  | relational => 4
  | additive => 5
  | multiplicative => 6
  | unary => 7
  | primary => 8

theorem Stratum.rank_le (s : Stratum) : s.rank ≤ Stratum.primary.rank := by
  cases s <;> decide

theorem Stratum.rank_injective {s s' : Stratum} (h : s.rank = s'.rank) : s = s' := by
  cases s <;> cases s' <;> first | rfl | cases h

theorem Stratum.rank_next {s : Stratum} (h : s.rank < Stratum.primary.rank) :
    s.next.rank = s.rank + 1 := by
  cases s with
  | primary => exact absurd h (Nat.lt_irrefl _)
  | _ => rfl

theorem Derives.loosen {s s' : Stratum} {ts : List Token} {e : Node} (h : Derives s ts e)
    (hs : s'.rank ≤ s.rank) : Derives s' ts e := by
  obtain ⟨k, hk⟩ := Nat.exists_eq_add_of_le hs
  clear hs
  induction k generalizing s' with
  | zero => rwa [← Stratum.rank_injective hk]
  | succ k ih =>
    have hle := s.rank_le
    have hnext : s'.next.rank = s'.rank + 1 := Stratum.rank_next (by omega)
    exact .tighter (ih (by omega))

end Grammar

namespace Wording
open Phrasebook
open Grammar (Stratum)
open Token (Kind)

/-! Operators. -/

def stratumOf : BinaryOp → Stratum
  | .or => .or
  | .and => .and
  | .eq | .ne => .equality
  | .lt | .gt | .le | .ge => .relational
  | .add | .sub => .additive
  | .mul | .div | .mod => .multiplicative
  | .other _ => .primary

def binarySigns : BinaryOp → List (Kind × String)
  | .or => [(.operator, "||"), (.keyword .orWord, "or")]
  | .and => [(.operator, "&&"), (.keyword .andWord, "and")]
  | .other _ => []
  | op => [(.operator, op.text)]

def unarySigns : UnaryOp → List (Kind × String)
  | .not => [(.keyword .notWord, "not")]
  | .other _ => []
  | op => [(.operator, op.text)]

theorem binarySigns_subset (op : BinaryOp) : binarySigns op ⊆ fixedTokens := by
  cases op with
  | other text => exact List.nil_subset _
  | _ => decide

theorem unarySigns_subset (op : UnaryOp) : unarySigns op ⊆ fixedTokens := by
  cases op with
  | other text => exact List.nil_subset _
  | _ => decide

/-- An operator as it is written: one of its signs, or an English phrase for the sign, in any letter
case and with any blanks between its words. -/
inductive Written (signs : List (Kind × String)) where
  | sign (t : Kind × String) (h : t ∈ signs)
  | phrase (r : List String × String) (h : r ∈ wordings) (hsign : (.operator, r.2) ∈ signs)
      (text : List Char) (hs : Spells r.1 text)

namespace Written
variable {signs : List (Kind × String)}

def atom (hsigns : signs ⊆ fixedTokens) : Written signs → Atom
  | sign t h => .fixed t (hsigns h)
  | phrase r h _ text hs => .phrase r h text hs

def plain : Written signs → Written signs
  | sign t h => sign t h
  | phrase r _ hsign _ _ => sign (.operator, r.2) hsign

theorem content_mem (hsigns : signs ⊆ fixedTokens) (w : Written signs) :
    (w.atom hsigns).content ∈ signs := by
  cases w with
  | sign t h => exact h
  | phrase r h hsign text hs => exact hsign

theorem isPhrase_plain (hsigns : signs ⊆ fixedTokens) (w : Written signs) :
    (w.plain.atom hsigns).isPhrase = false := by
  cases w <;> rfl

end Written

/-! Expressions. -/

inductive Term where
  | number (n : Numeral)
  | text (l : Literal)
  | bool (b : Bool)
  | null
  | name (x : Name)
  | call (x : Name) (args : List Term)
  | assign (x : Name) (before after : Blanks) (value : Term)
  | unary (op : UnaryOp) (w : Written (unarySigns op)) (before : Option Blanks) (after : Blanks)
      (operand : Term)
  | binary (op : BinaryOp) (w : Written (binarySigns op)) (before after : Blanks)
      (left right : Term)
  | group (inner : Term)

/-! Tokens with blanks. -/

theorem delimiter_mem (d : Delimiter) : (.delimiter d, String.singleton d.char) ∈ fixedTokens := by
  cases d <;> decide

theorem keyword_mem (k : Keyword) : (.keyword k, k.spelling) ∈ fixedTokens := by
  cases k <;> decide

def bare (x : Atom) : Item := ⟨[], x, blank_nil⟩

def spaced (b : Blanks) (x : Atom) : Item := ⟨b.text, x, b.blank⟩

def mark (d : Delimiter) : Item :=
  bare (.fixed (.delimiter d, String.singleton d.char) (delimiter_mem d))

def keyword (k : Keyword) : Item := bare (.fixed (.keyword k, k.spelling) (keyword_mem k))

def pad (b : Blanks) : List Item → List Item
  | [] => []
  | x :: items => ⟨b.text ++ x.before, x.atom, fun c hc =>
      (List.mem_append.1 hc).elim (b.blank c) (x.blank c)⟩ :: items

def parens (items : List Item) : List Item := mark .leftParen :: (items ++ [mark .rightParen])

def wrap (s found : Stratum) (items : List Item) : List Item :=
  if s.rank ≤ found.rank then items else parens items

def listed : List (List Item) → List Item
  | [] => []
  | [part] => part
  | part :: next :: parts =>
    part ++ mark .comma :: pad ⟨[' '], by decide, blank_space⟩ (listed (next :: parts))

def Numeral.value (n : Numeral) : Float :=
  Decimal.nearest (Decimal.natOfDigits (n.whole ++ n.fraction)) (-n.fraction.length)

namespace Term

@[elab_as_elim]
theorem induction {motive : Term → Prop} (number : ∀ n, motive (number n))
    (text : ∀ l, motive (text l)) (bool : ∀ b, motive (bool b)) (null : motive null)
    (name : ∀ x, motive (name x))
    (call : ∀ x args, (∀ t ∈ args, motive t) → motive (call x args))
    (assign : ∀ x before after value, motive value → motive (assign x before after value))
    (unary : ∀ op w before after operand, motive operand →
      motive (unary op w before after operand))
    (binary : ∀ op w before after left right, motive left → motive right →
      motive (binary op w before after left right))
    (group : ∀ inner, motive inner → motive (group inner)) (t : Term) : motive t :=
  @Term.rec motive (fun args => ∀ t ∈ args, motive t) number text bool null name call assign unary
    binary group (by simp) (fun _ _ ht hts => List.forall_mem_cons.2 ⟨ht, hts⟩) t

def node : Term → Node
  | number n => .literal (.number n.value)
  | text l => .literal (.text l.value)
  | bool b => .literal (.bool b)
  | null => .null
  | name x => .path (String.ofList x.text)
  | call x args => .call (String.ofList x.text) (args.map node)
  | assign x _ _ value => .assign (String.ofList x.text) value.node
  | unary op _ _ _ operand => .unary op operand.node
  | binary op _ _ _ left right => .binary op left.node right.node
  | group inner => inner.node

def plain : Term → Term
  | call x args => call x (args.map plain)
  | assign x before after value => assign x before after value.plain
  | unary op w before after operand => unary op w.plain before after operand.plain
  | binary op w before after left right => binary op w.plain before after left.plain right.plain
  | group inner => group inner.plain
  | t => t

def stratum : Term → Stratum
  | assign .. => .assignment
  | unary .. => .unary
  | binary op .. => stratumOf op
  | _ => .primary

def items : Term → List Item
  | number n => [bare (.numeral n)]
  | text l => [bare (.literal l)]
  | bool b => [keyword (if b then .trueWord else .falseWord)]
  | null => [keyword .nullWord]
  | name x => [bare (.name x)]
  | call x args => bare (.name x) :: parens (listed (args.map items))
  | assign x before after value =>
    bare (.name x) :: spaced before (.fixed (.operator, "=") (by decide)) :: pad after value.items
  | unary op w before after operand =>
    let sign := w.atom (unarySigns_subset op)
    before.elim (bare sign) (spaced · sign) :: pad after (wrap .unary operand.stratum operand.items)
  | binary op w before after left right =>
    wrap (stratumOf op) left.stratum left.items ++
      spaced before (w.atom (binarySigns_subset op)) ::
        pad after (wrap (stratumOf op).next right.stratum right.items)
  | group inner => parens inner.items

end Term

/-! Tokens side by side. -/

/-- The tokens fit, and no operator is at their end or the word `or` at their beginning. -/
structure Operand (items : List Item) : Prop where
  nonempty : items ≠ []
  chain : items.IsChain Fits
  first : ∀ x ∈ items.head?, x.atom.content ≠ (.keyword .orWord, "or")
  last : ∀ x ∈ items.getLast?, x.atom.isPhrase = false

theorem fits_of_tight {x y : Item} (h : x.atom.tight = true) : Fits x y :=
  ⟨.inl h, fun hp => absurd h (Atom.not_tight_of_isPhrase hp)⟩

theorem Atom.content_ne_or_of_tight {x : Atom} (h : x.tight = true) :
    x.content ≠ (.keyword .orWord, "or") := by
  cases x with
  | literal l => exact fun hc => nomatch (Prod.mk.inj hc).1
  | fixed t ht =>
    rintro rfl
    cases h
  | name | numeral | phrase => cases h

theorem fits_tight {x y : Item} (h : y.atom.tight = true) : Fits x y :=
  ⟨.inr (.inl h), fun _ => Atom.content_ne_or_of_tight h⟩

namespace Operand
variable {xs ys items : List Item} {x : Item}

theorem cons (hys : Operand ys) (hx : x.atom.content ≠ (.keyword .orWord, "or"))
    (hfits : ∀ y ∈ ys.head?, Fits x y) : Operand (x :: ys) where
  nonempty := List.cons_ne_nil x ys
  chain := List.isChain_cons.2 ⟨hfits, hys.chain⟩
  first := by simpa using hx
  last := by
    rw [List.getLast?_cons_of_ne_nil hys.nonempty]
    exact hys.last

theorem join (hxs : Operand xs) (hys : Operand ys) (hleft : ∀ l ∈ xs.getLast?, Fits l x)
    (hright : ∀ y ∈ ys.head?, Fits x y) : Operand (xs ++ x :: ys) where
  nonempty := List.append_ne_nil_of_left_ne_nil hxs.nonempty _
  chain := by
    refine List.isChain_append.2 ⟨hxs.chain, List.isChain_cons.2 ⟨hright, hys.chain⟩, ?_⟩
    rintro l hl _ ⟨⟩
    exact hleft l hl
  first := by
    rw [List.head?_append_of_ne_nil _ hxs.nonempty]
    exact hxs.first
  last := by
    rw [List.getLast?_append_of_ne_nil _ (List.cons_ne_nil x ys),
      List.getLast?_cons_of_ne_nil hys.nonempty]
    exact hys.last

theorem single {a : Atom} (hk : a.content.1 ≠ .keyword .orWord) (hp : a.isPhrase = false) :
    Operand [bare a] where
  nonempty := List.cons_ne_nil _ []
  chain := .singleton _
  first := by
    rintro _ ⟨⟩ hc
    exact hk (Prod.mk.inj hc).1
  last := by
    rintro _ ⟨⟩
    exact hp

theorem pad (h : Operand items) (b : Blanks) : Operand (pad b items) := by
  obtain ⟨x, rest, rfl⟩ := List.exists_cons_of_ne_nil h.nonempty
  have hchain := List.isChain_cons.1 h.chain
  have hlast : ∀ y ∈ (Wording.pad b (x :: rest)).getLast?, y.atom.isPhrase = false := by
    cases rest with
    | nil => simpa [Wording.pad] using h.last x rfl
    | cons y rest => exact h.last
  refine ⟨List.cons_ne_nil _ _, List.isChain_cons.2 ⟨fun y hy => ?_, hchain.2⟩,
    by simpa [Wording.pad] using h.first x rfl, hlast⟩
  -- Whether the first token fits before the second does not depend on the blanks before it.
  exact ⟨(hchain.1 y hy).apart, (hchain.1 y hy).notOr⟩

theorem parens (h : items.IsChain Fits) : Operand (parens items) where
  nonempty := List.cons_ne_nil _ _
  chain := by
    refine List.isChain_cons.2 ⟨fun y _ => fits_of_tight rfl, List.isChain_append.2 ⟨h, ?_, ?_⟩⟩
    · exact .singleton _
    · rintro x - _ ⟨⟩
      exact fits_tight rfl
  first := by
    rintro _ ⟨⟩
    exact Atom.content_ne_or_of_tight rfl
  last := by
    rw [Wording.parens, ← List.cons_append, List.getLast?_concat]
    rintro _ ⟨⟩
    rfl

theorem wrap (h : Operand items) (s found : Stratum) : Operand (wrap s found items) := by
  unfold Wording.wrap
  split
  · exact h
  · exact parens h.chain

theorem before_ne_nil (b : Blanks) : ∀ y ∈ (Wording.pad b items).head?, y.before ≠ [] := by
  cases items with
  | nil => simp [Wording.pad]
  | cons x items =>
    rintro _ ⟨⟩
    exact List.append_ne_nil_of_left_ne_nil b.nonempty _

theorem fits_pad (h : Operand items) (b : Blanks) :
    ∀ y ∈ (Wording.pad b items).head?, Fits x y :=
  fun y hy => ⟨.inr (.inr (before_ne_nil b y hy)), fun _ => (h.pad b).first y hy⟩

theorem fits_spaced (h : Operand items) (b : Blanks) (a : Atom) :
    ∀ l ∈ items.getLast?, Fits l (spaced b a) := by
  intro l hl
  refine ⟨.inr (.inr b.nonempty), fun hp => ?_⟩
  rw [h.last l hl] at hp
  cases hp

theorem listed {parts : List (List Item)} (h : ∀ part ∈ parts, Operand part) (hne : parts ≠ []) :
    Operand (listed parts) := by
  fun_induction Wording.listed parts with
  | case1 => exact absurd rfl hne
  | case2 part => exact h part (by simp)
  | case3 part next parts ih =>
    have h' := List.forall_mem_cons.1 h
    have hrest := ih h'.2 (List.cons_ne_nil _ _)
    exact h'.1.join (hrest.pad _) (fun _ _ => fits_tight rfl) (hrest.fits_pad _)

end Operand

theorem unarySigns_ne_or (op : UnaryOp) : (.keyword .orWord, "or") ∉ unarySigns op := by
  cases op with
  | other text => exact List.not_mem_nil
  | _ => decide

theorem Term.operand (t : Term) : Operand t.items := by
  induction t using Term.induction with
  | number n | text l | null | name x =>
    rw [items]
    exact .single nofun rfl
  | bool b =>
    rw [items]
    cases b <;> exact .single nofun rfl
  | call x args ih =>
    have hname : Operand [bare (.name x)] := .single nofun rfl
    have hparts : ∀ part ∈ args.map items, Operand part := by
      intro part hp
      obtain ⟨t, ht, rfl⟩ := List.mem_map.1 hp
      exact ih t ht
    have hlist : (listed (args.map items)).IsChain Fits := by
      cases args with
      | nil => exact .nil
      | cons t ts => exact (Operand.listed hparts (List.cons_ne_nil _ _)).chain
    rw [items]
    refine (Operand.parens hlist).cons (hname.first _ rfl) ?_
    rintro _ ⟨⟩
    exact fits_tight rfl
  | assign x before after value ih =>
    have hname : Operand [bare (.name x)] := .single nofun rfl
    rw [items]
    exact hname.join (ih.pad after) (hname.fits_spaced _ _) (ih.fits_pad after)
  | unary op w before after operand ih =>
    have hwrap := ih.wrap .unary operand.stratum
    have hor : (w.atom (unarySigns_subset op)).content ≠ (.keyword .orWord, "or") :=
      fun he => unarySigns_ne_or op (he ▸ w.content_mem _)
    rw [items]
    refine (hwrap.pad after).cons ?_ (hwrap.fits_pad after)
    cases before <;> exact hor
  | binary op w before after left right hleft hright =>
    have hwrap := hright.wrap (stratumOf op).next right.stratum
    have hwrap' := hleft.wrap (stratumOf op) left.stratum
    rw [items]
    exact hwrap'.join (hwrap.pad after) (hwrap'.fits_spaced _ _) (hwrap.fits_pad after)
  | group inner ih =>
    rw [items]
    exact .parens ih.chain

end Wording
end Parlance
