import Parlance.Proofs.Engine.Frame
import Parlance.Proofs.Engine.Loops
import Parlance.Proofs.Phrase.Paths
import Parlance.Proofs.Script.Rendering
import Parlance.Proofs.Token.Lexemes
import Parlance.Proofs.Token.Lines

/-! Members of objects by their paths. A script that is a path reads the members one after the other, and
an assignment to a path sets the last of them, as long as rewording leaves the path alone. If it does not,
the script is not read as the path, because no name as long as the path is left in it. -/

namespace Parlance
open Text Phrasebook

/-! A path that is read stands in the text. -/

theorem Token.Lexes.sublist_of_identifier {cs rest : List Char} {ls : List (Token.Kind × String)}
    (h : Lexes cs ls rest) {name : String} (hname : (.identifier, name) ∈ ls) : name.toList.Sublist cs := by
  induction h with
  | done => cases hname
  | @step c cs rest l ls hfirst _ ih =>
    rw [← first_taken hfirst]
    rcases List.mem_append.1 hname with hname | hname
    · refine List.sublist_append_of_sublist_left ?_
      rcases gap_or_reads_of_first hfirst with ⟨hkind, -⟩ | ⟨kind, hkind, hreads⟩
      · simp [Lexeme.content, hkind] at hname
      · obtain ⟨he, rfl⟩ : .identifier = kind ∧ name = String.ofList l.text := by
          simpa [Lexeme.content, hkind] using hname
        rw [String.toList_ofList]
        generalize l.taken = taken, l.text = text at hreads
        cases hreads with
        | plain => exact List.Sublist.refl _
        | string => cases he
    · exact List.sublist_append_of_sublist_right (ih hname)

namespace Grammar

theorem Derives.exists_identifier {s : Stratum} {used : List Token} {name : String}
    (h : Derives s used (.path name)) : ∃ t ∈ used, t.kind = .identifier ∧ t.text = name := by
  generalize hnode : Node.path name = node at h
  induction h with
  | tighter _ ih => exact ih hnode
  | path hkind =>
    cases hnode
    exact ⟨_, List.mem_singleton.2 rfl, hkind, rfl⟩
  | group _ _ _ ih =>
    obtain ⟨t, ht, hname⟩ := ih hnode
    exact ⟨t, List.mem_cons_of_mem _ (List.mem_append_left _ ht), hname⟩
  | _ => cases hnode

theorem exists_identifier_of_readScript {ts : List Token} {name : String}
    (h : readScript ts = .ok (.block [.path name])) : ∃ t ∈ ts, t.kind = .identifier ∧ t.text = name := by
  obtain ⟨rest, hread⟩ := readScript_eq_ok.1 h
  have hclosed : Closed
      (fun node => node = .path name → ∃ t ∈ ts, t.kind = .identifier ∧ t.text = name)
      (fun node => node = .path name → ∃ t ∈ ts, t.kind = .identifier ∧ t.text = name) := by
    constructor
    case expression => exact fun h => h
    all_goals
      intros
      contradiction
  have hgives (n : Nat) : Gives (· ∈ ts)
      (fun node => node = .path name → ∃ t ∈ ts, t.kind = .identifier ∧ t.text = name) (expression n) := by
    intro us node rest hus hr
    obtain ⟨used, rfl, hderives⟩ := expression_sound n _ _ _ hr
    refine ⟨List.suffix_append used rest, ?_⟩
    rintro rfl
    obtain ⟨t, ht, hname⟩ := hderives.exists_identifier
    exact ⟨t, hus t (List.mem_append_left rest ht), hname⟩
  exact forall_of_sequence hclosed hgives (fun _ ht => ht) hread _ (List.mem_singleton.2 rfl) rfl

end Grammar

theorem Source.sublist_of_parse {book : Phrasebook} {text name : String}
    (h : parse book text = .ok (.block [.path name])) :
    name.toList.Sublist (process book.reword text.toList) := by
  obtain ⟨ts, hscan, hread⟩ := parse_eq_ok.1 h
  obtain ⟨ls, hlexes, hcontent⟩ := Token.lexes_of_scanFrom hscan
  obtain ⟨t, ht, hkind, rfl⟩ := Grammar.exists_identifier_of_readScript hread
  have hmem : t.content ∈ ls ++ [Token.ending] := hcontent ▸ List.mem_map_of_mem ht
  rcases List.mem_append.1 hmem with hmem | hmem
  · refine hlexes.sublist_of_identifier ?_
    rw [← hkind]
    exact hmem
  · have hending := congrArg Prod.fst (List.mem_singleton.1 hmem)
    rw [Token.content, hkind] at hending
    cases hending

namespace Run
variable {laps : Nat} {serve : Call → Run Value} {scope : ScopeId} {e : Engine}

theorem execFresh_expression {node : Node} (h : node.IsExpression) :
    execFresh laps serve scope [node] e = exec laps serve scope node e := by
  obtain ⟨hcues, hmark⟩ := h.mark_eq e.scriptCount
  have htree : newTree node e = (.ok node, e) := by
    show (Except.ok (node.mark e.scriptCount),
      { e with scriptCount := e.scriptCount + node.cues.length }) = _
    rw [hcues, hmark]
    rfl
  show ((newTree node >>= exec laps serve scope) >>= _) e = _
  rw [bind_assoc, bind_ok_apply htree, bind_apply]
  rcases exec laps serve scope node e with ⟨h | (v | v), e₁⟩ <;> rfl

theorem assign_member {path root member : String} {members : List String}
    (hpath : segments path = root :: member :: members) {owner v : Value} {objects : Objects}
    (howner : e.resolve scope (segments path).dropLast = .ok owner)
    (hwrite : owner.writeMember e.objects ((segments path).getLastD "") v = .ok objects) :
    assign scope path v e = (.ok (), { e with objects }) := by
  unfold assign
  rw [hpath] at howner hwrite ⊢
  have hget : (get : Run Engine) e = (.ok e, e) := rfl
  have hread : ofExcept (e.resolve scope (root :: member :: members).dropLast) e = (.ok owner, e) := by
    rw [howner]
    rfl
  have hwritten : ofExcept (owner.writeMember e.objects ((root :: member :: members).getLastD "") v) e =
      (.ok objects, e) := by
    rw [hwrite]
    rfl
  refine (bind_ok_apply hget).trans ((bind_ok_apply hread).trans ?_)
  exact (bind_ok_apply hget).trans (bind_ok_apply hwritten)

end Run

namespace MemberPath

/-! Reading a path. -/

theorem nameKind_source {p : MemberPath} (hp : p.members ≠ []) : Token.nameKind p.source = .identifier := by
  have hdot : ∀ k ∈ Keyword.all, '.' ∉ k.spelling.toList := by decide
  have hmem : '.' ∈ p.text := by
    obtain ⟨s, ms, he⟩ := List.exists_cons_of_ne_nil hp
    rw [text, he]
    simp
  have hnone : Keyword.ofSpelling? p.source = none := by
    refine List.find?_eq_none.2 fun k hk he => hdot k hk ?_
    rw [beq_iff_eq.1 he, source, String.toList_ofList]
    exact hmem
  rw [Token.nameKind, hnone]

theorem lexes {p : MemberPath} (hkind : Token.nameKind p.source = .identifier) {rest : List Char}
    (hrest : rest.head?.all Wording.stops = true) :
    Token.Lexes (p.text ++ rest) [(.identifier, p.source)] rest := by
  obtain ⟨c, cs, hc⟩ := List.exists_cons_of_ne_nil p.root.nonempty
  have htext : p.text = c :: (cs ++ p.members.flatMap fun s => '.' :: s.text) := by
    rw [text, hc, List.cons_append]
  have hopen : Token.opening c = .name := by
    rw [Wording.opening_of_isNameChar (p.root.chars c (hc ▸ List.mem_cons_self)),
      p.root.start c (hc ▸ rfl)]
    rfl
  have hcontinues : ∀ d ∈ p.text, Token.continuesName d = true := by
    intro d hd
    rcases p.chars d hd with hd | rfl
    · exact continuesName_of_isNameChar hd
    · decide
  have hname := Wording.lexes_name hopen (List.forall_mem_cons.1 (htext ▸ hcontinues)).2 hrest
  rwa [← htext, ← source, hkind] at hname

theorem parse_of_derives {text : String} (hne : text.toList ≠ []) (hline : ∀ c ∈ text.toList, Source.InLine c)
    (hreword : english.reword text.toList = text.toList) {ls : List (Token.Kind × String)}
    (hlexes : Token.Lexes text.toList ls []) {node : Node}
    (hderives : Grammar.Derives .assignment (ls.map Source.unplaced) node) :
    Source.parse english text = .ok (.block [node]) := by
  rw [← hreword, ← process_of_inLine hne hline] at hlexes
  refine Source.parse_of_lexes hlexes ?_
  rw [List.map_append]
  exact Grammar.readScript_of_derives hderives rfl

theorem toList_source (p : MemberPath) : p.source.toList = p.text := String.toList_ofList

theorem parse_source_iff {p : MemberPath} (hp : p.members ≠ []) :
    Source.parse english p.source = .ok (.block [.path p.source]) ↔ p.Survives := by
  rw [← reword_eq_self_iff]
  constructor
  · intro hparse
    have hsublist := Source.sublist_of_parse hparse
    rw [p.toList_source, process_of_inLine p.text_ne_nil p.inLine] at hsublist
    exact reword_eq_of_sublist hsublist
  · intro hreword
    have hlexes : Token.Lexes (p.text ++ []) [(.identifier, p.source)] [] := lexes (nameKind_source hp) rfl
    have hpath : Grammar.Derives .primary [Source.unplaced (.identifier, p.source)] (.path p.source) := .path rfl
    rw [List.append_nil] at hlexes
    rw [← p.toList_source] at hlexes hreword
    refine parse_of_derives ?_ ?_ hreword hlexes (hpath.loosen (Nat.zero_le _))
    · rw [p.toList_source]
      exact p.text_ne_nil
    · rw [p.toList_source]
      exact p.inLine

theorem parse_assign {p q : MemberPath} (hp : p.Survives) (hq : q.Survives)
    (hkind : Token.nameKind p.source = .identifier) (hkind' : Token.nameKind q.source = .identifier) :
    Source.parse english (p.source ++ " = " ++ q.source) =
      .ok (.block [.assign p.source (.path q.source)]) := by
  have htext : (p.source ++ " = " ++ q.source).toList = p.text ++ ' ' :: '=' :: ' ' :: q.text := by
    simp [toList_source]
  have hright : Token.Lexes (q.text ++ []) [(.identifier, q.source)] [] := lexes hkind' rfl
  rw [List.append_nil] at hright
  have hspace : Token.Lexes (' ' :: q.text) [(.identifier, q.source)] [] :=
    .step (l := .gap [' '] q.text) rfl hright
  have hsign : Token.Lexes ("=".toList ++ ' ' :: q.text) [(.operator, "=")] (' ' :: q.text) :=
    Wording.lexes_fixed (t := (.operator, "=")) (by decide) (.inr rfl)
  have hequals : Token.Lexes (' ' :: '=' :: ' ' :: q.text) [(.operator, "="), (.identifier, q.source)] [] :=
    .step (l := .gap [' '] ('=' :: ' ' :: q.text)) rfl (hsign.append hspace)
  have hleft : Token.Lexes (p.text ++ ' ' :: '=' :: ' ' :: q.text) [(.identifier, p.source)] _ :=
    lexes hkind rfl
  have hname (r : MemberPath) {s : Grammar.Stratum} (hs : s.rank ≤ Grammar.Stratum.primary.rank) :
      Grammar.Derives s [Source.unplaced (.identifier, r.source)] (.path r.source) :=
    (Grammar.Derives.path rfl).loosen hs
  have hassign : Grammar.Derives .assignment
      ([(.identifier, p.source), (.operator, "="), (.identifier, q.source)].map Source.unplaced)
      (.assign p.source (.path q.source)) :=
    .assign (hname p (by decide)) ⟨rfl, rfl⟩ (hname q (by decide))
  refine parse_of_derives ?_ ?_ ?_ (htext ▸ hleft.append hequals) hassign
  · rw [htext]
    exact List.append_ne_nil_of_left_ne_nil p.text_ne_nil _
  · have htail : ∀ c ∈ [' ', '=', ' '] ++ q.text, Source.InLine c :=
      List.forall_mem_append.2 ⟨by decide, q.inLine⟩
    rw [htext]
    exact List.forall_mem_append.2 ⟨p.inLine, htail⟩
  · rw [htext]
    exact reword_assign hp hq

/-! Running it. -/

theorem segments_source (p : MemberPath) : Parlance.segments p.source = p.names := by
  have hdot (s : Segment) : '.' ∉ s.text := by
    intro hmem
    have hchar := s.chars '.' hmem
    revert hchar
    decide
  have hsplit (root : Segment) (members : List Segment) : Text.split '.' (text ⟨root, members⟩) =
      (segments ⟨root, members⟩).map (·.text) := by
    induction members generalizing root with
    | nil =>
      rw [show text ⟨root, []⟩ = root.text from List.append_nil _, Text.split_of_not_mem (hdot root)]
      rfl
    | cons s members ih =>
      rw [text_cons, Text.split_append, Text.split_of_not_mem (hdot root), ih]
      rfl
  rw [Parlance.segments, p.toList_source, hsplit p.root p.members, names, List.map_map]
  rfl

variable {allowance : Nat} {scope : ScopeId} {e : Engine}

theorem source_read {p : MemberPath} (hp : p.members ≠ []) (hsurvives : p.Survives) (hbook : e.book = english) :
    Run.source allowance p.source (some scope) e = ((e.resolve scope p.names).mapError Halt.fault, e) := by
  have hparse : e.parse p.source = .ok (.block [.path p.source]) := by
    rw [Engine.parse, hbook]
    exact (parse_source_iff hp).2 hsurvives
  rw [Run.source_eq_execSource hparse, Run.execSource_eq, Node.statements,
    Run.execFresh_expression (.path _), Run.exec_path, p.segments_source]
  cases e.resolve scope p.names with
  | error fault => rfl
  | ok v => rfl

theorem source_assign {p q : MemberPath} (hp : p.members ≠ []) (hsurvives : p.Survives) (hq : q.Survives)
    (hname : Keyword.ofSpelling? q.source = none) (hbook : e.book = english) {v owner : Value}
    {objects : Objects} (hv : e.resolve scope q.names = .ok v)
    (howner : e.resolve scope p.names.dropLast = .ok owner)
    (hwrite : owner.writeMember e.objects (p.names.getLastD "") v = .ok objects) :
    Run.source allowance (p.source ++ " = " ++ q.source) (some scope) e = (.ok v, { e with objects }) := by
  have hparse : e.parse (p.source ++ " = " ++ q.source) = .ok (.block [.assign p.source (.path q.source)]) := by
    rw [Engine.parse, hbook]
    refine parse_assign hsurvives hq (nameKind_source hp) ?_
    rw [Token.nameKind, hname]
  have hread : Run.exec allowance (serve allowance) scope (.path q.source) e = (.ok (.completed v), e) := by
    rw [Run.exec_path, q.segments_source, hv]
    rfl
  have hassign : Run.assign scope p.source v e = (.ok (), { e with objects }) := by
    obtain ⟨s, ms, he⟩ := List.exists_cons_of_ne_nil hp
    have hpath : Parlance.segments p.source = p.root.name :: s.name :: ms.map Segment.name := by
      rw [p.segments_source, names, segments, he]
      rfl
    rw [← p.segments_source] at howner hwrite
    exact Run.assign_member hpath howner hwrite
  have hexec : Run.exec allowance (serve allowance) scope (.assign p.source (.path q.source)) e =
      (.ok (.completed v), { e with objects }) := by
    exact (Run.bind_ok_apply (Run.test_eq_ok.2 ⟨_, hread, rfl⟩)).trans (Run.bind_ok_apply hassign)
  rw [Run.source_eq_execSource hparse, Run.execSource_eq, Node.statements,
    Run.execFresh_expression (.assign _ (.path _)), hexec]
  rfl

/-- A path of two or more segments is left as it is, and read as a path, exactly if none of its segments is
a word that rewording takes away, in any letter case. Such a path reads the member that it names, and an
assignment to it sets that member, whatever the segments are called. -/
theorem path_reaches_member_iff (p : MemberPath) (hp : p.members ≠ []) :
    (english.process p.source = p.source ↔ p.Survives) ∧
    (Source.parse english p.source = .ok (.block [.path p.source]) ↔ p.Survives) ∧
    (p.Survives → ∀ (allowance : Nat) (scope : ScopeId) (e : Engine), e.book = english →
      Run.source allowance p.source (some scope) e = ((e.resolve scope p.names).mapError Halt.fault, e) ∧
      ∀ (q : MemberPath) (v owner : Value) (objects : Objects), q.Survives →
        Keyword.ofSpelling? q.source = none → e.resolve scope q.names = .ok v →
        e.resolve scope p.names.dropLast = .ok owner →
        owner.writeMember e.objects (p.names.getLastD "") v = .ok objects →
        Run.source allowance (p.source ++ " = " ++ q.source) (some scope) e = (.ok v, { e with objects })) := by
  refine ⟨?_, parse_source_iff hp, fun hsurvives allowance scope e hbook => ⟨?_, ?_⟩⟩
  · rw [Source.process_eq_iff, p.toList_source, process_of_inLine p.text_ne_nil p.inLine]
    exact reword_eq_self_iff p
  · exact source_read hp hsurvives hbook
  · intro q v owner objects hq hname hv howner hwrite
    exact source_assign hp hsurvives hq hname hbook hv howner hwrite

/-- The members of the outer object are made up when they are read, and the inner one only takes
texts. -/
theorem path_reaches_member_greater_to :
    let inner : HostObject :=
      { name := "inner"
        typeName := "Inner"
        members := ⟨[("To", { value := .text "slow" })]⟩
        assign := fun shown members name v => if v.isText then Member.keep shown members name v else none }
    let outer : HostObject :=
      { name := "outer"
        typeName := "Outer"
        read := fun _ name => if name = "greater" then some (.object 1) else none }
    let e : Engine := { globals := ⟨[("player", .object 0), ("speed", .text "fast")]⟩, objects := #[outer, inner] }
    let changed : HostObject := { inner with members := ⟨[("To", { value := .text "fast" })]⟩ }
    english.process "player.greater.To" = "player.greater.To" ∧
      Run.source 1 "player.greater.To" (some 0) e = (.ok (.text "slow"), e) ∧
      Run.source 1 "player.greater.To = speed" (some 0) e =
        (.ok (.text "fast"), { e with objects := #[outer, changed] }) := by
  intro inner outer e changed
  obtain ⟨p, hp⟩ : ∃ p : MemberPath, p = ⟨⟨"player".toList, by decide, by decide, by decide⟩,
    [⟨"greater".toList, by decide, by decide, by decide⟩, ⟨"To".toList, by decide, by decide, by decide⟩]⟩ :=
    ⟨_, rfl⟩
  obtain ⟨q, hq⟩ : ∃ q : MemberPath, q = ⟨⟨"speed".toList, by decide, by decide, by decide⟩, []⟩ := ⟨_, rfl⟩
  have hsurvives : p.Survives := by
    rw [hp]
    decide
  have hmembers : p.members ≠ [] := by
    rw [hp]
    exact List.cons_ne_nil _ _
  have hsource : p.source = "player.greater.To" := by
    rw [hp]
    decide
  have hnames : p.names = ["player", "greater", "To"] := by
    rw [hp]
    decide
  obtain ⟨hprocess, -, hreach⟩ := path_reaches_member_iff p hmembers
  obtain ⟨hread, hassign⟩ := hreach hsurvives 1 0 e rfl
  have hwritten := hassign q (.text "fast") (.object 1) #[outer, changed]
  rw [hsource] at hprocess hread hwritten
  rw [hnames] at hread hwritten
  have hspeed : q.Survives ∧ Keyword.ofSpelling? q.source = none ∧ q.names = ["speed"] := by
    rw [hq]
    decide
  have hfast : e.resolve 0 ["speed"] = .ok (.text "fast") := by with_unfolding_all rfl
  have hvalue : e.resolve 0 ["player", "greater", "To"] = .ok (.text "slow") := by with_unfolding_all rfl
  have howner : e.resolve 0 ["player", "greater"] = .ok (.object 1) := by with_unfolding_all rfl
  rw [hvalue] at hread
  rw [hspeed.2.2] at hwritten
  have hlast := hwritten hspeed.1 hspeed.2.1 hfast howner (by with_unfolding_all rfl)
  rw [hq] at hlast
  exact ⟨hprocess.2 hsurvives, hread, hlast⟩

theorem path_loses_end : english.process "player.end" = "player." ∧
    Source.parse english "player.end" ≠ .ok (.block [.path "player.end"]) := by
  have hlost := parse_source_iff (p := ⟨⟨"player".toList, by decide, by decide, by decide⟩,
    [⟨"end".toList, by decide, by decide, by decide⟩]⟩) (List.cons_ne_nil _ _)
  refine ⟨by decide +kernel, fun hparse => ?_⟩
  exact absurd (hlost.1 hparse) (by decide)

end MemberPath
end Parlance
