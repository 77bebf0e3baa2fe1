import Parlance.Engine.Builtin
import Parlance.Proofs.Engine.Sequel
import Parlance.Proofs.Scope

/-! What the body of a function reads when it begins to run. Its frame holds the parameters under
their whole names, while a path is read from its first segment on. So a parameter is read by its name
if this name is a single segment, and any path that begins with no parameter means what it means
where the function was defined. -/

namespace Parlance

theorem Text.split_of_not_mem {separator : Char} {cs : List Char} (h : separator ∉ cs) :
    split separator cs = [cs] := by
  induction cs with
  | nil => rfl
  | cons c cs ih =>
    have hc : c ≠ separator := fun heq => h (heq ▸ List.mem_cons_self)
    simp [split, hc, ih fun hcs => h (List.mem_cons_of_mem c hcs)]

theorem segments_of_not_mem_dot {name : String} (h : '.' ∉ name.toList) : segments name = [name] := by
  simp [segments, Text.split_of_not_mem h]

theorem ne_of_mem_segments {name root : String} (hdot : '.' ∈ name.toList)
    (h : root ∈ segments name) : root ≠ name := by
  rintro rfl
  obtain ⟨part, hpart, heq⟩ := List.mem_map.1 h
  rw [← heq, String.toList_ofList] at hdot
  exact Text.not_mem_of_mem_split hpart hdot

theorem segments_ne_nil (path : String) : segments path ≠ [] := by
  simp [segments, Text.split_ne_nil]

theorem exists_last_place {names : List String} {name : String} (h : name ∈ names) :
    ∃ i, names[i]? = some name ∧ name ∉ names.drop (i + 1) := by
  induction names with
  | nil => cases h
  | cons n names ih =>
    by_cases hlater : name ∈ names
    · obtain ⟨i, hi, hlast⟩ := ih hlater
      exact ⟨i + 1, hi, hlast⟩
    · obtain rfl := (List.mem_cons.1 h).resolve_right hlater
      exact ⟨0, rfl, hlater⟩

theorem le_of_not_mem_drop {names : List String} {name : String} {i j : Nat}
    (hi : names[i]? = some name) (hj : name ∉ names.drop (j + 1)) : i ≤ j := by
  refine Nat.le_of_not_lt fun hlt => hj (List.mem_iff_getElem?.2 ⟨i - (j + 1), ?_⟩)
  rw [List.getElem?_drop, Nat.add_sub_cancel' (by omega)]
  exact hi

namespace Engine
variable (e : Engine) (closure : ScopeId) (names : List String) (vs : List Value)

def opened : Engine :=
  { e with scopes := (e.scopes.add (some closure)).setAll e.scopes.size (names.zip vs) }

variable {e closure names vs}

theorem lookup?_opened_of_last {i : Nat} {name : String} {v : Value} (hname : names[i]? = some name)
    (hv : vs[i]? = some v) (hlast : name ∉ names.drop (i + 1)) :
    (e.opened closure names vs).lookup? e.scopes.size name = some v := by
  have hsize := e.scopes.size_lt_size_add (some closure)
  have hne : ∀ pair ∈ (names.zip vs).drop (i + 1), pair.1 ≠ name := by
    rw [List.zip_eq_zipWith, List.drop_zipWith]
    rintro pair hpair rfl
    exact hlast (List.of_mem_zip hpair).1
  have hlocal := ScopeTree.local?_setAll hsize (List.getElem?_zip_eq_some.2 ⟨hname, hv⟩) hne
  unfold lookup? opened
  rw [ScopeTree.lookup?_setAll_add, hlocal]
  rfl

theorem lookup?_opened_of_not_mem {name : String} (h : name ∉ names) :
    (e.opened closure names vs).lookup? e.scopes.size name = e.lookup? closure name := by
  have hsize := e.scopes.size_lt_size_add (some closure)
  have hne : ∀ pair ∈ names.zip vs, pair.1 ≠ name := by
    rintro pair hpair rfl
    exact h (List.of_mem_zip hpair).1
  have hlocal : ((e.scopes.add (some closure)).setAll e.scopes.size (names.zip vs)).local?
      e.scopes.size name = none := by
    rw [ScopeTree.local?_setAll_of_forall_ne hsize hne, ScopeTree.local?, ScopeTree.get?_add,
      if_pos rfl]
    rfl
  unfold lookup? opened
  rw [ScopeTree.lookup?_setAll_add, hlocal]
  rfl

end Engine

namespace Run
variable {laps : Nat} {serve : Call → Run Value}

theorem exec_path (scope : ScopeId) (path : String) (e : Engine) :
    exec laps serve scope (.path path) e =
      (((e.resolve scope (segments path)).mapError Halt.fault).map Flow.completed, e) := by
  have hread : exec laps serve scope (.path path) e =
      (ofExcept (e.resolve scope (segments path)) >>= fun v => pure (.completed v)) e := by
    simp only [exec]
    rfl
  rw [hread]
  cases e.resolve scope (segments path) <;> rfl

def readInFrame (laps : Nat) (serve : Call → Run Value) (closure : ScopeId)
    (parameters : List Parameter) (vs : List Value) (path : String) : Run Flow := do
  let frame ← openFrame closure parameters vs
  exec laps serve frame (.path path)

variable {closure : ScopeId} {parameters : List Parameter} {vs : List Value} {path : String}
  {e : Engine}

theorem readInFrame_eq : readInFrame laps serve closure parameters vs path e =
    exec laps serve e.scopes.size (.path path) (e.opened closure (parameters.map (·.name)) vs) :=
  bind_ok_apply rfl

theorem readInFrame_of_last {i : Nat} {name : String} {v : Value} {members : List String}
    (hname : (parameters.map (·.name))[i]? = some name) (hv : vs[i]? = some v)
    (hlast : name ∉ (parameters.map (·.name)).drop (i + 1)) (hpath : segments path = name :: members) :
    (readInFrame laps serve closure parameters vs path e).1 =
      ((members.foldlM (Value.readMember e.objects) v).mapError Halt.fault).map Flow.completed := by
  rw [readInFrame_eq, exec_path, hpath, Engine.resolve, Engine.lookup?_opened_of_last hname hv hlast]
  rfl

theorem readInFrame_of_not_mem (h : ∀ root ∈ (segments path).head?, root ∉ parameters.map (·.name)) :
    (readInFrame laps serve closure parameters vs path e).1 =
      (exec laps serve closure (.path path) e).1 := by
  obtain ⟨root, members, hpath⟩ := List.exists_cons_of_ne_nil (segments_ne_nil path)
  have hroot := h root (by rw [hpath]; rfl)
  rw [readInFrame_eq, exec_path, exec_path, hpath, Engine.resolve, Engine.resolve,
    Engine.lookup?_opened_of_not_mem hroot]
  rfl

theorem readInFrame_congr_of_mem_dot {ws : List Value} {name : String} (hdot : '.' ∈ name.toList)
    (hvs : vs.length = parameters.length)
    (h : ∀ i : Nat, (parameters.map (·.name))[i]? ≠ some name → ws[i]? = vs[i]?) :
    (readInFrame laps serve closure parameters ws name e).1 =
      (readInFrame laps serve closure parameters vs name e).1 := by
  obtain ⟨root, members, hpath⟩ := List.exists_cons_of_ne_nil (segments_ne_nil name)
  by_cases hroot : root ∈ parameters.map (·.name)
  · obtain ⟨i, hi, hlast⟩ := exists_last_place hroot
    have hne : root ≠ name := ne_of_mem_segments hdot (by rw [hpath]; exact List.mem_cons_self)
    have hlt : i < vs.length := by simpa [hvs] using (List.getElem?_eq_some_iff.1 hi).1
    have hv := List.getElem?_eq_getElem hlt
    have hw := (h i fun heq => hne (Option.some.inj (hi.symm.trans heq))).trans hv
    rw [readInFrame_of_last hi hv hlast hpath, readInFrame_of_last hi hw hlast hpath]
  · have hnot : ∀ r ∈ (segments name).head?, r ∉ parameters.map (·.name) := by
      rw [hpath]
      rintro r ⟨⟩
      exact hroot
    rw [readInFrame_of_not_mem hnot, readInFrame_of_not_mem hnot]

end Run

theorem Function.names_ofScript (name : String) (params : List String) (body : Node)
    (closure : ScopeId) :
    (Function.ofScript name params body closure).parameters.map (·.name) = params :=
  List.map_map.trans (List.map_id params)

/-- Whatever the values of a call are, the parameter is read as the one for the last parameter of its
name. -/
def Run.AlwaysReads (laps : Nat) (serve : Call → Run Value) (closure : ScopeId)
    (parameters : List Parameter) (e : Engine) (name : String) : Prop :=
  ∀ vs : List Value, vs.length = parameters.length →
    ∃ (i : Nat) (v : Value), (parameters.map (·.name))[i]? = some name ∧
      name ∉ (parameters.map (·.name)).drop (i + 1) ∧ vs[i]? = some v ∧
      (Run.readInFrame laps serve closure parameters vs name e).1 = .ok (.completed v)

theorem Run.alwaysReads_iff {laps : Nat} {serve : Call → Run Value} {closure : ScopeId}
    {parameters : List Parameter} {e : Engine} {name : String}
    (h : name ∈ parameters.map (·.name)) :
    Run.AlwaysReads laps serve closure parameters e name ↔ '.' ∉ name.toList := by
  obtain ⟨i, hi, hlast⟩ := exists_last_place h
  have hlt : i < parameters.length := by simpa using (List.getElem?_eq_some_iff.1 hi).1
  constructor
  · -- two calls that differ only in the value of the parameter are read alike
    intro hreads hdot
    let vs := List.replicate parameters.length Value.null
    have hvs : vs.length = parameters.length := List.length_replicate
    obtain ⟨j, v, hj, hjlast, hv, hread⟩ := hreads vs hvs
    obtain ⟨k, w, hk, hklast, hw, hread'⟩ := hreads (vs.set i (.bool true)) (by simp [hvs])
    obtain rfl : k = i := Nat.le_antisymm (le_of_not_mem_drop hk hlast) (le_of_not_mem_drop hi hklast)
    have hsame : (Run.readInFrame laps serve closure parameters (vs.set k (.bool true)) name e).1 =
        (Run.readInFrame laps serve closure parameters vs name e).1 := by
      refine Run.readInFrame_congr_of_mem_dot hdot hvs fun m hm => List.getElem?_set_ne ?_
      rintro rfl
      exact hm hk
    rw [hread, hread'] at hsame
    obtain rfl : v = .null := (List.mem_replicate.1 (List.mem_of_getElem? hv)).2
    rw [List.getElem?_set_self (by rwa [hvs])] at hw
    cases hw
    cases hsame
  · intro hdot vs hvs
    have hv := List.getElem?_eq_getElem (hvs ▸ hlt)
    exact ⟨i, _, hi, hlast, hv, Run.readInFrame_of_last hi hv hlast (segments_of_not_mem_dot hdot)⟩

/-- The body of a function begins in a frame where a parameter is read as the value for the last
parameter of its name, for all values, exactly if the name has no dot. A path that begins with a
parameter goes on from there to its members, and one that begins with none means what it means where
the function was defined. -/
theorem parameter_readable_iff_undotted (laps : Nat) (serve : Call → Run Value) (name : String)
    (params : List String) (body : Node) (closure : ScopeId) (e : Engine) :
    let f := Function.ofScript name params body closure
    (∀ vs, Run.runBody laps serve f vs = do
      let frame ← Run.openFrame closure f.parameters vs
      Run.execRoot laps serve frame body) ∧
    (∀ p ∈ params, Run.AlwaysReads laps serve closure f.parameters e p ↔ '.' ∉ p.toList) ∧
    (∀ (vs : List Value) (i : Nat) p v path members, params[i]? = some p → vs[i]? = some v →
      p ∉ params.drop (i + 1) → segments path = p :: members →
      (Run.readInFrame laps serve closure f.parameters vs path e).1 =
        ((members.foldlM (Value.readMember e.objects) v).mapError Halt.fault).map Flow.completed) ∧
    ∀ vs path, (∀ root ∈ (segments path).head?, root ∉ params) →
      (Run.readInFrame laps serve closure f.parameters vs path e).1 =
        (Run.exec laps serve closure (.path path) e).1 := by
  intro f
  have hnames : f.parameters.map (·.name) = params := Function.names_ofScript name params body closure
  refine ⟨fun _ => rfl, fun p hp => Run.alwaysReads_iff (hnames ▸ hp), ?_, fun vs path hroot => ?_⟩
  · intro vs i p v path members hp hv hlast hpath
    exact Run.readInFrame_of_last (hnames ▸ hp) hv (hnames ▸ hlast) hpath
  · exact Run.readInFrame_of_not_mem (hnames ▸ hroot)

theorem dotted_parameter_unreadable :
    let e := ((Engine.new true).addScope none).2
    let text := "function f(a.b) a.b\nf(true)"
    Source.parse .english text = .ok (.block [.functionDef "f" ["a.b"] (.path "a.b"),
        .call "f" [.literal (.bool true)]]) ∧
      (Run.source 1 text (some 0) e).1 = .error (.fault (.undefinedVariable "a")) := by
  intro e text
  have hlexes : Token.Lexes (Source.process Phrasebook.english.reword text.toList)
      [(.keyword .functionWord, "function"), (.identifier, "f"), (.delimiter .leftParen, "("),
        (.identifier, "a.b"), (.delimiter .rightParen, ")"), (.identifier, "a.b"), (.endOfLine, "\n"),
        (.identifier, "f"), (.delimiter .leftParen, "("), (.keyword .trueWord, "true"),
        (.delimiter .rightParen, ")")] [] := by
    have hwords : Source.process Phrasebook.english.reword text.toList =
        "function f(a.b) a.b\nf(true)".toList := by decide +kernel
    rw [hwords]
    have hlexes : Token.Lexes "function f(a.b) a.b\nf(true)".toList _ [] :=
      .step rfl (.step rfl (.step rfl (.step rfl (.step rfl (.step rfl (.step rfl (.step rfl
        (.step rfl (.step rfl (.step rfl (.step rfl (.step rfl (.done [])))))))))))))
    exact hlexes
  have hparse : Source.parse .english text = .ok (.block [.functionDef "f" ["a.b"] (.path "a.b"),
      .call "f" [.literal (.bool true)]]) := Source.parse_of_lexes hlexes rfl
  refine ⟨hparse, ?_⟩
  have hbook : e.book = .english := rfl
  rw [Run.source_eq_execSource (by rw [Engine.parse, hbook, hparse])]
  with_unfolding_all rfl

end Parlance
