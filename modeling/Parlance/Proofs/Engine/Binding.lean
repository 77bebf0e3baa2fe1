import Mathlib.Logic.Basic
import Mathlib.Tactic.ByContra
import Parlance.Engine.Builtin
import Parlance.Engine.Run

/-! How a call binds the parameters of a function, said place by place and without the order in which
the engine goes about it. Of the ways in which a call can end before the body runs exactly one applies
or none does, and nothing has changed then. Which parameters the caller has supplied is a matter of
places too, while only the number of required ones is checked: a required parameter after an optional
one can be left to its default. -/

namespace Parlance

theorem Value.isNull_iff {v : Value} : v.isNull = true ↔ v = .null := by
  cases v <;> simp [Value.isNull]

namespace Engine
variable {e : Engine} {p : Parameter} {v : Value}

inductive Converts (e : Engine) (p : Parameter) (v : Value) : Except Fault Value → Prop
  | unknownType (unknown : e.types.get? p.typeName = none) :
      Converts e p v (.error (.unknownType p.typeName p.name))
  | null {t : TypeDef} (known : e.types.get? p.typeName = some t) (isNull : v = .null) :
      Converts e p v (.ok .null)
  | converted {t : TypeDef} {w : Value} (known : e.types.get? p.typeName = some t) (notNull : v ≠ .null)
      (gives : t.coercion e.objects v = .ok w) : Converts e p v (.ok w)
  | failed {t : TypeDef} {cause : String} (known : e.types.get? p.typeName = some t)
      (notNull : v ≠ .null) (fails : t.coercion e.objects v = .error cause) :
      Converts e p v (.error (.typeCoercion p.name (v.display e.objects none) p.typeName cause))

theorem exists_converts (e : Engine) (p : Parameter) (v : Value) : ∃ r, e.Converts p v r := by
  cases known : e.types.get? p.typeName with
  | none => exact ⟨_, .unknownType known⟩
  | some t =>
    by_cases hv : v = .null
    · exact ⟨_, .null known hv⟩
    · cases hw : t.coercion e.objects v with
      | ok w => exact ⟨_, .converted known hv hw⟩
      | error cause => exact ⟨_, .failed known hv hw⟩

theorem Converts.coerceAll_cons {r : Except Fault Value} (h : e.Converts p v r)
    (rest : List (Parameter × Value)) : e.coerceAll ((p, v) :: rest) =
      r.bind fun w => (e.coerceAll rest).map (w :: ·) := by
  cases h with
  | unknownType unknown => simp only [coerceAll, unknown, Except.bind]
  | null known isNull =>
    have hnull := Value.isNull_iff.2 isNull
    simp only [coerceAll, known, TypeDef.coerce, hnull, if_true, Except.bind]
    cases e.coerceAll rest <;> rfl
  | converted known notNull gives =>
    have hnull := mt Value.isNull_iff.1 notNull
    simp only [coerceAll, known, TypeDef.coerce, if_neg hnull, gives, Except.bind]
    cases e.coerceAll rest <;> rfl
  | failed known notNull fails =>
    have hnull := mt Value.isNull_iff.1 notNull
    simp only [coerceAll, known, TypeDef.coerce, if_neg hnull, fails, Except.bind]

theorem Converts.unique {r r' : Except Fault Value} (h : e.Converts p v r) (h' : e.Converts p v r') :
    r = r' := by
  have heq := (h.coerceAll_cons []).symm.trans (h'.coerceAll_cons [])
  cases r with
  | error fault =>
    cases r' with
    | error fault' => exact congrArg _ (Except.error.inj heq)
    | ok w' => cases heq
  | ok w =>
    cases r' with
    | error fault' => cases heq
    | ok w' => exact congrArg _ (List.cons.inj (Except.ok.inj heq)).1

theorem coerceAll_cases (e : Engine) (pairs : List (Parameter × Value)) :
    (∃ vs, e.coerceAll pairs = .ok vs ∧ vs.length = pairs.length ∧
      ∀ (i : Nat) p v w, pairs[i]? = some (p, v) → vs[i]? = some w → e.Converts p v (.ok w)) ∨
    ∃ i p v fault, e.coerceAll pairs = .error fault ∧ pairs[i]? = some (p, v) ∧
      e.Converts p v (.error fault) ∧
      ∀ (j : Nat) p v, j < i → pairs[j]? = some (p, v) → ∃ w, e.Converts p v (.ok w) := by
  induction pairs with
  | nil => exact .inl ⟨[], rfl, rfl, by simp⟩
  | cons pair rest ih =>
    obtain ⟨p, v⟩ := pair
    obtain ⟨r, hr⟩ := e.exists_converts p v
    rw [hr.coerceAll_cons]
    cases r with
    | error fault => exact .inr ⟨0, p, v, fault, rfl, rfl, hr, by simp⟩
    | ok w =>
      -- the rest decides, one place further on
      rcases ih with ⟨vs, hall, hlength, hvs⟩ | ⟨i, q, u, fault, hall, hi, hfault, hbefore⟩
      · refine .inl ⟨w :: vs, by simp [hall, Except.bind, Except.map], by simp [hlength], ?_⟩
        rintro (_ | i) q u w' hq hw'
        · cases hq
          cases hw'
          exact hr
        · exact hvs i q u w' hq hw'
      · refine .inr ⟨i + 1, q, u, fault, by simp [hall, Except.bind, Except.map], hi, hfault, ?_⟩
        rintro (_ | j) q' u' hj hq'
        · cases hq'
          exact ⟨w, hr⟩
        · exact hbefore j q' u' (by omega) hq'

end Engine

/-- The value that a call has for the parameter at a place: the argument there, or else the
default. -/
def Parameter.supplied (args : List Value) (place : Nat) (p : Parameter) : Value :=
  args[place]?.getD p.default

inductive Binds (name : String) (parameters : List Parameter) (e : Engine) (args : List Value) :
    Except Fault (List Value) → Prop
  | tooFew (few : args.length < parameters.countP (!·.optional)) : Binds name parameters e args
      (.error (.tooFewArguments name (parameters.countP (!·.optional)) args.length))
  | tooMany (many : parameters.length < args.length) : Binds name parameters e args
      (.error (.tooManyArguments name parameters.length args.length))
  /-- The first parameter whose value cannot be converted decides. -/
  | rejected {place : Nat} {p : Parameter} {fault : Fault}
      (enough : parameters.countP (!·.optional) ≤ args.length)
      (room : args.length ≤ parameters.length) (at_place : parameters[place]? = some p)
      (rejects : e.Converts p (p.supplied args place) (.error fault))
      (first : ∀ j q, j < place → parameters[j]? = some q →
        ∃ w, e.Converts q (q.supplied args j) (.ok w)) : Binds name parameters e args (.error fault)
  | bound {vs : List Value} (enough : parameters.countP (!·.optional) ≤ args.length)
      (room : args.length ≤ parameters.length) (length_eq : vs.length = parameters.length)
      (converts : ∀ i p w, parameters[i]? = some p → vs[i]? = some w →
        e.Converts p (p.supplied args i) (.ok w)) : Binds name parameters e args (.ok vs)

namespace Binds
variable {name : String} {parameters : List Parameter} {e : Engine} {args : List Value}

theorem not_rejected_of_converts {vs : List Value} {place : Nat} {p : Parameter} {fault : Fault}
    (length_eq : vs.length = parameters.length)
    (converts : ∀ i p w, parameters[i]? = some p → vs[i]? = some w →
      e.Converts p (p.supplied args i) (.ok w)) (at_place : parameters[place]? = some p) :
    ¬e.Converts p (p.supplied args place) (.error fault) := by
  intro rejects
  obtain ⟨hlt, -⟩ := List.getElem?_eq_some_iff.1 at_place
  have hw := converts place p _ at_place (List.getElem?_eq_getElem (length_eq ▸ hlt))
  cases hw.unique rejects

theorem unique {r r' : Except Fault (List Value)} (h : Binds name parameters e args r)
    (h' : Binds name parameters e args r') : r = r' := by
  -- too few arguments are never too many
  have hcount := parameters.countP_le_length (p := fun p => !p.optional)
  cases h with
  | tooFew few =>
    cases h' with
    | tooFew => rfl
    | tooMany many => omega
    | rejected enough => omega
    | bound enough => omega
  | tooMany many =>
    cases h' with
    | tooFew few => omega
    | tooMany => rfl
    | rejected _ room => omega
    | bound _ room => omega
  | @rejected place p fault enough room at_place rejects first =>
    cases h' with
    | tooFew few => omega
    | tooMany many => omega
    | @rejected place' p' _ _ _ at_place' rejects' first' =>
      -- neither of two first places can come before the other
      rcases Nat.lt_trichotomy place place' with hlt | rfl | hlt
      · obtain ⟨w, hw⟩ := first' place p hlt at_place
        cases hw.unique rejects
      · cases at_place.symm.trans at_place'
        cases rejects.unique rejects'
        rfl
      · obtain ⟨w, hw⟩ := first place' p' hlt at_place'
        cases hw.unique rejects'
    | bound _ _ length_eq converts =>
      exact absurd rejects (not_rejected_of_converts length_eq converts at_place)
  | @bound vs enough room length_eq converts =>
    cases h' with
    | tooFew few => omega
    | tooMany many => omega
    | rejected _ _ at_place rejects _ =>
      exact absurd rejects (not_rejected_of_converts length_eq converts at_place)
    | @bound vs' _ _ length_eq' converts' =>
      refine congrArg Except.ok (List.ext_getElem (length_eq.trans length_eq'.symm) fun i hi hi' => ?_)
      have hp := List.getElem?_eq_getElem (length_eq ▸ hi)
      have hw := converts i _ _ hp (List.getElem?_eq_getElem hi)
      have hw' := converts' i _ _ hp (List.getElem?_eq_getElem hi')
      exact Except.ok.inj (hw.unique hw')

end Binds

namespace Function

theorem required_eq_countP (f : Function) : f.required = f.parameters.countP (!·.optional) :=
  List.countP_eq_length_filter.symm

theorem getElem?_zip_defaults (parameters : List Parameter) (args : List Value) (i : Nat) :
    (parameters.zip (args ++ (parameters.drop args.length).map (·.default)))[i]? =
      parameters[i]?.map fun p => (p, p.supplied args i) := by
  cases hp : parameters[i]? with
  | none =>
    refine List.getElem?_eq_none (Nat.le_trans ?_ (List.getElem?_eq_none_iff.1 hp))
    rw [List.length_zip]
    exact Nat.min_le_left _ _
  | some p =>
    refine List.getElem?_zip_eq_some.2 ⟨hp, ?_⟩
    unfold Parameter.supplied
    rcases Nat.lt_or_ge i args.length with hlt | hle
    · simp [List.getElem?_append_left hlt, hlt]
    · simp [List.getElem?_append_right hle, hle, hp]

theorem binds_bindings (f : Function) (e : Engine) (args : List Value) :
    Binds f.name f.parameters e args (f.bindings e args) := by
  unfold bindings
  rw [required_eq_countP]
  split
  · next few => exact .tooFew few
  · next enough =>
    split
    · next many => exact .tooMany many
    · next room =>
      have room := Nat.le_of_not_lt room
      have hpair {i : Nat} {p : Parameter} (hp : f.parameters[i]? = some p) :=
        (getElem?_zip_defaults f.parameters args i).trans (congrArg _ hp)
      rcases e.coerceAll_cases (f.parameters.zip (args ++ (f.parameters.drop args.length).map
        (·.default))) with ⟨vs, hall, hlength, hvs⟩ | ⟨i, p, v, fault, hall, hi, hfault, hbefore⟩
      · rw [hall]
        refine .bound (Nat.le_of_not_lt enough) room ?_ fun i p w hp hw => hvs i _ _ w (hpair hp) hw
        simp only [hlength, List.length_zip, List.length_append, List.length_map, List.length_drop]
        omega
      · rw [hall]
        -- the pair at this place is the parameter with what is supplied for it
        rw [getElem?_zip_defaults] at hi
        obtain ⟨q, hq, heq⟩ := Option.map_eq_some_iff.1 hi
        cases heq
        exact .rejected (Nat.le_of_not_lt enough) room hq hfault fun j q hj hq =>
          hbefore j _ _ hj (hpair hq)

end Function

theorem Run.invoke_eq (laps : Nat) (serve : Call → Run Value) (f : Function) (args : List Value)
    (e : Engine) : Run.invoke laps serve f args e =
      match f.bindings e args with
      | .ok vs => Run.runBody laps serve f vs e
      | .error fault => (.error (.fault fault), e) := by
  change (ofExcept (f.bindings e args) >>= fun vs => Run.runBody laps serve f vs) e = _
  cases f.bindings e args <;> rfl

/-- A call binds its parameters in exactly one way. If this gives values, the body runs on them; if it
is a fault, the call ends with it and the engine is as it was. -/
theorem Run.invoke_eq_of_unique_binding (laps : Nat) (serve : Call → Run Value) (f : Function)
    (args : List Value) (e : Engine) :
    ∃ r, (∀ r', Binds f.name f.parameters e args r' ↔ r' = r) ∧
      Run.invoke laps serve f args e =
        match r with
        | .ok vs => Run.runBody laps serve f vs e
        | .error fault => (.error (.fault fault), e) := by
  have hbinds := f.binds_bindings e args
  refine ⟨f.bindings e args, fun r' => ⟨fun h => h.unique hbinds, ?_⟩, Run.invoke_eq laps serve f args e⟩
  rintro rfl
  exact hbinds

/-! Which parameters the caller has supplied. -/

def RequiredFirst (parameters : List Parameter) : Prop :=
  parameters.Pairwise fun p q => q.optional = false → p.optional = false

theorem RequiredFirst.optional_of_mem_drop {parameters : List Parameter}
    (h : RequiredFirst parameters) {n : Nat} (hn : parameters.countP (!·.optional) ≤ n) :
    ∀ p ∈ parameters.drop n, p.optional = true := by
  induction parameters generalizing n with
  | nil => simp
  | cons p parameters ih =>
    obtain ⟨hfirst, hrest⟩ := List.pairwise_cons.1 h
    cases hp : p.optional with
    | true =>
      -- after an optional parameter all are
      intro q hq
      rcases List.mem_cons.1 (List.mem_of_mem_drop hq) with rfl | hq
      · exact hp
      · by_contra hreq
        simp [hfirst q hq (by simpa using hreq)] at hp
    | false =>
      rw [List.countP_cons_of_pos (by simp [hp])] at hn
      obtain ⟨m, rfl⟩ : ∃ m, n = m + 1 := ⟨n - 1, by omega⟩
      exact ih hrest (Nat.le_of_succ_le_succ hn)

theorem requiredFirst_of_optional_drop {parameters : List Parameter}
    (h : ∀ p ∈ parameters.drop (parameters.countP (!·.optional)), p.optional = true) :
    RequiredFirst parameters := by
  generalize hn : parameters.countP (!·.optional) = n at h
  have hsplit := List.take_append_drop n parameters
  have hdrop : (parameters.drop n).countP (!·.optional) = 0 :=
    List.countP_eq_zero.2 fun p hp => by simp [h p hp]
  have htake : (parameters.take n).countP (!·.optional) = n := by
    rw [← hsplit, List.countP_append, hdrop] at hn
    exact hn
  have hlength : (parameters.take n).length = n := by
    have hle := (parameters.take n).countP_le_length (p := fun p => !p.optional)
    have hle' := List.length_take_le n parameters
    omega
  have hfront : ∀ p ∈ parameters.take n, p.optional = false := by
    simpa using List.countP_eq_length.1 (htake.trans hlength.symm)
  unfold RequiredFirst
  rw [← hsplit, List.pairwise_append]
  refine ⟨?_, ?_, fun p hp _ _ _ => hfront p hp⟩
  · exact List.pairwise_of_forall_mem_list fun p hp _ _ _ => hfront p hp
  · refine List.pairwise_of_forall_mem_list fun _ _ q hq hreq => ?_
    simp [h q hq] at hreq

def TakesArgument (e : Engine) (args vs : List Value) (place : Nat) (p : Parameter) : Prop :=
  ∃ a w, args[place]? = some a ∧ vs[place]? = some w ∧ e.Converts p a (.ok w)

def TakesDefault (e : Engine) (args vs : List Value) (place : Nat) (p : Parameter) : Prop :=
  args.length ≤ place ∧ ∃ w, vs[place]? = some w ∧ e.Converts p p.default (.ok w)

theorem TakesArgument.lt {e : Engine} {args vs : List Value} {place : Nat} {p : Parameter}
    (h : TakesArgument e args vs place p) : place < args.length := by
  obtain ⟨a, -, ha, -⟩ := h
  exact (List.getElem?_eq_some_iff.1 ha).1

namespace Binds
variable {name : String} {parameters : List Parameter} {e : Engine} {args vs : List Value}

theorem takes (h : Binds name parameters e args (.ok vs)) {i : Nat} {p : Parameter}
    (hp : parameters[i]? = some p) : TakesArgument e args vs i p ∨ TakesDefault e args vs i p := by
  cases h with
  | bound enough room length_eq converts =>
    obtain ⟨hi, -⟩ := List.getElem?_eq_some_iff.1 hp
    have hw := List.getElem?_eq_getElem (length_eq ▸ hi)
    have hconverts := converts i p _ hp hw
    unfold Parameter.supplied at hconverts
    cases ha : args[i]? with
    | some a => exact .inl ⟨a, _, ha, hw, by simpa [ha] using hconverts⟩
    | none =>
      exact .inr ⟨List.getElem?_eq_none_iff.1 ha, _, hw, by simpa [ha] using hconverts⟩

theorem takesArgument_iff (h : Binds name parameters e args (.ok vs)) :
    (∀ i p, parameters[i]? = some p → p.optional = false → TakesArgument e args vs i p) ↔
      ∀ p ∈ parameters.drop args.length, p.optional = true := by
  constructor
  · intro hall p hp
    obtain ⟨i, hi⟩ := List.mem_iff_getElem?.1 hp
    rw [List.getElem?_drop] at hi
    by_contra hopt
    have hlt := (hall _ p hi (by simpa using hopt)).lt
    omega
  · intro hleft i p hp hreq
    refine (h.takes hp).resolve_right fun hdefault => ?_
    have hmem : p ∈ parameters.drop args.length := by
      refine List.mem_iff_getElem?.2 ⟨i - args.length, ?_⟩
      rw [List.getElem?_drop, Nat.add_sub_cancel' hdefault.1]
      exact hp
    simp [hleft p hmem] at hreq

end Binds

/-- Only the number of the required parameters is checked. A call that reaches the body gives each
parameter the argument at its place, or else its default; the required ones are all supplied exactly
if only optional ones are left out. That is so for every call if the required parameters come first,
and for no call with as few arguments as possible if they do not. -/
theorem required_supplied_iff_requiredFirst (laps : Nat) (serve : Call → Run Value) (f : Function)
    (e : Engine) (args vs : List Value) (h : f.bindings e args = .ok vs) :
    Run.invoke laps serve f args e = Run.runBody laps serve f vs e ∧
    (∀ i p, f.parameters[i]? = some p → TakesArgument e args vs i p ∨ TakesDefault e args vs i p) ∧
    ((∀ i p, f.parameters[i]? = some p → p.optional = false → TakesArgument e args vs i p) ↔
      ∀ p ∈ f.parameters.drop args.length, p.optional = true) ∧
    (RequiredFirst f.parameters →
      ∀ i p, f.parameters[i]? = some p → p.optional = false → TakesArgument e args vs i p) ∧
    (¬RequiredFirst f.parameters → args.length = f.required →
      ∃ i p, f.parameters[i]? = some p ∧ p.optional = false ∧ TakesDefault e args vs i p) := by
  have hbinds := h ▸ f.binds_bindings e args
  refine ⟨by rw [Run.invoke_eq, h], fun i p hp => hbinds.takes hp, hbinds.takesArgument_iff, ?_, ?_⟩
  · intro hfirst
    refine hbinds.takesArgument_iff.2 (hfirst.optional_of_mem_drop ?_)
    cases hbinds with
    | bound enough => exact enough
  · intro hfirst hlength
    rw [Function.required_eq_countP] at hlength
    have hleft := mt (hlength ▸ hbinds.takesArgument_iff.1) (mt requiredFirst_of_optional_drop hfirst)
    simp only [not_forall] at hleft
    obtain ⟨i, p, hp, hreq, hno⟩ := hleft
    exact ⟨i, p, hp, hreq, (hbinds.takes hp).resolve_left hno⟩

theorem required_supplied_before_optional :
    let a : Parameter := { name := "a", typeName := "object", optional := true, default := .text "d" }
    let b : Parameter := { name := "b", typeName := "object" }
    let f : Function := ⟨"f", [b, a], .native fun vs => return .ok (.list vs)⟩
    let e := Engine.new true
    f.bindings e [.text "x"] = .ok [.text "x", .text "d"] ∧ RequiredFirst f.parameters ∧
      TakesArgument e [.text "x"] [.text "x", .text "d"] 0 b := by
  intro a b f e
  have h : f.bindings e [.text "x"] = .ok [.text "x", .text "d"] := rfl
  have hfirst : RequiredFirst f.parameters := by simp [RequiredFirst, f, a, b]
  obtain ⟨-, -, -, hall, -⟩ := required_supplied_iff_requiredFirst 0 (serve 0) f e _ _ h
  exact ⟨h, hfirst, hall hfirst 0 _ rfl rfl⟩

/-- With the two parameters the other way round the argument goes to the optional one, and the
required one is left with its default. -/
theorem required_defaulted_after_optional :
    let a : Parameter := { name := "a", typeName := "object", optional := true, default := .text "d" }
    let b : Parameter := { name := "b", typeName := "object" }
    let f : Function := ⟨"f", [a, b], .native fun vs => return .ok (.list vs)⟩
    let e := Engine.new true
    f.bindings e [.text "x"] = .ok [.text "x", .null] ∧ b.optional = false ∧
      TakesDefault e [.text "x"] [.text "x", .null] 1 b ∧
      (Run.function 1 "f" [.text "x"] (e.defineFunction f)).1 = .ok (.list [.text "x", .null]) := by
  intro a b f e
  have h : f.bindings e [.text "x"] = .ok [.text "x", .null] := rfl
  have hrun : (Run.function 1 "f" [.text "x"] (e.defineFunction f)).1 =
      .ok (.list [.text "x", .null]) := rfl
  refine ⟨h, rfl, ?_, hrun⟩
  have hbinds := h ▸ f.binds_bindings e [.text "x"]
  exact (hbinds.takes (i := 1) (p := b) rfl).resolve_left fun harg => absurd harg.lt (by decide)

end Parlance
