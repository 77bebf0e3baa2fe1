import Mathlib.Data.List.Nodup
import Parlance.Files.Load
import Parlance.Proofs.Files.Listing
import Parlance.Proofs.Script.Source

/-! Loading a directory. Every file that lies directly inside it and has the extension runs exactly once,
in the order of the paths, in a scope of its own and from the engine that the file before has left,
however that file ended. The report parts these files into two lists, and the summary comes last. -/

namespace Parlance

/-- A new scope with nothing around it and nothing in it. -/
structure Engine.OpensRoot (e : Engine) (scope : ScopeId) (e' : Engine) : Prop where
  unused : e.scopes.get? scope = none
  empty : e'.scopes.get? scope = some {}
  others : e' = { e with scopes := e.scopes.add none }

inductive Runs (allowance : Nat) (bytes : ByteArray) (e : Engine) : Except Halt Unit → Engine → Prop
  | unreadable : String.fromUTF8? bytes = none →
      Runs allowance bytes e (.error (.fault (.file .notText))) e
  | refused {text : String} {fault : Fault} : String.fromUTF8? bytes = some text →
      e.parse text = .error fault → Runs allowance bytes e (.error (.fault fault)) e
  | ran {text : String} {root : Node} {scope : ScopeId} {e₁ e₂ : Engine} {r : Except Halt Value} :
      String.fromUTF8? bytes = some text → e.parse text = .ok root → e.OpensRoot scope e₁ →
      Run.execSource allowance (serve allowance) scope root.statements e₁ = (r, e₂) →
      Runs allowance bytes e (r.map fun _ => ()) e₂

/-- Scripts run one after the other, each from the engine that the one before has left; the outcome of
each is the fault by which it failed, if it did. -/
inductive Loads (allowance : Nat) (dir : String) :
    List (String × ByteArray) → Engine → List (String × Option Fault) → Engine → Prop
  | nil (e : Engine) : Loads allowance dir [] e [] e
  | loaded {name : String} {bytes : ByteArray} {rest : List (String × ByteArray)}
      {outcomes : List (String × Option Fault)} {e e₁ e₂ : Engine} :
      Runs allowance bytes (e.trace "loading script" [("path", Path.join dir name)]) (.ok ()) e₁ →
      Loads allowance dir rest e₁ outcomes e₂ →
      Loads allowance dir ((name, bytes) :: rest) e ((Path.join dir name, none) :: outcomes) e₂
  | failed {name : String} {bytes : ByteArray} {rest : List (String × ByteArray)} {fault : Fault}
      {outcomes : List (String × Option Fault)} {e e₁ e₂ : Engine} :
      Runs allowance bytes (e.trace "loading script" [("path", Path.join dir name)])
        (.error (.fault fault)) e₁ →
      Loads allowance dir rest e₁ outcomes e₂ →
      Loads allowance dir ((name, bytes) :: rest) e ((Path.join dir name, some fault) :: outcomes) e₂

def RunsOut (allowance : Nat) (dir : String) (scripts : List (String × ByteArray)) (e e' : Engine) :
    Prop :=
  ∃ before name bytes after outcomes e₁, scripts = before ++ (name, bytes) :: after ∧
    Loads allowance dir before e outcomes e₁ ∧
    Runs allowance bytes (e₁.trace "loading script" [("path", Path.join dir name)])
      (.error .exhausted) e'

namespace Run
variable {allowance : Nat} {files : FileTree} {e : Engine}

theorem opensRoot_addScope (e : Engine) : e.OpensRoot e.scopes.size (e.addScope none).2 where
  unused := ScopeTree.get?_eq_none (Nat.le_refl _)
  empty := by
    change (e.scopes.add none).get? e.scopes.size = _
    rw [ScopeTree.get?_add, if_pos rfl]
  others := rfl

theorem source_refused {text : String} {fault : Fault} (h : e.parse text = .error fault) :
    source allowance text none e = (.error (.fault fault), e) := by
  have hget : (get : Run Engine) e = (.ok e, e) := rfl
  rw [source, Manner.execute, bind_ok_apply hget, bind_apply, h]
  rfl

theorem source_fresh {text : String} {root : Node} (h : e.parse text = .ok root) :
    source allowance text none e =
      execSource allowance (Parlance.serve allowance) e.scopes.size root.statements
        (e.addScope none).2 := by
  have hget : (get : Run Engine) e = (.ok e, e) := rfl
  have hroot : ofExcept (e.parse text) e = (.ok root, e) := by
    rw [h]
    rfl
  have hscope : newScope none e = (.ok e.scopes.size, (e.addScope none).2) := rfl
  rw [source, Manner.execute, bind_ok_apply hget, bind_ok_apply hroot]
  exact bind_ok_apply hscope

theorem loadFile_unreadable {path : String} {fault : FileFault}
    (h : files.readText path = .error fault) :
    loadFile allowance files path e = (.error (.fault (.file fault)), e) := by
  rw [loadFile, Manner.loadFile, bind_apply, h]
  rfl

theorem loadFile_readable {path text : String} (h : files.readText path = .ok text) :
    loadFile allowance files path e =
      ((source allowance text none e).1.map fun _ => (), (source allowance text none e).2) := by
  have htext : ofExcept ((files.readText path).mapError Fault.file) e = (.ok text, e) := by
    rw [h]
    rfl
  rw [loadFile, Manner.loadFile, bind_ok_apply htext]
  change (source allowance text none >>= fun _ => pure ()) e = _
  rw [bind_apply]
  rcases source allowance text none e with ⟨_ | _, _⟩ <;> rfl

theorem loadFile_runs {path : String} {bytes : ByteArray}
    (h : files.readText path = match String.fromUTF8? bytes with
      | some text => .ok text
      | none => .error .notText) {r : Except Halt Unit} {e' : Engine}
    (hrun : loadFile allowance files path e = (r, e')) : Runs allowance bytes e r e' := by
  cases htext : String.fromUTF8? bytes with
  | none =>
    rw [htext] at h
    rw [loadFile_unreadable h] at hrun
    cases hrun
    exact .unreadable htext
  | some text =>
    rw [htext] at h
    rw [loadFile_readable h] at hrun
    cases hparse : e.parse text with
    | error fault =>
      rw [source_refused hparse] at hrun
      cases hrun
      exact .refused htext hparse
    | ok root =>
      rw [source_fresh hparse] at hrun
      cases hrun
      exact .ran htext hparse (opensRoot_addScope e) rfl

end Run

namespace LoadReport

def ofOutcomes (outcomes : List (String × Option Fault)) : LoadReport where
  loaded := (outcomes.filter (·.2.isNone)).map (·.1)
  failed := outcomes.filterMap fun o => o.2.map fun fault => (o.1, fault.message)

def append (r r' : LoadReport) : LoadReport := ⟨r.loaded ++ r'.loaded, r.failed ++ r'.failed⟩

theorem append_ofOutcomes_nil (r : LoadReport) : r.append (ofOutcomes []) = r := by
  simp [append, ofOutcomes]

theorem append_ofOutcomes_loaded (r : LoadReport) (path : String)
    (outcomes : List (String × Option Fault)) :
    append { r with loaded := r.loaded ++ [path] } (ofOutcomes outcomes) =
      r.append (ofOutcomes ((path, none) :: outcomes)) := by
  simp [append, ofOutcomes]

theorem append_ofOutcomes_failed (r : LoadReport) (path : String) (fault : Fault)
    (outcomes : List (String × Option Fault)) :
    append { r with failed := r.failed ++ [(path, fault.message)] } (ofOutcomes outcomes) =
      r.append (ofOutcomes ((path, some fault) :: outcomes)) := by
  simp [append, ofOutcomes]

end LoadReport

theorem RunsOut.cons {allowance : Nat} {dir : String} {s : String × ByteArray}
    {rest : List (String × ByteArray)} {e e₁ e' : Engine}
    (hcons : ∀ {before outcomes e₂}, Loads allowance dir before e₁ outcomes e₂ →
      ∃ o, Loads allowance dir (s :: before) e (o :: outcomes) e₂)
    (h : RunsOut allowance dir rest e₁ e') : RunsOut allowance dir (s :: rest) e e' := by
  obtain ⟨before, name, bytes, after, outcomes, e₂, rfl, hloads, hruns⟩ := h
  obtain ⟨o, hloads⟩ := hcons hloads
  exact ⟨s :: before, name, bytes, after, _, e₂, rfl, hloads, hruns⟩

namespace Run
variable {allowance : Nat} {files : FileTree} {dir : String}

section
variable {path : String} {rest : List String} {report : LoadReport} {e e₁ : Engine}

theorem loadAll_of_loaded
    (h : loadFile allowance files path (e.trace "loading script" [("path", path)]) = (.ok (), e₁)) :
    loadAll allowance files (path :: rest) report e =
      loadAll allowance files rest { report with loaded := report.loaded ++ [path] } e₁ := by
  have hattempt : attempt (loadFile allowance files path)
      (e.trace "loading script" [("path", path)]) = (.ok (.ok ()), e₁) := by rw [attempt, h]
  exact bind_ok_apply hattempt

theorem loadAll_of_failed {fault : Fault}
    (h : loadFile allowance files path (e.trace "loading script" [("path", path)]) =
      (.error (.fault fault), e₁)) :
    loadAll allowance files (path :: rest) report e =
      loadAll allowance files rest
        { report with failed := report.failed ++ [(path, fault.message)] } e₁ := by
  have hattempt : attempt (loadFile allowance files path)
      (e.trace "loading script" [("path", path)]) = (.ok (.error fault), e₁) := by rw [attempt, h]
  exact bind_ok_apply hattempt

theorem loadAll_of_exhausted
    (h : loadFile allowance files path (e.trace "loading script" [("path", path)]) =
      (.error .exhausted, e₁)) :
    loadAll allowance files (path :: rest) report e = (.error .exhausted, e₁) := by
  have hattempt : attempt (loadFile allowance files path)
      (e.trace "loading script" [("path", path)]) = (.error .exhausted, e₁) := by rw [attempt, h]
  have hmodify : (modify (·.trace "loading script" [("path", path)]) : Run Unit) e =
      (.ok (), e.trace "loading script" [("path", path)]) := rfl
  rw [loadAll, Manner.loadAll, bind_ok_apply hmodify, bind_apply, hattempt]

end

theorem loadAll_cases (allowance : Nat) {scripts : List (String × ByteArray)}
    (hscripts : ∀ s ∈ scripts, files.readText (Path.join dir s.1) =
      match String.fromUTF8? s.2 with
      | some text => .ok text
      | none => .error .notText) (report : LoadReport) (e : Engine) :
    (∃ outcomes e', Loads allowance dir scripts e outcomes e' ∧
      loadAll allowance files (scripts.map fun s => Path.join dir s.1) report e =
        (.ok (report.append (.ofOutcomes outcomes)), e')) ∨
    ∃ e', RunsOut allowance dir scripts e e' ∧
      loadAll allowance files (scripts.map fun s => Path.join dir s.1) report e =
        (.error .exhausted, e') := by
  induction scripts generalizing report e with
  | nil => exact .inl ⟨[], e, .nil e, by rw [LoadReport.append_ofOutcomes_nil]; rfl⟩
  | cons s rest ih =>
    obtain ⟨name, bytes⟩ := s
    have ih := ih fun s hs => hscripts s (List.mem_cons_of_mem _ hs)
    rw [List.map_cons]
    rcases hload : loadFile allowance files (Path.join dir name)
      (e.trace "loading script" [("path", Path.join dir name)]) with ⟨(fault | _) | _, e₁⟩
    all_goals have hruns := loadFile_runs (hscripts _ List.mem_cons_self) hload
    · rw [loadAll_of_failed hload]
      obtain ⟨outcomes, e', hloads, heq⟩ | ⟨e', hout, heq⟩ := ih
        { report with failed := report.failed ++ [(Path.join dir name, fault.message)] } e₁
      · rw [LoadReport.append_ofOutcomes_failed] at heq
        exact .inl ⟨_, e', .failed hruns hloads, heq⟩
      · exact .inr ⟨e', hout.cons fun hloads => ⟨_, .failed hruns hloads⟩, heq⟩
    · rw [loadAll_of_exhausted hload]
      exact .inr ⟨e₁, ⟨[], name, bytes, rest, [], e, rfl, .nil e, hruns⟩, rfl⟩
    · rw [loadAll_of_loaded hload]
      obtain ⟨outcomes, e', hloads, heq⟩ | ⟨e', hout, heq⟩ := ih
        { report with loaded := report.loaded ++ [Path.join dir name] } e₁
      · rw [LoadReport.append_ofOutcomes_loaded] at heq
        exact .inl ⟨_, e', .loaded hruns hloads, heq⟩
      · exact .inr ⟨e', hout.cons fun hloads => ⟨_, .loaded hruns hloads⟩, heq⟩

end Run

/-! Reports. -/

namespace Engine

def logAll (e : Engine) (lines : List (Level × String)) : Engine :=
  lines.foldl (fun e line => e.report (.log line.1) line.2) e

theorem logAll_eq (e : Engine) (lines : List (Level × String)) :
    e.logAll lines = { e with journal := (e.logAll lines).journal } := by
  induction lines generalizing e with
  | nil => rfl
  | cons line lines ih => exact ih (e.report (.log line.1) line.2)

theorem log_logAll {lines : List (Level × String)} (h : ∀ line ∈ lines, line.1 ≠ .debug)
    (e : Engine) : (e.logAll lines).log = e.log ++ lines := by
  induction lines generalizing e with
  | nil => simp [logAll]
  | cons line lines ih =>
    obtain ⟨level, message⟩ := line
    have hlevel : level ≠ .debug := h _ List.mem_cons_self
    have hline : (e.report (.log level) message).log = e.log ++ [(level, message)] := by
      cases level <;> simp_all [log, report]
    calc ((e.report (.log level) message).logAll lines).log
      _ = (e.report (.log level) message).log ++ lines :=
        ih (fun l hl => h l (List.mem_cons_of_mem _ hl)) _
      _ = e.log ++ (level, message) :: lines := by rw [hline, List.append_assoc]; rfl

end Engine

namespace Run

theorem forIn_report (lines : List (Level × String)) (e : Engine) :
    (forIn lines PUnit.unit fun line _ => do
      report (.log line.1) line.2
      pure (ForInStep.yield PUnit.unit) : Run PUnit) e = (.ok PUnit.unit, e.logAll lines) := by
  induction lines generalizing e with
  | nil => rfl
  | cons line lines ih =>
    rw [List.forIn_cons]
    exact ih (e.report (.log line.1) line.2)

theorem loadDirectory_of_loadAll {allowance : Nat} {files : FileTree} {dir extension : String}
    {names : List String} {result : LoadReport} {e e₁ : Engine} (hnames : files.filesIn dir = .ok names)
    (hload : loadAll allowance files
      ((names.filter fun n => Path.extension? n = some extension).map (Path.join dir)) {} e =
        (.ok result, e₁)) :
    loadDirectory allowance files dir extension e = (.ok result, e₁.logAll result.summary) := by
  have hlist : ofExcept ((files.filesIn dir).mapError Fault.file) e = (.ok names, e) := by
    rw [hnames]
    rfl
  rw [loadDirectory, Manner.loadDirectory, bind_ok_apply hlist, bind_ok_apply hload]
  exact bind_ok_apply (forIn_report result.summary e₁)

theorem loadDirectory_of_exhausted {allowance : Nat} {files : FileTree} {dir extension : String}
    {names : List String} {e e₁ : Engine} (hnames : files.filesIn dir = .ok names)
    (hload : loadAll allowance files
      ((names.filter fun n => Path.extension? n = some extension).map (Path.join dir)) {} e =
        (.error .exhausted, e₁)) :
    loadDirectory allowance files dir extension e = (.error .exhausted, e₁) := by
  have hlist : ofExcept ((files.filesIn dir).mapError Fault.file) e = (.ok names, e) := by
    rw [hnames]
    rfl
  rw [loadDirectory, Manner.loadDirectory, bind_ok_apply hlist]
  exact bind_error_apply hload

theorem loadDirectory_of_fault {allowance : Nat} {files : FileTree} {dir extension : String}
    {fault : FileFault} {e : Engine} (h : files.filesIn dir = .error fault) :
    loadDirectory allowance files dir extension e = (.error (.fault (.file fault)), e) := by
  rw [loadDirectory, Manner.loadDirectory, bind_apply, h]
  rfl

end Run

/-- The scripts of a directory: its files with the extension, each once, in the order of the paths. -/
structure ScriptsOf (files : FileTree) (place : Place) (dir extension : String)
    (scripts : List (String × ByteArray)) : Prop where
  ordered : (scripts.map fun s => Path.join dir s.1).Pairwise Path.Before
  mem_iff : ∀ name bytes, (name, bytes) ∈ scripts ↔
    files.HasFile place name bytes ∧ Path.extension? name = some extension

/-- Both lists are in the order of the paths, they have nothing in common, together they are all the
paths, and each path is in the list that its outcome says. -/
structure LoadReport.Tells (report : LoadReport) (paths : List String)
    (outcomes : List (String × Option Fault)) : Prop where
  loaded_ordered : report.loaded.Pairwise Path.Before
  failed_ordered : (report.failed.map (·.1)).Pairwise Path.Before
  disjoint : ∀ path ∈ report.loaded, path ∉ report.failed.map (·.1)
  complete : ∀ path, path ∈ report.loaded ∨ path ∈ report.failed.map (·.1) ↔ path ∈ paths
  loaded_iff : ∀ path, path ∈ report.loaded ↔ (path, none) ∈ outcomes
  failed_iff : ∀ path reason, (path, reason) ∈ report.failed ↔
    ∃ fault, (path, some fault) ∈ outcomes ∧ fault.message = reason

/-- The log gains a verdict, the two counts and a warning for each failure; nothing else changes. -/
structure LoadReport.ClosesLog (report : LoadReport) (e e' : Engine) : Prop where
  log : e'.log = e.log ++
    (if report.failed.isEmpty then
      (.info, s!"all {report.loaded.length + report.failed.length} scripts loaded successfully")
    else if report.loaded.isEmpty then (.error, "no scripts loaded successfully")
    else (.warning, "only some scripts loaded successfully"))
      :: (.info, s!"successful: {report.loaded.length}, failures: {report.failed.length}")
      :: report.failed.map fun f => (.warning, s!"failed script: {f.1}, reason: {f.2}")
  others : e' = { e with journal := e'.journal }

theorem Path.Before.ne {p q : String} (h : Before p q) : p ≠ q := by
  rintro rfl
  exact List.lt_irrefl _ h

theorem Loads.map_fst {allowance : Nat} {dir : String} {scripts : List (String × ByteArray)}
    {outcomes : List (String × Option Fault)} {e e' : Engine}
    (h : Loads allowance dir scripts e outcomes e') :
    outcomes.map (·.1) = scripts.map fun s => Path.join dir s.1 := by
  induction h with
  | nil => rfl
  | loaded _ _ ih => rw [List.map_cons, List.map_cons, ih]
  | failed _ _ ih => rw [List.map_cons, List.map_cons, ih]

namespace LoadReport

theorem mem_loaded_ofOutcomes {outcomes : List (String × Option Fault)} {path : String} :
    path ∈ (ofOutcomes outcomes).loaded ↔ (path, none) ∈ outcomes := by
  simp [ofOutcomes]

theorem mem_failed_ofOutcomes {outcomes : List (String × Option Fault)} {path reason : String} :
    (path, reason) ∈ (ofOutcomes outcomes).failed ↔
      ∃ fault, (path, some fault) ∈ outcomes ∧ fault.message = reason := by
  simp [ofOutcomes]

theorem failed_paths_ofOutcomes (outcomes : List (String × Option Fault)) :
    (ofOutcomes outcomes).failed.map (·.1) = (outcomes.filter (·.2.isSome)).map (·.1) := by
  simp only [ofOutcomes]
  induction outcomes with
  | nil => rfl
  | cons outcome outcomes ih =>
    obtain ⟨path, _ | fault⟩ := outcome <;> simp [ih]

theorem tells_ofOutcomes {outcomes : List (String × Option Fault)}
    (h : (outcomes.map (·.1)).Pairwise Path.Before) :
    (ofOutcomes outcomes).Tells (outcomes.map (·.1)) outcomes where
  loaded_ordered := h.sublist (List.filter_sublist.map _)
  failed_ordered := by
    rw [failed_paths_ofOutcomes]
    exact h.sublist (List.filter_sublist.map _)
  disjoint path hloaded hfailed := by
    rw [failed_paths_ofOutcomes, List.mem_map] at hfailed
    obtain ⟨⟨_, fault⟩, hmem, rfl⟩ := hfailed
    obtain ⟨hmem, hfault⟩ := List.mem_filter.1 hmem
    -- Only one outcome has this path, and it cannot be both.
    have hnodup : (outcomes.map (·.1)).Nodup := h.imp Path.Before.ne
    have hsame := List.inj_on_of_nodup_map hnodup (mem_loaded_ofOutcomes.1 hloaded) hmem rfl
    rw [← (Prod.mk.inj hsame).2] at hfault
    cases hfault
  complete path := by
    rw [failed_paths_ofOutcomes]
    constructor
    · rintro (hpath | hpath)
      · exact (List.filter_sublist.map _).subset hpath
      · exact (List.filter_sublist.map _).subset hpath
    · intro hpath
      obtain ⟨⟨_, _ | fault⟩, hmem, rfl⟩ := List.mem_map.1 hpath
      · exact .inl (mem_loaded_ofOutcomes.2 hmem)
      · exact .inr (List.mem_map.2 ⟨_, List.mem_filter.2 ⟨hmem, rfl⟩, rfl⟩)
  loaded_iff _ := mem_loaded_ofOutcomes
  failed_iff _ _ := mem_failed_ofOutcomes

theorem closesLog_summary (report : LoadReport) (e : Engine) :
    report.ClosesLog e (e.logAll report.summary) where
  log := by
    have hlevels : ∀ line ∈ report.summary, line.1 ≠ .debug := by
      intro line hline
      simp only [summary, List.mem_cons, List.mem_map] at hline
      obtain rfl | rfl | ⟨failure, _, rfl⟩ := hline
      · split
        · simp
        · split <;> simp
      · simp
      · simp
    exact Engine.log_logAll hlevels e
  others := e.logAll_eq _

end LoadReport

theorem FileTree.exists_contents {t : FileTree} {place : Place} {names : List String}
    (h : ∀ name ∈ names, ∃ bytes, t.HasFile place name bytes) :
    ∃ scripts : List (String × ByteArray), scripts.map (·.1) = names ∧
      ∀ s ∈ scripts, t.HasFile place s.1 s.2 := by
  induction names with
  | nil => exact ⟨[], rfl, by simp⟩
  | cons name names ih =>
    obtain ⟨bytes, hbytes⟩ := h name List.mem_cons_self
    obtain ⟨scripts, rfl, hscripts⟩ := ih fun n hn => h n (List.mem_cons_of_mem _ hn)
    refine ⟨(name, bytes) :: scripts, rfl, ?_⟩
    rintro s hs
    obtain rfl | hs := List.mem_cons.1 hs
    · exact hbytes
    · exact hscripts s hs

theorem FileTree.WellFormed.exists_scripts {files : FileTree} (hfiles : files.WellFormed)
    {dir : String} {place : Place} (hdir : files.LeadsTo dir place) (extension : String) :
    ∃ names scripts, files.filesIn dir = .ok names ∧ ScriptsOf files place dir extension scripts ∧
      (names.filter fun n => Path.extension? n = some extension).map (Path.join dir) =
        scripts.map fun s => Path.join dir s.1 := by
  obtain ⟨names, hnames, hordered, hmem⟩ := hfiles.exists_filesIn hdir
  have hcontents (name) (hname : name ∈ names.filter fun n => Path.extension? n = some extension) :
      ∃ bytes, files.HasFile place name bytes :=
    (hmem name).1 (List.mem_of_mem_filter hname)
  obtain ⟨scripts, hscripts, hhas⟩ := exists_contents hcontents
  have hne : dir ≠ "" := by
    rintro rfl
    cases hdir.1
  refine ⟨names, scripts, hnames, ⟨?_, fun name bytes => ?_⟩, ?_⟩
  · have hsorted : (scripts.map (·.1)).Pairwise (· < ·) := by
      rw [hscripts]
      exact hordered.filter _
    rw [List.pairwise_map] at hsorted ⊢
    exact hsorted.imp_of_mem fun ha hb hab =>
      Path.before_join hne (hfiles.isName (hhas _ ha)) (hfiles.isName (hhas _ hb)) hab
  · constructor
    · intro hs
      have hname : name ∈ names.filter fun n => Path.extension? n = some extension := by
        rw [← hscripts]
        exact List.mem_map.2 ⟨_, hs, rfl⟩
      exact ⟨hhas _ hs, of_decide_eq_true (List.mem_filter.1 hname).2⟩
    · rintro ⟨hfile, hextension⟩
      have hname : name ∈ scripts.map (·.1) := by
        rw [hscripts, List.mem_filter]
        exact ⟨(hmem name).2 ⟨bytes, hfile⟩, decide_eq_true hextension⟩
      obtain ⟨⟨_, bytes'⟩, hs, rfl⟩ := List.mem_map.1 hname
      have hsame := (hhas _ hs).symm.trans hfile
      cases hsame
      exact hs
  · rw [← hscripts, List.map_map]
    rfl

/-- A load fails without a trace if the path leads to no directory. Otherwise it runs the scripts of the
directory, tells how each went and closes the log with a summary, unless one of them is broken off. -/
theorem loadDirectory_runs_each_script {files : FileTree} (hfiles : files.WellFormed)
    (allowance : Nat) (dir extension : String) (e : Engine) :
    (∀ place, ¬ files.LeadsTo dir place) ∧
      (∃ fault, Run.loadDirectory allowance files dir extension e =
        (.error (.fault (.file fault)), e)) ∨
    ∃ place scripts, files.LeadsTo dir place ∧ ScriptsOf files place dir extension scripts ∧
      ((∃ outcomes e₁ report e', Loads allowance dir scripts e outcomes e₁ ∧
        report.Tells (scripts.map fun s => Path.join dir s.1) outcomes ∧ report.ClosesLog e₁ e' ∧
        Run.loadDirectory allowance files dir extension e = (.ok report, e')) ∨
      ∃ e', RunsOut allowance dir scripts e e' ∧
        Run.loadDirectory allowance files dir extension e = (.error .exhausted, e')) := by
  by_cases hdir : ∃ place, files.LeadsTo dir place
  · obtain ⟨place, hdir⟩ := hdir
    obtain ⟨names, scripts, hnames, hscripts, hpaths⟩ := hfiles.exists_scripts hdir extension
    refine .inr ⟨place, scripts, hdir, hscripts, ?_⟩
    have hread (s) (hs : s ∈ scripts) : files.readText (Path.join dir s.1) =
        match String.fromUTF8? s.2 with
        | some text => .ok text
        | none => .error .notText := by
      have hfile := ((hscripts.mem_iff s.1 s.2).1 hs).1
      exact FileTree.readText_join hdir (hfiles.isName hfile) hfile
    obtain ⟨outcomes, e₁, hloads, hload⟩ | ⟨e', hout, hload⟩ := Run.loadAll_cases allowance hread {} e
    · rw [← hpaths] at hload
      have htells := LoadReport.tells_ofOutcomes (hloads.map_fst ▸ hscripts.ordered)
      rw [hloads.map_fst] at htells
      exact .inl ⟨outcomes, e₁, _, _, hloads, htells, LoadReport.closesLog_summary _ e₁,
        Run.loadDirectory_of_loadAll hnames hload⟩
    · rw [← hpaths] at hload
      exact .inr ⟨e', hout, Run.loadDirectory_of_exhausted hnames hload⟩
  · rw [not_exists] at hdir
    obtain ⟨fault, hfault⟩ := FileTree.filesIn_of_not_leadsTo hdir
    exact .inl ⟨hdir, fault, Run.loadDirectory_of_fault hfault⟩

theorem loadDirectory_runs_each_script_mixed :
    let files :=
      (FileTree.empty.write ["d", "b.s"] "true".toUTF8).write ["d", "a.s"] "missing()".toUTF8
    let report : LoadReport := ⟨["d/b.s"], [("d/a.s", "function `missing` is not defined")]⟩
    files.WellFormed ∧ files.LeadsTo "d" ["d"] ∧
    ∃ place scripts outcomes e₁ e', files.LeadsTo "d" place ∧ ScriptsOf files place "d" "s" scripts ∧
      Loads 9 "d" scripts (.new true) outcomes e₁ ∧
      report.Tells (scripts.map fun s => Path.join "d" s.1) outcomes ∧ report.ClosesLog e₁ e' ∧
      Run.loadDirectory 9 files "d" "s" (.new true) = (.ok report, e') ∧
      e'.log = [(.warning, "only some scripts loaded successfully"),
        (.info, "successful: 1, failures: 1"),
        (.warning, "failed script: d/a.s, reason: function `missing` is not defined")] := by
  intro files report
  have hname (name : String) (h : name = "a.s" ∨ name = "b.s") : Path.IsName name := by
    obtain rfl | rfl := h <;> exact ⟨by decide, by decide, by decide, by decide⟩
  have hfiles : files.WellFormed :=
    (FileTree.wellFormed_empty.write ["d"] (hname _ (.inr rfl)) _).write ["d"] (hname _ (.inl rfl)) _
  have hdir : files.LeadsTo "d" ["d"] := ⟨rfl, rfl⟩
  have hnames : files.filesIn "d" = .ok ["a.s", "b.s"] := by
    change Except.ok (["a.s", "b.s"].mergeSort fun a b => !decide (b < a)) = _
    rw [List.mergeSort_of_pairwise (by decide)]
  have hmissing : Source.parse .english "missing()" = .ok (.block [.call "missing" []]) := by
    have hlexes : Token.Lexes (Source.process Phrasebook.english.reword "missing()".toList)
        [(.identifier, "missing"), (.delimiter .leftParen, "("), (.delimiter .rightParen, ")")] [] := by
      have hwords : Source.process Phrasebook.english.reword "missing()".toList =
          "missing()".toList := by decide +kernel
      rw [hwords]
      have hlexes : Token.Lexes "missing()".toList _ [] :=
        .step rfl (.step rfl (.step rfl (.done [])))
      exact hlexes
    exact Source.parse_of_lexes hlexes rfl
  have htrue : Source.parse .english "true" = .ok (.block [.literal (.bool true)]) := by
    have hlexes : Token.Lexes (Source.process Phrasebook.english.reword "true".toList)
        [(.keyword .trueWord, "true")] [] := by
      have hwords : Source.process Phrasebook.english.reword "true".toList = "true".toList := by
        decide +kernel
      rw [hwords]
      have hlexes : Token.Lexes "true".toList _ [] := .step rfl (.done [])
      exact hlexes
    exact Source.parse_of_lexes hlexes rfl
  have htext : files.readText "d/a.s" = .ok "missing()" := by with_unfolding_all rfl
  have htext' : files.readText "d/b.s" = .ok "true" := by with_unfolding_all rfl
  let e : Engine := (Engine.new true).trace "loading script" [("path", "d/a.s")]
  have hbook : e.book = .english := rfl
  have hfirst : Run.loadFile 9 files "d/a.s" e =
      (.error (.fault (.unknownFunction "missing")), (e.addScope none).2) := by
    rw [Run.loadFile_readable htext, Run.source_fresh (by rw [Engine.parse, hbook, hmissing])]
    rfl
  let e₁ : Engine := (e.addScope none).2.trace "loading script" [("path", "d/b.s")]
  have hbook₁ : e₁.book = .english := rfl
  have hsecond : Run.loadFile 9 files "d/b.s" e₁ = (.ok (), (e₁.addScope none).2) := by
    rw [Run.loadFile_readable htext', Run.source_fresh (by rw [Engine.parse, hbook₁, htrue])]
    rfl
  have hload : Run.loadAll 9 files ["d/a.s", "d/b.s"] {} (.new true) =
      (.ok report, (e₁.addScope none).2) := by
    rw [Run.loadAll_of_failed hfirst, Run.loadAll_of_loaded hsecond]
    rfl
  have hrun : Run.loadDirectory 9 files "d" "s" (.new true) =
      (.ok report, (e₁.addScope none).2.logAll report.summary) :=
    Run.loadDirectory_of_loadAll hnames hload
  have hlines : ((e₁.addScope none).2.logAll report.summary).log =
      [(.warning, "only some scripts loaded successfully"), (.info, "successful: 1, failures: 1"),
        (.warning, "failed script: d/a.s, reason: function `missing` is not defined")] := by
    with_unfolding_all rfl
  refine ⟨hfiles, hdir, ?_⟩
  obtain ⟨hnone, _⟩ | ⟨place, scripts, hplace, hscripts, hloaded⟩ :=
    loadDirectory_runs_each_script hfiles 9 "d" "s" (.new true)
  · exact absurd hdir (hnone _)
  obtain ⟨outcomes, e₂, told, e', hloads, htells, hlog, htold⟩ | ⟨e', _, hout⟩ := hloaded
  · obtain ⟨hsame, rfl⟩ := Prod.mk.inj (hrun.symm.trans htold)
    cases Except.ok.inj hsame
    exact ⟨place, scripts, outcomes, e₂, _, hplace, hscripts, hloads, htells, hlog, hrun, hlines⟩
  · cases hrun.symm.trans hout

end Parlance
