import StepScript.Proofs.LoadedScript
import StepScript.Proofs.TreeWalk

/-!
Loading the definitions of a kind from a directory. The files below it that have the extension of
the kind are read in the order of their paths. What they hold is put together; but the first file
that cannot be read, or holds no such definitions, or gives a concept a name that is taken, ends the
loading with its error.
-/

set_option autoImplicit false
set_option relaxedAutoImplicit false

namespace StepScript

open FileTree

inductive DefinitionKind : Type → Type
  | steps : DefinitionKind Step
  | concepts : DefinitionKind Concept
  | hooks : DefinitionKind Hook

namespace DefinitionKind

variable {α : Type}

def reader : DefinitionKind α → ScriptReader α
  | .steps => .steps
  | .concepts => .concepts
  | .hooks => .hooks

def parse : DefinitionKind α → String → Except ScriptError (List α)
  | .steps, source => Step.parseAll source
  | .concepts, source => (Concept.parse source).map ([·])
  | .hooks, source => Hook.parseAll source

def ofFile (kind : DefinitionKind α) (path : Path) (bytes : ByteArray) :
    Except ScriptError (List α) :=
  match contents path bytes with
  | .error e => .error (ScriptReader.unreadable e)
  | .ok bytes =>
    match String.fromUTF8? bytes with
    | none => .error (ScriptReader.unreadable (.other "text is not valid UTF-8"))
    | some source => kind.parse source

def Distinct : DefinitionKind α → List α → Prop
  | .concepts, found => (found.map Concept.name).Nodup
  | .steps, _ | .hooks, _ => True

/-- A concept has the name of one that has been found before. -/
inductive Repeats : {α : Type} → DefinitionKind α → List α → List α → ScriptError → Prop
  | concept {found : List Concept} {c : Concept} (htaken : c.name ∈ found.map Concept.name) :
      Repeats .concepts found [c] (.duplicateConcept c.name)

inductive Fails (kind : DefinitionKind α) (found : List α) (path : Path) (bytes : ByteArray) :
    ScriptError → Prop
  | alone {e : ScriptError} (hfile : kind.ofFile path bytes = .error e) :
      Fails kind found path bytes e
  | repeated {more : List α} {e : ScriptError} (hfile : kind.ofFile path bytes = .ok more)
      (hrepeats : kind.Repeats found more e) : Fails kind found path bytes e

variable (kind : DefinitionKind α) {found : List α} {t : FileTree} {path : Path}
  {bytes : ByteArray}

private theorem extension_noPoint : '.' ∉ kind.reader.extension.toList := by
  cases kind with
  | steps => decide
  | concepts => decide
  | hooks => decide

private theorem add_cases_of_append (kind : DefinitionKind α) {source : String}
    (hadd : kind.reader.add found source = (kind.parse source).map (found ++ ·)) :
    (∃ more, kind.parse source = .ok more ∧ kind.reader.add found source = .ok (found ++ more)) ∨
      ∃ e, kind.parse source = .error e ∧ kind.reader.add found source = .error e := by
  rw [hadd]
  cases kind.parse source with
  | error e => exact .inr ⟨e, rfl, rfl⟩
  | ok more => exact .inl ⟨more, rfl, rfl⟩

private theorem add_cases (hdistinct : kind.Distinct found) (source : String) :
    (∃ more, kind.parse source = .ok more ∧ kind.Distinct (found ++ more) ∧
      kind.reader.add found source = .ok (found ++ more)) ∨
    ∃ e, (kind.parse source = .error e ∨
        ∃ more, kind.parse source = .ok more ∧ kind.Repeats found more e) ∧
      kind.reader.add found source = .error e := by
  cases kind with
  | steps =>
    rcases add_cases_of_append .steps rfl with ⟨more, hparse, hadd⟩ | ⟨e, hparse, hadd⟩
    · exact .inl ⟨more, hparse, trivial, hadd⟩
    · exact .inr ⟨e, .inl hparse, hadd⟩
  | hooks =>
    rcases add_cases_of_append .hooks rfl with ⟨more, hparse, hadd⟩ | ⟨e, hparse, hadd⟩
    · exact .inl ⟨more, hparse, trivial, hadd⟩
    · exact .inr ⟨e, .inl hparse, hadd⟩
  | concepts =>
    cases hparse : Concept.parse source with
    | error e =>
      have hadd : ScriptReader.concepts.add found source = .error e := by
        simp [ScriptReader.concepts, hparse]
      have hnone : parse .concepts source = .error e := congrArg (Except.map ([·])) hparse
      exact .inr ⟨e, .inl hnone, hadd⟩
    | ok c =>
      have hadd := ScriptReader.concepts_add_of_parse hparse found
      have hmore : parse .concepts source = .ok [c] := congrArg (Except.map ([·])) hparse
      by_cases htaken : c.name ∈ found.map Concept.name
      · rw [if_pos htaken] at hadd
        exact .inr ⟨.duplicateConcept c.name, .inr ⟨[c], hmore, .concept htaken⟩, hadd⟩
      · rw [if_neg htaken] at hadd
        exact .inl ⟨[c], hmore, ScriptReader.nodup_names_append hdistinct htaken, hadd⟩

private theorem run_readText (hread : t.read path = contents path bytes) :
    (∃ e, (access.readText path).run t = (.error e, t) ∧
      kind.ofFile path bytes = .error (ScriptReader.unreadable e)) ∨
    ∃ source, (access.readText path).run t = (.ok source, t) ∧
      kind.ofFile path bytes = kind.parse source := by
  have hrun : (access.read path).run t = (contents path bytes, t) := congrArg (·, t) hread
  unfold ofFile
  rw [FileAccess.readText, run_bind_of hrun]
  cases contents path bytes with
  | error e => exact .inl ⟨e, rfl, rfl⟩
  | ok bytes =>
    cases htext : String.fromUTF8? bytes with
    | none =>
      simp only [htext]
      exact .inl ⟨_, rfl, rfl⟩
    | some source =>
      simp only [htext]
      exact .inr ⟨source, rfl, rfl⟩

private theorem readEach_cons (hdistinct : kind.Distinct found)
    (hread : t.read path = contents path bytes) (rest : List Path) :
    (∃ more, kind.ofFile path bytes = .ok more ∧ kind.Distinct (found ++ more) ∧
      (kind.reader.readEach access found (path :: rest)).run t =
        (kind.reader.readEach access (found ++ more) rest).run t) ∨
    ∃ e, kind.Fails found path bytes e ∧
      (kind.reader.readEach access found (path :: rest)).run t = (.error e, t) := by
  rw [ScriptReader.readEach]
  rcases kind.run_readText hread with ⟨e, hrun, hfile⟩ | ⟨source, hrun, hfile⟩
  · rw [run_bind_of hrun]
    exact .inr ⟨_, .alone hfile, rfl⟩
  · rw [run_bind_of hrun]
    rcases kind.add_cases hdistinct source with ⟨more, hparse, hnew, hadd⟩ | ⟨e, hparse, hadd⟩
    · refine .inl ⟨more, hfile.trans hparse, hnew, ?_⟩
      simp only [hadd]
    · refine .inr ⟨e, ?_, ?_⟩
      · rcases hparse with herror | ⟨more, hmore, hrepeats⟩
        · exact .alone (hfile.trans herror)
        · exact .repeated (hfile.trans hmore) hrepeats
      · simp only [hadd]
        rfl

def Hold (path : Path) (files : List (Place × ByteArray)) (results : List (List α)) : Prop :=
  List.Forall₂ (fun f more => kind.ofFile (path.below f.1) f.2 = .ok more) files results

/-- How files below a path are loaded behind what has been found: all that they hold is put
together, or the first of them that fails ends it. -/
inductive Ends (found : List α) (path : Path) (files : List (Place × ByteArray)) :
    Except ScriptError (List α) → Prop
  | all {results : List (List α)} (hhold : kind.Hold path files results)
      (hdistinct : kind.Distinct (found ++ results.flatten)) :
      Ends found path files (.ok (found ++ results.flatten))
  | first {before after : List (Place × ByteArray)} {f : Place × ByteArray}
      {results : List (List α)} {e : ScriptError} (hfiles : files = before ++ f :: after)
      (hhold : kind.Hold path before results)
      (hdistinct : kind.Distinct (found ++ results.flatten))
      (hfails : kind.Fails (found ++ results.flatten) (path.below f.1) f.2 e) :
      Ends found path files (.error e)

private theorem Ends.cons {more : List α} {f : Place × ByteArray} {files : List (Place × ByteArray)}
    {result : Except ScriptError (List α)} (hfile : kind.ofFile (path.below f.1) f.2 = .ok more)
    (h : kind.Ends (found ++ more) path files result) :
    kind.Ends found path (f :: files) result := by
  cases h with
  | @all results hhold hdistinct =>
    rw [List.append_assoc, ← List.flatten_cons] at hdistinct ⊢
    exact .all (.cons hfile hhold) hdistinct
  | @first before after g results e hfiles hhold hdistinct hfails =>
    rw [List.append_assoc, ← List.flatten_cons] at hdistinct hfails
    have hcons : f :: files = (f :: before) ++ g :: after := congrArg (f :: ·) hfiles
    exact .first hcons (.cons hfile hhold) hdistinct hfails

private theorem exists_ends_readEach (hdistinct : kind.Distinct found)
    {files : List (Place × ByteArray)}
    (hread : ∀ f ∈ files, t.read (path.below f.1) = contents (path.below f.1) f.2) :
    ∃ result, kind.Ends found path files result ∧
      (kind.reader.readEach access found (files.map fun f => path.below f.1)).run t =
        (result, t) := by
  -- What has been found grows with each file, and its names stay different.
  induction files generalizing found with
  | nil =>
    refine ⟨.ok found, ?_, rfl⟩
    have hall : kind.Ends found path [] (.ok (found ++ ([] : List (List α)).flatten)) :=
      .all .nil (by rwa [List.flatten_nil, List.append_nil])
    rwa [List.flatten_nil, List.append_nil] at hall
  | cons f files ih =>
    obtain ⟨hfirst, hrest⟩ := List.forall_mem_cons.1 hread
    rw [List.map_cons]
    rcases kind.readEach_cons hdistinct hfirst (files.map fun f => path.below f.1) with
      ⟨more, hfile, hnew, hrun⟩ | ⟨e, hfails, hrun⟩
    · obtain ⟨result, hends, hrun'⟩ := ih hnew hrest
      exact ⟨result, .cons kind hfile hends, hrun.trans hrun'⟩
    · have hnil : found ++ ([] : List (List α)).flatten = found := List.append_nil found
      rw [← hnil] at hdistinct hfails
      exact ⟨.error e, .first rfl .nil hdistinct hfails, hrun⟩

/-- From a directory in a tree, what is loaded is what the files below it with the extension hold,
in the order of their paths; and if some of them fail, the error of the first of these. -/
theorem load_of_opens {place : Place} (hproper : t.root.IsProper)
    (hopens : t.Opens path place) (hreadable : t.Readable path place) :
    ∃ files result, t.FilesBelow kind.reader.extension path place files ∧
      kind.Ends [] path files result ∧ (kind.reader.load access path).run t = (result, t) := by
  obtain ⟨files, hbelow, hfiles⟩ :=
    exists_filesOf kind.reader kind.extension_noPoint hproper hopens hreadable
  have hread : ∀ f ∈ files, t.read (path.below f.1) = contents (path.below f.1) f.2 := by
    rintro ⟨names, bytes⟩ hmem
    exact read_below hproper hopens ((hbelow.mem_iff names bytes).1 hmem).1
  have hempty : kind.Distinct [] := by
    cases kind with
    | steps => trivial
    | concepts => exact List.nodup_nil
    | hooks => trivial
  obtain ⟨result, hends, hrun⟩ := kind.exists_ends_readEach hempty hread
  refine ⟨files, result, hbelow, hends, ?_⟩
  rw [ScriptReader.load, run_bind_of hfiles]
  exact hrun

/-- A directory with links to itself, one of them from further below, and with three files of steps
that do not stand in the order of their paths. -/
def loopedDefs : FileNode := .directory
  [("notes.txt", .file "Step: none\nnoop: x".toUTF8),
    ("a.steps", .file "Step: third\nnoop: x".toUTF8),
    ("loop", .link "."),
    ("a-b", .directory [("c.steps", .file "Step: second\nnoop: x".toUTF8)]),
    ("a", .directory [("up", .link "/defs"), ("b.steps", .file "Step: first\nnoop: x".toUTF8)])]

def looped : FileTree where
  root := .directory [("defs", loopedDefs), ("kinds", .link "defs")]
  working := []
  tokens := 0

private theorem isProper_looped : looped.root.IsProper := by
  have hfile (text : String) : (FileNode.file text.toUTF8).IsProper :=
    (FileNode.isBare_file text.toUTF8).isProper
  have hlink (target : String) : (FileNode.link target).IsProper :=
    FileNode.IsBare.isProper fun _ => rfl
  have hfirst : (FileNode.directory [("up", .link "/defs"),
      ("b.steps", .file "Step: first\nnoop: x".toUTF8)]).IsProper := by
    refine FileNode.isProper_directory (by decide) ?_
    simp only [List.forall_mem_cons, hfile, hlink, List.not_mem_nil, false_implies, implies_true]
    decide
  have hsecond : (FileNode.directory
      [("c.steps", .file "Step: second\nnoop: x".toUTF8)]).IsProper := by
    refine FileNode.isProper_directory (by decide) ?_
    simp only [List.forall_mem_cons, hfile, List.not_mem_nil, false_implies, implies_true]
    decide
  have hdefs : loopedDefs.IsProper := by
    refine FileNode.isProper_directory (by decide) ?_
    simp only [List.forall_mem_cons, hfile, hlink, hfirst, hsecond, List.not_mem_nil,
      false_implies, implies_true]
    decide
  refine FileNode.isProper_directory (by decide) ?_
  simp only [List.forall_mem_cons, hlink, hdefs, List.not_mem_nil, false_implies, implies_true]
  decide

private theorem opens_looped : looped.Opens ⟨"kinds"⟩ ["defs"] := by
  have hnames : Path.names ⟨"kinds"⟩ = ["kinds"] := by decide
  have hpieces : piecesOf "defs" = ["defs"] := by decide
  have habsolute : (Path.mk "defs").isAbsolute = false := by decide
  have hlink : looped.scene.roam true [] ["kinds"] = .link [] "defs" [] := rfl
  have hdir : looped.scene.roam true [] ["defs"] = .ended (.standing ["defs"]) := rfl
  refine ⟨[], rfl, ?_⟩
  rw [hnames]
  refine .link hlink ?_
  rw [habsolute, hpieces]
  exact .here hdir rfl

theorem load_of_opens_looped :
    looped.root.IsProper ∧ looped.Opens ⟨"kinds"⟩ ["defs"] ∧
      looped.Readable ⟨"kinds"⟩ ["defs"] ∧
      ∃ files result, looped.FilesBelow "steps" ⟨"kinds"⟩ ["defs"] files ∧
        steps.Ends [] ⟨"kinds"⟩ files result ∧
        (ScriptReader.steps.load access ⟨"kinds"⟩).run looped = (result, looped) := by
  have hreadable : looped.Readable ⟨"kinds"⟩ ["defs"] := by
    refine (readable_iff isProper_looped.distinct rfl).2 ?_
    decide
  exact ⟨isProper_looped, opens_looped, hreadable,
    load_of_opens steps isProper_looped opens_looped hreadable⟩

end DefinitionKind
end StepScript
