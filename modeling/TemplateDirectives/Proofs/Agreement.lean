/-
What a check and single runs have to do with a build.

The three commands read the same settings, whatever directories two of them are given
(`Config.load_directories`), and they compile with the same compiler.  So a check comes to
the same verdict on the templates as a build, in the same words (`Foretells`), and a template
that is compiled alone becomes what the build makes of it, or fails as it fails there
(`CompilesAlone`).  A run that compiles one template to a file can also fail where a build
does not, when this file cannot be written.
-/
import TemplateDirectives.Proofs.Rebuild

namespace TemplateDirectives

/-- Directories have no part in whether settings load, and nothing else depends on them. -/
theorem Config.load_directories (s : Surroundings)
    (path sourceDir outputDir defaultSpace : Option Text) :
    load s path (some ⟨sourceDir, outputDir, defaultSpace⟩) =
      (load s path (some ⟨none, none, defaultSpace⟩)).map fun c =>
        c.override ⟨sourceDir, outputDir, none⟩ := by
  rw [load, load]
  cases loadFile s path with
  | error e => rfl
  | ok c =>
    have hvalidate : (c.override ⟨sourceDir, outputDir, defaultSpace⟩).validate =
        (c.override ⟨none, none, defaultSpace⟩).validate := rfl
    simp only [validated, hvalidate]
    cases (c.override ⟨none, none, defaultSpace⟩).validate with
    | error fault => rfl
    | ok _ => rfl

section

variable {s : Surroundings} {path sourceDir outputDir defaultSpace : Option Text}

theorem Config.load_eq_error_iff {e : ConfigError} :
    load s path (some ⟨sourceDir, outputDir, defaultSpace⟩) = .error e ↔
      load s path (some ⟨none, none, defaultSpace⟩) = .error e := by
  rw [load_directories]
  cases load s path (some ⟨none, none, defaultSpace⟩) <;> simp [Except.map]

theorem Config.exists_load_of_load {c : Config}
    (h : load s path (some ⟨sourceDir, outputDir, defaultSpace⟩) = .ok c) :
    ∃ b, load s path (some ⟨none, none, defaultSpace⟩) = .ok b ∧
      c = b.override ⟨sourceDir, outputDir, none⟩ := by
  rw [load_directories] at h
  cases hb : load s path (some ⟨none, none, defaultSpace⟩) with
  | error e =>
    rw [hb] at h
    cases h
  | ok b =>
    rw [hb] at h
    exact ⟨b, rfl, (Except.ok.inj h).symm⟩

end

/-! ## The batch of a build -/

namespace Batch

variable {s : Surroundings} {c : Compiler} {templates : List Template} {t : Template}

/-- A batch has a place for every template, by what becomes of it. -/
theorem run_eq : run s c templates =
    ⟨templates.filterMap fun t =>
        match t.compile s c with
        | .ok text => some (t, text)
        | .error _ => none,
      templates.filterMap fun t =>
        match t.compile s c with
        | .ok _ => none
        | .error e => some (t, e)⟩ := by
  induction templates with
  | nil => rfl
  | cons t rest ih =>
    rw [run, ih, List.filterMap_cons, List.filterMap_cons]
    cases t.compile s c <;> rfl

theorem mem_compiled {text : Text} :
    (t, text) ∈ (run s c templates).compiled ↔ t ∈ templates ∧ t.compile s c = .ok text := by
  simp only [run_eq, List.mem_filterMap]
  constructor
  · rintro ⟨u, hu, h⟩
    split at h
    next text' htext =>
      cases h
      exact ⟨hu, htext⟩
    next => cases h
  · rintro ⟨ht, htext⟩
    exact ⟨t, ht, by rw [htext]⟩

theorem mem_failures {e : TemplateError} :
    (t, e) ∈ (run s c templates).failures ↔ t ∈ templates ∧ t.compile s c = .error e := by
  simp only [run_eq, List.mem_filterMap]
  constructor
  · rintro ⟨u, hu, h⟩
    split at h
    next => cases h
    next e' herror =>
      cases h
      exact ⟨hu, herror⟩
  · rintro ⟨ht, herror⟩
    exact ⟨t, ht, by rw [herror]⟩

end Batch

namespace Command

theorem withTemplates_of_found {s : Surroundings} {c : Config} {templates : List Template}
    (hfound : findTemplates s c = .ok templates) (opening : List String)
    (finish : List (Template × Text) → Outcome) :
    withTemplates s c opening finish =
      if (Batch.run s c.compiler templates).failures.isEmpty = true then
        finish (Batch.run s c.compiler templates).compiled
      else
        Outcome.failed s.tree
          (opening ++ (Batch.run s c.compiler templates).failures.map warning)
          (.failedTemplates (Batch.run s c.compiler templates).failures.length
            (Batch.run s c.compiler templates).size) := by
  rw [withTemplates, hfound]

section

variable {s : Surroundings} {config sourceDir outputDir defaultSpace : Option Text} {c : Config}
  (loaded : Config.load s config (some ⟨sourceDir, outputDir, givenSpace s defaultSpace⟩) = .ok c)
include loaded

theorem run_build_eq (stdin : Content) :
    run s stdin (.build config sourceDir outputDir defaultSpace) =
      withTemplates s c [sourceLine c, outputLine c]
        (writeOutputs s c [sourceLine c, outputLine c]) := by
  rw [run, runBuild, loaded]

/-- A check goes by the settings of a build, whatever output directory these have. -/
theorem run_check_eq (stdin : Content) :
    run s stdin (.check config sourceDir defaultSpace) =
      withTemplates s c [sourceLine c] fun compiled =>
        ⟨s.tree, [], [sourceLine c, s!"{compiled.length} templates OK"], none⟩ := by
  obtain ⟨b, hbase, rfl⟩ := Config.exists_load_of_load loaded
  rw [run, runCheck, Config.load_directories, hbase]
  rfl

/-- A run on one template goes by settings with the compiler of a build. -/
theorem exists_compiler_of_load :
    ∃ b, Config.load s config (some ⟨none, none, givenSpace s defaultSpace⟩) = .ok b ∧
      b.compiler = c.compiler := by
  obtain ⟨b, hbase, rfl⟩ := Config.exists_load_of_load loaded
  exact ⟨b, hbase, rfl⟩

end

/-! ## Checking -/

/-- What a check says and does, beside a build with the same settings that has compiled the
same templates. -/
structure Foretells (s : Surroundings) (c : Config) (batch : Batch) (check build : Outcome) :
    Prop where
  tree : check.tree = s.tree
  passes_iff : check.code = 0 ↔ ∀ failed total, build.failure ≠ some (.failedTemplates failed total)
  passes : check.code = 0 → batch.failures = [] ∧
    check.messages = [sourceLine c, s!"{batch.size} templates OK"] ∧
    (build.code = 0 → build.messages = [sourceLine c, outputLine c,
      s!"Compiled {batch.size} templates to {String.ofList c.outputDir}"])
  fails : check.code ≠ 0 →
    check.failure = some (.failedTemplates batch.failures.length batch.size) ∧
    check.messages = sourceLine c :: batch.failures.map warning ∧
    build.failure = check.failure ∧ build.tree = s.tree ∧
    build.messages = sourceLine c :: outputLine c :: batch.failures.map warning

theorem foretells {s : Surroundings} {c : Config} {templates : List Template}
    (hfound : findTemplates s c = .ok templates) :
    Foretells s c (Batch.run s c.compiler templates)
      (withTemplates s c [sourceLine c] fun compiled =>
        ⟨s.tree, [], [sourceLine c, s!"{compiled.length} templates OK"], none⟩)
      (withTemplates s c [sourceLine c, outputLine c]
        (writeOutputs s c [sourceLine c, outputLine c])) := by
  rw [withTemplates_of_found hfound, withTemplates_of_found hfound]
  generalize Batch.run s c.compiler templates = batch
  obtain ⟨compiled, failures⟩ := batch
  cases failures with
  | nil =>
    have hsize : (⟨compiled, []⟩ : Batch).size = compiled.length := rfl
    show Foretells s c ⟨compiled, []⟩ ⟨s.tree, [], [sourceLine c, _], none⟩
      (writeOutputs s c [sourceLine c, outputLine c] compiled)
    rw [writeOutputs]
    obtain ⟨tree, result⟩ := writeAll s.here c.outputDir s.tree compiled
    cases result with
    | ok _ =>
      refine ⟨rfl, ⟨fun _ _ _ h => ?_, fun _ => rfl⟩, fun _ => ?_, fun h => absurd rfl h⟩
      · cases h
      · rw [hsize]
        exact ⟨rfl, rfl, fun _ => rfl⟩
    | error e =>
      refine ⟨rfl, ⟨fun _ _ _ h => ?_, fun _ => rfl⟩, fun _ => ?_, fun h => absurd rfl h⟩
      · cases h
      · rw [hsize]
        refine ⟨rfl, rfl, fun h => ?_⟩
        cases h
  | cons failure rest =>
    refine ⟨rfl, ⟨fun h => ?_, fun h => absurd rfl (h _ _)⟩, fun h => ?_, fun _ => ?_⟩
    · cases h
    · cases h
    · exact ⟨rfl, rfl, rfl, rfl, rfl⟩

/-! ## Compiling one template -/

/-- What fails in a batch, as a run on this template alone reports it. -/
def failureOf (t : Template) : TemplateError → RunError
  | .file cause => .file cause
  | .compile cause => .template t.path cause

/-- What runs that compile one template leave, to the standard output or to a file, beside a
build with the same settings that has found this template. -/
structure CompilesAlone (s : Surroundings) (c : Config) (batch : Batch) (build : Outcome)
    (t : Template) (compile : Option Text → Outcome) : Prop where
  passes_iff : (compile none).code = 0 ↔ t ∉ batch.failures.map Prod.fst
  failed : ∀ e, (t, e) ∈ batch.failures → ∀ output,
    compile output = Outcome.failed s.tree [] (failureOf t e)
  printed : ∀ text, (t, text) ∈ batch.compiled → compile none = ⟨s.tree, text, [], none⟩
  written : ∀ text, (t, text) ∈ batch.compiled → ∀ path,
    ((compile (some path)).code = 0 ∧ (compile (some path)).tree.read s.here path = .ok text ∧
        FileTree.Rewrites s.tree (compile (some path)).tree [FileTree.locate s.here path]) ∨
      ∃ e, (s.tree.write s.here path (.text text)).2 = .error e ∧
        (compile (some path)).failure = some (.file e) ∧
          FileTree.Rewrites s.tree (compile (some path)).tree []
  built : ∀ text, (t, text) ∈ batch.compiled → build.code = 0 →
    build.tree.read s.here (target c.outputDir t) = .ok text

section

variable {s : Surroundings} {c : Config} {templates : List Template} {t : Template}

/-- The path of a template that is found is not the one that means the standard input. -/
theorem path_ne_standardInput (hfound : findTemplates s c = .ok templates)
    (ht : t ∈ templates) : t.path ≠ standardInput := by
  obtain ⟨present, found, finds, rfl⟩ := Config.exists_finds_of_found hfound
  obtain ⟨f, hf, rfl⟩ := List.mem_map.mp ht
  have hsource : c.sourceDir ≠ [] := by
    intro hnil
    rw [hnil] at present
    cases present
  have hslash : '/' ∈ (Template.below c.sourceDir f.names).path :=
    Path.slash_mem_join (Path.isAbsolute_ofParts (finds.names_ne_nil present hf)
      (finds.isEntryName hf)) hsource
  intro hpath
  rw [hpath] at hslash
  revert hslash
  decide

/-- A run on a template alone compiles it as a batch does. -/
theorem runCompile_eq {b : Config} {config defaultSpace : Option Text}
    (loaded : Config.load s config (some ⟨none, none, givenSpace s defaultSpace⟩) = .ok b)
    (hpath : t.path ≠ standardInput) (stdin : Content) (output : Option Text) :
    runCompile s stdin t.path output config defaultSpace =
      match t.compile s b.compiler with
      | .error e => Outcome.failed s.tree [] (failureOf t e)
      | .ok text =>
        match output with
        | none => ⟨s.tree, text, [], none⟩
        | some path =>
          match s.tree.write s.here path (.text text) with
          | (tree, .ok ()) => ⟨tree, [], [], none⟩
          | (tree, .error e) => Outcome.failed tree [] (.file e) := by
  rw [runCompile, loaded]
  simp only [readInput, if_neg hpath, Template.compile]
  cases s.read t.path with
  | error e => rfl
  | ok source =>
    simp only
    cases b.compiler.compile source with
    | error e => rfl
    | ok text => rfl

/-- A run on a template alone has the outcome that a batch has for this template, up to
writing. -/
theorem compilesAlone {b : Config} {config defaultSpace : Option Text} {build : Outcome}
    (loaded : Config.load s config (some ⟨none, none, givenSpace s defaultSpace⟩) = .ok b)
    (hcompiler : b.compiler = c.compiler) (hfound : findTemplates s c = .ok templates)
    (ht : t ∈ templates) (stdin : Content)
    (built : ∀ text, (t, text) ∈ (Batch.run s c.compiler templates).compiled → build.code = 0 →
      build.tree.read s.here (target c.outputDir t) = .ok text) :
    CompilesAlone s c (Batch.run s c.compiler templates) build t
      (fun output => runCompile s stdin t.path output config defaultSpace) := by
  have hrun := runCompile_eq loaded (path_ne_standardInput hfound ht) stdin
  rw [hcompiler] at hrun
  constructor
  case passes_iff =>
    rw [hrun none]
    cases hcompile : t.compile s c.compiler with
    | error e =>
      have hmem : t ∈ (Batch.run s c.compiler templates).failures.map Prod.fst :=
        List.mem_map_of_mem (Batch.mem_failures.mpr ⟨ht, hcompile⟩)
      refine ⟨fun h => ?_, fun h => absurd hmem h⟩
      cases h
    | ok text =>
      refine ⟨fun _ hmem => ?_, fun _ => rfl⟩
      obtain ⟨⟨u, e⟩, hfailed, rfl⟩ := List.mem_map.mp hmem
      have herror := (Batch.mem_failures.mp hfailed).2
      rw [hcompile] at herror
      cases herror
  case failed =>
    intro e he output
    rw [hrun output, (Batch.mem_failures.mp he).2]
  case printed =>
    intro text htext
    rw [hrun none, (Batch.mem_compiled.mp htext).2]
  case written =>
    intro text htext path
    rw [hrun (some path), (Batch.mem_compiled.mp htext).2]
    simp only
    rcases s.tree.write_cases s.here path (.text text) with
      ⟨e, tree', hwrite, hkept⟩ | ⟨tree', hwrite, hwrote⟩
    · rw [hwrite]
      exact .inr ⟨e, rfl, rfl, hkept⟩
    · rw [hwrite]
      exact .inl ⟨rfl, FileTree.read_eq_ok.mpr hwrote.status, hwrote.rewrites⟩
  case built => exact built

/-- What a batch has compiled stands at its target after a build. -/
theorem read_of_mem_compiled {stdin : Content}
    {config sourceDir outputDir defaultSpace : Option Text}
    (loaded : Config.load s config
      (some ⟨sourceDir, outputDir, givenSpace s defaultSpace⟩) = .ok c)
    (hfound : findTemplates s c = .ok templates)
    (succeeds : (run s stdin (.build config sourceDir outputDir defaultSpace)).code = 0)
    {text : Text} (htext : (t, text) ∈ (Batch.run s c.compiler templates).compiled) :
    (run s stdin (.build config sourceDir outputDir defaultSpace)).tree.read s.here
      (target c.outputDir t) = .ok text := by
  obtain ⟨c', found, tree', loaded', builds⟩ := exists_builds succeeds
  obtain rfl : c' = c := Except.ok.inj (loaded'.symm.trans loaded)
  rw [builds.finds.findTemplates_eq loaded builds.present] at hfound
  cases hfound
  rw [run_batch fun f hf => builds.finds.compile_below builds.present hf] at htext
  obtain ⟨w, hw, hitem⟩ := List.mem_map.mp htext
  cases hitem
  rw [builds.run_eq loaded]
  exact FileTree.read_eq_ok.mpr (builds.stands.2 w hw).status

end

/-! ## The three commands -/

/-- With the same settings file and namespace, a check and a build of one source directory
stop for the same error, or both compile the same templates.  Then the check comes to the
verdict of the build, and each of these templates comes out of a run of its own as it comes
out of the build. -/
theorem run_check_compile_agree (s : Surroundings) (stdin : Content)
    (config sourceDir outputDir defaultSpace : Option Text) :
    let build := run s stdin (.build config sourceDir outputDir defaultSpace)
    let check := run s stdin (.check config sourceDir defaultSpace)
    let compile := fun input output => run s stdin (.compile input output config defaultSpace)
    let load := Config.load s config (some ⟨sourceDir, outputDir, givenSpace s defaultSpace⟩)
    (∀ e, load = .error e →
      build = Outcome.failed s.tree [] (.config e) ∧
        check = Outcome.failed s.tree [] (.config e) ∧
        ∀ input output, compile input output = Outcome.failed s.tree [] (.config e)) ∧
    ∀ c, load = .ok c →
      (∀ e, findTemplates s c = .error e →
        build = Outcome.failed s.tree [sourceLine c, outputLine c] e ∧
          check = Outcome.failed s.tree [sourceLine c] e) ∧
      ∀ templates, findTemplates s c = .ok templates →
        Foretells s c (Batch.run s c.compiler templates) check build ∧
          ∀ t ∈ templates, CompilesAlone s c (Batch.run s c.compiler templates) build t
            (compile t.path) := by
  intro build check compile load
  constructor
  · intro e (failed : Config.load s config
      (some ⟨sourceDir, outputDir, givenSpace s defaultSpace⟩) = .error e)
    have hbase := Config.load_eq_error_iff.mp failed
    refine ⟨?_, ?_, fun input output => ?_⟩
    · show runBuild s config sourceDir outputDir defaultSpace = _
      rw [runBuild, failed]
    · show runCheck s config sourceDir defaultSpace = _
      rw [runCheck, Config.load_eq_error_iff.mpr hbase]
    · show runCompile s stdin input output config defaultSpace = _
      rw [runCompile, hbase]
  · intro c loaded
    obtain ⟨b, hbase, hcompiler⟩ := exists_compiler_of_load loaded
    have hbuild : build = _ := run_build_eq loaded stdin
    have hcheck : check = _ := run_check_eq loaded stdin
    constructor
    · intro e missing
      simp only [withTemplates, missing] at hbuild hcheck
      exact ⟨hbuild, hcheck⟩
    · intro templates hfound
      constructor
      · rw [hcheck, hbuild]
        exact foretells hfound
      · intro t ht
        exact compilesAlone hbase hcompiler hfound ht stdin fun text htext succeeds =>
          read_of_mem_compiled loaded hfound succeeds htext

theorem run_check_compile_agree_tidySite :
    let build := run tidySite (.text []) (.build (some "rb.toml".toList) none none none)
    let check := run tidySite (.text []) (.check (some "rb.toml".toList) none none)
    let templates := tidySources.map fun f => Template.below tidyConfig.sourceDir f.names
    findTemplates tidySite tidyConfig = .ok templates ∧
      Foretells tidySite tidyConfig (Batch.run tidySite tidyConfig.compiler templates) check build ∧
      ∀ t ∈ templates, CompilesAlone tidySite tidyConfig
        (Batch.run tidySite tidyConfig.compiler templates) build t fun output =>
          run tidySite (.text []) (.compile t.path output (some "rb.toml".toList) none) := by
  have hfound := finds_tidySources.findTemplates_eq load_tidySite (by decide +kernel)
  obtain ⟨-, hagree⟩ := run_check_compile_agree tidySite (.text []) (some "rb.toml".toList) none
    none none
  exact ⟨hfound, (hagree tidyConfig load_tidySite).2 _ hfound⟩

/-- A template of a build that succeeds, and a run that compiles it to a directory, which
fails.  And settings that are missing, where a build reports no template and a check fails. -/
theorem run_compile_tidySite :
    (∃ templates t, findTemplates tidySite tidyConfig = .ok templates ∧ t ∈ templates ∧
        t ∉ (Batch.run tidySite tidyConfig.compiler templates).failures.map Prod.fst ∧
        (run tidySite (.text [])
          (.compile t.path (some "views".toList) (some "rb.toml".toList) none)).code = 1) ∧
      (∀ failed total, (run tidySite (.text [])
        (.build (some "none.toml".toList) none none none)).failure ≠
          some (.failedTemplates failed total)) ∧
      (run tidySite (.text []) (.check (some "none.toml".toList) none none)).code = 1 := by
  refine ⟨⟨_, Template.below "views".toList ["page.blade.php".toList],
    finds_tidySources.findTemplates_eq load_tidySite (by decide +kernel), by decide +kernel, ?_,
    by decide +kernel⟩, fun failed total => ?_, by decide +kernel⟩
  · decide +kernel
  · have hfailure : (run tidySite (.text [])
        (.build (some "none.toml".toList) none none none)).failure =
          some (.config (.notFound "none.toml".toList)) := by
      decide +kernel
    rw [hfailure]
    intro h
    cases h

end Command
end TemplateDirectives
