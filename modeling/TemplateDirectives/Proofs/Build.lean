/-
What a build leaves.

A build compiles everything it finds before it writes anything.  So there are two
outcomes, and `AllOrNothing` says both from the files alone: when some file is no
template that compiles, the tree is as it was and every failure is reported, and
when all compile, the targets are written in path order, up to the first that
cannot be written.  In between stand the two lists that partition what is found
(`Config.failures`, `Config.outputs`) and the run of writes (`Fills`).
-/
import TemplateDirectives.Proofs.Files.Writing
import TemplateDirectives.Proofs.Templates

namespace TemplateDirectives

/-! ## The two lists -/

namespace Config

/-- The files that are found and do not compile, with the reasons. -/
def failures (c : Config) (found : List Source) : List (Source × TemplateError) :=
  found.filterMap fun f =>
    match c.compiler.translate f.content with
    | .ok _ => none
    | .error e => some (f, e)

/-- The files that are found and compile, with what they compile to. -/
def outputs (c : Config) (found : List Source) : List (Source × Text) :=
  found.filterMap fun f =>
    match c.compiler.translate f.content with
    | .ok text => some (f, text)
    | .error _ => none

section

variable {c : Config} {f : Source} {found : List Source}

theorem failures_cons_ok {text : Text} (h : c.compiler.translate f.content = .ok text) :
    c.failures (f :: found) = c.failures found := by
  rw [failures, List.filterMap_cons, h]
  rfl

theorem failures_cons_error {e : TemplateError} (h : c.compiler.translate f.content = .error e) :
    c.failures (f :: found) = (f, e) :: c.failures found := by
  rw [failures, List.filterMap_cons, h]
  rfl

theorem outputs_cons_ok {text : Text} (h : c.compiler.translate f.content = .ok text) :
    c.outputs (f :: found) = (f, text) :: c.outputs found := by
  rw [outputs, List.filterMap_cons, h]
  rfl

theorem outputs_cons_error {e : TemplateError} (h : c.compiler.translate f.content = .error e) :
    c.outputs (f :: found) = c.outputs found := by
  rw [outputs, List.filterMap_cons, h]
  rfl

/-- No file is lost, and none is in both lists. -/
theorem length_outputs_add_failures :
    (c.outputs found).length + (c.failures found).length = found.length := by
  induction found with
  | nil => rfl
  | cons f rest ih =>
    cases h : c.compiler.translate f.content with
    | ok text =>
      rw [outputs_cons_ok h, failures_cons_ok h, List.length_cons, List.length_cons, ← ih]
      omega
    | error e =>
      rw [outputs_cons_error h, failures_cons_error h, List.length_cons, List.length_cons, ← ih]
      omega

theorem translate_of_mem_outputs {w : Source × Text} (h : w ∈ c.outputs found) :
    c.compiler.translate w.1.content = .ok w.2 := by
  obtain ⟨f, -, hf⟩ := List.mem_filterMap.mp h
  cases htext : c.compiler.translate f.content with
  | ok text =>
    rw [htext] at hf
    rw [← Option.some.inj hf]
    exact htext
  | error e =>
    rw [htext] at hf
    cases hf

/-- Without a failure every file has an output, in the same order. -/
theorem map_outputs (h : c.failures found = []) :
    (c.outputs found).map Prod.fst = found := by
  induction found with
  | nil => rfl
  | cons f rest ih =>
    cases htext : c.compiler.translate f.content with
    | ok text =>
      rw [failures_cons_ok htext] at h
      rw [outputs_cons_ok htext, List.map_cons, ih h]
    | error e =>
      rw [failures_cons_error htext] at h
      cases h

end

end Config

/-! ## Compiling all -/

namespace Command

/-- The output of a file, as the commands pass it on. -/
def itemOf (c : Config) (w : Source × Text) : Template × Text :=
  (Template.below c.sourceDir w.1.names, w.2)

/-- A failure in the words of a warning: the file's path from the source directory, and
the reason. -/
def warningOf (w : Source × TemplateError) : String :=
  s!"{String.ofList (Path.ofParts w.1.names)}: {w.2.message}"

section

variable {s : Surroundings} {c : Config} {found : List Source}

theorem run_batch (h : ∀ f ∈ found,
      (Template.below c.sourceDir f.names).compile s c.compiler = c.compiler.translate f.content) :
    Batch.run s c.compiler (found.map fun f => Template.below c.sourceDir f.names) =
      ⟨(c.outputs found).map (itemOf c),
        (c.failures found).map fun w => (Template.below c.sourceDir w.1.names, w.2)⟩ := by
  induction found with
  | nil => rfl
  | cons f rest ih =>
    have hrest := ih fun g hg => h g (List.mem_cons_of_mem f hg)
    rw [List.map_cons, Batch.run, hrest, h f List.mem_cons_self]
    cases htext : c.compiler.translate f.content with
    | ok text =>
      rw [Config.outputs_cons_ok htext, Config.failures_cons_ok htext]
      rfl
    | error e =>
      rw [Config.outputs_cons_error htext, Config.failures_cons_error htext]
      rfl

/-- A command on templates goes on with all outputs, or reports all failures. -/
theorem withTemplates_eq (finds : c.Finds s found)
    (present : s.tree.isDirectory s.here c.sourceDir = true)
    (hfound : findTemplates s c = .ok (found.map fun f => Template.below c.sourceDir f.names))
    (opening : List String) (finish : List (Template × Text) → Outcome) :
    withTemplates s c opening finish =
      if c.failures found = [] then finish ((c.outputs found).map (itemOf c))
      else
        Outcome.failed s.tree (opening ++ (c.failures found).map warningOf)
          (.failedTemplates (c.failures found).length found.length) := by
  have hbatch := run_batch fun f hf => finds.compile_below present hf
  rw [withTemplates, hfound]
  simp only [hbatch, List.isEmpty_map, List.isEmpty_iff, List.length_map, List.map_map,
    Batch.size, Config.length_outputs_add_failures]
  rfl

end

/-! ## The run of writes -/

section

variable (s : Surroundings) (c : Config)

/-- Where a build puts what a file compiles to. -/
def targetOf (f : Source) : Text := Path.join c.outputDir (Path.ofParts f.names)

def locationOf (f : Source) : Location := FileTree.locate s.here (targetOf c f)

/-- Writing has come as far as `written`: these outputs stand at their targets, nothing
else has changed, and if something is left, writing the first of it has failed. -/
structure Fills (tree : FileTree) (written rest : List (Source × Text))
    (result : FileTree.Change) : Prop where
  status : ∀ w ∈ written, result.1.status s.here (targetOf c w.1) = .ok (.file (.text w.2))
  elsewhere : FileTree.Rewrites tree result.1 (written.map fun w => locationOf s c w.1)
  done : rest = [] → result.2 = .ok ()
  stopped : ∀ w more, rest = w :: more → ∃ held e,
    FileTree.Rewrites tree held (written.map fun w => locationOf s c w.1) ∧
      held.write s.here (targetOf c w.1) (.text w.2) = (result.1, .error e) ∧
      result.2 = .error e

variable {s c}

theorem writeAll_cons_error {tree tree' : FileTree} {w : Source × Text}
    {rest : List (Source × Text)} {e : FileError}
    (h : tree.write s.here (targetOf c w.1) (.text w.2) = (tree', .error e)) :
    writeAll s.here c.outputDir tree ((w :: rest).map (itemOf c)) = (tree', .error e) := by
  have hwrite : tree.write s.here (target c.outputDir (itemOf c w).1) (.text (itemOf c w).2) =
      (tree', .error e) := h
  rw [List.map_cons, writeAll, hwrite]

theorem writeAll_cons_ok {tree tree' : FileTree} {w : Source × Text}
    {rest : List (Source × Text)}
    (h : tree.write s.here (targetOf c w.1) (.text w.2) = (tree', .ok ())) :
    writeAll s.here c.outputDir tree ((w :: rest).map (itemOf c)) =
      writeAll s.here c.outputDir tree' (rest.map (itemOf c)) := by
  have hwrite : tree.write s.here (target c.outputDir (itemOf c w).1) (.text (itemOf c w).2) =
      (tree', .ok ()) := h
  rw [List.map_cons, writeAll, hwrite]

theorem exists_fills (outputs : List (Source × Text)) (tree : FileTree)
    (distinct : (outputs.map fun w => locationOf s c w.1).Nodup) :
    ∃ written rest, outputs = written ++ rest ∧ Fills s c tree written rest
      (writeAll s.here c.outputDir tree (outputs.map (itemOf c))) := by
  induction outputs generalizing tree with
  | nil => exact ⟨[], [], rfl, by simp, .refl tree _, fun _ => rfl, by simp⟩
  | cons w rest ih =>
    rw [List.map_cons, List.nodup_cons] at distinct
    rcases tree.write_cases s.here (targetOf c w.1) (.text w.2) with
      ⟨e, tree', hwrite, hkept⟩ | ⟨tree', hwrite, hwrote⟩
    · rw [writeAll_cons_error hwrite]
      refine ⟨[], w :: rest, rfl, by simp, hkept, by simp, ?_⟩
      intro w' more hw
      obtain ⟨rfl, rfl⟩ := List.cons.inj hw
      exact ⟨tree, e, .refl tree _, hwrite, rfl⟩
    · rw [writeAll_cons_ok hwrite]
      obtain ⟨written, left, hsplit, hfills⟩ := ih tree' distinct.2
      refine ⟨w :: written, left, by rw [hsplit, List.cons_append], ?_, ?_, hfills.done, ?_⟩
      · intro w' hw'
        rcases List.mem_cons.mp hw' with rfl | hw'
        · -- the later targets are others, so the first output still stands
          refine hfills.elsewhere.status ?_ hwrote.status
          intro hmem
          apply distinct.1
          rw [hsplit, List.map_append]
          exact List.mem_append_left _ hmem
        · exact hfills.status w' hw'
      · exact hwrote.rewrites.trans hfills.elsewhere
      · intro w' more hleft
        obtain ⟨held, e, hheld, herror, hresult⟩ := hfills.stopped w' more hleft
        exact ⟨held, e, hwrote.rewrites.trans hheld, herror, hresult⟩

end

/-! ## The whole build -/

section

variable (s : Surroundings) (c : Config)

/-- A build that has refused to write: the tree is as it was, and every failure is
reported with its own reason, in order. -/
structure Refused (found : List Source) (o : Outcome) : Prop where
  tree : o.tree = s.tree
  printed : o.printed = []
  lines : o.lines =
    [sourceLine c, outputLine c] ++ (c.failures found).map warningOf ++
      [s!"Error: {(c.failures found).length} of {found.length} templates failed to compile"]
  code : o.code = 1

/-- A build that has written the outputs of some files, and stopped before the others
because the first of these could not be written. -/
structure Filled (written rest : List Source) (o : Outcome) : Prop where
  printed : o.printed = []
  targets : ∀ f ∈ written, ∃ text, c.compiler.translate f.content = .ok text ∧
    o.tree.read s.here (targetOf c f) = .ok text
  elsewhere : FileTree.Rewrites s.tree o.tree (written.map (locationOf s c))
  done : rest = [] →
    o.lines = [sourceLine c, outputLine c,
      s!"Compiled {written.length} templates to {String.ofList c.outputDir}"] ∧ o.code = 0
  stopped : ∀ f more, rest = f :: more → ∃ text held e,
    c.compiler.translate f.content = .ok text ∧
      FileTree.Rewrites s.tree held (written.map (locationOf s c)) ∧
      held.write s.here (targetOf c f) (.text text) = (o.tree, .error e) ∧
      o.lines = [sourceLine c, outputLine c, s!"Error: {e.message}"] ∧ o.code = 1

/-- A build writes no target, or the outputs of all files it has found, as far as they
can be written.  The files are in path order, and no two of them share a target. -/
structure AllOrNothing (found : List Source) (o : Outcome) : Prop where
  finds : c.Finds s found
  distinct : (found.map (locationOf s c)).Nodup
  refused : c.failures found ≠ [] → Refused s c found o
  filled : c.failures found = [] →
    ∃ written rest, found = written ++ rest ∧ Filled s c written rest o

end

section

variable {s : Surroundings} {c : Config} {found : List Source}

theorem nodup_locations (finds : c.Finds s found)
    (present : s.tree.isDirectory s.here c.sourceDir = true) :
    (found.map (locationOf s c)).Nodup := by
  refine List.pairwise_map.mpr (finds.ordered.imp_of_mem ?_)
  -- both targets lie below the output directory, so equal ones have equal names
  intro f g hf hg hlt heq
  rw [locationOf, locationOf, targetOf, targetOf,
    FileTree.locate_join (finds.names_ne_nil present hf) (finds.isEntryName hf),
    FileTree.locate_join (finds.names_ne_nil present hg) (finds.isEntryName hg)] at heq
  rw [List.append_cancel_left heq] at hlt
  exact lt_irrefl _ hlt

theorem filled_of_fills {written rest outputs : List (Source × Text)}
    (houtputs : outputs = written ++ rest)
    (translated : ∀ w ∈ outputs, c.compiler.translate w.1.content = .ok w.2)
    (h : Fills s c s.tree written rest
      (writeAll s.here c.outputDir s.tree (outputs.map (itemOf c)))) :
    Filled s c (written.map Prod.fst) (rest.map Prod.fst)
      (writeOutputs s c [sourceLine c, outputLine c] (outputs.map (itemOf c))) := by
  rw [writeOutputs]
  generalize writeAll s.here c.outputDir s.tree (outputs.map (itemOf c)) = result at h ⊢
  obtain ⟨tree, r⟩ := result
  have hmap : written.map (fun w => locationOf s c w.1) =
      (written.map Prod.fst).map (locationOf s c) := by
    rw [List.map_map]
    rfl
  have htargets : ∀ f ∈ written.map Prod.fst, ∃ text, c.compiler.translate f.content = .ok text ∧
      tree.read s.here (targetOf c f) = .ok text := by
    intro f hf
    obtain ⟨w, hw, rfl⟩ := List.mem_map.mp hf
    exact ⟨w.2, translated w (houtputs ▸ List.mem_append_left rest hw),
      FileTree.read_eq_ok.mpr (h.status w hw)⟩
  cases r with
  | error e =>
    refine ⟨rfl, htargets, hmap ▸ h.elsewhere, ?_, ?_⟩
    · intro hrest
      have hdone := h.done (List.map_eq_nil_iff.mp hrest)
      cases hdone
    · intro f more hrest
      obtain ⟨w, left, rfl, rfl, rfl⟩ := List.map_eq_cons_iff.mp hrest
      obtain ⟨held, e', hheld, hwrite, he⟩ := h.stopped w left rfl
      cases he
      exact ⟨w.2, held, e, translated w (houtputs ▸ List.mem_append_right written
        List.mem_cons_self), hmap ▸ hheld, hwrite, rfl, rfl⟩
  | ok _ =>
    refine ⟨rfl, htargets, hmap ▸ h.elsewhere, ?_, ?_⟩
    · intro hrest
      rw [houtputs, List.map_eq_nil_iff.mp hrest, List.append_nil, List.length_map,
        List.length_map]
      exact ⟨rfl, rfl⟩
    · intro f more hrest
      obtain ⟨w, left, rfl, rfl, rfl⟩ := List.map_eq_cons_iff.mp hrest
      obtain ⟨held, e, -, -, he⟩ := h.stopped w left rfl
      cases he

/-- Whatever the tree, the settings and the surroundings, a build of a directory that is
there is all or nothing. -/
theorem run_build_allOrNothing (s : Surroundings) (stdin : Content)
    (config sourceDir outputDir defaultSpace : Option Text) (c : Config)
    (loaded : Config.load s config
      (some ⟨sourceDir, outputDir, givenSpace s defaultSpace⟩) = .ok c)
    (present : s.tree.isDirectory s.here c.sourceDir = true) :
    ∃ found, AllOrNothing s c found
      (run s stdin (.build config sourceDir outputDir defaultSpace)) := by
  obtain ⟨pattern, hpattern⟩ := Config.exists_pattern_of_load loaded
  obtain ⟨found, finds, hfound⟩ := Config.exists_finds hpattern present
  have distinct := nodup_locations finds present
  refine ⟨found, finds, distinct, ?_, ?_⟩
  · intro hfailures
    rw [run, runBuild, loaded]
    show Refused s c found (withTemplates s c _ _)
    rw [withTemplates_eq finds present hfound, if_neg hfailures]
    exact ⟨rfl, rfl, rfl, rfl⟩
  · intro hfailures
    have hsources := Config.map_outputs hfailures
    rw [← hsources, List.map_map] at distinct
    obtain ⟨written, rest, hsplit, hfills⟩ := exists_fills _ s.tree distinct
    refine ⟨written.map Prod.fst, rest.map Prod.fst, ?_, ?_⟩
    · rw [← List.map_append, ← hsplit, hsources]
    · rw [run, runBuild, loaded]
      show Filled s c _ _ (withTemplates s c _ _)
      rw [withTemplates_eq finds present hfound, if_pos hfailures]
      exact filled_of_fills hsplit (fun _ => Config.translate_of_mem_outputs) hfills

/-- A directory with a template that compiles, one that does not, and one that is no
text. -/
def mixedSite : Surroundings where
  environment _ := none
  here := ["site".toList]
  tree :=
    let files : List (String × Content) :=
      [("/site/views/page.blade.php", .text "@@flash".toList),
        ("/site/views/box/panel.blade.php", .text "@@panel:\nbody\n@endpanel".toList),
        ("/site/views/logo.blade.php", .binary)]
    files.foldl (fun t f => (t.write [] f.1.toList f.2).1) FileTree.empty

def mixedConfig : Config := Config.default mixedSite.herePath

/-- The templates of the directory, in path order. -/
def mixedSources : List Source :=
  [⟨["box".toList, "panel.blade.php".toList], .text "@@panel:\nbody\n@endpanel".toList⟩,
    ⟨["logo.blade.php".toList], .binary⟩,
    ⟨["page.blade.php".toList], .text "@@flash".toList⟩]

theorem finds_mixedSources : mixedConfig.Finds mixedSite mixedSources := by
  -- the tree lists them as they were written
  have hperm : List.Perm [["page.blade.php".toList], ["box".toList, "panel.blade.php".toList],
      ["logo.blade.php".toList]] (mixedSources.map Source.names) := by
    decide +kernel
  exact Config.finds_of_selected hperm (by decide +kernel) (by decide +kernel) (by decide +kernel)

theorem failures_mixedSources : mixedConfig.failures mixedSources =
    [(⟨["box".toList, "panel.blade.php".toList], .text "@@panel:\nbody\n@endpanel".toList⟩,
        .compile (.malformedEnd "panel".toList [] ⟨3, 1⟩)),
      (⟨["logo.blade.php".toList], .binary⟩, .file .notText)] := by
  decide +kernel

/-- Two of its three templates fail, so nothing is written and both are reported. -/
theorem run_build_mixedSite :
    Config.load mixedSite none (some ⟨none, none, givenSpace mixedSite none⟩) = .ok mixedConfig ∧
      mixedSite.tree.isDirectory mixedSite.here mixedConfig.sourceDir = true ∧
      AllOrNothing mixedSite mixedConfig mixedSources
        (run mixedSite (.text []) (.build none none none none)) ∧
      (run mixedSite (.text []) (.build none none none none)).tree = mixedSite.tree ∧
      (run mixedSite (.text []) (.build none none none none)).lines =
        ["Source: /site/views", "Output: /site/build/views",
          "box/panel.blade.php: Ill-formed close tag for macro @@panel() at line 3, column 1: " ++
            "expected @@endpanel",
          "logo.blade.php: stream did not contain valid UTF-8",
          "Error: 2 of 3 templates failed to compile"] ∧
      (run mixedSite (.text []) (.build none none none none)).code = 1 := by
  have loaded : Config.load mixedSite none (some ⟨none, none, givenSpace mixedSite none⟩) =
      .ok mixedConfig := by
    decide +kernel
  have present : mixedSite.tree.isDirectory mixedSite.here mixedConfig.sourceDir = true := by
    decide +kernel
  obtain ⟨found, h⟩ :=
    run_build_allOrNothing mixedSite (.text []) none none none none mixedConfig loaded present
  obtain rfl : found = mixedSources := h.finds.unique finds_mixedSources
  have hrefused := h.refused (by rw [failures_mixedSources]; exact List.cons_ne_nil _ _)
  refine ⟨loaded, present, h, hrefused.tree, ?_, hrefused.code⟩
  rw [hrefused.lines, failures_mixedSources]
  decide +kernel

end

end Command

end TemplateDirectives
