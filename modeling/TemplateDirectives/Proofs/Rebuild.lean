/-
Building twice.

A build that succeeds has left every output at its target (`Command.stands_of_writeAll`).
When no target is among the files that a build reads, the next build reads what the first
one has read: it loads the same settings, finds the same files with the same contents, and
so writes what stands there already.  Hence it changes nothing and says the same
(`Command.run_build_again`).
-/
import TemplateDirectives.Proofs.Build
import TemplateDirectives.Proofs.Files.Standing
import TemplateDirectives.Proofs.Settings

namespace TemplateDirectives

/-! ## What a build reads -/

namespace Config

section

variable {s : Surroundings} {t' : FileTree} {targets : List Location} {c : Config}
  (rewrites : FileTree.Rewrites s.tree t' targets)
include rewrites

/-- Settings do not change when their file does not. -/
theorem load_of_rewrites {path : Text} {overrides : Option Overrides}
    (elsewhere : FileTree.locate s.here path ∉ targets)
    (h : load s (some path) overrides = .ok c) :
    load { s with tree := t' } (some path) overrides = .ok c := by
  rw [load] at h ⊢
  cases hbase : loadFile s (some path) with
  | error e =>
    rw [hbase] at h
    cases h
  | ok base =>
    have hagain : loadFile { s with tree := t' } (some path) = .ok base := by
      obtain ⟨hread, hwritten, hfile, hvalid⟩ := loadFile_some_iff.mp hbase
      refine loadFile_some_iff.mpr (.file ?_ hwritten hfile hvalid)
      exact FileTree.read_eq_ok.mpr (rewrites.status elsewhere (FileTree.read_eq_ok.mp hread))
    rw [hagain]
    rwa [hbase] at h

namespace Finds

variable {found : List Source}

/-- A search finds the same files when no file has changed below the source directory. -/
theorem of_rewrites (finds : c.Finds s found)
    (present : s.tree.isDirectory s.here c.sourceDir = true)
    (elsewhere : ∀ ns, ns ≠ [] → FileTree.locate s.here c.sourceDir ++ ns ∉ targets) :
    c.Finds { s with tree := t' } found where
  mem_iff f := by
    rw [finds.mem_iff f]
    refine and_congr_left fun _ => ?_
    by_cases hnil : f.names = []
    · have hdir := (FileTree.walk_of_isDirectory present).2
      show _ ↔ t'.node? _ = _
      rw [hnil, List.append_nil, hdir, rewrites.directories _ hdir]
    · exact (rewrites.files _ (elsewhere _ hnil) f.content).symm
  ordered := finds.ordered

end Finds

end

/-- A search lists what there is to be found. -/
theorem Finds.findTemplates_eq {s : Surroundings} {c : Config} {found : List Source}
    {path : Option Text} {o : Overrides} (finds : c.Finds s found)
    (loaded : load s path (some o) = .ok c)
    (present : s.tree.isDirectory s.here c.sourceDir = true) :
    Command.findTemplates s c = .ok (found.map fun f => Template.below c.sourceDir f.names) := by
  obtain ⟨pattern, hpattern⟩ := exists_pattern_of_load loaded
  obtain ⟨found', finds', hfound⟩ := exists_finds hpattern present
  rw [hfound, finds.unique finds']

end Config

namespace Command

/-! ## Outputs that stand at their targets -/

section

variable {s : Surroundings} {c : Config} {outputs : List (Source × Text)} {tree tree' : FileTree}

/-- After all has been written, every output stands at its target, and no other file has
changed. -/
theorem stands_of_writeAll (distinct : (outputs.map fun w => locationOf s c w.1).Nodup)
    (h : writeAll s.here c.outputDir tree (outputs.map (itemOf c)) = (tree', .ok ())) :
    FileTree.Rewrites tree tree' (outputs.map fun w => locationOf s c w.1) ∧
      ∀ w ∈ outputs, tree'.Stands s.here (targetOf c w.1) (.text w.2) := by
  induction outputs generalizing tree with
  | nil =>
    cases h
    exact ⟨.refl _ _, by simp⟩
  | cons w rest ih =>
    rw [List.map_cons, List.nodup_cons] at distinct
    rcases tree.write_cases s.here (targetOf c w.1) (.text w.2) with
      ⟨e, held, hwrite, -⟩ | ⟨held, hwrite, hwrote⟩
    · rw [writeAll_cons_error hwrite] at h
      cases h
    · rw [writeAll_cons_ok hwrite] at h
      obtain ⟨hrewrites, hstands⟩ := ih distinct.2 h
      refine ⟨hwrote.rewrites.trans hrewrites, fun w' hw' => ?_⟩
      rcases List.mem_cons.mp hw' with rfl | hw'
      · -- the later targets are others
        exact (FileTree.Stands.of_write hwrite).of_rewrites hrewrites distinct.1
      · exact hstands w' hw'

theorem writeAll_of_stands
    (h : ∀ w ∈ outputs, tree.Stands s.here (targetOf c w.1) (.text w.2)) :
    writeAll s.here c.outputDir tree (outputs.map (itemOf c)) = (tree, .ok ()) := by
  induction outputs with
  | nil => rfl
  | cons w rest ih =>
    rw [writeAll_cons_ok (h w List.mem_cons_self).write_eq]
    exact ih fun w' hw' => h w' (List.mem_cons_of_mem w hw')

end

/-! ## Builds that succeed -/

/-- A build that goes through: all that it finds compiles and can be written. -/
structure Builds (s : Surroundings) (c : Config) (found : List Source) (tree' : FileTree) :
    Prop where
  present : s.tree.isDirectory s.here c.sourceDir = true
  finds : c.Finds s found
  compiled : c.failures found = []
  written : writeAll s.here c.outputDir s.tree ((c.outputs found).map (itemOf c)) =
    (tree', .ok ())

section

variable {s : Surroundings} {stdin : Content}
  {config sourceDir outputDir defaultSpace : Option Text} {c : Config} {found : List Source}
  {tree' : FileTree}

theorem Builds.run_eq (h : Builds s c found tree')
    (loaded : Config.load s config
      (some ⟨sourceDir, outputDir, givenSpace s defaultSpace⟩) = .ok c) :
    run s stdin (.build config sourceDir outputDir defaultSpace) =
      ⟨tree', [], [sourceLine c, outputLine c,
        s!"Compiled {found.length} templates to {String.ofList c.outputDir}"], none⟩ := by
  have hfound := h.finds.findTemplates_eq loaded h.present
  have hlength : ((c.outputs found).map (itemOf c)).length = found.length := by
    rw [List.length_map, ← List.length_map Prod.fst, Config.map_outputs h.compiled]
  rw [run, runBuild, loaded]
  show withTemplates s c _ _ = _
  rw [withTemplates_eq h.finds h.present hfound, if_pos h.compiled, writeOutputs, h.written]
  simp only [hlength]
  rfl

theorem exists_builds
    (h : (run s stdin (.build config sourceDir outputDir defaultSpace)).code = 0) :
    ∃ c found tree', Config.load s config
        (some ⟨sourceDir, outputDir, givenSpace s defaultSpace⟩) = .ok c ∧
      Builds s c found tree' := by
  rw [run, runBuild] at h
  split at h
  next => cases h
  next c loaded =>
    cases hfound : findTemplates s c with
    | error e =>
      simp only [withTemplates, hfound] at h
      cases h
    | ok templates =>
      obtain ⟨present, found, finds, rfl⟩ := Config.exists_finds_of_found hfound
      simp only [withTemplates_eq finds present hfound] at h
      split at h
      next compiled =>
        rw [writeOutputs] at h
        split at h
        next => cases h
        next tree' written => exact ⟨c, found, tree', loaded, present, finds, compiled, written⟩
      next => cases h

/-! ## Outputs apart from what is read -/

theorem Builds.stands (h : Builds s c found tree') :
    FileTree.Rewrites s.tree tree' (found.map (locationOf s c)) ∧
      ∀ w ∈ c.outputs found, tree'.Stands s.here (targetOf c w.1) (.text w.2) := by
  have hmap : (c.outputs found).map (fun w => locationOf s c w.1) =
      found.map (locationOf s c) := by
    conv_rhs => rw [← Config.map_outputs h.compiled, List.map_map]
    rfl
  have hstands := stands_of_writeAll (hmap ▸ nodup_locations h.finds h.present) h.written
  rwa [hmap] at hstands

end

/-- No target is a file that a build reads: none is inside the source directory, and none is
the settings file.  Directories are compared by where they are. -/
structure Apart (s : Surroundings) (path : Text) (c : Config) (templates : List Template) :
    Prop where
  source : ∀ t ∈ templates, ∀ ns, ns ≠ [] →
    FileTree.locate s.here (target c.outputDir t) ≠ FileTree.locate s.here c.sourceDir ++ ns
  settings : ∀ t ∈ templates,
    FileTree.locate s.here (target c.outputDir t) ≠ FileTree.locate s.here path

section

variable {s : Surroundings} {path : Text} {c : Config} {found : List Source} {tree' : FileTree}

theorem Apart.not_mem (h : Apart s path c (found.map fun f => Template.below c.sourceDir f.names)) :
    (∀ ns, ns ≠ [] → FileTree.locate s.here c.sourceDir ++ ns ∉ found.map (locationOf s c)) ∧
      FileTree.locate s.here path ∉ found.map (locationOf s c) := by
  constructor
  · intro ns hns hmem
    obtain ⟨f, hf, heq⟩ := List.mem_map.mp hmem
    exact h.source _ (List.mem_map_of_mem hf) ns hns heq
  · intro hmem
    obtain ⟨f, hf, heq⟩ := List.mem_map.mp hmem
    exact h.settings _ (List.mem_map_of_mem hf) heq

/-- In the tree that a build has left, a build goes through and leaves this tree. -/
theorem Builds.again (h : Builds s c found tree')
    (elsewhere : ∀ ns, ns ≠ [] →
      FileTree.locate s.here c.sourceDir ++ ns ∉ found.map (locationOf s c)) :
    Builds { s with tree := tree' } c found tree' := by
  obtain ⟨rewrites, stands⟩ := h.stands
  exact ⟨rewrites.isDirectory h.present, h.finds.of_rewrites rewrites h.present elsewhere,
    h.compiled, writeAll_of_stands stands⟩

end

/-- When a build with a settings file succeeds, and nothing that it writes is read by a build,
then another one with the same arguments comes out the same: it succeeds with the same
messages, and the tree is the one that the first has left. -/
theorem run_build_again (s : Surroundings) (stdin : Content) (path : Text)
    (sourceDir outputDir defaultSpace : Option Text)
    (apart : ∀ c templates,
      Config.load s (some path) (some ⟨sourceDir, outputDir, givenSpace s defaultSpace⟩) = .ok c →
      findTemplates s c = .ok templates → Apart s path c templates)
    (succeeds : (run s stdin (.build (some path) sourceDir outputDir defaultSpace)).code = 0) :
    run { s with tree := (run s stdin (.build (some path) sourceDir outputDir defaultSpace)).tree }
        stdin (.build (some path) sourceDir outputDir defaultSpace) =
      run s stdin (.build (some path) sourceDir outputDir defaultSpace) := by
  obtain ⟨c, found, tree', loaded, builds⟩ := exists_builds succeeds
  have hfound := builds.finds.findTemplates_eq loaded builds.present
  obtain ⟨hsource, hsettings⟩ := (apart c _ loaded hfound).not_mem
  have loadedAgain := Config.load_of_rewrites builds.stands.1 hsettings loaded
  rw [builds.run_eq loaded]
  exact (builds.again hsource).run_eq loadedAgain

/-- A directory whose settings file keeps outputs apart from sources. -/
def tidySite : Surroundings where
  environment _ := none
  here := ["site".toList]
  tree :=
    let files : List (String × Content) :=
      [("/site/rb.toml", .text "[templates]\noutput_dir = 'out'\n".toList),
        ("/site/views/box/note.blade.php", .text "note".toList),
        ("/site/views/page.blade.php", .text "@@flash".toList)]
    files.foldl (fun t f => (t.write [] f.1.toList f.2).1) FileTree.empty

def tidyConfig : Config where
  defaultSpace := "Directives".toList
  maxDepth := 16
  sourceDir := "views".toList
  outputDir := "out".toList
  pattern := "**/*.blade.php".toList
  path := some "rb.toml".toList

def tidySources : List Source :=
  [⟨["box".toList, "note.blade.php".toList], .text "note".toList⟩,
    ⟨["page.blade.php".toList], .text "@@flash".toList⟩]

theorem load_tidySite :
    Config.load tidySite (some "rb.toml".toList)
      (some ⟨none, none, givenSpace tidySite none⟩) = .ok tidyConfig := by
  decide +kernel

theorem finds_tidySources : tidyConfig.Finds tidySite tidySources :=
  Config.finds_of_selected (.refl _) (by decide +kernel) (by decide +kernel) (by decide +kernel)

theorem builds_tidySite : ∃ tree', Builds tidySite tidyConfig tidySources tree' := by
  refine ⟨_, by decide +kernel, finds_tidySources, by decide +kernel, Prod.ext rfl ?_⟩
  decide +kernel

theorem apart_tidySite (c : Config) (templates : List Template)
    (loaded : Config.load tidySite (some "rb.toml".toList)
      (some ⟨none, none, givenSpace tidySite none⟩) = .ok c)
    (hfound : findTemplates tidySite c = .ok templates) :
    Apart tidySite "rb.toml".toList c templates := by
  rw [load_tidySite] at loaded
  cases loaded
  rw [finds_tidySources.findTemplates_eq load_tidySite (by decide +kernel)] at hfound
  cases hfound
  have hapart : ∀ t ∈ tidySources.map fun f => Template.below tidyConfig.sourceDir f.names,
      ¬ FileTree.locate tidySite.here tidyConfig.sourceDir <+:
          FileTree.locate tidySite.here (target tidyConfig.outputDir t) ∧
        FileTree.locate tidySite.here (target tidyConfig.outputDir t) ≠
          FileTree.locate tidySite.here "rb.toml".toList := by
    decide +kernel
  exact ⟨fun t ht ns _ heq => (hapart t ht).1 (heq ▸ List.prefix_append _ ns),
    fun t ht => (hapart t ht).2⟩

theorem run_build_again_tidySite :
    (run tidySite (.text []) (.build (some "rb.toml".toList) none none none)).code = 0 ∧
      run { tidySite with
          tree := (run tidySite (.text []) (.build (some "rb.toml".toList) none none none)).tree }
        (.text []) (.build (some "rb.toml".toList) none none none) =
      run tidySite (.text []) (.build (some "rb.toml".toList) none none none) := by
  have succeeds : (run tidySite (.text [])
      (.build (some "rb.toml".toList) none none none)).code = 0 := by
    obtain ⟨tree', builds⟩ := builds_tidySite
    rw [builds.run_eq load_tidySite]
    rfl
  exact ⟨succeeds, run_build_again tidySite (.text []) "rb.toml".toList none none none
    apart_tidySite succeeds⟩

end Command
end TemplateDirectives
