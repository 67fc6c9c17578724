/-
Where settings come from.

`Config.Provides` says it without loading anything: before the command line is heard,
settings are what the settings file makes of the defaults, and the file is the one that is
named, or the one in the nearest directory on the way up that has one.  What the command
line gives then replaces directories and the namespace (`Config.Follows`).  Loading succeeds
exactly when there are such settings and they are valid, and gives these
(`load_eq_ok_iff`).
-/
import TemplateDirectives.Command.Run
import TemplateDirectives.Proofs.Files.Ancestors

namespace TemplateDirectives
namespace Config

/-! ## Valid settings -/

/-- Settings that a run can use. -/
structure IsValid (c : Config) : Prop where
  space_ne_nil : c.defaultSpace ≠ []
  space : ∀ ch ∈ c.defaultSpace, ch.isAlphanum = true ∨ ch = '_' ∨ ch = '\\'
  one_le : 1 ≤ c.maxDepth
  le_greatest : c.maxDepth ≤ 256
  pattern_ne_nil : c.pattern ≠ []
  pattern : ∃ p, Glob.Pattern.ofText c.pattern = .ok p

theorem isNamespaceChar_iff {ch : Char} :
    isNamespaceChar ch = true ↔ ch.isAlphanum = true ∨ ch = '_' ∨ ch = '\\' := by
  simp [isNamespaceChar, Directive.Name.isQualifierChar, Text.isWord, or_assoc]

theorem validate_eq_ok_iff {c : Config} : c.validate = .ok () ↔ c.IsValid := by
  rw [validate]
  constructor
  · intro h
    split at h
    next => cases h
    next hspace =>
      split at h
      next => cases h
      next hchars =>
        split at h
        next => cases h
        next hzero =>
          split at h
          next => cases h
          next hgreat =>
            split at h
            next => cases h
            next hpattern =>
              split at h
              next => cases h
              next p hp =>
                refine ⟨hspace, fun ch hch => isNamespaceChar_iff.mp ?_, by omega,
                  Nat.not_lt.mp hgreat, hpattern, p, hp⟩
                rw [Bool.not_eq_true', Bool.not_eq_false, List.all_eq_true] at hchars
                exact hchars ch hch
  · intro h
    have hchars : c.defaultSpace.all isNamespaceChar = true :=
      List.all_eq_true.mpr fun ch hch => isNamespaceChar_iff.mpr (h.space ch hch)
    have hzero : c.maxDepth ≠ 0 := Nat.one_le_iff_ne_zero.mp h.one_le
    have hgreat : ¬ greatestDepth < c.maxDepth := Nat.not_lt.mpr h.le_greatest
    obtain ⟨p, hp⟩ := h.pattern
    rw [if_neg h.space_ne_nil, if_neg (by simp [hchars]), if_neg hzero,
      if_neg hgreat, if_neg h.pattern_ne_nil, hp]

theorem validated_eq_ok_iff {c d : Config} : c.validated = .ok d ↔ c = d ∧ d.IsValid := by
  rw [validated]
  constructor
  · intro h
    split at h
    next hvalid =>
      cases h
      exact ⟨rfl, validate_eq_ok_iff.mp hvalid⟩
    next => cases h
  · rintro ⟨rfl, h⟩
    rw [validate_eq_ok_iff.mpr h]

/-- The directories of the defaults have no part in their validity. -/
theorem isValid_default (base : Text) : (default base).IsValid := by
  have hbase : (default base).validate = (default []).validate := rfl
  rw [← validate_eq_ok_iff, hbase]
  decide +kernel

/-! ## What a settings file provides -/

/-- A value that the file gives, its references replaced, or else a fallback. -/
def Expands (env : Environment) (written : Option Text) (fallback value : Text) : Prop :=
  match written with
  | none => value = fallback
  | some t => Expansion.expand env t = .ok value

/-- The settings that a file at `path` makes of what it says. -/
structure OfFile (env : Environment) (path : Text) (w : Written) (c : Config) : Prop where
  defaultSpace : Expands env w.defaultSpace "Directives".toList c.defaultSpace
  sourceDir : ∃ d, Expands env w.sourceDir "views".toList d ∧
    c.sourceDir = Path.join ((Path.parent? path).getD ['.']) d
  outputDir : ∃ d, Expands env w.outputDir "build/views".toList d ∧
    c.outputDir = Path.join ((Path.parent? path).getD ['.']) d
  maxDepth : c.maxDepth = w.maxDepth.getD 16
  pattern : c.pattern = w.pattern.getD "**/*.blade.php".toList
  path : c.path = some path

theorem exists_expandField_iff {env : Environment} {field : String} {written : Option Text}
    {fallback value : Text} :
    (∃ u, expandField env field written = .ok u ∧ u.getD fallback = value) ↔
      Expands env written fallback value := by
  cases written with
  | none =>
    constructor
    · rintro ⟨u, hu, rfl⟩
      cases hu
      rfl
    · rintro rfl
      exact ⟨none, rfl, rfl⟩
  | some t =>
    rw [Expands, expandField]
    cases Expansion.expand env t with
    | error name => simp
    | ok u => simp

theorem ofWritten_eq_ok_iff {env : Environment} {path : Text} {w : Written} {c : Config} :
    ofWritten env path w = .ok c ↔ OfFile env path w c ∧ c.IsValid := by
  have hfields : ofWritten env path w = .ok c ↔
      ∃ space, expandField env namespaceField w.defaultSpace = .ok space ∧
      ∃ source, expandField env sourceField w.sourceDir = .ok source ∧
      ∃ output, expandField env outputField w.outputDir = .ok output ∧
        validated {
          defaultSpace := space.getD Compiler.defaultSpace
          maxDepth := w.maxDepth.getD Compiler.defaultMaxDepth
          sourceDir := Path.join ((Path.parent? path).getD ['.']) (source.getD defaultSourceDir)
          outputDir := Path.join ((Path.parent? path).getD ['.']) (output.getD defaultOutputDir)
          pattern := w.pattern.getD defaultPattern
          path := some path } = .ok c := by
    rw [ofWritten]
    cases expandField env namespaceField w.defaultSpace with
    | error e => simp [bind, Except.bind]
    | ok space =>
      cases expandField env sourceField w.sourceDir with
      | error e => simp [bind, Except.bind]
      | ok source =>
        cases expandField env outputField w.outputDir with
        | error e => simp [bind, Except.bind]
        | ok output => simp [bind, Except.bind]
  rw [hfields]
  constructor
  · rintro ⟨space, hspace, source, hsource, output, houtput, hvalid⟩
    obtain ⟨rfl, hvalid⟩ := validated_eq_ok_iff.mp hvalid
    exact ⟨⟨exists_expandField_iff.mp ⟨space, hspace, rfl⟩,
      ⟨_, exists_expandField_iff.mp ⟨source, hsource, rfl⟩, rfl⟩,
      ⟨_, exists_expandField_iff.mp ⟨output, houtput, rfl⟩, rfl⟩, rfl, rfl, rfl⟩, hvalid⟩
  · rintro ⟨h, hvalid⟩
    obtain ⟨space, hspace, hspaceValue⟩ := exists_expandField_iff.mpr h.defaultSpace
    obtain ⟨s, hs, hsource⟩ := h.sourceDir
    obtain ⟨source, hsourceField, rfl⟩ := exists_expandField_iff.mpr hs
    obtain ⟨o, ho, houtput⟩ := h.outputDir
    obtain ⟨output, houtputField, rfl⟩ := exists_expandField_iff.mpr ho
    refine ⟨space, hspace, source, hsourceField, output, houtputField, ?_⟩
    refine validated_eq_ok_iff.mpr ⟨?_, hvalid⟩
    obtain ⟨defaultSpace, maxDepth, sourceDir, outputDir, pattern, setPath⟩ := c
    rw [mk.injEq]
    exact ⟨hspaceValue, h.maxDepth.symm, hsource.symm, houtput.symm, h.pattern.symm, h.path.symm⟩

theorem ofFile_eq_ok_iff {s : Surroundings} {path : Text} {c : Config} :
    ofFile s path = .ok c ↔ ∃ t w, s.read path = .ok t ∧ Written.ofText? t = some w ∧
      OfFile s.environment path w c ∧ c.IsValid := by
  rw [ofFile]
  cases s.read path with
  | error e => simp
  | ok t =>
    cases hw : Written.ofText? t with
    | none => simp [hw]
    | some w => simp [hw, ofWritten_eq_ok_iff]

/-! ## Which file it is -/

/-- A directory with a settings file in it. -/
def HasSettings (t : FileTree) (l : Location) : Prop :=
  ∃ c, t.node? (l ++ ["rb.toml".toList]) = some (.file c)

/-- The path of the settings file of a directory. -/
def settingsPath (l : Location) : Text := Path.join (Path.ofLocation l) "rb.toml".toList

theorem isNearest_settings_iff {s : Surroundings} (valid : ∀ name ∈ s.here, IsEntryName name)
    {l : Location} :
    IsNearest (fun l => s.tree.isFile s.here (settingsPath l) = true) s.here l ↔
      IsNearest (HasSettings s.tree) s.here l := by
  refine isNearest_congr fun m hm => FileTree.isFile_join_ofLocation ?_ s.here (by decide)
  exact fun name hname => valid name (hm.subset hname)

theorem discover?_eq_some_iff {s : Surroundings} (valid : ∀ name ∈ s.here, IsEntryName name)
    {p : Text} :
    discover? s = some p ↔ ∃ l, IsNearest (HasSettings s.tree) s.here l ∧ p = settingsPath l := by
  have hfind : discover? s = ((Path.ancestors (Path.ofLocation s.here)).find? fun directory =>
      s.tree.isFile s.here (Path.join directory fileName)).map (Path.join · fileName) := by
    rw [discover?, List.find?_map]
    rfl
  rw [hfind, Option.map_eq_some_iff]
  constructor
  · rintro ⟨directory, h, rfl⟩
    obtain ⟨l, hl, rfl⟩ := (Path.find?_ancestors valid _ _).mp h
    exact ⟨l, (isNearest_settings_iff valid).mp hl, rfl⟩
  · rintro ⟨l, hl, rfl⟩
    refine ⟨Path.ofLocation l, (Path.find?_ancestors valid _ _).mpr ?_, rfl⟩
    exact ⟨l, (isNearest_settings_iff valid).mpr hl, rfl⟩

theorem discover?_eq_none_iff {s : Surroundings} (valid : ∀ name ∈ s.here, IsEntryName name) :
    discover? s = none ↔ ∀ l, l <+: s.here → ¬ HasSettings s.tree l := by
  constructor
  · intro h l hl hsettings
    obtain ⟨m, hm⟩ := exists_isNearest ⟨l, hl, hsettings⟩
    have hsome := (discover?_eq_some_iff valid).mpr ⟨m, hm, rfl⟩
    rw [h] at hsome
    cases hsome
  · intro h
    cases hp : discover? s with
    | none => rfl
    | some p =>
      obtain ⟨l, hl, -⟩ := (discover?_eq_some_iff valid).mp hp
      exact absurd hl.holds (h l hl.above)

/-! ## Before the command line -/

/-- The settings before the command line is heard. -/
inductive Provides (s : Surroundings) : Option Text → Config → Prop
  /-- Those of a file that is named. -/
  | file {p t : Text} {w : Written} {c : Config} (read : s.read p = .ok t)
      (written : Written.ofText? t = some w) (ofFile : OfFile s.environment p w c)
      (valid : c.IsValid) : Provides s (some p) c
  /-- Without a name, those of the file in the nearest directory that has one. -/
  | nearest {l : Location} {c : Config} (nearest : IsNearest (HasSettings s.tree) s.here l)
      (provides : Provides s (some (settingsPath l)) c) : Provides s none c
  /-- Without any file, the defaults. -/
  | defaults (missing : ∀ l, l <+: s.here → ¬ HasSettings s.tree l) :
      Provides s none (default (Path.ofLocation s.here))

theorem Provides.isValid {s : Surroundings} {path : Option Text} {c : Config}
    (h : Provides s path c) : c.IsValid := by
  induction h with
  | file _ _ _ valid => exact valid
  | nearest _ _ ih => exact ih
  | defaults _ => exact isValid_default _

section

variable {s : Surroundings}

theorem loadFile_some_iff {p : Text} {c : Config} :
    loadFile s (some p) = .ok c ↔ Provides s (some p) c := by
  have hfile : loadFile s (some p) = .ok c ↔ ofFile s p = .ok c := by
    simp only [loadFile]
    split
    next => rfl
    next hmissing =>
      constructor
      · intro h
        cases h
      · intro h
        obtain ⟨t, -, hread, -⟩ := ofFile_eq_ok_iff.mp h
        have hstatus := FileTree.read_eq_ok.mp hread
        rw [FileTree.pathExists, hstatus] at hmissing
        exact absurd rfl hmissing
  rw [hfile, ofFile_eq_ok_iff]
  constructor
  · rintro ⟨t, w, hread, hwritten, hfile, hvalid⟩
    exact .file hread hwritten hfile hvalid
  · rintro (⟨hread, hwritten, hfile, hvalid⟩)
    exact ⟨_, _, hread, hwritten, hfile, hvalid⟩

/-- A settings file that is found is loaded as if it were named. -/
theorem loadFile_of_isNearest (valid : ∀ name ∈ s.here, IsEntryName name) {l : Location}
    (h : IsNearest (HasSettings s.tree) s.here l) :
    loadFile s none = loadFile s (some (settingsPath l)) := by
  have hfile := ((isNearest_settings_iff valid).mpr h).holds
  have hexists : s.tree.pathExists s.here (settingsPath l) = true := by
    rw [FileTree.isFile] at hfile
    split at hfile
    next hstatus => rw [FileTree.pathExists, hstatus]
    next => cases hfile
  simp only [loadFile, (discover?_eq_some_iff valid).mpr ⟨l, h, rfl⟩, hexists, if_true]

theorem loadFile_eq_ok_iff (valid : ∀ name ∈ s.here, IsEntryName name) {path : Option Text}
    {c : Config} : loadFile s path = .ok c ↔ Provides s path c := by
  cases path with
  | some p => exact loadFile_some_iff
  | none =>
    constructor
    · intro h
      cases hp : discover? s with
      | some p =>
        obtain ⟨l, hl, rfl⟩ := (discover?_eq_some_iff valid).mp hp
        rw [loadFile_of_isNearest valid hl] at h
        exact .nearest hl (loadFile_some_iff.mp h)
      | none =>
        have hmissing := (discover?_eq_none_iff valid).mp hp
        simp only [loadFile, hp] at h
        rw [← Except.ok.inj h]
        exact .defaults hmissing
    · rintro (_ | ⟨hl, hprovides⟩ | hmissing)
      · rw [loadFile_of_isNearest valid hl]
        exact loadFile_some_iff.mpr hprovides
      · simp only [loadFile, (discover?_eq_none_iff valid).mpr hmissing]
        rfl

end

/-! ## The command line -/

/-- What the command line gives replaces directories and the namespace, and nothing else
changes. -/
structure Follows (base : Config) (o : Overrides) (c : Config) : Prop where
  sourceDir : c.sourceDir = o.sourceDir.getD base.sourceDir
  outputDir : c.outputDir = o.outputDir.getD base.outputDir
  defaultSpace : c.defaultSpace = o.defaultSpace.getD base.defaultSpace
  maxDepth : c.maxDepth = base.maxDepth
  pattern : c.pattern = base.pattern
  path : c.path = base.path

theorem override_eq_iff {base c : Config} {o : Overrides} :
    base.override o = c ↔ Follows base o c := by
  constructor
  · rintro rfl
    exact ⟨rfl, rfl, rfl, rfl, rfl, rfl⟩
  · intro h
    obtain ⟨defaultSpace, maxDepth, sourceDir, outputDir, pattern, path⟩ := c
    rw [override, mk.injEq]
    exact ⟨h.defaultSpace.symm, h.maxDepth.symm, h.sourceDir.symm, h.outputDir.symm,
      h.pattern.symm, h.path.symm⟩

section

variable {s : Surroundings} {path : Option Text} {overrides : Option Overrides}

theorem load_eq_ok_iff (valid : ∀ name ∈ s.here, IsEntryName name) {c : Config} :
    load s path overrides = .ok c ↔ ∃ base, Provides s path base ∧
      Follows base (overrides.getD Overrides.none) c ∧ c.IsValid := by
  have hload : load s path overrides = .ok c ↔ ∃ base, loadFile s path = .ok base ∧
      Follows base (overrides.getD Overrides.none) c ∧ c.IsValid := by
    rw [load]
    cases hfile : loadFile s path with
    | error e => simp
    | ok base =>
      have hbase := ((loadFile_eq_ok_iff valid).mp hfile).isValid
      simp only [Except.ok.injEq, exists_eq_left', ← override_eq_iff]
      cases overrides with
      | some o => simp [validated_eq_ok_iff]
      | none =>
        have hnone : base.override Overrides.none = base := rfl
        rw [Option.getD_none, hnone, Except.ok.injEq]
        exact ⟨fun h => ⟨h, h ▸ hbase⟩, fun h => h.1⟩
  simp only [hload, loadFile_eq_ok_iff valid]

theorem findTemplates_ne_pattern {c : Config} (h : c.IsValid) (e : Glob.PatternError) :
    Command.findTemplates s c ≠ .error (.pattern e) := by
  obtain ⟨p, hp⟩ := h.pattern
  rw [Command.findTemplates, hp]
  split <;> simp

/-- In every tree, environment and directory: loading gives the settings of the file that
is named, or of the nearest one, or the defaults, with what the command line replaces, and
succeeds exactly when these are valid.  A file that is found counts as if it were named. -/
theorem load_provides_valid (s : Surroundings) (path : Option Text)
    (overrides : Option Overrides) (placed : s.tree.node? s.here = some .directory) :
    (∀ c, load s path overrides = .ok c ↔ ∃ base, Provides s path base ∧
        Follows base (overrides.getD Overrides.none) c ∧ c.IsValid) ∧
      (∀ l, IsNearest (HasSettings s.tree) s.here l →
        load s none overrides = load s (some (settingsPath l)) overrides) ∧
      ∀ c, load s path overrides = .ok c →
        (∀ e, Command.findTemplates s c ≠ .error (.pattern e)) ∧
          ∀ others d, load s path others = .ok d →
            d.pattern = c.pattern ∧ d.maxDepth = c.maxDepth ∧ d.path = c.path := by
  have valid := FileTree.isEntryName_of_node? placed
  refine ⟨fun c => load_eq_ok_iff valid, ?_, ?_⟩
  · intro l hl
    rw [load, load, loadFile_of_isNearest valid hl]
  · intro c hc
    obtain ⟨base, hbase, hfollows, hvalid⟩ := (load_eq_ok_iff valid).mp hc
    refine ⟨findTemplates_ne_pattern hvalid, ?_⟩
    intro others d hd
    obtain ⟨base', hbase', hfollows', -⟩ := (load_eq_ok_iff valid).mp hd
    -- both runs start from the same settings
    obtain rfl : base' = base := by
      have h := (loadFile_eq_ok_iff valid).mpr hbase
      rw [(loadFile_eq_ok_iff valid).mpr hbase'] at h
      exact Except.ok.inj h
    rw [hfollows.pattern, hfollows.maxDepth, hfollows.path, hfollows'.pattern,
      hfollows'.maxDepth, hfollows'.path]
    exact ⟨rfl, rfl, rfl⟩

/-- A run in a directory below the one with the settings file. -/
def settledSite : Surroundings where
  environment name := if name = "APP".toList then some "App\\Html".toList else none
  here := ["site".toList, "views".toList]
  tree :=
    let settings := "[directives]\ndefault_namespace = '$\x7bAPP\x7d'\nmax_depth = 4\n" ++
      "[templates]\nsource_dir = 'pages'\noutput_dir = '$\x7bOUT:-out\x7d'\n"
    let files : List (String × Content) :=
      [("/site/rb.toml", .text settings.toList), ("/site/views/page.blade.php", .text [])]
    files.foldl (fun t f => (t.write [] f.1.toList f.2).1) FileTree.empty

def settledConfig : Config where
  defaultSpace := "App\\Html".toList
  maxDepth := 4
  sourceDir := ".".toList
  outputDir := "/site/out".toList
  pattern := "**/*.blade.php".toList
  path := some "/site/rb.toml".toList

theorem load_provides_settledSite :
    settledSite.tree.node? settledSite.here = some .directory ∧
      load settledSite none (some ⟨some ".".toList, none, none⟩) = .ok settledConfig ∧
      ∃ base, Provides settledSite none base ∧
        Follows base ⟨some ".".toList, none, none⟩ settledConfig ∧ settledConfig.IsValid := by
  have placed : settledSite.tree.node? settledSite.here = some .directory := by decide +kernel
  have hload : load settledSite none (some ⟨some ".".toList, none, none⟩) = .ok settledConfig := by
    decide +kernel
  obtain ⟨hiff, -, -⟩ := load_provides_valid settledSite none (some ⟨some ".".toList, none, none⟩)
    placed
  exact ⟨placed, hload, (hiff settledConfig).mp hload⟩

end

end Config
end TemplateDirectives
