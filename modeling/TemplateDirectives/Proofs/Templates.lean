/-
What a search for templates finds.

`Config.Finds` says it without the search: the list has every file below the
source directory whose names from there are selected, with its content, and it
is ordered strictly by these names, so it has no file twice and no other list
will do.  `exists_finds` is the search itself, and `compile_below` says that each
template that is found is compiled from the content that stands at its place.
-/
import Mathlib.Data.Char
import Mathlib.Data.List.Lex
import Mathlib.Data.List.Nodup
import Mathlib.Data.List.Sort
import TemplateDirectives.Proofs.Files.Paths
import TemplateDirectives.Proofs.Settings

namespace TemplateDirectives

/-! ## The order of paths -/

theorem Text.precedes_iff {t u : Text} : t.precedes u = true ↔ t < u := by
  have hlt : (fun a b : Char => a.toNat.blt b.toNat) = fun a b => decide (a < b) := by
    funext a b
    rw [Bool.eq_iff_iff, Nat.blt_eq, decide_eq_true_iff]
    exact Iff.rfl
  rw [precedes, hlt, List.lex_eq_true_iff_lt]

theorem Template.namesLe_iff {a b : List Text} : namesLe a b = true ↔ a ≤ b := by
  have hlt : Text.precedes = fun t u => decide (t < u) := by
    funext t u
    rw [Bool.eq_iff_iff, Text.precedes_iff, decide_eq_true_iff]
  rw [namesLe, hlt, Bool.not_eq_true', ← Bool.not_eq_true, List.lex_eq_true_iff_lt, not_lt]

/-- Members that are in strict order can be listed in one way only. -/
theorem Template.eq_of_ordered {α : Type} (key : α → List Text) {xs ys : List α}
    (hxs : xs.Pairwise fun a b => key a < key b) (hys : ys.Pairwise fun a b => key a < key b)
    (hmem : ∀ a, a ∈ xs ↔ a ∈ ys) : xs = ys := by
  have hirrefl : Std.Irrefl fun a b : α => key a < key b := ⟨fun a => lt_irrefl (key a)⟩
  have hantisymm : Std.Antisymm fun a b : α => key a < key b :=
    ⟨fun a b hab hba => absurd hba (lt_asymm hab)⟩
  exact hxs.eq_of_mem_iff hys hmem

/-! ## The search -/

namespace Template

theorem pairwise_mergeSort {α : Type} (key : α → List Text) (xs : List α) :
    (xs.mergeSort fun x y => namesLe (key x) (key y)).Pairwise fun x y => key x ≤ key y := by
  have hsorted : (xs.mergeSort fun x y => namesLe (key x) (key y)).Pairwise
      fun x y => namesLe (key x) (key y) = true := by
    refine List.pairwise_mergeSort ?_ ?_ xs
    · intro x y z hxy hyz
      rw [namesLe_iff] at hxy hyz ⊢
      exact le_trans hxy hyz
    · intro x y
      rw [Bool.or_eq_true, namesLe_iff, namesLe_iff]
      exact le_total (key x) (key y)
  exact hsorted.imp namesLe_iff.mp

section

variable {tree : FileTree} {directory : Location} {pattern : Glob.Pattern} {ns : List Text}

theorem namesBelow?_eq_some {l : Location} :
    namesBelow? directory l = some ns ↔ l = directory ++ ns := by
  rw [namesBelow?]
  constructor
  · intro h
    split at h
    next hp =>
      rw [← Option.some.inj h]
      exact (List.prefix_iff_eq_append.mp (List.isPrefixOf_iff_prefix.mp hp)).symm
    next => cases h
  · rintro rfl
    rw [if_pos (List.isPrefixOf_iff_prefix.mpr (List.prefix_append directory ns)),
      List.drop_left]

theorem mem_namesIn : ns ∈ namesIn tree directory pattern ↔
    (∃ c, tree.node? (directory ++ ns) = some (.file c)) ∧ isSelected pattern ns = true := by
  rw [namesIn, List.mem_mergeSort, List.mem_filter, List.mem_filterMap]
  refine and_congr_left fun _ => ?_
  constructor
  · rintro ⟨⟨l, c⟩, hl, hns⟩
    rw [← namesBelow?_eq_some.mp hns]
    exact ⟨c, FileTree.mem_files.mp hl⟩
  · rintro ⟨c, hc⟩
    exact ⟨(directory ++ ns, c), FileTree.mem_files.mpr hc, namesBelow?_eq_some.mpr rfl⟩

theorem nodup_namesIn : (namesIn tree directory pattern).Nodup := by
  rw [namesIn, (List.mergeSort_perm _ _).nodup_iff]
  refine List.Nodup.filter _ ?_
  have hmap : tree.files.filterMap (fun f => namesBelow? directory f.1) =
      (tree.files.map Prod.fst).filterMap (namesBelow? directory) := by
    rw [List.filterMap_map]
    rfl
  rw [hmap]
  refine List.Nodup.filterMap ?_ tree.distinct_files
  intro l m ns hl hm
  rw [namesBelow?_eq_some.mp hl, namesBelow?_eq_some.mp hm]

theorem pairwise_namesIn (tree : FileTree) (directory : Location) (pattern : Glob.Pattern) :
    (namesIn tree directory pattern).Pairwise (· < ·) := by
  refine List.Pairwise.imp₂ ?_ (pairwise_mergeSort id _) nodup_namesIn
  intro a b hle hne
  exact lt_of_le_of_ne hle hne

end

end Template

/-! ## What a search finds -/

/-- A file below a source directory: the names that lead to it from there, and
its content. -/
@[ext]
structure Source where
  names : List Text
  content : Content
  deriving DecidableEq

namespace Config

/-- Whether these settings ask for a file at these names. -/
def Selects (c : Config) (ns : List Text) : Prop :=
  ∃ pattern, Glob.Pattern.ofText c.pattern = .ok pattern ∧ Template.isSelected pattern ns = true

/-- The list has all files that are asked for, and no other, in path order. -/
structure Finds (s : Surroundings) (c : Config) (found : List Source) : Prop where
  mem_iff : ∀ f, f ∈ found ↔
    s.tree.node? (FileTree.locate s.here c.sourceDir ++ f.names) = some (.file f.content) ∧
      c.Selects f.names
  ordered : found.Pairwise fun f g => f.names < g.names

end Config

/-! ## Compiling what is found -/

/-- What becomes of a template with this content. -/
def Compiler.translate (c : Compiler) : Content → Except TemplateError Text
  | .binary => .error (.file .notText)
  | .text source => (c.compile source).mapError .compile

section

variable {s : Surroundings} {directory : Location} {sourceDir : Text}

/-- A template that a search has found is compiled from the content that stands there. -/
theorem Template.compile_below (c : Compiler) {ns : List Text} {content : Content}
    (hns : ns ≠ [])
    (hsource : s.tree.walk (FileTree.origin s.here sourceDir) (FileTree.names sourceDir)
      = .ok directory)
    (h : s.tree.node? (directory ++ ns) = some (.file content)) :
    (below sourceDir ns).compile s c = c.translate content := by
  have hstatus := FileTree.status_join hns hsource h
  cases content with
  | binary =>
    have hread : s.read (below sourceDir ns).path = .error .notText := by
      rw [Surroundings.read, below, FileTree.read, hstatus]
    rw [compile, hread]
    rfl
  | text source =>
    have hread : s.read (below sourceDir ns).path = .ok source := FileTree.read_eq_ok.mpr hstatus
    simp only [compile, hread, Compiler.translate]
    cases c.compile source with
    | error e => rfl
    | ok text => rfl

end

/-! ## The search finds them -/

theorem Config.exists_pattern_of_load {s : Surroundings} {path : Option Text} {o : Overrides}
    {c : Config} (h : load s path (some o) = .ok c) :
    ∃ pattern, Glob.Pattern.ofText c.pattern = .ok pattern := by
  rw [load] at h
  split at h
  next => cases h
  next => exact (validated_eq_ok_iff.mp h).2.pattern

section

variable {s : Surroundings} {c : Config} {pattern : Glob.Pattern} {found : List Source}

theorem Command.findTemplates_eq (hpattern : Glob.Pattern.ofText c.pattern = .ok pattern)
    (present : s.tree.isDirectory s.here c.sourceDir = true) :
    findTemplates s c =
      .ok ((Template.namesIn s.tree (FileTree.locate s.here c.sourceDir) pattern).map
        (Template.below c.sourceDir)) := by
  rw [findTemplates, if_pos present, hpattern]
  show Except.ok (Template.discover s c.sourceDir pattern) = _
  rw [Template.discover, FileTree.directoryOf_eq_ok.mpr ⟨present, rfl⟩]

/-- The names that the search lists, with the content of their files. -/
theorem Config.finds_of_names (hpattern : Glob.Pattern.ofText c.pattern = .ok pattern)
    (hnames : found.map Source.names =
      Template.namesIn s.tree (FileTree.locate s.here c.sourceDir) pattern)
    (hfound : ∀ f ∈ found,
      s.tree.node? (FileTree.locate s.here c.sourceDir ++ f.names) = some (.file f.content)) :
    c.Finds s found where
  mem_iff f := by
    constructor
    · intro hf
      have hmem : f.names ∈ found.map Source.names := List.mem_map.mpr ⟨f, hf, rfl⟩
      rw [hnames] at hmem
      exact ⟨hfound f hf, pattern, hpattern, (Template.mem_namesIn.mp hmem).2⟩
    · rintro ⟨hnode, pattern', hpattern', hselected⟩
      obtain rfl : pattern = pattern' := Except.ok.inj (hpattern.symm.trans hpattern')
      have hmem := Template.mem_namesIn.mpr ⟨⟨f.content, hnode⟩, hselected⟩
      rw [← hnames] at hmem
      obtain ⟨g, hg, hgf⟩ := List.mem_map.mp hmem
      have hcontent := hfound g hg
      rw [hgf, hnode, Option.some_inj, Node.file.injEq] at hcontent
      rwa [← Source.ext hgf hcontent.symm]
  ordered := by
    have hordered := Template.pairwise_namesIn s.tree (FileTree.locate s.here c.sourceDir) pattern
    rw [← hnames] at hordered
    exact List.pairwise_map.mp hordered

/-- A list is found when it has the names that a walk through the tree selects, in path order,
with the contents of their files. -/
theorem Config.finds_of_selected {listed : List (List Text)}
    (hperm : listed.Perm (found.map Source.names))
    (hlisted : (Glob.Pattern.ofText c.pattern).map (fun pattern =>
      (s.tree.files.filterMap fun f => Template.namesBelow?
        (FileTree.locate s.here c.sourceDir) f.1).filter (Template.isSelected pattern)) = .ok listed)
    (hordered : (found.map Source.names).Pairwise fun a b => Template.namesLe a b = true)
    (hfound : ∀ f ∈ found,
      s.tree.node? (FileTree.locate s.here c.sourceDir ++ f.names) = some (.file f.content)) :
    c.Finds s found := by
  cases hpattern : Glob.Pattern.ofText c.pattern with
  | error e =>
    rw [hpattern] at hlisted
    cases hlisted
  | ok pattern =>
    rw [hpattern] at hlisted
    have hselected : (s.tree.files.filterMap fun f => Template.namesBelow?
        (FileTree.locate s.here c.sourceDir) f.1).filter (Template.isSelected pattern) = listed :=
      Except.ok.inj hlisted
    refine finds_of_names hpattern ?_ hfound
    rw [Template.namesIn, hselected]
    exact List.Perm.eq_of_pairwise' (hordered.imp Template.namesLe_iff.mp)
      (Template.pairwise_mergeSort id listed)
      (hperm.symm.trans (List.mergeSort_perm listed Template.namesLe).symm)

namespace Config.Finds

/-- What a search finds is one list. -/
theorem unique {found' : List Source} (h : c.Finds s found) (h' : c.Finds s found') :
    found = found' :=
  Template.eq_of_ordered Source.names h.ordered h'.ordered fun f => by
    rw [h.mem_iff, h'.mem_iff]

theorem names_ne_nil (h : c.Finds s found)
    (present : s.tree.isDirectory s.here c.sourceDir = true) {f : Source} (hf : f ∈ found) :
    f.names ≠ [] :=
  FileTree.ne_nil_of_file (FileTree.walk_of_isDirectory present).2 ((h.mem_iff f).mp hf).1

theorem isEntryName (h : c.Finds s found) {f : Source} (hf : f ∈ found) :
    ∀ name ∈ f.names, IsEntryName name :=
  FileTree.isEntryName_of_append ((h.mem_iff f).mp hf).1

theorem compile_below (h : c.Finds s found)
    (present : s.tree.isDirectory s.here c.sourceDir = true) {f : Source} (hf : f ∈ found) :
    (Template.below c.sourceDir f.names).compile s c.compiler =
      c.compiler.translate f.content :=
  Template.compile_below c.compiler (h.names_ne_nil present hf)
    (FileTree.walk_of_isDirectory present).1 ((h.mem_iff f).mp hf).1

end Config.Finds

end

/-- Names that lead to files can be given the contents of these. -/
theorem exists_contents {tree : FileTree} {directory : Location} (found : List (List Text))
    (h : ∀ ns ∈ found, ∃ c, tree.node? (directory ++ ns) = some (.file c)) :
    ∃ sources : List Source, sources.map Source.names = found ∧
      ∀ f ∈ sources, tree.node? (directory ++ f.names) = some (.file f.content) := by
  induction found with
  | nil => exact ⟨[], rfl, fun f hf => by cases hf⟩
  | cons ns rest ih =>
    obtain ⟨c, hc⟩ := h ns List.mem_cons_self
    obtain ⟨sources, hnames, hsources⟩ := ih fun ns' hns => h ns' (List.mem_cons_of_mem ns hns)
    refine ⟨⟨ns, c⟩ :: sources, by rw [List.map_cons, hnames], ?_⟩
    intro f hf
    rcases List.mem_cons.mp hf with rfl | hf
    · exact hc
    · exact hsources f hf

/-- A search in a directory that is there finds what is asked for. -/
theorem Config.exists_finds {s : Surroundings} {c : Config} {pattern : Glob.Pattern}
    (hpattern : Glob.Pattern.ofText c.pattern = .ok pattern)
    (present : s.tree.isDirectory s.here c.sourceDir = true) :
    ∃ found, c.Finds s found ∧
      Command.findTemplates s c = .ok (found.map fun f => Template.below c.sourceDir f.names) := by
  obtain ⟨found, hnames, hfound⟩ := exists_contents
    (Template.namesIn s.tree (FileTree.locate s.here c.sourceDir) pattern)
    fun ns hns => (Template.mem_namesIn.mp hns).1
  refine ⟨found, finds_of_names hpattern hnames hfound, ?_⟩
  rw [Command.findTemplates_eq hpattern present, ← hnames, List.map_map]
  rfl

/-- Templates are listed by a search in a directory that is there. -/
theorem Config.exists_finds_of_found {s : Surroundings} {c : Config} {templates : List Template}
    (hfound : Command.findTemplates s c = .ok templates) :
    s.tree.isDirectory s.here c.sourceDir = true ∧
      ∃ found, c.Finds s found ∧
        templates = found.map fun f => Template.below c.sourceDir f.names := by
  have h := hfound
  rw [Command.findTemplates] at h
  split at h
  next present =>
    split at h
    next => cases h
    next pattern hpattern =>
      obtain ⟨found, finds, hmap⟩ := exists_finds hpattern present
      rw [hfound] at hmap
      exact ⟨present, found, finds, Except.ok.inj hmap⟩
  next => cases h

end TemplateDirectives
