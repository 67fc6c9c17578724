/-
Descending into directories.

`Template.scan` goes through a directory entry by entry, in the order in which the directory
lists them, and descends into every directory it meets.  A scan adds to what it is given
(`scan_eq_append`), and `mem_scan` and `pairwise_scan` say what it adds: one template for each
file that a path without hidden names leads to, if the pattern matches.  Both go by induction
over the directories below (`FileTree.induction_below`), with one lemma for an entry.

A list of templates in strict order is determined by its members, so a search in any order
returns what `discover` returns (`discover_exact`).
-/
import TemplateDirectives.Proofs.Templates

namespace TemplateDirectives

/-! ## Listing directories -/

namespace FileTree

/-- An order in which every directory of a tree lists its entries, each of them once. -/
structure Listing (t : FileTree) where
  names : Location → List Text
  distinct : ∀ l, t.node? l = some .directory → (names l).Nodup
  mem_iff : ∀ l, t.node? l = some .directory →
    ∀ name, name ∈ names l ↔ (t.node? (l ++ [name])).isSome

/-- The name of an entry, if it stands in this directory. -/
def nameIn? (l m : Location) : Option Text := if m.dropLast = l then m.getLast? else none

theorem nameIn?_eq_some {l m : Location} {name : Text} :
    nameIn? l m = some name ↔ m = l ++ [name] := by
  rw [nameIn?]
  constructor
  · intro h
    split at h
    next hl => rw [← hl, List.dropLast_append_getLast? name h]
    next => cases h
  · rintro rfl
    rw [List.dropLast_concat, if_pos rfl, List.getLast?_concat]

theorem node?_eq_some {t : FileTree} {l : Location} {n : Node} (hl : l ≠ []) :
    t.node? l = some n ↔ (l, n) ∈ t.entries :=
  ⟨mem_of_node? hl, node?_of_mem⟩

/-- The order in which the tree itself lists them. -/
def listing (t : FileTree) : t.Listing where
  names l := (t.entries.map Prod.fst).filterMap (nameIn? l)
  distinct l _ := by
    refine t.distinct.filterMap ?_
    intro m m' name hm hm'
    rw [nameIn?_eq_some.mp hm, nameIn?_eq_some.mp hm']
  mem_iff l _ name := by
    have hname : l ++ [name] ≠ [] := List.append_ne_nil_of_right_ne_nil l (List.cons_ne_nil _ _)
    simp only [List.mem_filterMap, nameIn?_eq_some, exists_eq_right, List.mem_map,
      Option.isSome_iff_exists, node?_eq_some hname]
    constructor
    · rintro ⟨⟨m, n⟩, hm, rfl⟩
      exact ⟨n, hm⟩
    · rintro ⟨n, hn⟩
      exact ⟨(l ++ [name], n), hn, rfl⟩

instance (t : FileTree) : Inhabited t.Listing := ⟨t.listing⟩

/-! ## Directories below directories -/

/-- No location in the tree is deeper than this. -/
def extent (t : FileTree) : Nat := (t.entries.map Prod.fst).flatten.length

section

variable {t : FileTree} {l : Location} {n : Node}

theorem length_le_extent (h : t.node? l = some n) : l.length ≤ t.extent := by
  by_cases hl : l = []
  · rw [hl]
    exact Nat.zero_le _
  · have hmem : l ∈ t.entries.map Prod.fst := List.mem_map.mpr ⟨_, mem_of_node? hl h, rfl⟩
    exact (List.sublist_flatten_of_mem hmem).length_le

/-- What a directory has when all directories in it have it, every directory has. -/
theorem induction_below {motive : Location → Prop}
    (step : ∀ l, (∀ name, t.node? (l ++ [name]) = some .directory → motive (l ++ [name])) →
      motive l) (l : Location) : motive l := by
  -- Each step down leaves less room below.
  induction hroom : t.extent - l.length using Nat.strongRecOn generalizing l with
  | ind room ih =>
    refine step l fun name hname => ?_
    have hlength := length_le_extent hname
    refine ih _ ?_ (l ++ [name]) rfl
    rw [List.length_append, List.length_singleton] at hlength ⊢
    omega

end

/-! ## Entries in another order -/

theorem node?_of_perm {t t' : FileTree} (h : t'.entries.Perm t.entries) (l : Location) :
    t'.node? l = t.node? l := by
  by_cases hl : l = []
  · rw [hl]
    rfl
  · refine Option.ext fun n => ?_
    rw [node?_eq_some hl, node?_eq_some hl, h.mem_iff]

theorem isDirectory_of_node?_eq {t t' : FileTree} (h : ∀ l, t'.node? l = t.node? l)
    (here : Location) (p : Text) : t'.isDirectory here p = t.isDirectory here p := by
  rw [Bool.eq_iff_iff, isDirectory_iff_walk, isDirectory_iff_walk]
  refine and_congr_right fun _ => exists_congr fun l => ?_
  rw [h l]
  refine and_congr_left fun _ => ?_
  exact ⟨walk_of_directories fun k hk => (h k).symm.trans hk,
    walk_of_directories fun k hk => (h k).trans hk⟩

end FileTree

/-! ## The descent -/

namespace Template

/-- Look at the entries of a directory one after another, in their order, and add the templates
among the files below to those found so far. -/
def scan (s : Surroundings) (order : s.tree.Listing) (pattern : Glob.Pattern)
    (path relative : Text) (found : List Template) : List Template :=
  match hdir : s.tree.directoryOf s.here path with
  | .error _ => found
  | .ok l =>
    (order.names l).foldl
      (fun found name =>
        if isHidden name then found
        else if hnode : s.tree.node? (l ++ [name]) = some .directory then
          scan s order pattern (Path.join path name) (Path.join relative name) found
        else if pattern.matches (Path.join relative name) then
          found ++ [⟨Path.join path name, Path.join relative name⟩]
        else found)
      found
termination_by s.tree.extent - (FileTree.locate s.here path).length
decreasing_by
  have hl := (FileTree.directoryOf_eq_ok.mp hdir).2
  have hjoin := (FileTree.directoryOf_eq_ok.mp (FileTree.directoryOf_join hdir hnode)).2
  have hlength := FileTree.length_le_extent hnode
  rw [← hl, ← hjoin]
  rw [List.length_append, List.length_singleton] at hlength ⊢
  omega

/-- Scan a source directory, and put what is found in the order of relative paths. -/
def search (s : Surroundings) (order : s.tree.Listing) (sourceDir : Text)
    (pattern : Glob.Pattern) : List Template :=
  (scan s order pattern sourceDir [] []).mergeSort
    fun x y => namesLe (Path.parts x.relative) (Path.parts y.relative)

/-- What a scan does with one entry of a directory. -/
def visit (s : Surroundings) (order : s.tree.Listing) (pattern : Glob.Pattern) (l : Location)
    (path relative : Text) (found : List Template) (name : Text) : List Template :=
  if isHidden name then found
  else if s.tree.node? (l ++ [name]) = some .directory then
    scan s order pattern (Path.join path name) (Path.join relative name) found
  else if pattern.matches (Path.join relative name) then
    found ++ [⟨Path.join path name, Path.join relative name⟩]
  else found

section

variable {s : Surroundings} {order : s.tree.Listing} {pattern : Glob.Pattern} {l : Location}
  {path relative : Text} {found : List Template}

theorem scan_of_directory (h : s.tree.directoryOf s.here path = .ok l) :
    scan s order pattern path relative found =
      (order.names l).foldl (visit s order pattern l path relative) found := by
  rw [scan]
  split
  next e he =>
    rw [h] at he
    cases he
  next m hm =>
    rw [h] at hm
    obtain rfl := Except.ok.inj hm
    rfl

/-- A scan adds to what has been found, entry by entry, and leaves that as it is. -/
theorem scan_eq_append (h : s.tree.directoryOf s.here path = .ok l) :
    scan s order pattern path relative found =
      found ++ (order.names l).flatMap (visit s order pattern l path relative []) := by
  induction l using FileTree.induction_below (t := s.tree) generalizing path relative found with
  | step l ih =>
    have hvisit : ∀ found name, visit s order pattern l path relative found name =
        found ++ visit s order pattern l path relative [] name := by
      intro found name
      rw [visit, visit]
      split
      · rw [List.append_nil]
      · split
        next hnode =>
          have hdir := FileTree.directoryOf_join h hnode
          rw [ih name hnode hdir, ih name hnode hdir, List.nil_append]
        next => split <;> simp
    rw [scan_of_directory h]
    -- Entry by entry, with what the earlier entries have added in front.
    induction order.names l generalizing found with
    | nil => rw [List.foldl_nil, List.flatMap_nil, List.append_nil]
    | cons name rest ihrest =>
      rw [List.foldl_cons, ihrest, hvisit, List.flatMap_cons, List.append_assoc]

end

/-! ## What a scan yields -/

/-- A scan of a directory yields a template for the file at these names below it. -/
structure Yields (s : Surroundings) (pattern : Glob.Pattern) (l : Location)
    (path relative : Text) (ns : List Text) (x : Template) : Prop where
  file : ∃ c, s.tree.node? (l ++ ns) = some (.file c)
  visible : ∀ name ∈ ns, isHidden name = false
  path_eq : x.path = ns.foldl Path.join path
  relative_eq : x.relative = ns.foldl Path.join relative
  selected : pattern.matches x.relative = true

section

variable {s : Surroundings} {order : s.tree.Listing} {pattern : Glob.Pattern} {l : Location}
  {path relative : Text} {name : Text} {ns ns' : List Text} {x y : Template}

theorem yields_cons : Yields s pattern l path relative (name :: ns) x ↔
    isHidden name = false ∧
      Yields s pattern (l ++ [name]) (Path.join path name) (Path.join relative name) ns x := by
  constructor
  · intro h
    have hvisible := List.forall_mem_cons.mp h.visible
    refine ⟨hvisible.1, ?_, hvisible.2, h.path_eq, h.relative_eq, h.selected⟩
    rw [← List.append_cons]
    exact h.file
  · rintro ⟨hname, h⟩
    refine ⟨?_, List.forall_mem_cons.mpr ⟨hname, h.visible⟩, h.path_eq, h.relative_eq, h.selected⟩
    rw [List.append_cons]
    exact h.file

theorem Yields.ne_nil (h : Yields s pattern l path relative ns x)
    (hnode : s.tree.node? l = some .directory) : ns ≠ [] := by
  obtain ⟨c, hc⟩ := h.file
  exact FileTree.ne_nil_of_file hnode hc

theorem Yields.names_valid (h : Yields s pattern l path relative ns x) :
    ∀ name ∈ ns, IsEntryName name := by
  obtain ⟨c, hc⟩ := h.file
  exact FileTree.isEntryName_of_append hc

/-- At a file the names end, and only the file itself is yielded. -/
theorem yields_of_not_directory (hnode : s.tree.node? l ≠ some .directory)
    (hsome : (s.tree.node? l).isSome) :
    Yields s pattern l path relative ns x ↔
      ns = [] ∧ x = ⟨path, relative⟩ ∧ pattern.matches relative = true := by
  constructor
  · intro h
    obtain ⟨c, hc⟩ := h.file
    obtain rfl : ns = [] := by
      by_contra hns
      exact hnode (FileTree.node?_of_append hns hc)
    obtain ⟨p, r⟩ := x
    obtain rfl : p = path := h.path_eq
    obtain rfl : r = relative := h.relative_eq
    exact ⟨rfl, rfl, h.selected⟩
  · rintro ⟨rfl, rfl, hselected⟩
    refine ⟨?_, fun name hname => absurd hname List.not_mem_nil, rfl, rfl, hselected⟩
    obtain ⟨n, hn⟩ := Option.isSome_iff_exists.mp hsome
    rw [List.append_nil, hn]
    cases n with
    | directory => exact absurd hn hnode
    | file c => exact ⟨c, rfl⟩

/-- The relative path tells the names. -/
theorem Yields.names_eq (h : Yields s pattern l path relative ns x)
    (h' : Yields s pattern l path relative ns' y) (hnode : s.tree.node? l = some .directory)
    (heq : x.relative = y.relative) : ns = ns' := by
  have hns := h.ne_nil hnode
  have hns' := h'.ne_nil hnode
  obtain ⟨front, hfront⟩ := Path.exists_front relative
  rw [h.relative_eq, h'.relative_eq, Path.foldl_join hns h.names_valid,
    Path.foldl_join hns' h'.names_valid, hfront (Path.isAbsolute_ofParts hns h.names_valid),
    hfront (Path.isAbsolute_ofParts hns' h'.names_valid)] at heq
  rw [← Path.parts_ofParts hns h.names_valid, List.append_cancel_left heq,
    Path.parts_ofParts hns' h'.names_valid]

/-- What one entry of a directory adds, when this is known of the directories in it. -/
theorem mem_visit
    (below : s.tree.node? (l ++ [name]) = some .directory →
      (x ∈ scan s order pattern (Path.join path name) (Path.join relative name) [] ↔
        ∃ ns, Yields s pattern (l ++ [name]) (Path.join path name) (Path.join relative name) ns x))
    (hsome : (s.tree.node? (l ++ [name])).isSome) :
    x ∈ visit s order pattern l path relative [] name ↔
      ∃ ns, Yields s pattern l path relative (name :: ns) x := by
  simp only [yields_cons, exists_and_left]
  rw [visit]
  split
  next hhidden => simp [hhidden]
  next hvisible =>
    have hname : isHidden name = false := Bool.eq_false_iff.mpr hvisible
    split
    next hnode => rw [below hnode, and_iff_right hname]
    next hnode =>
      simp only [yields_of_not_directory hnode hsome, exists_eq_left, hname, true_and]
      split
      next hmatches => simp [hmatches]
      next hmatches => simp [hmatches]

theorem Yields.exists_cons (h : Yields s pattern l path relative ns x)
    (hnode : s.tree.node? l = some .directory) :
    ∃ name rest, ns = name :: rest ∧ (s.tree.node? (l ++ [name])).isSome := by
  cases ns with
  | nil => exact absurd rfl (h.ne_nil hnode)
  | cons name rest =>
    refine ⟨name, rest, rfl, ?_⟩
    obtain ⟨c, hc⟩ := h.file
    rw [List.append_cons] at hc
    by_cases hrest : rest = []
    · rw [hrest, List.append_nil] at hc
      rw [hc, Option.isSome_some]
    · rw [FileTree.node?_of_append hrest hc, Option.isSome_some]

/-- A scan adds a template for each file that is asked for, and no other. -/
theorem mem_scan (h : s.tree.directoryOf s.here path = .ok l) :
    x ∈ scan s order pattern path relative [] ↔
      ∃ ns, Yields s pattern l path relative ns x := by
  induction l using FileTree.induction_below (t := s.tree) generalizing path relative with
  | step l ih =>
    have hnode := (FileTree.directoryOf_iff_walk.mp h).2.2
    have hvisit : ∀ name, (s.tree.node? (l ++ [name])).isSome →
        (x ∈ visit s order pattern l path relative [] name ↔
          ∃ ns, Yields s pattern l path relative (name :: ns) x) := fun name hsome =>
      mem_visit (fun hdir => ih name hdir (FileTree.directoryOf_join h hdir)) hsome
    rw [scan_eq_append h, List.nil_append, List.mem_flatMap]
    constructor
    · rintro ⟨name, hname, hx⟩
      have hsome := (order.mem_iff l hnode name).mp hname
      obtain ⟨ns, hns⟩ := (hvisit name hsome).mp hx
      exact ⟨name :: ns, hns⟩
    · rintro ⟨ns, hns⟩
      obtain ⟨name, rest, rfl, hsome⟩ := hns.exists_cons hnode
      exact ⟨name, (order.mem_iff l hnode name).mpr hsome, (hvisit name hsome).mpr ⟨rest, hns⟩⟩

/-- No two templates that a scan adds have the same relative path. -/
theorem pairwise_scan (h : s.tree.directoryOf s.here path = .ok l) :
    (scan s order pattern path relative []).Pairwise fun x y => x.relative ≠ y.relative := by
  induction l using FileTree.induction_below (t := s.tree) generalizing path relative with
  | step l ih =>
    have hnode := (FileTree.directoryOf_iff_walk.mp h).2.2
    rw [scan_eq_append h, List.nil_append, List.pairwise_flatMap]
    constructor
    · intro name hname
      rw [visit]
      split
      · exact List.Pairwise.nil
      · split
        next hdir => exact ih name hdir (FileTree.directoryOf_join h hdir)
        next =>
          split
          · exact List.pairwise_singleton _ _
          · exact List.Pairwise.nil
    · -- Files below different entries differ in the first name.
      have hvisit : ∀ {name x}, name ∈ order.names l →
          x ∈ visit s order pattern l path relative [] name →
            ∃ ns, Yields s pattern l path relative (name :: ns) x := by
        intro name x hname hx
        exact (mem_visit (fun hdir => mem_scan (FileTree.directoryOf_join h hdir))
          ((order.mem_iff l hnode name).mp hname)).mp hx
      refine (order.distinct l hnode).imp_of_mem ?_
      intro name name' hname hname' hne x hx y hy heq
      obtain ⟨ns, hns⟩ := hvisit hname hx
      obtain ⟨ns', hns'⟩ := hvisit hname' hy
      exact hne (List.cons.inj (hns.names_eq hns' hnode heq)).1

end

/-! ## What a search returns -/

/-- The list has a template for every file below the source directory whose path from there
matches and has no hidden part, and no other, in strict order of these paths. -/
structure IsDiscovery (s : Surroundings) (sourceDir : Text) (pattern : Glob.Pattern)
    (found : List Template) : Prop where
  mem_iff : ∀ x, x ∈ found ↔
    s.tree.isDirectory s.here sourceDir = true ∧
      (∃ c, s.tree.node? (FileTree.locate s.here sourceDir ++ Path.parts x.relative) =
        some (.file c)) ∧
      (∀ part ∈ Path.parts x.relative, part.head? ≠ some '.') ∧
      pattern.matches x.relative = true ∧
      x.path = Path.join sourceDir x.relative
  ordered : found.Pairwise fun x y => Path.parts x.relative < Path.parts y.relative
  leads_to_file : ∀ x ∈ found, s.tree.isFile s.here x.path = true

/-- Where one search asks for what another does, it returns the same list. -/
theorem IsDiscovery.eq_of_mem_iff {s s' : Surroundings} {sourceDir : Text}
    {pattern : Glob.Pattern} {found found' : List Template}
    (h : IsDiscovery s sourceDir pattern found) (h' : IsDiscovery s' sourceDir pattern found')
    (hmem : ∀ x, x ∈ found ↔ x ∈ found') : found = found' :=
  eq_of_ordered (fun x => Path.parts x.relative) h.ordered h'.ordered hmem

/-- The file at these names below a directory is there, and its template is selected. -/
structure Asks (s : Surroundings) (pattern : Glob.Pattern) (l : Location) (ns : List Text) :
    Prop where
  file : ∃ c, s.tree.node? (l ++ ns) = some (.file c)
  selected : isSelected pattern ns = true

section

variable {s : Surroundings} {order : s.tree.Listing} {pattern : Glob.Pattern} {sourceDir : Text}
  {l : Location} {found : List Template} {ns : List Text} {x : Template}

theorem isSelected_iff : isSelected pattern ns = true ↔
    (∀ name ∈ ns, isHidden name = false) ∧ pattern.matches (Path.ofParts ns) = true := by
  simp [isSelected]

namespace Asks

variable (h : Asks s pattern l ns)
include h

theorem names_valid : ∀ name ∈ ns, IsEntryName name := by
  obtain ⟨c, hc⟩ := h.file
  exact FileTree.isEntryName_of_append hc

theorem ne_nil (hnode : s.tree.node? l = some .directory) : ns ≠ [] := by
  obtain ⟨c, hc⟩ := h.file
  exact FileTree.ne_nil_of_file hnode hc

end Asks

/-- The names are the parts of the template's relative path. -/
theorem exists_asks_iff (hnode : s.tree.node? l = some .directory) :
    (∃ ns, Asks s pattern l ns ∧ below sourceDir ns = x) ↔
      (∃ c, s.tree.node? (l ++ Path.parts x.relative) = some (.file c)) ∧
        (∀ part ∈ Path.parts x.relative, part.head? ≠ some '.') ∧
        pattern.matches x.relative = true ∧ x.path = Path.join sourceDir x.relative := by
  have hhidden : ∀ name, isHidden name = false ↔ name.head? ≠ some '.' := fun name =>
    beq_eq_false_iff_ne
  constructor
  · rintro ⟨ns, h, rfl⟩
    have hparts : Path.parts (below sourceDir ns).relative = ns :=
      Path.parts_ofParts (h.ne_nil hnode) h.names_valid
    obtain ⟨hvisible, hmatches⟩ := isSelected_iff.mp h.selected
    rw [hparts]
    exact ⟨h.file, fun name hname => (hhidden name).mp (hvisible name hname), hmatches, rfl⟩
  · rintro ⟨hfile, hvisible, hmatches, hpath⟩
    refine ⟨Path.parts x.relative, ⟨hfile, isSelected_iff.mpr ⟨?_, ?_⟩⟩, ?_⟩
    · exact fun name hname => (hhidden name).mpr (hvisible name hname)
    · rwa [Path.ofParts_parts]
    · rw [below, Path.ofParts_parts, ← hpath]

/-- A list that has what is asked for, in order, is what a search returns. -/
theorem isDiscovery_of_asks (hdir : s.tree.directoryOf s.here sourceDir = .ok l)
    (hmem : ∀ x, x ∈ found ↔ ∃ ns, Asks s pattern l ns ∧ below sourceDir ns = x)
    (ordered : found.Pairwise fun x y => Path.parts x.relative < Path.parts y.relative) :
    IsDiscovery s sourceDir pattern found where
  mem_iff x := by
    obtain ⟨present, rfl⟩ := FileTree.directoryOf_eq_ok.mp hdir
    rw [hmem x, exists_asks_iff (FileTree.directoryOf_iff_walk.mp hdir).2.2,
      and_iff_right present]
  ordered := ordered
  leads_to_file x hx := by
    obtain ⟨ns, h, rfl⟩ := (hmem x).mp hx
    obtain ⟨_, hwalk, hnode⟩ := FileTree.directoryOf_iff_walk.mp hdir
    obtain ⟨c, hc⟩ := h.file
    rw [FileTree.isFile, below, FileTree.status_join (h.ne_nil hnode) hwalk hc]

/-- Nothing is found without a directory to search. -/
theorem isDiscovery_nil {e : FileError} (hdir : s.tree.directoryOf s.here sourceDir = .error e) :
    IsDiscovery s sourceDir pattern [] where
  mem_iff x := by
    refine iff_of_false List.not_mem_nil fun h => ?_
    rw [FileTree.directoryOf_eq_ok.mpr ⟨h.1, rfl⟩] at hdir
    cases hdir
  ordered := List.Pairwise.nil
  leads_to_file x hx := absurd hx List.not_mem_nil

theorem isDiscovery_discover (s : Surroundings) (sourceDir : Text) (pattern : Glob.Pattern) :
    IsDiscovery s sourceDir pattern (discover s sourceDir pattern) := by
  rw [discover]
  cases hdir : s.tree.directoryOf s.here sourceDir with
  | error e => exact isDiscovery_nil hdir
  | ok l =>
    have hnode := (FileTree.directoryOf_iff_walk.mp hdir).2.2
    have hasks : ∀ {ns}, ns ∈ namesIn s.tree l pattern ↔ Asks s pattern l ns := by
      intro ns
      rw [mem_namesIn]
      exact ⟨fun h => ⟨h.1, h.2⟩, fun h => ⟨h.file, h.selected⟩⟩
    refine isDiscovery_of_asks hdir (fun x => ?_) ?_
    · simp only [List.mem_map, hasks]
    · refine List.pairwise_map.mpr ((pairwise_namesIn s.tree l pattern).imp_of_mem ?_)
      intro ns ns' hns hns' hlt
      show Path.parts (Path.ofParts ns) < Path.parts (Path.ofParts ns')
      rw [Path.parts_ofParts ((hasks.mp hns).ne_nil hnode) (hasks.mp hns).names_valid,
        Path.parts_ofParts ((hasks.mp hns').ne_nil hnode) (hasks.mp hns').names_valid]
      exact hlt

/-- A scan of the source directory yields what is asked for. -/
theorem yields_iff (hnode : s.tree.node? l = some .directory) :
    Yields s pattern l sourceDir [] ns x ↔ Asks s pattern l ns ∧ below sourceDir ns = x := by
  constructor
  · intro h
    have hpath := h.path_eq
    have hrelative := h.relative_eq
    rw [Path.foldl_join (h.ne_nil hnode) h.names_valid] at hpath hrelative
    rw [Path.join_nil] at hrelative
    obtain ⟨p, r⟩ := x
    obtain rfl : p = _ := hpath
    obtain rfl : r = _ := hrelative
    exact ⟨⟨h.file, isSelected_iff.mpr ⟨h.visible, h.selected⟩⟩, rfl⟩
  · rintro ⟨h, rfl⟩
    obtain ⟨hvisible, hmatches⟩ := isSelected_iff.mp h.selected
    have hjoin := Path.foldl_join (h.ne_nil hnode) h.names_valid
    refine ⟨h.file, hvisible, (hjoin sourceDir).symm, ?_, hmatches⟩
    rw [hjoin, Path.join_nil, below]

theorem isDiscovery_search (s : Surroundings) (order : s.tree.Listing) (sourceDir : Text)
    (pattern : Glob.Pattern) :
    IsDiscovery s sourceDir pattern (search s order sourceDir pattern) := by
  rw [search]
  cases hdir : s.tree.directoryOf s.here sourceDir with
  | error e =>
    have hnone : scan s order pattern sourceDir [] [] = [] := by
      rw [scan]
      split
      · rfl
      next l hl =>
        rw [hdir] at hl
        cases hl
    rw [hnone, List.mergeSort_nil]
    exact isDiscovery_nil hdir
  | ok l =>
    have hnode := (FileTree.directoryOf_iff_walk.mp hdir).2.2
    refine isDiscovery_of_asks hdir (fun x => ?_) ?_
    · simp only [List.mem_mergeSort, mem_scan hdir, yields_iff hnode]
    · have hdistinct := (List.mergeSort_perm (scan s order pattern sourceDir [] [])
        fun x y => namesLe (Path.parts x.relative) (Path.parts y.relative)).symm.pairwise
          (pairwise_scan hdir) fun hne => hne.symm
      refine List.Pairwise.imp₂ ?_ (pairwise_mergeSort _ _) hdistinct
      intro x y hle hne
      refine lt_of_le_of_ne hle fun hparts => hne ?_
      rw [← Path.ofParts_parts x.relative, hparts, Path.ofParts_parts]

end

/-- A tree is searched with the same result when it lists its entries in another order. -/
theorem discover_of_perm {s : Surroundings} {tree : FileTree} (sourceDir : Text)
    (pattern : Glob.Pattern) (h : tree.entries.Perm s.tree.entries) :
    discover { s with tree := tree } sourceDir pattern = discover s sourceDir pattern := by
  have hnode := FileTree.node?_of_perm h
  refine (isDiscovery_discover _ sourceDir pattern).eq_of_mem_iff
    (isDiscovery_discover s sourceDir pattern) fun x => ?_
  rw [(isDiscovery_discover _ sourceDir pattern).mem_iff,
    (isDiscovery_discover s sourceDir pattern).mem_iff]
  simp only [FileTree.isDirectory_of_node?_eq hnode, hnode]

/-- A search returns exactly the files that are asked for, in order, whatever order the
directories list their entries in. -/
theorem discover_exact (s : Surroundings) (sourceDir : Text) (pattern : Glob.Pattern) :
    IsDiscovery s sourceDir pattern (discover s sourceDir pattern) ∧
      (∀ order : s.tree.Listing,
        search s order sourceDir pattern = discover s sourceDir pattern) ∧
      ∀ tree : FileTree, tree.entries.Perm s.tree.entries →
        discover { s with tree := tree } sourceDir pattern = discover s sourceDir pattern := by
  refine ⟨isDiscovery_discover s sourceDir pattern, fun order => ?_, fun tree h =>
    discover_of_perm sourceDir pattern h⟩
  have hsearch := isDiscovery_search s order sourceDir pattern
  have hdiscover := isDiscovery_discover s sourceDir pattern
  exact hsearch.eq_of_mem_iff hdiscover fun x => by rw [hsearch.mem_iff, hdiscover.mem_iff]

end Template

end TemplateDirectives
