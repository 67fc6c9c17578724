/-
File trees.

A tree lists its directories and files by their locations.  Every location is
listed once, and the directory that holds it is listed as well, unless that is
the root, so a tree cannot hold a file in the air (`FileTree.distinct`,
`FileTree.rooted`).  A location is made of names that a path can spell
(`FileTree.named`).  `node?` is the view, and `node?_add` and `node?_replace` say
what writing does to it.
-/
import TemplateDirectives.Text.Basic

namespace TemplateDirectives

/-- The place of a file or directory: the names on the way from the root. -/
abbrev Location := List Text

/-- Whether a directory or a file may have this name.  A slash would cut it in
two, and a path reads the two dotted names as ways to directories. -/
def IsEntryName (name : Text) : Prop :=
  name ≠ [] ∧ '/' ∉ name ∧ name ≠ ['.'] ∧ name ≠ ['.', '.']

instance : DecidablePred IsEntryName := fun name =>
  inferInstanceAs (Decidable (name ≠ [] ∧ '/' ∉ name ∧ name ≠ ['.'] ∧ name ≠ ['.', '.']))

/-- The name of a directory or a file, in the directory that holds it. -/
structure EntryName where
  text : Text
  valid : IsEntryName text

/-- What a file holds: a text, or bytes that encode none. -/
inductive Content where
  | text (t : Text)
  | binary
  deriving DecidableEq

inductive Node where
  | directory
  | file (content : Content)
  deriving DecidableEq

/-- A tree of directories and files.  The root is a directory and is not
listed. -/
structure FileTree where
  entries : List (Location × Node)
  distinct : (entries.map Prod.fst).Nodup
  rooted : ∀ e ∈ entries,
    e.1 ≠ [] ∧ (e.1.dropLast ≠ [] → (e.1.dropLast, Node.directory) ∈ entries)
  named : ∀ e ∈ entries, ∀ name ∈ e.1, IsEntryName name

namespace FileTree

/-- A tree with nothing in it but its root. -/
def empty : FileTree := ⟨[], List.nodup_nil, by simp, by simp⟩

def node? (t : FileTree) (l : Location) : Option Node :=
  if l = [] then some .directory else t.entries.lookup l

theorem mem_of_lookup {entries : List (Location × Node)} {l : Location} {n : Node}
    (h : entries.lookup l = some n) : (l, n) ∈ entries := by
  induction entries with
  | nil => simp at h
  | cons e rest ih =>
    obtain ⟨m, k⟩ := e
    by_cases hm : l = m
    · subst hm
      simp only [List.lookup_cons, beq_self_eq_true] at h
      simp [Option.some.inj h]
    · simp only [List.lookup_cons, beq_eq_false_iff_ne.mpr hm] at h
      exact List.mem_cons_of_mem _ (ih h)

theorem not_mem_of_lookup_eq_none {entries : List (Location × Node)} {l : Location}
    (h : entries.lookup l = none) : l ∉ entries.map Prod.fst := by
  induction entries with
  | nil => simp
  | cons e rest ih =>
    obtain ⟨m, k⟩ := e
    by_cases hm : l = m
    · subst hm
      simp at h
    · simp only [List.lookup_cons, beq_eq_false_iff_ne.mpr hm] at h
      simp only [List.map_cons, List.mem_cons, not_or]
      exact ⟨hm, ih h⟩

theorem mem_of_node? {t : FileTree} {l : Location} {n : Node} (hl : l ≠ [])
    (h : t.node? l = some n) : (l, n) ∈ t.entries := by
  rw [node?, if_neg hl] at h
  exact mem_of_lookup h

theorem lookup_of_mem {entries : List (Location × Node)} {l : Location} {n : Node}
    (distinct : (entries.map Prod.fst).Nodup) (h : (l, n) ∈ entries) :
    entries.lookup l = some n := by
  induction entries with
  | nil => cases h
  | cons e rest ih =>
    obtain ⟨m, k⟩ := e
    rw [List.map_cons, List.nodup_cons] at distinct
    rcases List.mem_cons.mp h with he | hrest
    · obtain ⟨rfl, rfl⟩ := Prod.mk.inj he
      rw [List.lookup_cons_self]
    · have hm : l ≠ m := by
        rintro rfl
        exact distinct.1 (List.mem_map.mpr ⟨_, hrest, rfl⟩)
      rw [List.lookup_cons, beq_eq_false_iff_ne.mpr hm]
      exact ih distinct.2 hrest

theorem node?_of_mem {t : FileTree} {l : Location} {n : Node} (h : (l, n) ∈ t.entries) :
    t.node? l = some n := by
  rw [node?, if_neg (t.rooted _ h).1]
  exact lookup_of_mem t.distinct h

/-- Add a directory or a file where there is nothing yet, in a directory that
is there. -/
def add (t : FileTree) (l : Location) (name : EntryName) (n : Node)
    (fresh : t.node? (l ++ [name.text]) = none) (held : t.node? l = some .directory) :
    FileTree where
  entries := t.entries ++ [(l ++ [name.text], n)]
  distinct := by
    rw [node?, if_neg (by simp)] at fresh
    rw [List.map_append, List.nodup_append]
    refine ⟨t.distinct, by simp, ?_⟩
    intro a ha b hb
    obtain rfl : b = l ++ [name.text] := by simpa using hb
    rintro rfl
    exact not_mem_of_lookup_eq_none fresh ha
  rooted := by
    intro e he
    rcases List.mem_append.mp he with he | he
    · obtain ⟨h1, h2⟩ := t.rooted e he
      exact ⟨h1, fun h => List.mem_append_left _ (h2 h)⟩
    · obtain rfl : e = (l ++ [name.text], n) := by simpa using he
      rw [List.dropLast_concat]
      exact ⟨by simp, fun h => List.mem_append_left _ (mem_of_node? h held)⟩
  named := by
    intro e he
    rcases List.mem_append.mp he with he | he
    · exact t.named e he
    · obtain rfl : e = (l ++ [name.text], n) := by simpa using he
      intro part hpart
      rcases List.mem_append.mp hpart with hpart | hpart
      · exact t.named _ (mem_of_node? (List.ne_nil_of_mem hpart) held) part hpart
      · obtain rfl : part = name.text := by simpa using hpart
        exact name.valid

/-- A file with this content in place of any other.  A directory stays. -/
def fill (c : Content) : Node → Node
  | .directory => .directory
  | .file _ => .file c

/-- Fill the node of an entry, if it stands at this location. -/
def refill (l : Location) (c : Content) (e : Location × Node) : Location × Node :=
  (e.1, if e.1 = l then fill c e.2 else e.2)

theorem fst_refill (l : Location) (c : Content) (e : Location × Node) :
    (refill l c e).1 = e.1 := rfl

/-- Replace the content of a file. -/
def replace (t : FileTree) (l : Location) (c : Content) : FileTree where
  entries := t.entries.map (refill l c)
  distinct := by
    rw [List.map_map, show Prod.fst ∘ refill l c = Prod.fst from funext (fst_refill l c)]
    exact t.distinct
  rooted := by
    intro e he
    obtain ⟨d, hd, rfl⟩ := List.mem_map.mp he
    rw [fst_refill]
    obtain ⟨h1, h2⟩ := t.rooted d hd
    exact ⟨h1, fun h => List.mem_map.mpr ⟨_, h2 h, by simp [refill, fill]⟩⟩
  named := by
    intro e he
    obtain ⟨d, hd, rfl⟩ := List.mem_map.mp he
    exact t.named d hd

/-- The files of the tree, with their locations. -/
def files (t : FileTree) : List (Location × Content) :=
  t.entries.filterMap fun e =>
    match e with
    | (l, .file c) => some (l, c)
    | (_, .directory) => none

/-! ## Laws -/

theorem lookup_append_single (entries : List (Location × Node)) (l m : Location) (n : Node)
    (fresh : entries.lookup l = none) :
    (entries ++ [(l, n)]).lookup m = if m = l then some n else entries.lookup m := by
  rw [List.lookup_append]
  by_cases h : m = l
  · subst h
    simp [fresh]
  · simp [List.lookup_cons, h, beq_eq_false_iff_ne.mpr h]

/-- What is added stands at its location, and all else as before. -/
theorem node?_add {t : FileTree} {l : Location} {name : EntryName} {n : Node}
    (fresh : t.node? (l ++ [name.text]) = none) (held : t.node? l = some .directory)
    (m : Location) :
    (t.add l name n fresh held).node? m = if m = l ++ [name.text] then some n else t.node? m := by
  by_cases hm : m = []
  · subst hm
    rw [if_neg (by simp)]
    rfl
  · rw [node?, if_neg hm, node?, if_neg hm]
    rw [node?, if_neg (by simp)] at fresh
    exact lookup_append_single t.entries _ m n fresh

theorem lookup_map_refill (entries : List (Location × Node)) (l m : Location) (c : Content) :
    (entries.map (refill l c)).lookup m =
      if m = l then (entries.lookup m).map (fill c) else entries.lookup m := by
  induction entries with
  | nil => simp
  | cons e rest ih =>
    obtain ⟨k, node⟩ := e
    by_cases hk : m = k
    · subst hk
      by_cases h : m = l <;> simp [refill, h]
    · simp only [List.map_cons, refill, List.lookup_cons, beq_eq_false_iff_ne.mpr hk, ih]

theorem distinct_files (t : FileTree) : (t.files.map Prod.fst).Nodup := by
  refine List.pairwise_map.mpr (List.Pairwise.filterMap _ ?_ (List.pairwise_map.mp t.distinct))
  rintro ⟨l, node⟩ ⟨m, other⟩ hlm e he d hd
  cases node with
  | directory => cases he
  | file c =>
    cases other with
    | directory => cases hd
    | file c' =>
      rw [← Option.some.inj he, ← Option.some.inj hd]
      exact hlm

theorem mem_files {t : FileTree} {l : Location} {c : Content} :
    (l, c) ∈ t.files ↔ t.node? l = some (.file c) := by
  rw [files, List.mem_filterMap]
  constructor
  · rintro ⟨⟨m, node⟩, hm, h⟩
    cases node with
    | directory => cases h
    | file d =>
      obtain ⟨rfl, rfl⟩ := Prod.mk.inj (Option.some.inj h)
      exact node?_of_mem hm
  · intro h
    have hl : l ≠ [] := by
      rintro rfl
      cases h
    exact ⟨(l, .file c), mem_of_node? hl h, rfl⟩

/-- Replacing the content of a file changes what stands at its location, and
nothing else. -/
theorem node?_replace (t : FileTree) (l m : Location) (c : Content) :
    (t.replace l c).node? m = if m = l then (t.node? m).map (fill c) else t.node? m := by
  by_cases hm : m = []
  · subst hm
    by_cases h : [] = l <;> simp [node?, fill, h]
  · simp only [node?, if_neg hm]
    exact lookup_map_refill t.entries l m c

end FileTree
end TemplateDirectives
