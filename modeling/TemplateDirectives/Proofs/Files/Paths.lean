/-
Where paths lead.

`locate` reads a path without looking at any tree, and a path that can be
followed leads to this location (`eq_locate_of_walk`).  The paths of a batch are
made of a directory and of names, put together by `Path.join` and
`Path.ofParts`, and `locate_join` says where such a path leads: from where the
directory is, on by just these names.  The proof needs every name to be one that
an entry may have, since a slash or a dotted name would lead elsewhere.
-/
import Mathlib.Data.List.Induction
import TemplateDirectives.FileSystem.Access

namespace TemplateDirectives

/-! ## Paths made of names -/

namespace Path

theorem parts_append_slash (a b : Text) : parts (a ++ '/' :: b) = parts a ++ parts b :=
  List.splitOn_append_cons_self a b

theorem ofParts_singleton (name : Text) : ofParts [name] = name := List.intercalate_singleton

theorem ofParts_parts (p : Text) : ofParts (parts p) = p := List.intercalate_splitOn '/'

section

variable {ns : List Text} (hns : ns ≠ []) (valid : ∀ name ∈ ns, IsEntryName name)
include hns valid

theorem parts_ofParts : parts (ofParts ns) = ns :=
  List.splitOn_intercalate '/' (fun name hname => (valid name hname).2.1) hns

theorem ofParts_ne_nil : ofParts ns ≠ [] := by
  intro h
  have hparts := parts_ofParts hns valid
  rw [h] at hparts
  exact (valid [] (hparts ▸ List.mem_singleton_self [])).1 rfl

/-- No slash stands at an end of the path, since it would cut off an empty part. -/
theorem ofParts_ne_append_slash (a b : Text) (hab : a = [] ∨ b = []) :
    ofParts ns ≠ a ++ '/' :: b := by
  intro h
  have hparts := parts_ofParts hns valid
  rw [h, parts_append_slash] at hparts
  have hmem : [] ∈ parts a ++ parts b := by
    rcases hab with rfl | rfl
    · exact List.mem_append_left _ (List.mem_singleton_self [])
    · exact List.mem_append_right _ (List.mem_singleton_self [])
  exact (valid [] (hparts ▸ hmem)).1 rfl

theorem isAbsolute_ofParts : isAbsolute (ofParts ns) = false := by
  rw [isAbsolute, beq_eq_false_iff_ne]
  intro h
  obtain ⟨rest, hrest⟩ := List.head?_eq_some_iff.mp h
  exact ofParts_ne_append_slash hns valid [] rest (.inl rfl) hrest

theorem endsWithSlash_ofParts : FileTree.endsWithSlash (ofParts ns) = false := by
  rw [FileTree.endsWithSlash, beq_eq_false_iff_ne]
  intro h
  obtain ⟨front, hfront⟩ := List.getLast?_eq_some_iff.mp h
  exact ofParts_ne_append_slash hns valid front [] (.inr rfl) hfront

end

/-! ## Joining -/

/-- What is joined to a directory stands behind the same text. -/
theorem exists_front (base : Text) :
    ∃ front, ∀ {p : Text}, isAbsolute p = false → join base p = front ++ p := by
  by_cases h : base = [] ∨ base.getLast? = some '/'
  · refine ⟨base, fun {p} relative => ?_⟩
    rw [join, if_neg (by simp [relative]), if_pos h]
  · refine ⟨base ++ ['/'], fun {p} relative => ?_⟩
    rw [join, if_neg (by simp [relative]), if_neg h, List.append_assoc, List.singleton_append]

section

variable {base p : Text} (relative : isAbsolute p = false)
include relative

theorem isAbsolute_join : isAbsolute (join base p) = isAbsolute base := by
  rw [join, if_neg (by simp [relative])]
  cases base with
  | nil => exact relative
  | cons c rest => split <;> rfl

theorem exists_join : ∃ front, join base p = front ++ p := by
  obtain ⟨front, h⟩ := exists_front base
  exact ⟨front, h relative⟩

theorem join_ne_nil (hp : p ≠ []) : join base p ≠ [] := by
  obtain ⟨front, h⟩ : ∃ front, join base p = front ++ p := exists_join relative
  rw [h]
  exact List.append_ne_nil_of_right_ne_nil front hp

theorem slash_mem_join (hbase : base ≠ []) : '/' ∈ join base p := by
  rw [join, if_neg (by simp [relative])]
  split
  next h =>
    have hlast := h.resolve_left hbase
    exact List.mem_append_left _ (List.mem_of_getLast? hlast)
  next => exact List.mem_append_right _ List.mem_cons_self

theorem endsWithSlash_join (hp : p ≠ []) :
    FileTree.endsWithSlash (join base p) = FileTree.endsWithSlash p := by
  obtain ⟨front, h⟩ : ∃ front, join base p = front ++ p := exists_join relative
  rw [h, FileTree.endsWithSlash, FileTree.endsWithSlash, List.getLast?_append,
    List.getLast?_eq_some_getLast hp, Option.some_or]

/-- Joining is associative. -/
theorem join_assoc {q : Text} (hp : p ≠ []) (relative' : isAbsolute q = false) :
    join (join base p) q = join base (join p q) := by
  have hcons : ∀ r : Text, r ≠ [] →
      join r q = if r.getLast? = some '/' then r ++ q else r ++ '/' :: q := by
    intro r hr
    rw [join, if_neg (by simp [relative'])]
    simp only [hr, false_or]
  obtain ⟨front, hfront⟩ := exists_front base
  have hjoin : isAbsolute (join p q) = false := by rw [isAbsolute_join relative', relative]
  have hlast : (front ++ p).getLast? = p.getLast? := by
    rw [List.getLast?_append, List.getLast?_eq_some_getLast hp, Option.some_or]
  rw [hfront relative, hfront hjoin, hcons p hp,
    hcons (front ++ p) (List.append_ne_nil_of_right_ne_nil front hp), hlast]
  split <;> rw [List.append_assoc]

end

theorem join_nil (p : Text) : join [] p = p := by
  rw [join]
  split <;> rfl

/-- Entering one directory after another leads to the path of all their names. -/
theorem foldl_join {ns : List Text} (hns : ns ≠ []) (valid : ∀ name ∈ ns, IsEntryName name)
    (base : Text) : ns.foldl join base = join base (ofParts ns) := by
  induction ns generalizing base with
  | nil => exact absurd rfl hns
  | cons name rest ih =>
    by_cases hrest : rest = []
    · rw [hrest, ofParts_singleton, List.foldl_cons, List.foldl_nil]
    · have hname := valid name List.mem_cons_self
      have hvalid : ∀ n ∈ rest, IsEntryName n := fun n hn => valid n (List.mem_cons_of_mem name hn)
      have hrelative := isAbsolute_ofParts hrest hvalid
      have hslash : isAbsolute name = false := by
        rw [isAbsolute, beq_eq_false_iff_ne]
        exact fun h => hname.2.1 (List.mem_of_head? h)
      have hparts : ofParts (name :: rest) = join name (ofParts rest) := by
        have hlast : name.getLast? ≠ some '/' := fun h => hname.2.1 (List.mem_of_getLast? h)
        rw [ofParts, List.intercalate_cons_of_ne_nil hrest, join, if_neg (by simp [hrelative]),
          if_neg (by simp [hname.1, hlast]), List.append_assoc]
        rfl
      rw [List.foldl_cons, ih hrest hvalid, join_assoc hslash hname.1 hrelative, hparts]

end Path

/-! ## Locations -/

namespace FileTree

/-- The location that a path spells, seen from a working directory. -/
def locate (here : Location) (p : Text) : Location := (names p).foldl step (origin here p)

theorem step_of_isEntryName {name : Text} (valid : IsEntryName name) (l : Location) :
    step l name = l ++ [name] := by
  rw [step, if_neg valid.2.2.1, if_neg valid.2.2.2]

theorem foldl_step {ns : List Text} (valid : ∀ name ∈ ns, IsEntryName name) (l : Location) :
    ns.foldl step l = l ++ ns := by
  induction ns generalizing l with
  | nil => rw [List.foldl_nil, List.append_nil]
  | cons name rest ih =>
    rw [List.foldl_cons, step_of_isEntryName (valid name List.mem_cons_self),
      ih fun n hn => valid n (List.mem_cons_of_mem name hn), List.append_assoc,
      List.singleton_append]

theorem names_append_slash (a b : Text) : names (a ++ '/' :: b) = names a ++ names b := by
  rw [names, Path.parts_append_slash, List.filter_append]
  rfl

theorem names_join {base p : Text} (relative : Path.isAbsolute p = false) :
    names (Path.join base p) = names base ++ names p := by
  rw [Path.join, if_neg (by simp [relative])]
  by_cases hbase : base = []
  · subst hbase
    rfl
  · by_cases hlast : base.getLast? = some '/'
    · rw [if_pos (.inr hlast)]
      obtain ⟨front, rfl⟩ := List.getLast?_eq_some_iff.mp hlast
      rw [List.append_assoc, List.singleton_append, names_append_slash, names_append_slash]
      show _ = names front ++ [] ++ names p
      rw [List.append_nil]
    · rw [if_neg (by simp [hbase, hlast]), names_append_slash]

section

variable {ns : List Text} (hns : ns ≠ []) (valid : ∀ name ∈ ns, IsEntryName name)
include hns valid

theorem names_ofParts : names (Path.ofParts ns) = ns := by
  rw [names, Path.parts_ofParts hns valid, List.filter_eq_self]
  intro name hname
  exact decide_eq_true (valid name hname).1

theorem names_join_ofParts (base : Text) :
    names (Path.join base (Path.ofParts ns)) = names base ++ ns := by
  rw [names_join (Path.isAbsolute_ofParts hns valid), names_ofParts hns valid]

theorem origin_join_ofParts (here : Location) (base : Text) :
    origin here (Path.join base (Path.ofParts ns)) = origin here base := by
  rw [origin, Path.isAbsolute_join (Path.isAbsolute_ofParts hns valid), origin]

/-- From where the directory is, on by the names. -/
theorem locate_join (here : Location) (base : Text) :
    locate here (Path.join base (Path.ofParts ns)) = locate here base ++ ns := by
  rw [locate, names_join_ofParts hns valid, origin_join_ofParts hns valid, List.foldl_append,
    foldl_step valid, locate]

end

/-! ## Following a path -/

section

variable {t : FileTree} {l m : Location}

theorem directoryAt_eq_ok : t.directoryAt l = .ok m ↔ t.node? l = some .directory ∧ l = m := by
  rw [directoryAt]
  cases t.node? l with
  | none => simp
  | some node => cases node <;> simp

theorem walk_cons {part : Text} {rest : List Text} :
    t.walk l (part :: rest) = .ok m ↔
      t.node? l = some .directory ∧ t.walk (step l part) rest = .ok m := by
  rw [walk, follow, directoryAt]
  cases t.node? l with
  | none => simp
  | some node => cases node <;> simp

theorem eq_foldl_step_of_walk {parts : List Text} (h : t.walk l parts = .ok m) :
    m = parts.foldl step l := by
  induction parts generalizing l with
  | nil => exact (Except.ok.inj h).symm
  | cons part rest ih => exact ih (walk_cons.mp h).2

/-- A path that can be followed leads to the location it spells. -/
theorem eq_locate_of_walk {here : Location} {p : Text}
    (h : t.walk (origin here p) (names p) = .ok m) : m = locate here p :=
  eq_foldl_step_of_walk h

theorem walk_append {first second : List Text} {k : Location} (h : t.walk l first = .ok k)
    (h' : t.walk k second = .ok m) : t.walk l (first ++ second) = .ok m := by
  induction first generalizing l with
  | nil => rwa [← Except.ok.inj h] at h'
  | cons part rest ih =>
    obtain ⟨hdir, hrest⟩ := walk_cons.mp h
    exact walk_cons.mpr ⟨hdir, ih hrest⟩

/-- Followed in a tree that has all directories of another, a path leads to the same
location. -/
theorem walk_of_directories {t' : FileTree} {parts : List Text}
    (kept : ∀ k, t.node? k = some .directory → t'.node? k = some .directory)
    (h : t.walk l parts = .ok m) : t'.walk l parts = .ok m := by
  induction parts generalizing l with
  | nil => exact h
  | cons part rest ih =>
    obtain ⟨hdir, hrest⟩ := walk_cons.mp h
    exact walk_cons.mpr ⟨kept l hdir, ih hrest⟩

end

/-! ## Reaching what stands in a tree -/

section

variable {t : FileTree} {l : Location} {n : Node}

theorem isEntryName_of_node? (h : t.node? l = some n) : ∀ name ∈ l, IsEntryName name := by
  intro name hname
  exact t.named _ (mem_of_node? (List.ne_nil_of_mem hname) h) name hname

theorem isEntryName_of_append {ns : List Text} (h : t.node? (l ++ ns) = some n) :
    ∀ name ∈ ns, IsEntryName name :=
  fun name hname => isEntryName_of_node? h name (List.mem_append_right l hname)

/-- No file stands where a directory does. -/
theorem ne_nil_of_file {ns : List Text} {c : Content} (hdir : t.node? l = some .directory)
    (h : t.node? (l ++ ns) = some (.file c)) : ns ≠ [] := by
  rintro rfl
  rw [List.append_nil, hdir] at h
  cases h

theorem node?_dropLast (hl : l ≠ []) (h : t.node? l = some n) :
    t.node? l.dropLast = some .directory := by
  by_cases hup : l.dropLast = []
  · rw [hup]
    rfl
  · exact node?_of_mem ((t.rooted _ (mem_of_node? hl h)).2 hup)

theorem node?_of_append {ns : List Text} (hns : ns ≠ []) (h : t.node? (l ++ ns) = some n) :
    t.node? l = some .directory := by
  induction ns using List.reverseRecOn generalizing n with
  | nil => exact absurd rfl hns
  | append_singleton front name ih =>
    rw [← List.append_assoc] at h
    have hup := node?_dropLast (by simp) h
    rw [List.dropLast_concat] at hup
    by_cases hfront : front = []
    · rwa [hfront, List.append_nil] at hup
    · exact ih hfront hup

/-- Names that lead to an entry can be followed to it. -/
theorem walk_of_node? {ns : List Text} (h : t.node? (l ++ ns) = some n) :
    t.walk l ns = .ok (l ++ ns) := by
  induction ns generalizing l with
  | nil => rw [walk, List.append_nil]
  | cons name rest ih =>
    have hvalid := isEntryName_of_node? h name (by simp)
    have hdir := node?_of_append (List.cons_ne_nil name rest) h
    rw [List.append_cons] at h ⊢
    rw [walk_cons, step_of_isEntryName hvalid]
    exact ⟨hdir, ih h⟩

/-- A path leads to what stands at the end of its names; one that ends in a slash never leads
to a file. -/
theorem status_eq_ok {here : Location} {p : Text} :
    t.status here p = .ok n ↔
      p ≠ [] ∧ (n = .directory ∨ endsWithSlash p = false) ∧
        ∃ m, t.walk (origin here p) (names p) = .ok m ∧ t.node? m = some n := by
  rw [status]
  by_cases hp : p = []
  · simp [hp]
  · rw [if_neg hp]
    cases t.walk (origin here p) (names p) with
    | error e => simp
    | ok m =>
      cases hm : t.node? m with
      | none => simp [hm]
      | some node =>
        cases node with
        | directory => simp +contextual [hp, hm]
        | file c => cases endsWithSlash p <;> simp +contextual [hp, hm]

theorem status_eq_file {here : Location} {p : Text} {c : Content} :
    t.status here p = .ok (.file c) ↔
      p ≠ [] ∧ endsWithSlash p = false ∧
        ∃ m, t.walk (origin here p) (names p) = .ok m ∧ t.node? m = some (.file c) := by
  have hfile : Node.file c ≠ .directory := fun h => by cases h
  rw [status_eq_ok, or_iff_right hfile]

theorem isDirectory_iff_walk {here : Location} {p : Text} :
    t.isDirectory here p = true ↔
      p ≠ [] ∧ ∃ m, t.walk (origin here p) (names p) = .ok m ∧ t.node? m = some .directory := by
  have hstatus : t.isDirectory here p = true ↔ t.status here p = .ok .directory := by
    rw [isDirectory]
    cases t.status here p with
    | error e => simp
    | ok node => cases node <;> simp
  rw [hstatus, status_eq_ok]
  simp

theorem directoryOf_iff_walk {here : Location} {p : Text} :
    t.directoryOf here p = .ok l ↔
      p ≠ [] ∧ t.walk (origin here p) (names p) = .ok l ∧ t.node? l = some .directory := by
  rw [directoryOf]
  by_cases hp : p = []
  · simp [hp]
  · rw [if_neg hp]
    cases t.walk (origin here p) (names p) with
    | error e => simp
    | ok m =>
      simp only [directoryAt_eq_ok, hp, Except.ok.injEq, ne_eq, not_false_eq_true, true_and]
      constructor
      · rintro ⟨hm, rfl⟩
        exact ⟨rfl, hm⟩
      · rintro ⟨rfl, hm⟩
        exact ⟨hm, rfl⟩

theorem directoryOf_eq_ok {here : Location} {p : Text} :
    t.directoryOf here p = .ok l ↔ t.isDirectory here p = true ∧ l = locate here p := by
  rw [directoryOf_iff_walk, isDirectory_iff_walk]
  constructor
  · rintro ⟨hp, hwalk, hdir⟩
    exact ⟨⟨hp, l, hwalk, hdir⟩, eq_locate_of_walk hwalk⟩
  · rintro ⟨⟨hp, m, hwalk, hdir⟩, hl⟩
    rw [hl, ← eq_locate_of_walk hwalk]
    exact ⟨hp, hwalk, hdir⟩

theorem walk_of_isDirectory {here : Location} {p : Text} (h : t.isDirectory here p = true) :
    t.walk (origin here p) (names p) = .ok (locate here p) ∧
      t.node? (locate here p) = some .directory :=
  (directoryOf_iff_walk.mp (directoryOf_eq_ok.mpr ⟨h, rfl⟩)).2

/-- The directory in a directory is what the joined path leads to. -/
theorem directoryOf_join {here : Location} {p name : Text} (h : t.directoryOf here p = .ok l)
    (hnode : t.node? (l ++ [name]) = some .directory) :
    t.directoryOf here (Path.join p name) = .ok (l ++ [name]) := by
  have hvalid : ∀ n ∈ [name], IsEntryName n := isEntryName_of_append hnode
  have hns : [name] ≠ [] := List.cons_ne_nil name []
  have hjoin : Path.join p (Path.ofParts [name]) ≠ [] :=
    Path.join_ne_nil (Path.isAbsolute_ofParts hns hvalid) (Path.ofParts_ne_nil hns hvalid)
  have hnames := names_join_ofParts hns hvalid p
  have horigin := origin_join_ofParts hns hvalid here p
  rw [Path.ofParts_singleton] at hjoin hnames horigin
  obtain ⟨_, hwalk, _⟩ := directoryOf_iff_walk.mp h
  refine directoryOf_iff_walk.mpr ⟨hjoin, ?_, hnode⟩
  rw [horigin, hnames]
  exact walk_append hwalk (walk_of_node? hnode)

theorem read_eq_ok {here : Location} {p : Text} {s : Text} :
    t.read here p = .ok s ↔ t.status here p = .ok (.file (.text s)) := by
  rw [read]
  cases t.status here p with
  | error e => simp
  | ok node =>
    cases node with
    | directory => simp
    | file c => cases c <;> simp

/-- The file behind a directory's path is what the joined path leads to. -/
theorem status_join {here : Location} {base : Text} {ns : List Text} {c : Content}
    (hns : ns ≠ []) (hbase : t.walk (origin here base) (names base) = .ok l)
    (h : t.node? (l ++ ns) = some (.file c)) :
    t.status here (Path.join base (Path.ofParts ns)) = .ok (.file c) := by
  have hvalid : ∀ name ∈ ns, IsEntryName name := isEntryName_of_append h
  have hrelative := Path.isAbsolute_ofParts hns hvalid
  have hne := Path.ofParts_ne_nil hns hvalid
  refine status_eq_file.mpr ⟨Path.join_ne_nil hrelative hne, ?_, l ++ ns, ?_, h⟩
  · rw [Path.endsWithSlash_join hrelative hne, Path.endsWithSlash_ofParts hns hvalid]
  · rw [origin_join_ofParts hns hvalid, names_join_ofParts hns hvalid]
    exact walk_append hbase (walk_of_node? h)

end
end FileTree
end TemplateDirectives
