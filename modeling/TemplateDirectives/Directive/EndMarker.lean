/-
End markers of blocks.

`@@endname` ends a block named `name`.  `@endname` is the marker of a related
dialect: it is recognised only to be reported, and not after a word character,
where it is rather part of a mail address.  In both forms no word character may
follow the name.
-/
import TemplateDirectives.Directive.Name
import TemplateDirectives.Text.Search

namespace TemplateDirectives
namespace Directive

structure EndMarker where
  start : Nat
  stop : Nat
  /-- Whether it is written with both `@`. -/
  wellFormed : Bool

namespace EndMarker

/-- Whether the text goes on with the end word and `name`, and the name ends
there. -/
def closes (name rest : Text) : Bool :=
  match Text.after? (Name.endWord ++ name) rest with
  | none => false
  | some after => !after.head?.any Text.isWord

/-- Read the end marker for `name` at `offset`, where `rest` begins. -/
def at? (t name : Text) (offset : Nat) (rest : Text) : Option EndMarker :=
  match rest with
  | '@' :: '@' :: after =>
    if closes name after then
      some ⟨offset, offset + 2 + Name.endWord.length + name.length, true⟩
    else none
  | '@' :: after =>
    if closes name after && !(t.before? offset).any Text.isWord then
      some ⟨offset, offset + 1 + Name.endWord.length + name.length, false⟩
    else none
  | _ => none

/-- The leftmost end marker for `name` at `offset` or later. -/
def find? (t name : Text) (offset : Nat) : Option EndMarker :=
  Text.firstMatch (at? t name) offset (t.drop offset)

/-! ## Progress of the search -/

theorem start_of_at? {t name rest : Text} {offset : Nat} {e : EndMarker}
    (h : at? t name offset rest = some e) : e.start = offset ∧ offset < e.stop := by
  unfold at? at h
  split at h
  next =>
    split at h
    next =>
      rw [← Option.some.inj h]
      exact ⟨rfl, by simp only [Name.endWord, List.length_cons]; omega⟩
    next => simp at h
  next =>
    split at h
    next =>
      rw [← Option.some.inj h]
      exact ⟨rfl, by simp only [Name.endWord, List.length_cons]; omega⟩
    next => simp at h
  next => simp at h

theorem start_of_find? {t name : Text} {offset : Nat} {e : EndMarker}
    (h : find? t name offset = some e) :
    offset ≤ e.start ∧ e.start < e.stop ∧ e.start < t.length := by
  obtain ⟨k, hk, ha⟩ := Text.exists_of_firstMatch h
  have hs := start_of_at? ha
  rw [List.length_drop] at hk
  omega

/-- An end marker with one `@` is found where it stands. -/
theorem isPrefix_of_find? {t name : Text} {offset : Nat} {e : EndMarker}
    (h : find? t name offset = some e) (hw : e.wellFormed = false) :
    '@' :: (Name.endWord ++ name) <+: t.drop e.start := by
  obtain ⟨k, -, ha⟩ := Text.exists_of_firstMatch h
  rw [(start_of_at? ha).1, ← List.drop_drop]
  generalize (t.drop offset).drop k = rest at ha
  unfold at? at ha
  split at ha
  next =>
    split at ha
    next =>
      rw [← Option.some.inj ha] at hw
      cases hw
    next => simp at ha
  next after _ =>
    split at ha
    next hc =>
      rw [List.cons_prefix_cons]
      refine ⟨rfl, ?_⟩
      rw [Bool.and_eq_true, closes] at hc
      split at hc
      next => simp at hc
      next u hu =>
        rw [Text.after?_eq_some.mp hu]
        exact List.prefix_append _ _
    next => simp at ha
  next => simp at ha

theorem progress {t name : Text} (offset : Nat) (e : EndMarker) (h : find? t name offset = some e) :
    offset < e.stop ∧ offset < t.length := by
  have := start_of_find? h
  omega

/-- All end markers for `name` at `offset` or later, from left to right. -/
def all (t name : Text) (offset : Nat) : List EndMarker :=
  Text.scanAll (find? t name) stop t.length progress offset

end EndMarker
end Directive
end TemplateDirectives
