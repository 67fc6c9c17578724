/-
Short calls: `@@name` or `@@name(arguments)` anywhere in a text.

A marker that follows a word character is no call (`me@@host`), and a name that
begins with `end` belongs to an end marker.  `ShortCall.find?` returns the
leftmost call, and `ShortCall.all` all of them, each searched from the end of
the one before it.
-/
import TemplateDirectives.Directive.Call
import TemplateDirectives.Text.Search

namespace TemplateDirectives
namespace Directive

/-- What opens a short call and a block. -/
def callMarker : Text := ['@', '@']

structure ShortCall where
  marker : Nat
  /-- Blanks right before the marker that no earlier find has taken. -/
  blanks : Text
  call : Call
  /-- Whether a colon follows at once. -/
  colon : Bool

namespace ShortCall

def start (c : ShortCall) : Nat := c.marker - c.blanks.length

def stop (c : ShortCall) : Nat := c.marker + callMarker.length + c.call.written.length

/-- Read the call whose marker stands at `marker`.  `rest` is the text from
there on, and blanks before the marker are taken back to `cursor` at most. -/
def at? (t : Text) (cursor marker : Nat) (rest : Text) : Option ShortCall :=
  match Text.after? callMarker rest with
  | none => none
  | some afterMarker =>
    if (t.before? marker).any Text.isWord then none
    else match Call.read? afterMarker with
      | none => none
      | some call =>
        if call.name.beginsWithEnd then none
        else some {
          marker := marker
          blanks := Text.takeEndWhile Text.isBlank (t.slice cursor marker)
          call := call
          colon := (afterMarker.drop call.written.length).head? == some ':' }

/-- The leftmost call at `cursor` or later. -/
def find? (t : Text) (cursor : Nat) : Option ShortCall :=
  Text.firstMatch (at? t cursor) cursor (t.drop cursor)

/-! ## Progress of the search -/

theorem marker_of_at? {t rest : Text} {cursor marker : Nat} {c : ShortCall}
    (h : at? t cursor marker rest = some c) : c.marker = marker := by
  unfold at? at h
  split at h
  next => simp at h
  next =>
    split at h
    next => simp at h
    next =>
      split at h
      next => simp at h
      next =>
        split at h
        next => simp at h
        next => rw [← Option.some.inj h]

/-- A find lies at the cursor or later, and inside the text. -/
theorem marker_of_find? {t : Text} {cursor : Nat} {c : ShortCall} (h : find? t cursor = some c) :
    cursor ≤ c.marker ∧ c.marker < t.length := by
  obtain ⟨k, hk, ha⟩ := Text.exists_of_firstMatch h
  rw [marker_of_at? ha]
  rw [List.length_drop] at hk
  omega

/-- A call is found where its marker and its name stand. -/
theorem isPrefix_of_find? {t : Text} {cursor : Nat} {c : ShortCall} (h : find? t cursor = some c) :
    callMarker ++ c.call.name.written <+: t.drop c.marker := by
  obtain ⟨k, -, ha⟩ := Text.exists_of_firstMatch h
  rw [marker_of_at? ha, ← List.drop_drop]
  generalize (t.drop cursor).drop k = rest at ha
  unfold at? at ha
  split at ha
  next => simp at ha
  next after hafter =>
    split at ha
    next => simp at ha
    next =>
      split at ha
      next => simp at ha
      next call hcall =>
        split at ha
        next => simp at ha
        next =>
          rw [← Option.some.inj ha, Text.after?_eq_some.mp hafter, List.prefix_append_right_inj]
          exact Call.name_isPrefix_of_read? hcall

theorem marker_lt_stop (c : ShortCall) : c.marker < c.stop := by
  simp only [stop, callMarker, List.length_cons]
  omega

theorem progress {t : Text} (cursor : Nat) (c : ShortCall) (h : find? t cursor = some c) :
    cursor < c.stop ∧ cursor < t.length := by
  have := marker_of_find? h
  have := c.marker_lt_stop
  omega

/-- All calls at `cursor` or later, from left to right. -/
def all (t : Text) (cursor : Nat) : List ShortCall :=
  Text.scanAll (find? t) stop t.length progress cursor

end ShortCall
end Directive
end TemplateDirectives
