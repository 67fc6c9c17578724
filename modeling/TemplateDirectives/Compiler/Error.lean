/-
Why a template is refused.

Every cause carries the position of the marker it is about, in the template as
written.  The wording is in `CompileError.message` alone.
-/
import TemplateDirectives.Position
import TemplateDirectives.Handler.Registry

namespace TemplateDirectives

inductive CompileError where
  /-- The first end marker of a block lacks one `@`. -/
  | malformedEnd (directive arguments : Text) (position : Position)
  | unterminatedBlock (directive : Text) (position : Position)
  /-- A colon follows a call that opens no block. -/
  | ambiguousColon (directive : Text) (position : Position)
  | expanderFailed (handler : HandlerName) (arguments : Text) (position : Position)
      (reason : HandlerError)
  /-- A block lies inside as many blocks as are allowed. -/
  | nestingTooDeep (maxDepth : Nat) (position : Position)
  deriving DecidableEq

namespace CompileError

def position : CompileError → Position
  | malformedEnd _ _ p => p
  | unterminatedBlock _ p => p
  | ambiguousColon _ p => p
  | expanderFailed _ _ p _ => p
  | nestingTooDeep _ p => p

def message : CompileError → String
  | malformedEnd directive arguments p =>
    let name := String.ofList directive
    let list := String.ofList arguments
    s!"Ill-formed close tag for macro @@{name}({list}) at {p.describe}: expected @@end{name}"
  | unterminatedBlock directive p =>
    let name := String.ofList directive
    s!"Unterminated block @@{name} at {p.describe}: missing @@end{name}"
  | ambiguousColon directive p =>
    let name := String.ofList directive
    s!"Directive @@{name} at {p.describe} is followed by ':' but no block can be formed " ++
      s!"(missing @@end{name}, or the marker does not start a line)"
  | expanderFailed handler arguments p reason =>
    let name := String.ofList handler.compilerWritten
    let list := String.ofList arguments
    s!"Compile-time handler {name} failed at {p.describe} with arguments ({list}): " ++
      reason.message
  | nestingTooDeep maxDepth p =>
    s!"Block nesting exceeds the maximum depth of {maxDepth} at {p.describe}"

/-- The error of an answer, if it is one. -/
def of? {α : Type} : Except CompileError α → Option CompileError
  | .ok _ => none
  | .error e => some e

/-! ## Steps that may be refused -/

section

variable {α β : Type} {r : Except CompileError α} {f : α → Except CompileError β}

theorem eq_error_of_of? {e : CompileError} (h : of? r = some e) : r = .error e := by
  cases r with
  | ok a => cases h
  | error e' =>
    cases h
    rfl

theorem eq_ok_of_toOption {a : α} (h : r.toOption = some a) : r = .ok a := by
  cases r with
  | ok a' =>
    cases h
    rfl
  | error e => cases h

/-- Two steps give an answer when both do. -/
theorem ok_of_bind {b : β} (h : r >>= f = .ok b) : ∃ a, r = .ok a ∧ f a = .ok b := by
  cases r with
  | error e => cases h
  | ok a => exact ⟨a, rfl, h⟩

/-- Two steps are refused by the first that refuses. -/
theorem error_of_bind {e : CompileError} (h : r >>= f = .error e) :
    r = .error e ∨ ∃ a, r = .ok a ∧ f a = .error e := by
  cases r with
  | error e' =>
    cases h
    exact .inl rfl
  | ok a => exact .inr ⟨a, rfl, h⟩

/-- A step that cannot refuse adds no error. -/
theorem bind_ok_eq_error_iff {k : α → β} {e : CompileError} :
    (r >>= fun a => .ok (k a)) = .error e ↔ r = .error e := by
  constructor
  · intro h
    rcases error_of_bind h with hr | ⟨a, -, h⟩
    · exact hr
    · cases h
  · intro h
    rw [h]
    rfl

theorem toOption_bind : (r >>= f).toOption = r.toOption.bind fun a => (f a).toOption := by
  cases r <;> rfl

end

end CompileError
end TemplateDirectives
