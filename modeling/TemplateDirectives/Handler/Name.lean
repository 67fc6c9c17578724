/-
Names of handlers.

A handler is known by a namespace and a method.  A directive names its handler
with both, or with the method alone and the default namespace.  A text can also
be read as a handler's name: it is cut at its last separator, and when nothing
stands before that one, the leading separators are dropped and the default
namespace is taken.
-/
import TemplateDirectives.Directive.Name

namespace TemplateDirectives

structure HandlerName where
  space : Text
  method : Text
  deriving DecidableEq

namespace HandlerName

open Directive.Name (separator)

/-- The handler that a directive's name stands for. -/
def ofDirective (defaultSpace : Text) (n : Directive.Name) : HandlerName :=
  ⟨n.qualifier.getD defaultSpace, n.method⟩

def ofText (defaultSpace : Text) (t : Text) : HandlerName :=
  match Text.cutAtLast? separator t with
  | some (c :: space, method) => ⟨c :: space, method⟩
  | _ => ⟨defaultSpace, Text.dropLeading separator t⟩

/-- The qualified name, as generated code and messages spell it. -/
def written (n : HandlerName) : Text := n.space ++ separator ++ n.method

/-- What tells the compile-time variant of a method from the method. -/
def compilerSuffix : Text := "_compiler".toList

/-- The name of the method's compile-time variant. -/
def compilerMethod (n : HandlerName) : Text := n.method ++ compilerSuffix

def compilerWritten (n : HandlerName) : Text := n.space ++ separator ++ n.compilerMethod

end HandlerName
end TemplateDirectives
