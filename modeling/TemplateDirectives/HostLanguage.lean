/-
The host language, the one that generated code is written in, and PHP as one.

The compiler never reads this code.  It asks the host language for three texts:
a call that prints its result, a call that is given a rendered block, and a text
that is printed on a condition.

PHP code stands between `<?php` and `?>`, and texts become string literals in
single quotes, where only the backslash and the single quote are escaped
(`singleQuoted`).  Argument text is copied as it is.
-/
import TemplateDirectives.Handler.Name
import TemplateDirectives.Text.Blank

namespace TemplateDirectives

/-- The texts of a host language. -/
structure HostLanguage where
  /-- Print what a handler returns for the arguments. -/
  call : (handler : HandlerName) → (arguments : Text) → Text
  /-- Render a body, then print what a handler returns for the indentation, the
  rendered body and the arguments, in this order. -/
  capture : (handler : HandlerName) → (indent body arguments : Text) → Text
  conditional : (condition content : Text) → Text

/-! ## PHP -/

namespace Php

/-- The inside of a single-quoted literal that stands for the text. -/
def singleQuoted : Text → Text
  | [] => []
  | c :: rest => if c = '\\' ∨ c = '\'' then '\\' :: c :: singleQuoted rest else c :: singleQuoted rest

/-- `<?php echo H(ARGUMENTS) ?>` -/
def call (handler : HandlerName) (arguments : Text) : Text :=
  "<?php echo ".toList ++ handler.written ++ '(' :: (arguments ++ ") ?>".toList)

/-- `<?php ob_start() ?>BODY<?php echo H('INDENT',ob_get_clean(),ARGUMENTS) ?>`,
without the last comma when there are no arguments. -/
def capture (handler : HandlerName) (indent body arguments : Text) : Text :=
  "<?php ob_start() ?>".toList ++ body ++ "<?php echo ".toList ++ handler.written ++ "('".toList
    ++ singleQuoted indent ++ "',ob_get_clean()".toList
    ++ (if Text.isBlankText arguments then [] else ',' :: arguments) ++ ") ?>".toList

/-- `<?php echo CONDITION ? 'CONTENT' : '' ?>` -/
def conditional (condition content : Text) : Text :=
  "<?php echo ".toList ++ condition ++ " ? '".toList ++ singleQuoted content ++ "' : '' ?>".toList

end Php

def HostLanguage.php : HostLanguage := ⟨Php.call, Php.capture, Php.conditional⟩

end TemplateDirectives
