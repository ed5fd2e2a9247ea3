import Mathlib.Tactic.SplitIfs

/-!
# Exceptions

The exceptions of the code that the router calls (agents, message handlers, probes, retried
functions), as far as the router looks at them: which `except` clause catches them, and what `str`
makes of them. `str` runs code of the exception's class, and that may raise in its turn.
-/

namespace MeshRouter

/-- The classes that the `except` clauses of the router tell apart. -/
inductive ExceptionClass where
  /-- `ValueError`, or a subclass. -/
  | valueError
  /-- Another subclass of `Exception`. -/
  | exception
  /-- `asyncio.CancelledError`, which is not an `Exception`. -/
  | cancelledError
  /-- Another `BaseException` that is not an `Exception`. -/
  | baseException
deriving DecidableEq

/-- An exception, with the name of its type. -/
inductive PyException where
  /-- `str` returns a text. -/
  | printable (kind : ExceptionClass) (typeName text : String)
  /-- `str` raises another exception. -/
  | unprintable (kind : ExceptionClass) (typeName : String) (raised : PyException)
deriving DecidableEq

namespace PyException

/-- The class of an exception. -/
def kind : PyException → ExceptionClass
  | printable kind _ _ => kind
  | unprintable kind _ _ => kind

/-- `type(exc).__name__`. -/
def typeName : PyException → String
  | printable _ typeName _ => typeName
  | unprintable _ typeName _ => typeName

/-- `str(exc)`. -/
def str : PyException → Except PyException String
  | printable _ _ text => .ok text
  | unprintable _ _ raised => .error raised

/-- Whether `except Exception` catches it. -/
def IsException (exc : PyException) : Prop := exc.kind = .valueError ∨ exc.kind = .exception

instance (exc : PyException) : Decidable exc.IsException := inferInstanceAs (Decidable (_ ∨ _))

/-- `except Exception as exc`, with a handler that takes `str(exc)`: the text, or what leaves the
handler, which is an exception that it does not catch or the one that `str` raises. -/
def caughtText (exc : PyException) : Except PyException String :=
  if exc.IsException then exc.str else .error exc

end PyException

end MeshRouter
