import Steward.Datum
import Steward.Text.Blank

/-!
# Statements

A running program reports each statement with its kind. Statements that may repeat others count
towards a ceiling of their own.
-/

namespace Steward

/-- The kinds of statements that a run tells apart. -/
inductive Statement where
  | for
  | next
  | goto
  | gosub
  | other
  deriving DecidableEq, Repr

namespace Statement

/-- Every kind. -/
def all : List Statement := [.for, .next, .goto, .gosub, .other]

/-- Whether a statement can make others run again. -/
def isLoopOrJump : Statement → Bool
  | .other => false
  | _ => true

/-- The written name of a kind. -/
def name : Statement → String
  | .for => "FOR"
  | .next => "NEXT"
  | .goto => "GOTO"
  | .gosub => "GOSUB"
  | .other => "OTHER"

/-- The kind of a keyword, in any case and with blanks around it; an unknown one is `other`. -/
def ofKeyword (keyword : String) : Statement :=
  match String.ofList ((trimBlank keyword.toList).map Char.toUpper) with
  | "FOR" => .for
  | "NEXT" => .next
  | "GOTO" => .goto
  | "GOSUB" => .gosub
  | _ => .other

/-- The kind of a written name. -/
def ofName? (name : String) : Option Statement := all.find? fun kind => kind.name = name

/-- The kind of a name, or of a table of this one name without content. -/
def ofDatum? : Datum → Option Statement
  | .text name => ofName? name
  | .table [(name, .null)] => ofName? name
  | _ => none

end Statement

end Steward
