import QuestScript.Reading.Progress

/-!
# Declarations of local variables

A declaration is a type and a name on a line of their own. Keywords may serve as names.
-/

namespace QuestScript

/-- A declaration, as far as it has been read. -/
inductive Declaration where
  /-- Nothing has been read. -/
  | begin
  /-- A name of the given type has to follow. -/
  | typed (type : ValueType)
  /-- The end of the line has to follow. -/
  | complete
  deriving DecidableEq, Inhabited

namespace Declaration

variable {n : Nat}

/-- The type that a word declares. -/
def typeOfWord? : Keyword → Option ValueType
  | .builtin .short => some .short
  | .builtin .long => some .long
  | .builtin .float => some .float
  | _ => none

/-- Passes over what stands behind a declaration. -/
def passExtra (env : Environment) (location : Location) : Reading n Declaration Verdict := do
  Reading.warn .extraAfterDeclaration location
  Reading.skipRest env
  pure .done

/-- Declares a name, unless there is one already. -/
def declare (type : ValueType) (name : String) (location : Location) :
    Reading n Declaration Verdict := do
  let name := Text.toLower name
  if ((← Reading.look (·.locals)).typeOf? name).isSome then
    Reading.warn .redeclaration location
  else
    Reading.declare type name
  set Declaration.complete
  pure .more

/-- Takes one token. -/
def feed (env : Environment) (token : Token) (location : Location) :
    Reading n Declaration Verdict := do
  match ← get, token with
  | .complete, .special .newline => pure .done
  | .complete, .float _ => Reading.refuse token location
  | .complete, _ => passExtra env location
  | .typed type, .name name => declare type name location
  | .typed type, .keyword _ => declare type location.literal location
  | .typed _, .int _ =>
    Reading.report .integerName location
    Reading.skipRest env
    set Declaration.complete
    pure .done
  | .begin, .keyword word =>
    match typeOfWord? word with
    | some type =>
      set (Declaration.typed type)
      pure .more
    | none => Reading.refuse token location
  | _, _ => Reading.refuse token location

/-- Reads a declaration up to the end of its line. The text may end behind the name. -/
def scan (env : Environment) : Reading n Declaration Unit :=
  Reading.scan env (· == .complete) fun _ _ => feed env

/-- Reads a declaration that starts with the given keyword. -/
def readFrom (env : Environment) (word : Keyword) (location : Location) :
    Reading n Declaration Unit :=
  Reading.starting (feed env) (scan env) (some (.keyword word, location))

end Declaration

end QuestScript
