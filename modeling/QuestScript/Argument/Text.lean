import QuestScript.Assembly
import QuestScript.Reading.Progress

/-!
# Text arguments

A text argument is a name. Keywords serve as names as well, except for the functions of the host,
and so do integers, with a warning. One comma may stand in front.
-/

namespace QuestScript

/-- A text argument, as far as it has been read. -/
structure TextArgument where
  progress : Progress := {}
  /-- The text is taken in lower case. -/
  lowerCase : Bool := false
  /-- The text is dropped. -/
  dropped : Bool := false
  /-- A comma has been read. -/
  comma : Bool := false
  /-- Where the text stands. -/
  location : Location := {}
  /-- Pushes the text. -/
  code : Code := []
  deriving DecidableEq, Inhabited

namespace TextArgument

variable {n : Nat}

/-- Takes a text. -/
def accept (text : String) (location : Location) : Reading n TextArgument Verdict := do
  modify fun argument => { argument with progress := argument.progress.start, location }
  let argument ← get
  unless argument.dropped do
    let text := if argument.lowerCase then Text.toLower text else text
    let code ← Reading.withLiterals (Assembly.pushString text)
    set { argument with code := argument.code ++ code }
  pure .done

/-- The keyword may serve as a name. -/
def isName (env : Environment) : Keyword → Bool
  | .builtin _ => true
  | .extension code => (env.extensions.instruction? code).isSome

/-- Takes one token. -/
def feed (env : Environment) (token : Token) (location : Location) :
    Reading n TextArgument Verdict := do
  let argument ← get
  match token with
  | .name text => accept text location
  | .keyword word =>
    if isName env word then accept (unquote location.literal) location
    else argument.progress.refuse token location
  | .int _ =>
    Reading.warn .integerAsString location
    accept location.literal location
  | .special .comma =>
    if !argument.comma && argument.progress.empty then
      set { argument with comma := true }
      pure .more
    else argument.progress.refuse token location
  | _ => argument.progress.refuse token location

/-- Reads a text argument. -/
def scan (env : Environment) : Reading n TextArgument Unit :=
  Reading.scan env (fun _ => false) fun _ _ => feed env

end TextArgument

end QuestScript
