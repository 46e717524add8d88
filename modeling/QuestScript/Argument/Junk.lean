import QuestScript.Reading.Progress

/-!
# Junk between arguments

Scripts are known to repeat a keyword behind itself or to leave a single point. Both are passed
over with a warning; anything else is left alone.
-/

namespace QuestScript.Junk

variable {n : Nat}

/-- A keyword that is to be ignored and a point are junk. -/
def isJunk (ignored : Option Keyword) : Token → Bool
  | .keyword word => ignored == some word
  | .special sign => sign == .member
  | _ => false

/-- Takes one token. -/
def feed (ignored : Option Keyword) (token : Token) (location : Location) :
    Reading n Unit Verdict :=
  if isJunk ignored token then do
    Reading.warn .junk location
    pure .done
  else pure (.handBack token)

/-- Passes over at most one piece of junk. -/
def scan (env : Environment) (ignored : Option Keyword) : Reading n Unit Unit :=
  Reading.scan env (fun _ => false) fun _ _ => feed ignored

end QuestScript.Junk
